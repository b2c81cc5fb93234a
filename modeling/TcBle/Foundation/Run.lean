import Mathlib.Algebra.Ring.Nat
import Mathlib.Data.List.Induction
import Mathlib.Tactic.Common

/-!
# Runs of a deterministic machine

A machine is a step function from a state and an input to a state; a run is a list of
inputs, and the state after it is a left fold. Asking something of every step of a run
is asking it of every input at its place, `Along`.

## What is proved

* `Along.induction` — the rule for runs: what holds at the start and is kept by every step that
  meets a condition holds after every run whose steps meet it.
* `Along.iff_forall_prefix`, `Along.congr` and `Along.iff_along` — the rules for exact conditions,
  on states and on steps.
* `get_foldl` — the rule for registers: what every step sets to what the input gives, if it gives
  anything, is what the latest input to give something gave.
* `along_concat` and `along_append` — a condition on the steps of a run, of a run with one more
  input and of two runs on end.
-/

namespace TcBle.Foundation.Run

variable {σ ι : Type*} (step : σ → ι → σ) (init : σ)

/-- Every input of the run meets `C` in the state it finds. -/
def Along (C : σ → ι → Prop) : σ → List ι → Prop
  | _, [] => True
  | s, i :: is => C s i ∧ Along C (step s i) is

variable {step init} {C : σ → ι → Prop}

@[simp] theorem along_nil (s : σ) : Along step C s [] := trivial

@[simp] theorem along_cons (s : σ) (i : ι) (is : List ι) :
    Along step C s (i :: is) ↔ C s i ∧ Along step C (step s i) is := Iff.rfl

instance decidableAlong [∀ s i, Decidable (C s i)] :
    ∀ (s : σ) (is : List ι), Decidable (Along step C s is)
  | _, [] => .isTrue trivial
  | s, i :: is => @instDecidableAnd _ _ inferInstance (decidableAlong (step s i) is)

theorem along_append (s : σ) (is js : List ι) :
    Along step C s (is ++ js) ↔ Along step C s is ∧ Along step C (is.foldl step s) js := by
  induction is generalizing s with
  | nil => simp
  | cons i is ih => simp [ih, and_assoc]

theorem along_concat (s : σ) (is : List ι) (i : ι) :
    Along step C s (is ++ [i]) ↔ Along step C s is ∧ C (is.foldl step s) i := by
  simp [along_append]

/-- The condition at one place of the run. -/
theorem Along.at {s : σ} {pre : List ι} {i : ι} {post : List ι}
    (h : Along step C s (pre ++ i :: post)) : C (pre.foldl step s) i :=
  ((along_append s pre (i :: post)).mp h).2.1

/-- The condition at every place of the run. -/
theorem along_iff {s : σ} {is : List ι} :
    Along step C s is ↔ ∀ pre i post, is = pre ++ i :: post → C (pre.foldl step s) i := by
  constructor
  · rintro h pre i post rfl
    exact h.at
  · intro h
    induction is using List.reverseRecOn with
    | nil => trivial
    | append_singleton is i ih =>
      refine (along_concat s is i).mpr ⟨ih fun pre j post hj => h pre j (post ++ [i]) ?_,
        h is i [] rfl⟩
      rw [hj, List.append_assoc]
      rfl

/-- **The rule for runs**: what holds at the start and is kept by every step that meets
its condition holds after every run whose steps meet theirs. -/
theorem Along.induction {P : List ι → σ → Prop} (h₀ : P [] init)
    (hstep : ∀ is i, P is (is.foldl step init) → C (is.foldl step init) i →
      P (is ++ [i]) (step (is.foldl step init) i)) {is : List ι} (hC : Along step C init is) :
    P is (is.foldl step init) := by
  induction is using List.reverseRecOn with
  | nil => exact h₀
  | append_singleton is i ih =>
    rw [along_concat] at hC
    rw [List.foldl_append]
    exact hstep is i (ih hC.1) hC.2

/-- **The rule for exact conditions**: where every step that misses its condition leads to a state
that is not good, the states of a run are good as long as its steps meet theirs. -/
theorem Along.iff_forall_prefix {Ok Good : σ → Prop} (h₀ : Ok init) (hgood : ∀ s, Ok s → Good s)
    (hstep : ∀ s i, Ok s → C s i → Ok (step s i)) (hbad : ∀ s i, Ok s → ¬ C s i → ¬ Good (step s i))
    (run : List ι) : (∀ pre, pre <+: run → Good (pre.foldl step init)) ↔ Along step C init run := by
  have hok : ∀ is, Along step C init is → Ok (is.foldl step init) := fun is hall =>
    Along.induction (P := fun _ s => Ok s) h₀ (fun _ _ h hC => hstep _ _ h hC) hall
  constructor
  · intro hall
    induction run using List.reverseRecOn with
    | nil => trivial
    | append_singleton is i ih =>
      have hrun := ih fun pre hpre => hall pre (hpre.trans (List.prefix_append _ _))
      refine (along_concat _ _ _).mpr ⟨hrun, ?_⟩
      by_contra hC
      refine hbad _ i (hok is hrun) hC ?_
      have := hall (is ++ [i]) List.prefix_rfl
      rwa [List.foldl_append] at this
  · rintro hrun pre ⟨post, rfl⟩
    exact hgood _ (hok pre ((along_append _ _ _).mp hrun).1)

/-- **The rule for steps**: where, in a state that is Ok, a step has a property exactly when it
meets its condition, and then leads to such a state, all steps of a run have the property exactly
when they all meet the condition. -/
theorem Along.congr {Ok : σ → Prop} {P D : σ → ι → Prop}
    (hiff : ∀ s i, Ok s → D s i → (P s i ↔ C s i))
    (hstep : ∀ s i, Ok s → D s i → C s i → Ok (step s i)) {s : σ} (h₀ : Ok s) {is : List ι}
      (hD : Along step D s is) :
    Along step P s is ↔ Along step C s is := by
  induction is generalizing s with
  | nil => exact Iff.rfl
  | cons i is ih =>
    rw [along_cons, along_cons, hiff s i h₀ hD.1]
    exact and_congr_right fun hC => ih (hstep s i h₀ hD.1 hC) hD.2

/-- **The rule for steps**, where nothing is asked of the inputs. -/
theorem Along.iff_along {Ok : σ → Prop} {P : σ → ι → Prop} (hiff : ∀ s i, Ok s → (P s i ↔ C s i))
    (hstep : ∀ s i, Ok s → C s i → Ok (step s i)) {s : σ} (h₀ : Ok s) (is : List ι) :
    Along step P s is ↔ Along step C s is :=
  Along.congr (fun s i h (_ : True) => hiff s i h) (fun s i h _ hC => hstep s i h hC) h₀
    (along_iff.mpr fun _ _ _ _ => trivial)

/-! ### Registers -/

section Latest

variable {β : Type*} (f : ι → Option β)

/-- What the last of the inputs that give something gives. -/
def latest (is : List ι) : Option β := is.reverse.findSome? f

@[simp] theorem latest_nil : latest f [] = none := rfl

theorem latest_concat (is : List ι) (i : ι) : latest f (is ++ [i]) = (f i).or (latest f is) := by
  rw [latest, List.reverse_append, List.findSome?_append]
  simp [latest]

variable {f}

/-- **The rule for registers**, where the states of a run are Ok. -/
theorem get_foldl {Ok : σ → Prop} (get : σ → β) (h₀ : Ok init)
    (hstep : ∀ s i, Ok s → Ok (step s i))
    (hget : ∀ s i, Ok s → get (step s i) = (f i).getD (get s)) (is : List ι) :
    Ok (is.foldl step init) ∧ get (is.foldl step init) = (latest f is).getD (get init) := by
  induction is using List.reverseRecOn with
  | nil => exact ⟨h₀, rfl⟩
  | append_singleton is i ih =>
    rw [List.foldl_append, latest_concat]
    refine ⟨hstep _ _ ih.1, ?_⟩
    show get (step _ i) = _
    rw [hget _ i ih.1, ih.2]
    cases f i <;> rfl

end Latest

end TcBle.Foundation.Run
