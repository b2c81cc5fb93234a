import Mathlib.Data.Set.BooleanAlgebra
import Mathlib.Logic.Function.Basic
import Mathlib.Order.CompletePartialOrder
import TcBle.Foundation.Run

/-!
# Programs that share a memory

A memory of any kind is shared by programs, each of which has a state of its own and an area. A
step of a program is contained when it writes nothing outside of the area, and what it does depends
on the area only. Programs with areas that have nothing in common do, in whatever order their steps
come, what each of them does alone.

## What is proved

* `Shared.run_alone` — after any run each program has the state, and its area the contents, that
  the program's own steps lead to alone.
* `Shared.run_outside` — what lies in no area is as it was.
-/

namespace TcBle.Foundation

/-- A program with a state `σ` and inputs `ι`, on a memory with a `β` at each `α`. -/
structure Sharer (α β σ ι : Type*) where
  /-- The part of the memory that is the program's. -/
  area : Set α
  /-- One step. -/
  step : σ × (α → β) → ι → σ × (α → β)

namespace Sharer

variable {α β σ ι : Type*} (p : Sharer α β σ ι)

/-- **A step is contained**: on every memory that has the same area, it leads to the same state and
area, and leaves the rest alone. -/
structure Contained (s : σ × (α → β)) (i : ι) : Prop where
  /-- The state. -/
  state : ∀ m, Set.EqOn m s.2 p.area → (p.step (s.1, m) i).1 = (p.step s i).1
  /-- The area. -/
  inside : ∀ m, Set.EqOn m s.2 p.area → Set.EqOn (p.step (s.1, m) i).2 (p.step s i).2 p.area
  /-- The rest. -/
  outside : ∀ m, Set.EqOn m s.2 p.area → ∀ a, a ∉ p.area → (p.step (s.1, m) i).2 a = m a

end Sharer

/-! ### Many programs -/

namespace Shared

variable {κ α β : Type*} {σ ι : κ → Type*} [DecidableEq κ] (p : ∀ k, Sharer α β (σ k) (ι k))

/-- A step of one of the programs. -/
def step (s : (∀ k, σ k) × (α → β)) (e : Σ k, ι k) : (∀ k, σ k) × (α → β) :=
  let t := (p e.1).step (s.1 e.1, s.2) e.2
  (Function.update s.1 e.1 t.1, t.2)

/-- The inputs of one of the programs, in their order. -/
def inputs (k : κ) (run : List (Σ k, ι k)) : List (ι k) :=
  run.filterMap fun e => if h : e.1 = k then some (h ▸ e.2) else none

@[simp] theorem inputs_nil (k : κ) : inputs k ([] : List (Σ k, ι k)) = [] := rfl

theorem inputs_cons_self (k : κ) (i : ι k) (run : List (Σ k, ι k)) :
    inputs k (⟨k, i⟩ :: run) = i :: inputs k run := by
  rw [inputs, List.filterMap_cons_some (dif_pos rfl)]
  rfl

theorem inputs_cons_of_ne {k j : κ} (h : j ≠ k) (i : ι j) (run : List (Σ k, ι k)) :
    inputs k (⟨j, i⟩ :: run) = inputs k run := by
  rw [inputs, List.filterMap_cons_none (dif_neg h)]
  rfl

theorem inputs_append (k : κ) (run run' : List (Σ k, ι k)) :
    inputs k (run ++ run') = inputs k run ++ inputs k run' := List.filterMap_append

theorem inputs_flatMap {ε : Type*} (k : κ) (f : ε → List (Σ k, ι k)) (run : List ε) :
    inputs k (run.flatMap f) = run.flatMap fun e => inputs k (f e) := by
  induction run with
  | nil => rfl
  | cons e run ih => rw [List.flatMap_cons, inputs_append, ih, List.flatMap_cons]

variable {p}

/-- A run beside the runs of the programs alone, on memories of their own that have the same
areas. -/
theorem run_beside (hareas : Pairwise fun j k => Disjoint (p j).area (p k).area)
    {run : List (Σ k, ι k)} {s : (∀ k, σ k) × (α → β)} {g : κ → α → β}
    (hg : ∀ k, Set.EqOn s.2 (g k) (p k).area)
    (hrun : ∀ k, Run.Along (p k).step (p k).Contained (s.1 k, g k) (inputs k run)) :
    (∀ k, (run.foldl (step p) s).1 k = ((inputs k run).foldl (p k).step (s.1 k, g k)).1 ∧
      Set.EqOn (run.foldl (step p) s).2 ((inputs k run).foldl (p k).step (s.1 k, g k)).2
        (p k).area) ∧
      ∀ a, (∀ k, a ∉ (p k).area) → (run.foldl (step p) s).2 a = s.2 a := by
  induction run generalizing s g with
  | nil => exact ⟨fun k => ⟨rfl, hg k⟩, fun _ _ => rfl⟩
  | cons e run ih =>
    obtain ⟨j, i⟩ := e
    have hj := hrun j
    rw [inputs_cons_self, Run.along_cons] at hj
    obtain ⟨hcontained, hj⟩ := hj
    -- the program that makes the step moves on in its own memory, the others stay
    set g' : κ → α → β := Function.update g j ((p j).step (s.1 j, g j) i).2 with hg'
    set t := step p s ⟨j, i⟩ with ht
    have hself : t.1 j = ((p j).step (s.1 j, g j) i).1 :=
      (Function.update_self _ _ _).trans (hcontained.state s.2 (hg j))
    have hother : ∀ k, k ≠ j → t.1 k = s.1 k := fun k hk => Function.update_of_ne hk _ _
    have hmem : ∀ a, a ∉ (p j).area → t.2 a = s.2 a := fun a ha =>
      hcontained.outside s.2 (hg j) a ha
    have hnext := ih (s := t) (g := g') ?areas ?runs
    case areas =>
      intro k
      by_cases hk : k = j
      · subst hk
        rw [hg', Function.update_self]
        exact hcontained.inside s.2 (hg k)
      · rw [hg', Function.update_of_ne hk]
        intro a ha
        rw [hmem a (Set.disjoint_left.mp (hareas hk) ha)]
        exact hg k ha
    case runs =>
      intro k
      by_cases hk : k = j
      · subst hk
        rw [hself, hg', Function.update_self]
        exact hj
      · rw [hother k hk, hg', Function.update_of_ne hk]
        have hk' := hrun k
        rwa [inputs_cons_of_ne (Ne.symm hk)] at hk'
    refine ⟨fun k => ?_, fun a ha => (hnext.2 a ha).trans (hmem a (ha j))⟩
    have hk' := hnext.1 k
    by_cases hk : k = j
    · subst hk
      rw [hself, hg', Function.update_self] at hk'
      rwa [inputs_cons_self]
    · rw [hother k hk, hg', Function.update_of_ne hk] at hk'
      rwa [inputs_cons_of_ne (Ne.symm hk)]

variable (hareas : Pairwise fun j k => Disjoint (p j).area (p k).area) {run : List (Σ k, ι k)}
  {s : (∀ k, σ k) × (α → β)}
  (hrun : ∀ k, Run.Along (p k).step (p k).Contained (s.1 k, s.2) (inputs k run))

include hareas hrun

/-- **Each program runs as it does alone**, in whatever order the steps come. -/
theorem run_alone (k : κ) :
    (run.foldl (step p) s).1 k = ((inputs k run).foldl (p k).step (s.1 k, s.2)).1 ∧
      Set.EqOn (run.foldl (step p) s).2 ((inputs k run).foldl (p k).step (s.1 k, s.2)).2
        (p k).area :=
  (run_beside hareas (g := fun _ => s.2) (fun _ => Set.eqOn_refl _ _) hrun).1 k

/-- **What lies in no area** is as it was. -/
theorem run_outside {a : α} (ha : ∀ k, a ∉ (p k).area) :
    (run.foldl (step p) s).2 a = s.2 a :=
  (run_beside hareas (g := fun _ => s.2) (fun _ => Set.eqOn_refl _ _) hrun).2 a ha

end Shared

end TcBle.Foundation
