import TcBle.Foundation.Run

/-!
# Logs

A machine that writes down what it does adds to the end of its log and takes nothing back. So what
it has done in a run is good exactly if every step adds good entries only, which is a condition
on the step and the state it finds.

## What is proved

* `Adds.trans`, `Adds.andThen` — one thing after the other.
* `Adds.foldl` — the rule for runs: where each step that finds a state that is Ok adds good entries
  exactly if it meets its condition, so does a run whose steps all meet theirs.
* `Adds.forall_mem_iff` — the log as a whole.
-/

namespace TcBle.Foundation.AccessLog

open Run

variable {σ ι α : Type*} (log : σ → List α) (Good : α → Prop)

/-- From `s` to `s'` the log grows, by good entries only exactly if `P`. -/
def Adds (s s' : σ) (P : Prop) : Prop :=
  ∃ added, log s' = log s ++ added ∧ ((∀ x ∈ added, Good x) ↔ P)

namespace Adds

variable {log Good} {s s' s'' : σ} {P Q : Prop}

/-- What leaves the log alone. -/
theorem of_eq (h : log s' = log s) : Adds log Good s s' True :=
  ⟨[], h.trans (List.append_nil _).symm, iff_of_true (List.forall_mem_nil _) trivial⟩

theorem congr (h : Adds log Good s s' P) (hPQ : P ↔ Q) : Adds log Good s s' Q := by
  obtain ⟨added, hadded, hP⟩ := h
  exact ⟨added, hadded, hP.trans hPQ⟩

theorem trans (h₁ : Adds log Good s s' P) (h₂ : Adds log Good s' s'' Q) :
    Adds log Good s s'' (P ∧ Q) := by
  obtain ⟨xs, hxs, hP⟩ := h₁
  obtain ⟨ys, hys, hQ⟩ := h₂
  refine ⟨xs ++ ys, ?_, ?_⟩
  · rw [hys, hxs, List.append_assoc]
  · rw [List.forall_mem_append, hP, hQ]

/-- What is good for sure, and then something else. -/
theorem andThen (h₁ : Adds log Good s s' True) (h₂ : Adds log Good s' s'' P) :
    Adds log Good s s'' P := (h₁.trans h₂).congr (iff_of_eq (true_and P))

/-- **The rule for runs**. -/
theorem foldl {step : σ → ι → σ} {Ok : σ → Prop} {C : σ → ι → Prop} (is : List ι)
    (hstep : ∀ s, ∀ i ∈ is, Ok s → Adds log Good s (step s i) (C s i) ∧ Ok (step s i))
    {s : σ} (h : Ok s) :
    Adds log Good s (is.foldl step s) (Along step C s is) ∧ Ok (is.foldl step s) := by
  induction is generalizing s with
  | nil => exact ⟨of_eq rfl, h⟩
  | cons i is ih =>
    obtain ⟨hadds, hok⟩ := hstep s i List.mem_cons_self h
    obtain ⟨hrest, hend⟩ := ih (fun s j hj => hstep s j (List.mem_cons_of_mem i hj)) hok
    exact ⟨hadds.trans hrest, hend⟩

/-- **The log**, before and after. -/
theorem forall_mem_iff (h : Adds log Good s s' P) :
    (∀ x ∈ log s', Good x) ↔ (∀ x ∈ log s, Good x) ∧ P := by
  obtain ⟨added, hadded, hP⟩ := h
  rw [hadded, List.forall_mem_append, hP]

end Adds

end TcBle.Foundation.AccessLog
