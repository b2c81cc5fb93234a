import Mathlib.Algebra.Ring.Nat
import Mathlib.Data.List.Range
import Mathlib.Logic.Function.Basic
import Mathlib.Order.Nat
import Mathlib.Tactic.Common

/-!
# Tables of slots

A table of slots of which a range is searched from its start, and the number of those in a
range that meet a condition, as a program counts them.

## What is proved

* `firstIn_eq_some_iff` and `firstIn_eq_none_iff` — what a search finds.
* `countIn_update_gain`, `countIn_update_loss` and `countIn_update_of_notMem` — how the number
  changes when a slot is changed.
-/

namespace TcBle.Foundation

variable {α : Type*} (p : α → Prop) [DecidablePred p] (t : ℕ → α)

/-- The first of the `n` slots from `lo` on that meets `p`. -/
def firstIn (lo n : ℕ) : Option ℕ := (List.range' lo n).find? fun i => p (t i)

/-- How many of the `n` slots from `lo` on meet `p`. -/
def countIn (lo n : ℕ) : ℕ := (List.range' lo n).countP fun i => p (t i)

variable {p t}

theorem firstIn_eq_none_iff {lo n : ℕ} : firstIn p t lo n = none ↔ ∀ i, lo ≤ i → i < lo + n →
    ¬p (t i) := by
  unfold firstIn
  rw [List.find?_range'_eq_none]
  simp only [Bool.not_eq_true', decide_eq_false_iff_not]

/-- **What a search finds**: the first slot. -/
theorem firstIn_eq_some_iff {lo n i : ℕ} :
    firstIn p t lo n = some i ↔ p (t i) ∧ (lo ≤ i ∧ i < lo + n) ∧ ∀ j, lo ≤ j → j < i →
      ¬p (t j) := by
  unfold firstIn
  rw [List.find?_range'_eq_some, List.mem_range'_1]
  simp only [Bool.not_eq_true', decide_eq_false_iff_not, decide_eq_true_eq]

theorem countIn_succ (lo n : ℕ) : countIn p t lo (n + 1) =
    countIn p t (lo + 1) n + if p (t lo) then 1 else 0 := by
  unfold countIn
  rw [List.range'_succ, List.countP_cons]
  simp

/-- A slot elsewhere is changed. -/
theorem countIn_update_of_notMem {lo n i : ℕ} (h : i < lo ∨ lo + n ≤ i) (x : α) :
    countIn p (Function.update t i x) lo n = countIn p t lo n := by
  unfold countIn
  refine List.countP_congr fun j hj => ?_
  rw [Function.update_of_ne]
  have := List.mem_range'_1.mp hj
  omega

/-- A slot of the range is changed. -/
theorem countIn_update {lo n i : ℕ} (hlo : lo ≤ i) (hi : i < lo + n) (x : α) :
    countIn p (Function.update t i x) lo n + (if p (t i) then 1 else 0) =
      countIn p t lo n + if p x then 1 else 0 := by
  induction n generalizing lo with
  | zero => omega
  | succ n ih =>
    rw [countIn_succ, countIn_succ]
    by_cases heq : i = lo
    · subst heq
      rw [countIn_update_of_notMem (Or.inl (Nat.lt_succ_self i)), Function.update_self]
      exact Nat.add_right_comm _ _ _
    · have hlo' : lo + 1 ≤ i := by omega
      have := ih hlo' (by omega)
      rw [Function.update_of_ne (Ne.symm heq)]
      omega

/-- A slot comes to meet the condition. -/
theorem countIn_update_gain {lo n i : ℕ} (hlo : lo ≤ i) (hi : i < lo + n) {x : α} (ht : ¬p (t i))
    (hx : p x) :
    countIn p (Function.update t i x) lo n = countIn p t lo n + 1 := by
  have := countIn_update (p := p) (t := t) hlo hi x
  rwa [if_neg ht, if_pos hx] at this

/-- A slot no longer meets it. -/
theorem countIn_update_loss {lo n i : ℕ} (hlo : lo ≤ i) (hi : i < lo + n) {x : α} (ht : p (t i))
    (hx : ¬p x) :
    countIn p (Function.update t i x) lo n + 1 = countIn p t lo n := by
  have := countIn_update (p := p) (t := t) hlo hi x
  rwa [if_pos ht, if_neg hx] at this

end TcBle.Foundation
