import Mathlib.Data.List.Basic
import Mathlib.Data.Nat.Notation
import Mathlib.Logic.Function.Basic
import Mathlib.Tactic.Common

/-!
# Copies, one after the other

A copy reads one cell of a memory and writes another; a row of copies makes them one after the
other, so that each reads what those before it have left. As long as none reads a cell that one
before it has written, that is as good as reading all cells first.

## What is proved

* `foldl_copy_of_forall_ne` — the cells that no copy writes stay as they are.
* `foldl_copy_of_mem` — a cell that is written has what the cell it is copied from had at the start.
-/

namespace TcBle.Foundation.Copies

variable {ι α : Type*} [DecidableEq ι]

/-- One copy, to the first cell from the second. -/
def copy (m : ι → α) (c : ι × ι) : ι → α := Function.update m c.1 (m c.2)

/-- No copy reads or writes a cell that one before it has written. -/
def Fresh (cs : List (ι × ι)) : Prop := cs.Pairwise fun c c' => c'.2 ≠ c.1 ∧ c'.1 ≠ c.1

variable {cs : List (ι × ι)} {m : ι → α}

/-- **The frame**. -/
theorem foldl_copy_of_forall_ne {a : ι} (h : ∀ c ∈ cs, a ≠ c.1) : cs.foldl copy m a = m a := by
  induction cs generalizing m with
  | nil => rfl
  | cons c cs ih =>
    rw [List.foldl_cons, ih fun c' hc' => h c' (List.mem_cons_of_mem c hc')]
    exact Function.update_of_ne (h c List.mem_cons_self) _ _

/-- **What is copied**. -/
theorem foldl_copy_of_mem (h : Fresh cs) {c : ι × ι} (hc : c ∈ cs) :
    cs.foldl copy m c.1 = m c.2 := by
  induction cs generalizing m with
  | nil => cases hc
  | cons c' cs ih =>
    obtain ⟨hfirst, hrest⟩ := List.pairwise_cons.mp h
    rw [List.foldl_cons]
    cases hc with
    | head =>
      rw [foldl_copy_of_forall_ne fun c'' hc'' => (hfirst c'' hc'').2.symm]
      exact Function.update_self _ _ _
    | tail _ hc =>
      rw [ih hrest hc]
      exact Function.update_of_ne (hfirst c hc).1 _ _

end TcBle.Foundation.Copies
