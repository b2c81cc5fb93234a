import Mathlib.Data.List.Basic
import Mathlib.Order.Lattice
import Mathlib.Tactic.Common

/-!
# Stable order

Elements with a key are put in order of their keys, those of one key in the order in which
they came. `StableOrder` says that one list is another one put in order in this way: it is sorted,
and for each key it has the same elements in the same order.

## What is proved

* `StableOrder.insert` — an element that comes last is put behind those with its key or a smaller
  one.
* `StableOrder.filter` — elements are taken out of both lists.
* `StableOrder.served` — the first element is, of those with the smallest key, the one that came
  first.
-/

namespace TcBle.Foundation.Priority

variable {α κ : Type*} [LinearOrder κ] (key : α → κ)

/-- `sorted` is `present` in order of the keys, those of one key in the order of `present`. -/
structure StableOrder (sorted present : List α) : Prop where
  /-- It is sorted. -/
  pairwise : sorted.Pairwise fun a b => key a ≤ key b
  /-- The elements of one key. -/
  same : ∀ k, sorted.filter (fun a => key a = k) = present.filter fun a => key a = k

/-- `x` is, of the elements with the smallest key, the one that came first. -/
def Served (present : List α) (x : α) : Prop :=
  ∃ before after, present = before ++ x :: after ∧ (∀ a ∈ before, key x < key a) ∧
    ∀ a ∈ after, key x ≤ key a

variable {key} {sorted present l₁ l₂ : List α} {x : α}

theorem stableOrder_nil : StableOrder key [] [] := ⟨List.Pairwise.nil, fun _ => rfl⟩

/-- They have the same elements. -/
theorem StableOrder.mem_iff (h : StableOrder key sorted present) : x ∈ sorted ↔ x ∈ present := by
  have hmem : ∀ l : List α, x ∈ l ↔ x ∈ l.filter fun a => key a = key x := by
    intro l
    simp
  rw [hmem sorted, h.same, ← hmem]

/-- **An element that comes last** is put behind those that do not come after it. -/
theorem StableOrder.insert (h : StableOrder key (l₁ ++ l₂) present)
    (hbefore : ∀ a ∈ l₁, key a ≤ key x) (hafter : ∀ a ∈ l₂.head?, key x < key a) :
    StableOrder key (l₁ ++ x :: l₂) (present ++ [x]) := by
  obtain ⟨hl₁, hl₂, hcross⟩ := List.pairwise_append.mp h.pairwise
  have hbehind : ∀ a ∈ l₂, key x < key a := by
    cases l₂ with
    | nil => exact fun a ha => absurd ha List.not_mem_nil
    | cons b l₂ =>
      have hb := hafter b rfl
      intro a ha
      rcases List.mem_cons.mp ha with rfl | ha
      · exact hb
      · exact hb.trans_le ((List.pairwise_cons.mp hl₂).1 a ha)
  refine ⟨?_, fun k => ?_⟩
  · refine List.pairwise_append.mpr ⟨hl₁,
      List.pairwise_cons.mpr ⟨fun a ha => (hbehind a ha).le, hl₂⟩, fun a ha b hb => ?_⟩
    rcases List.mem_cons.mp hb with rfl | hb
    · exact hbefore a ha
    · exact hcross a ha b hb
  · rw [List.filter_append, List.filter_append, ← h.same, List.filter_append]
    by_cases hk : key x = k
    · have hnone : l₂.filter (fun a => key a = k) = [] := by
        refine List.filter_eq_nil_iff.mpr fun a ha => ?_
        rw [decide_eq_true_eq]
        exact fun heq => absurd (hbehind a ha) (by rw [hk, heq]; exact lt_irrefl k)
      rw [List.filter_cons_of_pos (by simpa using hk), hnone, List.append_nil,
        List.filter_cons_of_pos (by simpa using hk), List.filter_nil]
    · rw [List.filter_cons_of_neg (by simpa using hk), List.filter_cons_of_neg (by simpa using hk),
        List.filter_nil, List.append_nil]

/-- **Elements taken out** of both lists. -/
theorem StableOrder.filter (h : StableOrder key sorted present) (p : α → Bool) :
    StableOrder key (sorted.filter p) (present.filter p) := by
  refine ⟨h.pairwise.filter p, fun k => ?_⟩
  rw [List.filter_filter, List.filter_filter]
  have hswap : ∀ l : List α, (l.filter fun a => decide (key a = k) && p a) =
      (l.filter fun a => key a = k).filter p := by
    intro l
    rw [List.filter_filter]
    exact List.filter_congr fun a _ => Bool.and_comm _ _
  rw [hswap, hswap, h.same]

/-- **The first element** is served: of those with the smallest key it came first. -/
theorem StableOrder.served (h : StableOrder key (x :: sorted) present) : Served key present x := by
  have hleast : ∀ a ∈ present, key x ≤ key a := by
    intro a ha
    rcases List.mem_cons.mp (h.mem_iff.mpr ha) with rfl | ha
    · exact le_refl _
    · exact (List.pairwise_cons.mp h.pairwise).1 a ha
  have hfirst := h.same (key x)
  rw [List.filter_cons_of_pos (by simp)] at hfirst
  obtain ⟨before, after, rfl, hother, -, -⟩ := List.filter_eq_cons_iff.mp hfirst.symm
  refine ⟨before, after, rfl, fun a ha => ?_, fun a ha => ?_⟩
  · have hne : ¬ key a = key x := by simpa using hother a ha
    exact lt_of_le_of_ne (hleast a (List.mem_append_left _ ha)) fun heq => hne heq.symm
  · exact hleast a (List.mem_append_right _ (List.mem_cons_of_mem _ ha))

end TcBle.Foundation.Priority
