import Mathlib.Algebra.BigOperators.Group.List.Basic
import Mathlib.Algebra.Order.Group.MinMax
import Mathlib.Algebra.Ring.Nat
import Mathlib.Data.List.Infix

/-!
# Sums that are kept in a range

A value that goes on by differences, and is kept between a floor and a ceiling after each: two such
walks under one ceiling part where the walk without a floor falls below the higher of the two
floors. Where that is, the differences say: the walk under a ceiling is the least of what it would be
from the start, and of what it would be from the ceiling at each earlier place.

## What is proved

* `walk_eq_iff` — two walks with different floors are the same exactly if the walk without one stays
  above the higher.
* `forall_capped_iff` — which it does exactly if the sums of the differences from the start do, and
  those from the ceiling at any later place.
-/

namespace TcBle.Foundation.ClampedSum

variable {α : Type*} [AddCommGroup α] [LinearOrder α] [IsOrderedAddMonoid α]

/-- The values after each difference, kept between `lo` and `hi`. -/
def walk (lo hi : α) : α → List α → List α
  | _, [] => []
  | x, d :: ds =>
    let y := max lo (min hi (x + d))
    y :: walk lo hi y ds

/-- The values after each difference, kept below `hi`. -/
def capped (hi : α) : α → List α → List α
  | _, [] => []
  | x, d :: ds =>
    let y := min hi (x + d)
    y :: capped hi y ds

/-- The sums of the differences stay above `lo`: from the start `x`, and from the ceiling `hi` at any
place after it. -/
structure Above (lo hi x : α) (ds : List α) : Prop where
  /-- From the start. -/
  start : ∀ pre, pre ≠ [] → pre <+: ds → lo ≤ x + pre.sum
  /-- From the ceiling. -/
  ceiling : ∀ pre mid, pre ≠ [] → pre ++ mid <+: ds → lo ≤ hi + mid.sum

variable {lo lo' hi : α}

omit [IsOrderedAddMonoid α] in
/-- **Two floors** make no difference exactly if the walk without one stays above the higher. -/
theorem walk_eq_iff (hlo : lo < lo') (x : α) (ds : List α) :
    walk lo hi x ds = walk lo' hi x ds ↔ ∀ y ∈ capped hi x ds, lo' ≤ y := by
  induction ds generalizing x with
  | nil => simp [walk, capped]
  | cons d ds ih =>
    rw [walk, walk, capped, List.forall_mem_cons]
    by_cases hy : lo' ≤ min hi (x + d)
    · -- neither floor is reached, and the walks go on from one value
      rw [max_eq_right (hlo.le.trans hy), max_eq_right hy, List.cons.injEq]
      simp only [true_and, hy, ih]
    · have hne : max lo (min hi (x + d)) ≠ max lo' (min hi (x + d)) := by
        rw [max_eq_left (not_le.mp hy).le]
        exact (max_lt hlo (not_le.mp hy)).ne
      exact iff_of_false (fun h => hne (List.cons.inj h).1) fun h => hy h.1

/-- **The walk under a ceiling** stays above `lo` exactly if the sums do. -/
theorem forall_capped_iff (hhi : lo ≤ hi) (x : α) (ds : List α) :
    (∀ y ∈ capped hi x ds, lo ≤ y) ↔ Above lo hi x ds := by
  induction ds generalizing x with
  | nil =>
    have hnil : ∀ l : List α, l <+: [] → l = [] := fun l h => List.prefix_nil.mp h
    refine iff_of_true (by simp [capped]) ⟨fun pre hne hpre => absurd (hnil pre hpre) hne, ?_⟩
    intro pre mid hne hpre
    exact absurd (List.append_eq_nil_iff.mp (hnil _ hpre)).1 hne
  | cons d ds ih =>
    rw [capped, List.forall_mem_cons, ih]
    constructor
    · rintro ⟨hd, hrest⟩
      refine ⟨fun pre hne hpre => ?_, fun pre mid hne hpre => ?_⟩
      · obtain ⟨e, pre, rfl⟩ := List.exists_cons_of_ne_nil hne
        obtain ⟨rfl, htail⟩ := List.cons_prefix_cons.mp hpre
        rw [List.sum_cons, ← add_assoc]
        rcases eq_or_ne pre [] with rfl | hne
        · rw [List.sum_nil, add_zero]
          exact hd.trans (min_le_right _ _)
        · exact (hrest.start pre hne htail).trans (add_le_add_left (min_le_right _ _) _)
      · obtain ⟨e, pre, rfl⟩ := List.exists_cons_of_ne_nil hne
        obtain ⟨rfl, htail⟩ := List.cons_prefix_cons.mp hpre
        rcases eq_or_ne pre [] with rfl | hne
        · -- the ceiling at the first place, where the walk is at most there
          rcases eq_or_ne mid [] with rfl | hmid
          · rwa [List.sum_nil, add_zero]
          · exact (hrest.start mid hmid htail).trans (add_le_add_left (min_le_left _ _) _)
        · exact hrest.ceiling pre mid hne htail
    · intro h
      have hfirst := h.start [d] (List.cons_ne_nil _ _) ⟨ds, rfl⟩
      rw [List.sum_singleton] at hfirst
      refine ⟨le_min hhi hfirst, ⟨fun pre _ hpre => ?_, fun pre mid _ hpre => ?_⟩⟩
      · have hcons : d :: pre <+: d :: ds := List.cons_prefix_cons.mpr ⟨rfl, hpre⟩
        have hstart := h.start (d :: pre) (List.cons_ne_nil _ _) hcons
        rw [List.sum_cons, ← add_assoc] at hstart
        rcases min_choice hi (x + d) with hmin | hmin
        · rw [hmin]
          exact h.ceiling [d] pre (List.cons_ne_nil _ _) hcons
        · rwa [hmin]
      · exact h.ceiling (d :: pre) mid (List.cons_ne_nil _ _)
          (List.cons_prefix_cons.mpr ⟨rfl, hpre⟩)

end TcBle.Foundation.ClampedSum
