import Mathlib.Data.List.Basic
import Mathlib.Data.List.Count
import Mathlib.Data.List.Induction
import Mathlib.Order.Lattice
import Mathlib.Tactic.Common

/-!
# Insertion sort while the values come in

An array is filled from its front, and each value that comes in is moved down among the ones before
it, which are sorted. In the sorted array a few values that are out of bounds end up at the ends.

## What is proved

* `shift_eq` — where a value is put by the loop that moves the greater ones up.
* `fill_sorted` — the filled array has the values that came in, and is sorted.
* `le_of_countP` and `le_of_countP_gt` — a place of a sorted list that is further from an end than
  there are values out of bounds is within the bounds.
-/

namespace TcBle.Foundation.InsertionSort

variable {α : Type*} [LinearOrder α]

/-- The elements before a place that are greater than `temp` go one place up, from the last one on,
and `temp` goes to the place that is left. -/
def shift (temp : α) : ℕ → List α → List α
  | 0, a => a.set 0 temp
  | j + 1, a =>
    match a[j]? with
    | some b => if temp < b then shift temp j (a.set (j + 1) b) else a.set (j + 1) temp
    | none => a

/-- The element at place `i` is moved down if it is less than the one before it. -/
def insert (i : ℕ) (a : List α) : List α :=
  match a[i]?, a[i - 1]? with
  | some temp, some b => if temp < b then shift temp i (a.set i b) else a
  | _, _ => a

/-- A value comes in. -/
def place (a : List α) (x : α × ℕ) : List α :=
  if x.2 = 0 then a.set x.2 x.1 else insert x.2 (a.set x.2 x.1)

/-- The array after all of the values. -/
def fill (a : List α) (xs : List α) : List α := xs.zipIdx.foldl place a

omit [LinearOrder α] in
theorem set_length (l : List α) (x y : α) (rest : List α) :
    (l ++ y :: rest).set l.length x = l ++ x :: rest := by
  rw [List.set_append_right _ _ (le_refl _), Nat.sub_self, List.set_cons_zero]

/-- **Where the value is put**: before the elements that are greater, and behind one that is not. -/
theorem shift_eq (temp : α) (l : List α) (y : α) (rest : List α) :
    ∃ l₁ l₂, l = l₁ ++ l₂ ∧ shift temp l.length (l ++ y :: rest) = l₁ ++ temp :: l₂ ++ rest ∧
      (∀ b ∈ l₂, temp < b) ∧ ∀ b ∈ l₁.getLast?, b ≤ temp := by
  induction l using List.reverseRecOn generalizing y rest with
  | nil =>
    exact ⟨[], [], rfl, rfl, fun b hb => absurd hb List.not_mem_nil, fun b hb => by cases hb⟩
  | append_singleton l b ih =>
    have hget : (l ++ [b] ++ y :: rest)[l.length]? = some b := by simp
    have hset : ∀ x, (l ++ [b] ++ y :: rest).set (l.length + 1) x = l ++ [b] ++ x :: rest := by
      intro x
      have := set_length (l ++ [b]) x y rest
      rwa [List.length_append, List.length_singleton] at this
    rw [List.length_append, List.length_singleton, shift, hget]
    simp only [hset]
    split_ifs with hlt
    · -- `b` goes up, and the loop goes on before it
      obtain ⟨l₁, l₂, rfl, hshift, hgreater, hlast⟩ := ih b (b :: rest)
      refine ⟨l₁, l₂ ++ [b], (List.append_assoc _ _ _), ?_, ?_, hlast⟩
      · rw [List.append_assoc, List.singleton_append, hshift]
        simp
      · intro x hx
        cases List.mem_append.mp hx with
        | inl hx => exact hgreater x hx
        | inr hx =>
          rw [List.mem_singleton.mp hx]
          exact hlt
    · refine ⟨l ++ [b], [], (List.append_nil _).symm, by simp,
        fun x hx => absurd hx List.not_mem_nil, fun x hx => ?_⟩
      rw [List.getLast?_concat] at hx
      cases hx
      exact not_lt.mp hlt

/-- The last element of a sorted list is its greatest. -/
theorem le_getLast {l : List α} (hl : l.Pairwise (· ≤ ·)) {b : α} (hb : b ∈ l.getLast?) :
    ∀ a ∈ l, a ≤ b := by
  obtain ⟨front, rfl⟩ := List.getLast?_eq_some_iff.mp hb
  intro a ha
  cases List.mem_append.mp ha with
  | inl ha => exact (List.pairwise_append.mp hl).2.2 a ha b (List.mem_singleton_self b)
  | inr ha => exact (List.mem_singleton.mp ha).le

/-- **A value is moved down** among sorted ones. -/
theorem insert_sorted {l : List α} (hl : l.Pairwise (· ≤ ·)) (hne : l ≠ []) (x : α)
    (rest : List α) :
    ∃ l', insert l.length (l ++ x :: rest) = l' ++ rest ∧ l'.Perm (x :: l) ∧
      l'.Pairwise (· ≤ ·) := by
  obtain ⟨front, b, rfl⟩ : ∃ front b, l = front ++ [b] :=
    ⟨_, _, (List.dropLast_append_getLast hne).symm⟩
  have hx : (front ++ [b] ++ x :: rest)[(front ++ [b]).length]? = some x := by simp
  have hb : (front ++ [b] ++ x :: rest)[(front ++ [b]).length - 1]? = some b := by simp
  simp only [insert, hx, hb]
  split_ifs with hlt
  · rw [set_length]
    obtain ⟨l₁, l₂, hsplit, hshift, hgreater, hlast⟩ := shift_eq x (front ++ [b]) b rest
    rw [hsplit] at hl
    obtain ⟨hl₁, hl₂, hcross⟩ := List.pairwise_append.mp hl
    refine ⟨l₁ ++ x :: l₂, hshift, ?_, ?_⟩
    · rw [hsplit]
      exact List.perm_middle
    · refine List.pairwise_append.mpr ⟨hl₁, List.pairwise_cons.mpr
        ⟨fun y hy => (hgreater y hy).le, hl₂⟩, fun y hy z hz => ?_⟩
      rcases List.mem_cons.mp hz with rfl | hz
      · -- what is before the value is not greater than the last element there
        cases hend : l₁.getLast? with
        | none =>
          rw [List.getLast?_eq_none_iff.mp hend] at hy
          exact absurd hy List.not_mem_nil
        | some c => exact (le_getLast hl₁ hend y hy).trans (hlast c hend)
      · exact hcross y hy z hz
  · refine ⟨front ++ [b] ++ [x], by simp, List.perm_append_singleton _ _, ?_⟩
    have hmax := le_getLast hl (b := b) (by simp)
    refine List.pairwise_append.mpr ⟨hl, List.pairwise_singleton _ _, fun y hy z hz => ?_⟩
    rw [List.mem_singleton.mp hz]
    exact (hmax y hy).trans (not_lt.mp hlt)

/-- The array while it is filled. -/
theorem fill_prefix (a xs : List α) (hlen : xs.length ≤ a.length) :
    ∃ l, fill a xs = l ++ a.drop xs.length ∧ l.Perm xs ∧ l.Pairwise (· ≤ ·) := by
  induction xs using List.reverseRecOn with
  | nil => exact ⟨[], rfl, List.Perm.refl _, List.Pairwise.nil⟩
  | append_singleton xs x ih =>
    rw [List.length_append, List.length_singleton] at hlen
    obtain ⟨l, hfill, hperm, hsorted⟩ := ih (by omega)
    have hcons : a.drop xs.length = a[xs.length] :: a.drop (xs.length + 1) :=
      List.drop_eq_getElem_cons (by omega)
    have hnext : fill a (xs ++ [x]) = place (fill a xs) (x, xs.length) := by
      unfold fill
      rw [List.zipIdx_append, List.foldl_append]
      simp
    have hset : (l ++ a[xs.length] :: a.drop (xs.length + 1)).set xs.length x =
        l ++ x :: a.drop (xs.length + 1) := by
      have := set_length l x a[xs.length] (a.drop (xs.length + 1))
      rwa [hperm.length_eq] at this
    rw [hnext, hfill, hcons, List.length_append, List.length_singleton, place, hset]
    simp only [← hperm.length_eq]
    split_ifs with hzero
    · -- the first value
      obtain rfl : l = [] := List.eq_nil_of_length_eq_zero hzero
      exact ⟨[x], rfl, hperm.append_right [x], List.pairwise_singleton _ _⟩
    · obtain ⟨l', hinsert, hperm', hsorted'⟩ := insert_sorted hsorted
        (List.ne_nil_of_length_pos (Nat.pos_of_ne_zero hzero)) x (a.drop (l.length + 1))
      refine ⟨l', hinsert, hperm'.trans ?_, hsorted'⟩
      exact (hperm.cons x).trans (List.perm_append_singleton x xs).symm

/-- **The filled array is sorted**, and has the values that came in. -/
theorem fill_sorted {a xs : List α} (hlen : xs.length = a.length) :
    (fill a xs).Perm xs ∧ (fill a xs).Pairwise (· ≤ ·) := by
  obtain ⟨l, hfill, hperm, hsorted⟩ := fill_prefix a xs hlen.le
  rw [hlen, List.drop_length, List.append_nil] at hfill
  rw [hfill]
  exact ⟨hperm, hsorted⟩

/-! ### Places of a sorted list -/

variable {s : List α}

/-- **Few values are too small**: a place behind as many is not. -/
theorem le_of_countP (hs : s.Pairwise (· ≤ ·)) {lo : α} {k i : ℕ}
    (hcount : s.countP (· < lo) ≤ k) (hk : k ≤ i) (hi : i < s.length) : lo ≤ s[i] := by
  by_contra hlt
  have hfront : ∀ x ∈ s.take (i + 1), x < lo := by
    intro x hx
    obtain ⟨j, hj, rfl⟩ := List.getElem_of_mem hx
    rw [List.length_take] at hj
    rw [List.getElem_take]
    rcases Nat.lt_or_eq_of_le (show j ≤ i by omega) with hji | rfl
    · exact (List.pairwise_iff_getElem.mp hs j i (by omega) hi hji).trans_lt (not_le.mp hlt)
    · exact not_le.mp hlt
  have hall : (s.take (i + 1)).countP (· < lo) = (s.take (i + 1)).length :=
    List.countP_eq_length.mpr fun x hx => decide_eq_true (hfront x hx)
  have hle := (List.take_sublist (i + 1) s).countP_le (p := fun x => decide (x < lo))
  rw [hall, List.length_take] at hle
  omega

/-- **Few values are too great**: a place before as many is not. -/
theorem le_of_countP_gt (hs : s.Pairwise (· ≤ ·)) {hi : α} {k i : ℕ}
    (hcount : s.countP (hi < ·) ≤ k) (hlen : i + k < s.length) : s[i] ≤ hi := by
  by_contra hlt
  have hback : ∀ x ∈ s.drop i, hi < x := by
    intro x hx
    obtain ⟨j, hj, rfl⟩ := List.getElem_of_mem hx
    rw [List.length_drop] at hj
    rw [List.getElem_drop]
    rcases Nat.eq_zero_or_pos j with rfl | hpos
    · exact not_le.mp hlt
    · exact (not_le.mp hlt).trans_le
        (List.pairwise_iff_getElem.mp hs i (i + j) (by omega) (by omega) (by omega))
  have hall : (s.drop i).countP (hi < ·) = (s.drop i).length :=
    List.countP_eq_length.mpr fun x hx => decide_eq_true (hback x hx)
  have hle := (List.drop_sublist i s).countP_le (p := fun x => decide (hi < x))
  rw [hall, List.length_drop] at hle
  omega

end TcBle.Foundation.InsertionSort
