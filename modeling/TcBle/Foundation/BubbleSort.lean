import Mathlib.Data.List.Range
import Mathlib.Order.Lattice
import Mathlib.Tactic.Common

/-!
# Bubble sort

A pass compares neighbours from the front of the list and exchanges those that are in the wrong
order; the sort makes passes over shorter and shorter fronts of the list. The comparison need only
be right for the elements of the list, so that it may be one that is no order on its type.

## What is proved

* `pass_eq` — a pass over a front of the list takes one of its greatest elements to the end of it.
* `sort_pairwise` — the list that the sort leaves is sorted.
-/

namespace TcBle.Foundation.BubbleSort

variable {α κ : Type*} (big : α → α → Bool)

/-- `n` comparisons from the front of the list. -/
def pass : ℕ → List α → List α
  | n + 1, a :: b :: l => if big a b then b :: pass n (a :: l) else a :: pass n (b :: l)
  | _, l => l

/-- The sort: the `i`-th pass leaves the last `i` elements alone. -/
def sort (l : List α) : List α :=
  (List.range (l.length - 1)).foldl (fun l' i => pass big (l.length - i - 1) l') l

variable [LinearOrder κ] (key : α → κ)

/-- The comparison is that of the keys, for these elements. -/
def Compares (l : List α) : Prop := ∀ a ∈ l, ∀ b ∈ l, (big a b = true ↔ key b ≤ key a)

variable {big key}

theorem Compares.mono {l l' : List α} (h : Compares big key l) (hsub : l' ⊆ l) :
    Compares big key l' :=
  fun a ha b hb => h a (hsub ha) b (hsub hb)

/-- **A pass takes a greatest element to the end**, and leaves what is behind it alone. -/
theorem pass_eq (rest : List α) {a : α} {l : List α} (h : Compares big key (a :: l)) :
    ∃ front last, pass big l.length (a :: l ++ rest) = front ++ last :: rest ∧
      (front ++ [last]).Perm (a :: l) ∧ ∀ x ∈ front, key x ≤ key last := by
  induction l generalizing a with
  | nil => exact ⟨[], a, rfl, List.Perm.refl _, fun x hx => absurd hx List.not_mem_nil⟩
  | cons b l ih =>
    have hab := h a (by simp) b (by simp)
    rw [List.length_cons, List.cons_append, List.cons_append, pass]
    -- the greater of the first two goes on
    split_ifs with hbig
    · have hsub : a :: l ⊆ a :: b :: l := by simp
      obtain ⟨front, last, hpass, hperm, hmax⟩ := ih (h.mono hsub)
      have ha : key a ≤ key last := by
        have hmem : a ∈ front ++ [last] := hperm.mem_iff.mpr List.mem_cons_self
        cases List.mem_append.mp hmem with
        | inl ha =>
          exact hmax a ha
        | inr ha =>
          rw [List.mem_singleton.mp ha]
      refine ⟨b :: front, last, ?_, ?_, ?_⟩
      · rw [← List.cons_append, hpass]
        rfl
      · exact (hperm.cons b).trans (List.Perm.swap a b l)
      · intro x hx
        rcases List.mem_cons.mp hx with rfl | hx
        · exact le_trans (hab.mp hbig) ha
        · exact hmax x hx
    · have hsub : b :: l ⊆ a :: b :: l := by simp
      obtain ⟨front, last, hpass, hperm, hmax⟩ := ih (h.mono hsub)
      have hb : key b ≤ key last := by
        have hmem : b ∈ front ++ [last] := hperm.mem_iff.mpr List.mem_cons_self
        cases List.mem_append.mp hmem with
        | inl hb =>
          exact hmax b hb
        | inr hb =>
          rw [List.mem_singleton.mp hb]
      refine ⟨a :: front, last, ?_, hperm.cons a, ?_⟩
      · rw [← List.cons_append, hpass]
        rfl
      · intro x hx
        rcases List.mem_cons.mp hx with rfl | hx
        · exact le_trans (le_of_lt (not_le.mp fun hle => hbig (hab.mpr hle))) hb
        · exact hmax x hx

/-- After `k` passes the last `k` elements are in their places. -/
theorem passes {l : List α} (h : Compares big key l) (k : ℕ) (hk : k ≤ l.length) :
    ∃ front back, (List.range k).foldl (fun l' i => pass big (l.length - i - 1) l') l =
        front ++ back ∧ front.length + k = l.length ∧ (front ++ back).Perm l ∧
      back.Pairwise (fun a b => key a ≤ key b) ∧ ∀ x ∈ front, ∀ y ∈ back, key x ≤ key y := by
  induction k with
  | zero => exact ⟨l, [], by simp, rfl, by simp, List.Pairwise.nil, by simp⟩
  | succ k ih =>
    obtain ⟨front, back, hl, hlen, hperm, hback, hcross⟩ := ih (Nat.le_of_succ_le hk)
    cases front with
    | nil =>
      rw [List.length_nil] at hlen
      omega
    | cons a front =>
      rw [List.length_cons] at hlen
      have hsub : a :: front ⊆ l := fun x hx => hperm.subset (List.mem_append_left _ hx)
      obtain ⟨front', last, hpass, hperm', hmax⟩ := pass_eq back (h.mono hsub)
      have hmem : ∀ x ∈ front' ++ [last], ∀ y ∈ back, key x ≤ key y :=
        fun x hx => hcross x (hperm'.subset hx)
      refine ⟨front', last :: back, ?_, ?_, ?_, ?_, ?_⟩
      · rw [List.range_succ, List.foldl_append, hl, List.foldl_cons, List.foldl_nil,
          show l.length - k - 1 = front.length by omega, hpass]
      · have := hperm'.length_eq
        rw [List.length_append, List.length_singleton, List.length_cons] at this
        omega
      · rw [List.append_cons]
        exact (hperm'.append_right back).trans hperm
      · exact List.pairwise_cons.mpr ⟨hmem last (by simp), hback⟩
      · intro x hx y hy
        rcases List.mem_cons.mp hy with rfl | hy
        · exact hmax x hx
        · exact hmem x (List.mem_append_left _ hx) y hy

/-- **The list that the sort leaves is sorted.** -/
theorem sort_pairwise {l : List α} (h : Compares big key l) :
    (sort big l).Pairwise fun a b => key a ≤ key b := by
  obtain ⟨front, back, hl, hlen, -, hback, hcross⟩ := passes h (l.length - 1) (Nat.sub_le _ 1)
  rw [sort, hl, List.pairwise_append]
  refine ⟨?_, hback, hcross⟩
  -- at most one element is left in front
  cases front with
  | nil => exact List.Pairwise.nil
  | cons a front =>
    rw [List.length_cons] at hlen
    obtain rfl : front = [] := List.length_eq_zero_iff.mp (by omega)
    exact List.pairwise_singleton _ a

end TcBle.Foundation.BubbleSort
