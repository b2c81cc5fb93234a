import Mathlib.Algebra.Ring.Nat
import Mathlib.Data.Int.Notation
import Mathlib.Logic.Function.Basic
import Mathlib.Tactic.Common

/-!
# Arrays that note where they are accessed

An array without a bound, which notes where it is read and written, so that it can be asked whether
an array of some size would have been kept to.

## What is proved

* `inBounds_touch`, `inBounds_set`, `inBounds_touchAll`, `inBounds_writeFrom` — what an access does to
  that.
* `get_set_self`, `get_set_of_ne`, `get_writeFrom`, `get_writeFrom_of_outside` — what is in it.
-/

namespace TcBle.Foundation

/-- An array. -/
structure LoggedArray (α : Type*) where
  /-- The entries. -/
  get : ℕ → α
  /-- Where it was read or written. -/
  accesses : List ℤ

namespace LoggedArray

variable {α : Type*}

/-- Notes an access. -/
def touch (b : LoggedArray α) (i : ℤ) : LoggedArray α := { b with accesses := b.accesses ++ [i] }

/-- Notes a row of accesses. -/
def touchAll (b : LoggedArray α) (is : List ℕ) : LoggedArray α :=
  { b with accesses := b.accesses ++ is.map Int.ofNat }

/-- Writes an entry. -/
def set (b : LoggedArray α) (i : ℤ) (v : α) : LoggedArray α :=
  { b.touch i with get := Function.update b.get i.toNat v }

/-- Writes the entries from one on. -/
def writeFrom (b : LoggedArray α) (i : ℕ) : List α → LoggedArray α
  | [] => b
  | x :: xs => (b.set i x).writeFrom (i + 1) xs

/-- Every access is to one of so many entries. -/
def InBounds (b : LoggedArray α) (size : ℕ) : Prop := ∀ i ∈ b.accesses, 0 ≤ i ∧ i < size

instance (b : LoggedArray α) (size : ℕ) : Decidable (b.InBounds size) :=
  inferInstanceAs (Decidable (∀ i ∈ _, _))

variable {b : LoggedArray α} {size : ℕ}

theorem inBounds_touch {i : ℤ} :
    (b.touch i).InBounds size ↔ b.InBounds size ∧ 0 ≤ i ∧ i < size := by
  simp only [InBounds, touch, List.forall_mem_append, List.forall_mem_singleton]

theorem inBounds_set {i : ℤ} {v : α} :
    (b.set i v).InBounds size ↔ b.InBounds size ∧ 0 ≤ i ∧ i < size := inBounds_touch

/-- An entry of the array. -/
theorem inBounds_set_natCast (hb : b.InBounds size) (i : ℕ) (v : α) :
    (b.set i v).InBounds size ↔ i < size := by
  rw [inBounds_set]
  constructor
  · rintro ⟨-, -, hi⟩
    exact_mod_cast hi
  · intro hi
    exact ⟨hb, Int.natCast_nonneg i, by exact_mod_cast hi⟩

theorem inBounds_touchAll (hb : b.InBounds size) {is : List ℕ} :
    (b.touchAll is).InBounds size ↔ ∀ i ∈ is, i < size := by
  simp only [InBounds, touchAll, List.forall_mem_append, List.forall_mem_map]
  constructor
  · intro h i hi
    exact Int.ofNat_lt.mp (h.2 i hi).2
  · intro h
    exact ⟨hb, fun i hi => ⟨Int.natCast_nonneg i, Int.ofNat_lt.mpr (h i hi)⟩⟩

@[simp] theorem get_touchAll (b : LoggedArray α) (is : List ℕ) : (b.touchAll is).get = b.get := rfl

@[simp] theorem get_set_self (b : LoggedArray α) (i : ℕ) (v : α) : (b.set i v).get i = v := by
  simp [set]

theorem get_set_of_ne (b : LoggedArray α) {i j : ℕ} (h : j ≠ i) (v : α) :
    (b.set i v).get j = b.get j := by
  simp [set, h]

/-- What lies outside of what is written. -/
theorem get_writeFrom_of_outside (b : LoggedArray α) (i : ℕ) (xs : List α) {j : ℕ}
    (h : j < i ∨ i + xs.length ≤ j) : (b.writeFrom i xs).get j = b.get j := by
  induction xs generalizing b i with
  | nil => rfl
  | cons x xs ih =>
    rw [List.length_cons] at h
    rw [writeFrom, ih _ _ (by omega), get_set_of_ne _ (by omega)]

/-- What is written. -/
theorem get_writeFrom (b : LoggedArray α) (i : ℕ) {xs : List α} {k : ℕ} (hk : k < xs.length) :
    (b.writeFrom i xs).get (i + k) = xs[k] := by
  induction xs generalizing b i k with
  | nil => exact absurd hk (Nat.not_lt_zero _)
  | cons x xs ih =>
    rw [writeFrom]
    cases k with
    | zero => rw [get_writeFrom_of_outside _ _ _ (.inl (by omega)), Nat.add_zero, get_set_self]; rfl
    | succ k =>
      rw [show i + (k + 1) = i + 1 + k by omega, ih _ _ (by simpa using hk)]
      rfl

theorem inBounds_writeFrom (hb : b.InBounds size) {i : ℕ} {xs : List α} (h : i + xs.length ≤ size) :
    (b.writeFrom i xs).InBounds size := by
  induction xs generalizing b i with
  | nil => exact hb
  | cons x xs ih =>
    rw [List.length_cons] at h
    exact ih ((inBounds_set_natCast hb i x).mpr (by omega)) (by omega)

end LoggedArray

end TcBle.Foundation
