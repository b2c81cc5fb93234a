import Mathlib.Algebra.Ring.Nat
import Mathlib.Data.List.Basic
import Mathlib.Tactic.Common

/-!
# Cutting a memory into segments

A memory is a function from places to items. Its first `n` items are cut into segments of `m`
items, of which the last may be shorter, and a list is padded to a multiple of a number.

## What is proved

* `flatMap_window` — the segments, one after the other, are the memory.
* `padTo_of_dvd` — a list that has the length already that it is padded to is left alone.
-/

namespace TcBle.Foundation.Segments

variable {α : Type*}

/-- `n` items from place `a` on. -/
def window (f : ℕ → α) (a n : ℕ) : List α := (List.range n).map fun i => f (a + i)

variable (f : ℕ → α) (a m n : ℕ)

@[simp] theorem length_window : (window f a n).length = n := by simp [window]

@[simp] theorem window_zero : window f a 0 = [] := rfl

theorem window_add : window f a (m + n) = window f a m ++ window f (a + m) n := by
  simp only [window, List.range_add, List.map_append, List.map_map]
  congr 1
  refine List.map_congr_left fun i _ => ?_
  simp [Nat.add_assoc]

/-- **Whole segments**, one after the other. -/
theorem flatMap_window : (List.range n).flatMap (fun i => window f (i * m) m) =
    window f 0 (n * m) := by
  induction n with
  | zero => simp
  | succ n ih =>
    rw [List.range_succ, List.flatMap_append, ih, Nat.succ_mul, window_add]
    simp

/-- The number of items that are missing to a multiple of `m`. -/
def missing : ℕ := (m - n % m) % m

/-- A list padded to a multiple of `m`. -/
def padTo (x : α) (l : List α) : List α := l ++ List.replicate (missing m l.length) x

variable {m n}

theorem missing_of_dvd (h : m ∣ n) : missing m n = 0 := by
  rw [missing, Nat.mod_eq_zero_of_dvd h, Nat.sub_zero, Nat.mod_self]

theorem missing_of_not_dvd (hm : 0 < m) (h : ¬m ∣ n) : missing m n = m - n % m := by
  have hmod : n % m ≠ 0 := fun hzero => h (Nat.dvd_of_mod_eq_zero hzero)
  exact Nat.mod_eq_of_lt (by omega)

theorem padTo_of_dvd {l : List α} (h : m ∣ l.length) (x : α) : padTo m x l = l := by
  rw [padTo, missing_of_dvd h, List.replicate_zero, List.append_nil]

end TcBle.Foundation.Segments
