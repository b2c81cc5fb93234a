import Mathlib.Data.List.Range
import Mathlib.Data.List.Sort
import Mathlib.Tactic.Common

/-!
# Buffers in two halves

A device writes a stream of items into `2 * n` slots, around and around. A reader looks from time to
time where the device is, and takes the half of its turn when the device is in the other one. Time is
the number of items that were written; the first `2 * n` items are what the slots hold at first.

## What is proved

* `read_half` — a half that is taken while the device is in the other one is a block of the stream.
* `Reader.Sound.look` — whatever the times, no block is taken twice, and none after a later one.
* `Reader.blocks_look` — a reader that looks once for every `n` items takes every block.
-/

namespace TcBle.Foundation.DoubleBuffer

variable {α : Type*}

/-- The last item that was written to a slot of `num`, of the first `t` items. -/
def held (stream : ℕ → α) (num t j : ℕ) : α := stream ((t - 1 - j) / num * num + j)

/-- A block of the stream. -/
def block (stream : ℕ → α) (n k : ℕ) : List α := (List.range n).map fun i => stream (k * n + i)

@[simp] theorem length_block (stream : ℕ → α) (n k : ℕ) : (block stream n k).length = n := by
  rw [block, List.length_map, List.length_range]

/-- The item of a slot whose last item is known. -/
theorem held_eq (stream : ℕ → α) {num t j m : ℕ} (hj : m % num = j) (hlt : m < t)
    (hlast : t ≤ m + num) : held stream num t j = stream m := by
  obtain ⟨q, hq⟩ : ∃ q, m = num * q + j := ⟨m / num, by rw [← hj, Nat.div_add_mod]⟩
  have hquot : (t - 1 - j) / num = q := by
    refine Nat.div_eq_of_lt_le ?_ ?_
    · rw [Nat.mul_comm]
      omega
    · rw [Nat.succ_mul, Nat.mul_comm]
      omega
  rw [held, hquot, Nat.mul_comm, ← hq]

/-- **A half** is a block of the stream, if each of its slots is read after the block was written and
before the device is back. -/
theorem read_half (stream : ℕ → α) (n k : ℕ) {readAt : ℕ → ℕ}
    (hfrom : ∀ j, (k + 1) * n ≤ readAt j) (hto : ∀ j, readAt j ≤ (k + 2) * n) :
    ((List.range n).map fun i => held stream (2 * n) (readAt (k % 2 * n + i)) (k % 2 * n + i)) =
      block stream n k := by
  refine List.map_congr_left fun i hi => ?_
  have hlt := List.mem_range.mp hi
  have hfrom := hfrom (k % 2 * n + i)
  have hto := hto (k % 2 * n + i)
  rw [Nat.succ_mul] at hfrom
  rw [Nat.add_mul] at hto
  refine held_eq stream ?_ (by omega) (by omega)
  obtain ⟨q, hq⟩ : ∃ q, k = 2 * q + k % 2 := ⟨k / 2, (Nat.div_add_mod k 2).symm⟩
  have hmod : k % 2 < 2 := Nat.mod_lt _ Nat.two_pos
  have hsplit : k * n + i = k % 2 * n + i + 2 * n * q := by
    conv_lhs => rw [hq]
    rw [Nat.add_mul, Nat.mul_right_comm]
    omega
  rw [hsplit, Nat.add_mul_mod_self_left]
  refine Nat.mod_eq_of_lt ?_
  have : k % 2 * n ≤ 1 * n := Nat.mul_le_mul_right n (by omega)
  omega

/-! ### The reader -/

/-- A reader. -/
structure Reader where
  /-- The half of its turn. -/
  half : ℕ
  /-- The blocks that it has taken. -/
  blocks : List ℕ

namespace Reader

variable {n : ℕ}

/-- It is its turn when the device is in the other half. -/
def Due (n : ℕ) (r : Reader) (t : ℕ) : Prop := t / n % 2 ≠ r.half

instance (n : ℕ) (r : Reader) (t : ℕ) : Decidable (r.Due n t) := inferInstanceAs (Decidable (_ ≠ _))

/-- It looks at time `t`. -/
def look (n : ℕ) (r : Reader) (t : ℕ) : Reader :=
  if r.Due n t then ⟨1 - r.half, r.blocks ++ [t / n - 1]⟩ else r

/-- What holds at time `last`, at the last look. -/
structure Sound (n : ℕ) (r : Reader) (last : ℕ) : Prop where
  /-- There are two halves. -/
  half_lt : r.half < 2
  /-- The blocks are taken in order. -/
  sorted : r.blocks.Pairwise (· < ·)
  /-- The last one was complete. -/
  lt : ∀ k ∈ r.blocks, k < last / n
  /-- If it is the last one that is complete, the other half comes next. -/
  turn : ∀ k ∈ r.blocks, k + 1 = last / n → r.half = last / n % 2

theorem Sound.look {r : Reader} {last t : ℕ} (h : r.Sound n last) (hlast : last ≤ t)
    (hn : n ≤ t) (hpos : 0 < n) : (r.look n t).Sound n t := by
  have hdiv : last / n ≤ t / n := Nat.div_le_div_right hlast
  have hone : 1 ≤ t / n := (Nat.one_le_div_iff hpos).mpr hn
  have hhalf := h.half_lt
  rw [Reader.look]
  split
  case isTrue hdue =>
    have hdue : t / n % 2 ≠ r.half := hdue
    have hmod : t / n % 2 < 2 := Nat.mod_lt _ Nat.two_pos
    refine ⟨by show 1 - r.half < 2; omega, ?_, fun k hk => ?_, fun _ _ _ => ?_⟩
    · refine List.pairwise_append.mpr ⟨h.sorted, List.pairwise_singleton _ _, fun k hk b hb => ?_⟩
      obtain rfl := List.mem_singleton.mp hb
      have hlt := h.lt k hk
      have hturn := h.turn k hk
      -- the block taken last is not the one that is complete now: the half would not be due
      by_contra hge
      have heq : k + 1 = last / n := by omega
      have hsame : last / n = t / n := by omega
      exact hdue (hsame ▸ (hturn heq).symm)
    · rcases List.mem_append.mp hk with hk | hk
      · exact (h.lt k hk).trans_le hdiv
      · rw [List.mem_singleton.mp hk]
        omega
    · show 1 - r.half = t / n % 2
      omega
  case isFalse hdue =>
    refine ⟨hhalf, h.sorted, fun k hk => (h.lt k hk).trans_le hdiv, fun _ _ _ => ?_⟩
    exact (not_not.mp hdue).symm

/-- Time that passes without a look. -/
theorem Sound.wait {r : Reader} {last t : ℕ} (h : r.Sound n last) (hlast : last ≤ t) :
    r.Sound n t := by
  have hdiv : last / n ≤ t / n := Nat.div_le_div_right hlast
  refine ⟨h.half_lt, h.sorted, fun k hk => (h.lt k hk).trans_le hdiv, fun k hk heq => ?_⟩
  have hlt := h.lt k hk
  have hsame : last / n = t / n := by omega
  exact hsame ▸ h.turn k hk (by omega)

/-- After a look it is the turn of the half in which the device is. -/
theorem half_look {r : Reader} (hhalf : r.half < 2) (t : ℕ) : (r.look n t).half = t / n % 2 := by
  have hmod : t / n % 2 < 2 := Nat.mod_lt _ Nat.two_pos
  rw [look]
  split
  case isTrue hdue =>
    have hdue : t / n % 2 ≠ r.half := hdue
    show 1 - r.half = t / n % 2
    omega
  case isFalse hdue => exact (not_not.mp hdue).symm

/-- **A look that is not later than `n` items after the last one** takes the blocks that were
completed since then. -/
theorem blocks_look {r : Reader} {last t : ℕ} (hturn : r.half = last / n % 2) (hlast : last ≤ t)
    (hsoon : t ≤ last + n) (hpos : 0 < n) :
    (r.look n t).blocks = r.blocks ++ List.range' (last / n) (t / n - last / n) := by
  have hdiv : last / n ≤ t / n := Nat.div_le_div_right hlast
  have hnext : t / n ≤ last / n + 1 := by
    rw [← Nat.add_div_right last hpos]
    exact Nat.div_le_div_right hsoon
  rw [look]
  split
  case isTrue hdue =>
    have hdue : t / n % 2 ≠ r.half := hdue
    have hone : t / n = last / n + 1 := by
      rw [hturn] at hdue
      by_contra hne
      exact hdue (by rw [show t / n = last / n by omega])
    rw [hone, Nat.add_sub_cancel, Nat.add_sub_cancel_left, List.range'_one]
  case isFalse hdue =>
    have hdue : t / n % 2 = r.half := not_not.mp hdue
    have hsame : t / n = last / n := by omega
    rw [hsame, Nat.sub_self, List.range'_zero, List.append_nil]

end Reader

end TcBle.Foundation.DoubleBuffer
