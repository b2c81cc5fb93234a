import Mathlib.Algebra.Ring.Nat
import Mathlib.Data.List.GetD
import Mathlib.Data.Nat.Prime.Basic
import Mathlib.Logic.Function.Basic
import Mathlib.Order.Nat
import Mathlib.Tactic.Common
import TcBle.Foundation.CyclicRing

/-!
# Ring buffers on eight-bit counters

A ring of slots with a write counter and a read counter that run freely through the
eight-bit numbers; a counter is taken modulo the number of slots, a power of two, to
find its slot. `Holds` says what such a ring is for: it is the end of a growing list,
from the first element that has not been released. What such a ring keeps is what one on
counters of any period keeps, at the period `2 ^ 8`.

## What is proved

* `Holds.push` and `Holds.release` — writing and releasing keep the ring the end of the
  list.
* `Holds.get` and `Holds.count` — an element that has not been released is in its slot,
  and the difference of the counters is how many there are.
* `waiting_push`, `waiting_read` and `waiting_push_full` — what is written and not released, as a
  queue: writing adds to its end, and releasing takes its first element away.
-/

namespace TcBle.Foundation

/-- A ring of slots with its two counters. -/
structure RingBuffer (α : Type*) where
  /-- The number of slots. -/
  num : ℕ
  /-- It is a power of two that an eight-bit number holds. -/
  num_dvd : num ∣ 128
  /-- The slots. -/
  slots : ℕ → α
  /-- The write counter. -/
  wptr : ℕ
  /-- The read counter. -/
  rptr : ℕ

/-- A number of slots that the examples of such a ring have. -/
theorem eight_dvd : 8 ∣ 128 := by decide

namespace RingBuffer

variable {α : Type*}

/-- The slot that counter `r` is at. -/
def get (q : RingBuffer α) (r : ℕ) : α := q.slots (r % q.num)

/-- How many slots are written and not released. -/
def count (q : RingBuffer α) : ℕ := (q.wptr + (2 ^ 8 - q.rptr)) % 2 ^ 8

/-- Write a slot. -/
def push (q : RingBuffer α) (x : α) : RingBuffer α :=
  { q with slots := Function.update q.slots (q.wptr % q.num) x, wptr := (q.wptr + 1) % 2 ^ 8 }

/-- Release `n` slots. -/
def release (q : RingBuffer α) (n : ℕ) : RingBuffer α := { q with rptr := (q.rptr + n) % 2 ^ 8 }

/-- Empty the ring: both counters go back to zero. -/
def reset (q : RingBuffer α) : RingBuffer α := { q with wptr := 0, rptr := 0 }

@[simp] theorem push_num (q : RingBuffer α) (x : α) : (q.push x).num = q.num := rfl
@[simp] theorem push_rptr (q : RingBuffer α) (x : α) : (q.push x).rptr = q.rptr := rfl
@[simp] theorem push_wptr (q : RingBuffer α) (x : α) : (q.push x).wptr = (q.wptr + 1) % 2 ^ 8 := rfl
@[simp] theorem release_num (q : RingBuffer α) (n : ℕ) : (q.release n).num = q.num := rfl
@[simp] theorem release_slots (q : RingBuffer α) (n : ℕ) : (q.release n).slots = q.slots := rfl
@[simp] theorem release_wptr (q : RingBuffer α) (n : ℕ) : (q.release n).wptr = q.wptr := rfl
@[simp] theorem release_rptr (q : RingBuffer α) (n : ℕ) :
    (q.release n).rptr = (q.rptr + n) % 2 ^ 8 := rfl
@[simp] theorem reset_num (q : RingBuffer α) : q.reset.num = q.num := rfl
@[simp] theorem reset_wptr (q : RingBuffer α) : q.reset.wptr = 0 := rfl
@[simp] theorem reset_rptr (q : RingBuffer α) : q.reset.rptr = 0 := rfl

theorem num_pos (q : RingBuffer α) : 0 < q.num := Nat.pos_of_dvd_of_pos q.num_dvd (by decide)

theorem num_le (q : RingBuffer α) : q.num ≤ 128 := Nat.le_of_dvd (by decide) q.num_dvd

/-- Taking a counter modulo `2 ^ 8` does not change its slot. -/
theorem mod_num (q : RingBuffer α) (n : ℕ) : n % 2 ^ 8 % q.num = n % q.num :=
  Nat.mod_mod_of_dvd n (Nat.dvd_trans q.num_dvd (by simp))

/-- A mask takes a counter modulo the number of slots. -/
theorem and_mask (q : RingBuffer α) (n : ℕ) : n &&& (q.num - 1) = n % q.num := by
  obtain ⟨k, -, hk⟩ := (Nat.dvd_prime_pow Nat.prime_two).mp (show q.num ∣ 2 ^ 7 from q.num_dvd)
  rw [hk, Nat.and_two_pow_sub_one_eq_mod]

/-- **The ring is the end of the list `log`**, from element `rel` on. -/
structure Holds (q : RingBuffer α) (log : List α) (rel : ℕ) : Prop where
  /-- The write counter is at the end of the list. -/
  wptr : q.wptr = log.length % 2 ^ 8
  /-- The read counter is at the first element not released. -/
  rptr : q.rptr = rel % 2 ^ 8
  /-- No more is released than was written. -/
  released : rel ≤ log.length
  /-- No more is held than there are slots. -/
  room : log.length ≤ rel + q.num
  /-- What is held is in its slot. -/
  slots : ∀ i (h : i < log.length), rel ≤ i → q.get i = log.get ⟨i, h⟩

variable {q : RingBuffer α} {log : List α} {rel : ℕ}

theorem num_dvd_period (q : RingBuffer α) : q.num ∣ 2 ^ 8 := Nat.dvd_trans q.num_dvd (by decide)

/-- The ring holds the end of the list. -/
theorem Holds.ring (h : q.Holds log rel) :
    CyclicRing.Holds q.num (2 ^ 8) q.slots q.wptr q.rptr (log.drop rel) where
  rptr_lt := by
    rw [h.rptr]
    exact Nat.mod_lt _ (by simp)
  wptr := by
    rw [h.rptr, h.wptr, Nat.mod_add_mod, List.length_drop, Nat.add_sub_cancel' h.released]
  room := by
    rw [List.length_drop]
    exact Nat.sub_le_iff_le_add'.mpr h.room
  slots k hk := by
    rw [List.length_drop] at hk
    have hslot := h.slots (rel + k) (by omega) (Nat.le_add_right _ _)
    rw [RingBuffer.get, List.get_eq_getElem] at hslot
    rw [List.getElem_drop, ← hslot, h.rptr, ← mod_num q (_ + k), Nat.mod_add_mod, mod_num]

/-- A ring that holds the end of a list, and that is so far in it. -/
theorem holds_of_ring (hring : CyclicRing.Holds q.num (2 ^ 8) q.slots q.wptr q.rptr (log.drop rel))
    (hrptr : q.rptr = rel % 2 ^ 8) (hrel : rel ≤ log.length) : q.Holds log rel where
  wptr := by
    rw [hring.wptr, hrptr, Nat.mod_add_mod, List.length_drop, Nat.add_sub_cancel' hrel]
  rptr := hrptr
  released := hrel
  room := by
    have hroom := hring.room
    rw [List.length_drop] at hroom
    exact Nat.sub_le_iff_le_add'.mp hroom
  slots i hi hri := by
    have hslot := hring.slots (i - rel) (by rw [List.length_drop]; omega)
    rw [hrptr, ← mod_num q (_ + (i - rel)), Nat.mod_add_mod, mod_num,
      Nat.add_sub_cancel' hri] at hslot
    rw [RingBuffer.get, hslot, List.getElem_drop, List.get_eq_getElem]
    congr 1
    exact Nat.add_sub_cancel' hri

theorem Holds.length_lt (h : q.Holds log rel) : (log.drop rel).length < 2 ^ 8 :=
  Nat.lt_of_le_of_lt (h.ring.room.trans q.num_le) (by simp)

/-- The difference of the counters is how many elements are held. -/
theorem Holds.count (h : q.Holds log rel) : q.count = log.length - rel :=
  (h.ring.count h.length_lt).trans List.length_drop

/-- The slot that a counter is at, some places after the read counter. -/
theorem Holds.get_rptr (h : q.Holds log rel) {w : ℕ} (hw : rel + w < log.length) :
    q.get ((q.rptr + w) % 2 ^ 8) = log.get ⟨rel + w, hw⟩ := by
  have hslot := h.ring.slots w (by rw [List.length_drop]; omega)
  rw [List.getElem_drop] at hslot
  rw [RingBuffer.get, mod_num, hslot, List.get_eq_getElem]

/-- Two elements held at once are in different slots. -/
theorem slot_ne {i j n : ℕ} (hij : i < j) (hj : j < i + n) : j % n ≠ i % n := by
  intro h
  have hdvd : n ∣ j - i := Nat.dvd_of_mod_eq_zero (Nat.sub_mod_eq_zero_of_mod_eq h)
  have := Nat.le_of_dvd (by omega) hdvd
  omega

/-- Writing a slot of a ring that is not full. -/
theorem Holds.push (h : q.Holds log rel) (hroom : q.count < q.num) (x : α) :
    (q.push x).Holds (log ++ [x]) rel := by
  rw [h.count, ← List.length_drop] at hroom
  have hring := h.ring.push q.num_dvd_period hroom x
  rw [← List.drop_append_of_le_length h.released] at hring
  refine holds_of_ring hring h.rptr (h.released.trans ?_)
  rw [List.length_append]
  exact Nat.le_add_right _ _

/-- Releasing elements that are held. -/
theorem Holds.release (h : q.Holds log rel) {n : ℕ} (hn : rel + n ≤ log.length) :
    (q.release n).Holds log (rel + n) := by
  have hring := h.ring.drop q.num_dvd_period (n := n) (by rw [List.length_drop]; omega)
  rw [List.drop_drop] at hring
  refine holds_of_ring hring ?_ hn
  rw [release_rptr, h.rptr, Nat.mod_add_mod]

/-- The counters are equal exactly when everything is released. -/
theorem Holds.empty_iff (h : q.Holds log rel) : q.wptr = q.rptr ↔ rel = log.length := by
  rw [h.ring.eq_nil_iff h.length_lt, List.drop_eq_nil_iff]
  exact ⟨fun hle => Nat.le_antisymm h.released hle, fun heq => heq.ge⟩

/-- Reading the first element that is held, and releasing it. -/
theorem Holds.read (h : q.Holds log rel) (hne : q.wptr ≠ q.rptr) : ∃ hlt : rel < log.length,
    q.get q.rptr = log.get ⟨rel, hlt⟩ ∧ (q.release 1).Holds log (rel + 1) := by
  have hlt : rel < log.length := lt_of_le_of_ne h.released fun heq => hne (h.empty_iff.mpr heq)
  refine ⟨hlt, ?_, h.release hlt⟩
  have hget := h.get_rptr (w := 0) hlt
  rw [Nat.add_zero, h.rptr, Nat.mod_mod, ← h.rptr] at hget
  exact hget

/-- What has been read goes on with the next element. -/
theorem prefix_concat {l log : List α} (h : l <+: log) (hlt : l.length < log.length) :
    l ++ [log.get ⟨l.length, hlt⟩] <+: log := by
  obtain ⟨rest, rfl⟩ := h
  cases rest with
  | nil => simp at hlt
  | cons x rest => exact ⟨rest, by simp⟩

/-! ### As a queue -/

/-- What is written and not released, the oldest first. -/
def waiting (q : RingBuffer α) : List α := (List.range q.count).map fun k => q.get (q.rptr + k)

@[simp] theorem length_waiting (q : RingBuffer α) : q.waiting.length = q.count := by simp [waiting]

/-- The queue is what the ring holds, unless it was written too often. -/
theorem holds_waiting (hw : q.wptr < 2 ^ 8) (hr : q.rptr < 2 ^ 8) (hle : q.count ≤ q.num) :
    CyclicRing.Holds q.num (2 ^ 8) q.slots q.wptr q.rptr q.waiting where
  rptr_lt := hr
  wptr := by
    rw [length_waiting, RingBuffer.count]
    omega
  room := by rwa [length_waiting]
  slots k hk := by
    simp only [waiting, List.getElem_map, List.getElem_range]
    rfl

theorem waiting_eq {items : List α}
    (h : CyclicRing.Holds q.num (2 ^ 8) q.slots q.wptr q.rptr items) : q.waiting = items := by
  have hcount : q.count = items.length :=
    h.count (Nat.lt_of_le_of_lt (h.room.trans q.num_le) (by simp))
  refine List.ext_getElem (by rw [length_waiting, hcount]) fun k _ hk => ?_
  simp only [waiting, List.getElem_map, List.getElem_range]
  exact h.slots k hk

theorem count_push (q : RingBuffer α) (x : α) (h : q.count < q.num) :
    (q.push x).count = q.count + 1 := by
  have hnum := q.num_le
  simp only [RingBuffer.count, push_wptr, push_rptr] at h ⊢
  omega

/-- Writing adds to the end. -/
theorem waiting_push (hw : q.wptr < 2 ^ 8) (hr : q.rptr < 2 ^ 8) (h : q.count < q.num) (x : α) :
    (q.push x).waiting = q.waiting ++ [x] := by
  have hring := holds_waiting hw hr h.le
  rw [← length_waiting] at h
  exact waiting_eq (q := q.push x) (hring.push q.num_dvd_period h x)

/-- Reading the first element and releasing it. -/
theorem waiting_read (hw : q.wptr < 2 ^ 8) (hr : q.rptr < 2 ^ 8) (hne : q.wptr ≠ q.rptr) :
    q.waiting = q.get q.rptr :: (q.release 1).waiting := by
  have hcount : q.count = (q.release 1).count + 1 := by
    simp only [RingBuffer.count, release_wptr, release_rptr]
    omega
  rw [waiting, hcount, List.range_succ_eq_map, List.map_cons, List.map_map]
  congr 1
  refine List.map_congr_left fun k _ => ?_
  simp only [Function.comp, RingBuffer.get, release_slots, release_rptr, release_num]
  rw [← mod_num q (_ + k), Nat.mod_add_mod, mod_num, Nat.add_assoc, Nat.add_comm 1 k]

/-- Writing into a full ring, and releasing the oldest element. -/
theorem waiting_push_full (hw : q.wptr < 2 ^ 8) (hr : q.rptr < 2 ^ 8) (h : q.count = q.num)
    (x : α) :
    ((q.push x).release 1).waiting = q.waiting.tail ++ [x] := by
  have hring := holds_waiting hw hr h.le
  rw [← length_waiting] at h
  exact waiting_eq (q := (q.push x).release 1) (hring.shove q.num_dvd_period q.num_pos h x)

/-- An emptied ring is the end of the empty list. -/
theorem holds_reset (q : RingBuffer α) : q.reset.Holds [] 0 :=
  ⟨rfl, rfl, Nat.le_refl _, Nat.zero_le _, fun _ h => absurd h (Nat.not_lt_zero _)⟩

end RingBuffer

end TcBle.Foundation
