import Mathlib.Data.List.Basic
import Mathlib.Data.Nat.ModEq
import Mathlib.Logic.Function.Basic
import Mathlib.Tactic.Common

/-!
# Rings on counters of any period

A ring of `num` slots with a write and a read counter that run through the numbers below `period`, a
multiple of `num`; a counter is taken modulo `num` to find its slot. `Holds` says which items are in
the ring, the oldest first. Where the period is above the number of slots, the counters tell a full
ring from an empty one.

## What is proved

* `Holds.write` and `Holds.push` — writing slots that are free adds to the end of the items.
* `Holds.drop` — moving the read counter takes items away at the front.
* `Holds.count`, `Holds.eq_nil_iff` — what the counters tell.
* `Holds.shove` — writing a slot of a full ring, and giving up the oldest item.
-/

namespace TcBle.Foundation.CyclicRing

variable {α : Type*}

/-- The items that are in the ring. -/
structure Holds (num period : ℕ) (slots : ℕ → α) (w r : ℕ) (items : List α) : Prop where
  /-- The read counter is one. -/
  rptr_lt : r < period
  /-- The write counter is behind the items. -/
  wptr : w = (r + items.length) % period
  /-- They fit. -/
  room : items.length ≤ num
  /-- Each is in its slot. -/
  slots : ∀ k (h : k < items.length), slots ((r + k) % num) = items[k]

variable {num period : ℕ} {slots slots' : ℕ → α} {w r : ℕ} {items : List α}

/-- An empty ring. -/
theorem holds_nil (hr : r < period) : Holds num period slots r r [] where
  rptr_lt := hr
  wptr := (Nat.mod_eq_of_lt hr).symm
  room := Nat.zero_le _
  slots _ h := absurd h (Nat.not_lt_zero _)

theorem Holds.wptr_lt (h : Holds num period slots w r items) : w < period := by
  rw [h.wptr]
  exact Nat.mod_lt _ (Nat.zero_lt_of_lt h.rptr_lt)

/-- **How many** items there are, if the period is above that. -/
theorem Holds.count (h : Holds num period slots w r items) (hlt : items.length < period) :
    (w + (period - r)) % period = items.length := by
  have hr := h.rptr_lt
  rw [h.wptr, Nat.mod_add_mod, show r + items.length + (period - r) = items.length + period by omega,
    Nat.add_mod_right, Nat.mod_eq_of_lt hlt]

/-- The counters are equal exactly if there is no item, if the period is above the number of items. -/
theorem Holds.eq_nil_iff (h : Holds num period slots w r items) (hlt : items.length < period) :
    w = r ↔ items = [] := by
  rw [← List.length_eq_zero_iff]
  constructor
  · rintro rfl
    have hcount := h.count hlt
    rw [Nat.add_sub_cancel' h.rptr_lt.le, Nat.mod_self] at hcount
    exact hcount.symm
  · intro hzero
    rw [h.wptr, hzero, Nat.add_zero, Nat.mod_eq_of_lt h.rptr_lt]

section Slots

variable (hdvd : num ∣ period)

include hdvd

/-- The slot of a counter that has gone around. -/
theorem mod_period (n : ℕ) : n % period % num = n % num := Nat.mod_mod_of_dvd n hdvd

/-- **Writing** the slots behind the items. -/
theorem Holds.write (h : Holds num period slots w r items) {xs : List α}
    (hroom : items.length + xs.length ≤ num)
    (hnew : ∀ k (hk : k < xs.length), slots' ((w + k) % num) = xs[k])
    (hold : ∀ p, (∀ k < xs.length, p ≠ (w + k) % num) → slots' p = slots p) :
    Holds num period slots' ((w + xs.length) % period) r (items ++ xs) where
  rptr_lt := h.rptr_lt
  wptr := by rw [h.wptr, Nat.mod_add_mod, List.length_append, Nat.add_assoc]
  room := by rwa [List.length_append]
  slots k hk := by
    have hslot : ∀ j, (w + j) % num = (r + (items.length + j)) % num := fun j => by
      rw [h.wptr, ← mod_period hdvd (_ % period + j), Nat.mod_add_mod, mod_period hdvd, Nat.add_assoc]
    rw [List.length_append] at hk
    by_cases hlt : k < items.length
    · rw [List.getElem_append_left hlt, ← h.slots k hlt]
      refine hold _ fun j hj heq => ?_
      -- two items that are in the ring at once have different slots
      rw [hslot] at heq
      have hmod : k ≡ items.length + j [MOD num] := Nat.ModEq.add_left_cancel' r heq
      have := Nat.ModEq.eq_of_lt_of_lt hmod (by omega) (by omega)
      omega
    · rw [List.getElem_append_right (by omega), ← hnew (k - items.length) (by omega), hslot,
        Nat.add_sub_cancel' (not_lt.mp hlt)]

/-- Writing one slot. -/
theorem Holds.push (h : Holds num period slots w r items) (hroom : items.length < num) (x : α) :
    Holds num period (Function.update slots (w % num) x) ((w + 1) % period) r (items ++ [x]) := by
  have hone : items.length + [x].length ≤ num := hroom
  refine h.write hdvd hone (fun k hk => ?_) fun p hp => ?_
  · obtain rfl : k = 0 := Nat.lt_one_iff.mp hk
    exact Function.update_self _ _ _
  · exact Function.update_of_ne (hp 0 Nat.one_pos) _ _

/-- **Giving up** the oldest items. -/
theorem Holds.drop (h : Holds num period slots w r items) {n : ℕ} (hn : n ≤ items.length) :
    Holds num period slots w ((r + n) % period) (items.drop n) where
  rptr_lt := Nat.mod_lt _ (Nat.zero_lt_of_lt h.rptr_lt)
  wptr := by
    rw [Nat.mod_add_mod, List.length_drop, Nat.add_assoc, Nat.add_sub_cancel' hn]
    exact h.wptr
  room := by
    rw [List.length_drop]
    exact (Nat.sub_le _ _).trans h.room
  slots k hk := by
    rw [List.length_drop] at hk
    rw [List.getElem_drop, ← h.slots (n + k) (by omega), ← mod_period hdvd (_ % period + k),
      Nat.mod_add_mod, mod_period hdvd, Nat.add_assoc]

/-- **Writing a slot of a full ring**, and giving up the oldest item. -/
theorem Holds.shove (h : Holds num period slots w r items) (hnum : 0 < num)
    (hfull : items.length = num) (x : α) :
    Holds num period (Function.update slots (w % num) x) ((w + 1) % period) ((r + 1) % period)
      (items.tail ++ [x]) := by
  rw [← List.drop_one]
  refine (h.drop hdvd (n := 1) (hfull ▸ hnum)).push hdvd ?_ x
  rw [List.length_drop, hfull]
  exact Nat.sub_lt hnum Nat.one_pos

end Slots

end TcBle.Foundation.CyclicRing
