import Mathlib.Algebra.Ring.Nat
import Mathlib.Logic.Function.Iterate
import Mathlib.Tactic.Common

/-!
# Reflected cyclic redundancy checks

A remainder of `w` bits moved down one place at a time, with the polynomial `poly`
added whenever a one falls out; a byte is added to the low end of the remainder and
then moved through in eight places. This is the bitwise loop of every reflected
CRC, whatever its width, polynomial and initial value.

## What is proved

* `crc_append` — the check of two pieces of data is that of the second from that of the first.
* `crc_injective` — when the polynomial has its top bit, two different initial values
  give different checks of the same data, whatever the data.
* `crc_trailer_iff` — data with a trailer that fits the remainder leaves zero exactly when the
  trailer, read as a little-endian number, is the check of the data.
* `byteStep_eq_tableSteps` — a byte is moved through by two steps with a table of sixteen entries.
-/

namespace TcBle.Foundation.Crc

variable {w : ℕ} (poly : BitVec w)

/-- One place down. -/
def shift (c : BitVec w) : BitVec w := if c.getLsbD 0 then (c >>> 1) ^^^ poly else c >>> 1

/-- One place down, where the bit that falls out is masked. -/
theorem shift_eq_ite (hw : 0 < w) (c : BitVec w) :
    shift poly c = if c &&& 1#w = 1#w then (c >>> 1) ^^^ poly else c >>> 1 := by
  have hlow : c &&& 1#w = 1#w ↔ c.getLsbD 0 = true := by
    constructor
    · intro h
      have := congrArg (fun c => c.getLsbD 0) h
      simpa [hw] using this
    · intro h
      refine BitVec.eq_of_getLsbD_eq fun i hi => ?_
      cases i with
      | zero => simp [h]
      | succ i => simp [BitVec.getLsbD_one]
  unfold shift
  rw [if_congr hlow rfl rfl]

/-- A byte: added to the low end, then moved through. -/
def byteStep (c : BitVec w) (b : UInt8) : BitVec w :=
  (shift poly)^[8] (c ^^^ b.toBitVec.setWidth w)

/-- The check of `data` from the initial value `init`. -/
def crc (init : BitVec w) (data : List UInt8) : BitVec w := data.foldl (byteStep poly) init

@[simp] theorem crc_nil (init : BitVec w) : crc poly init [] = init := rfl

@[simp] theorem crc_cons (init : BitVec w) (b : UInt8) (data : List UInt8) :
    crc poly init (b :: data) = crc poly (byteStep poly init b) data := rfl

/-- The check of two pieces on end. -/
theorem crc_append (init : BitVec w) (xs ys : List UInt8) :
    crc poly init (xs ++ ys) = crc poly (crc poly init xs) ys := List.foldl_append

/-- Zeros leave a remainder of zero. -/
theorem crc_zeros (n : ℕ) : crc poly 0 (List.replicate n 0) = 0 := by
  have hshift : shift poly 0 = 0 := by simp [shift]
  induction n with
  | zero => rfl
  | succ n ih =>
    rw [List.replicate_succ, crc_cons, byteStep]
    rw [show (0 : BitVec w) ^^^ (0 : UInt8).toBitVec.setWidth w = 0 by simp,
      Function.iterate_fixed hshift, ih]

variable {poly}

/-- The top bit of a shifted remainder is the bit that fell out. -/
theorem msb_shift (hp : poly.msb = true) (c : BitVec w) : (shift poly c).msb = c.getLsbD 0 := by
  have hw : w ≠ 0 := by
    rintro rfl
    simp [BitVec.msb_zero_length] at hp
  unfold shift
  cases h : c.getLsbD 0 <;> simp [BitVec.msb_ushiftRight, hp]

/-- With a polynomial that has its top bit, no two remainders go to the same one: the
top bit tells whether the polynomial was added, and the rest is the remainder but for
the bit that fell out. -/
theorem shift_injective (hp : poly.msb = true) : Function.Injective (shift poly) := by
  intro a b hab
  have hlow : a.getLsbD 0 = b.getLsbD 0 := by rw [← msb_shift hp, ← msb_shift hp, hab]
  have hhigh : a >>> 1 = b >>> 1 := by
    unfold shift at hab
    rw [hlow] at hab
    split at hab
    · exact (BitVec.xor_left_inj _).mp hab
    · exact hab
  refine BitVec.eq_of_getLsbD_eq fun i _ => ?_
  cases i with
  | zero => exact hlow
  | succ i =>
    have := congrArg (fun c => c.getLsbD i) hhigh
    simpa [BitVec.getLsbD_ushiftRight, Nat.add_comm] using this

theorem byteStep_injective (hp : poly.msb = true) (b : UInt8) :
    Function.Injective fun c => byteStep poly c b := by
  intro c d h
  exact (BitVec.xor_left_inj _).mp (((shift_injective hp).iterate 8) h)

/-- **Different initial values give different checks**, whatever the data. -/
theorem crc_injective (hp : poly.msb = true) (data : List UInt8) :
    Function.Injective fun init => crc poly init data := by
  induction data with
  | nil => exact Function.injective_id
  | cons b data ih => exact ih.comp (byteStep_injective hp b)

/-! ### Trailers -/

/-- A sum is moved down as its parts are. -/
theorem shift_xor (a b : BitVec w) : shift poly (a ^^^ b) = shift poly a ^^^ shift poly b := by
  unfold shift
  rw [BitVec.getLsbD_xor, BitVec.ushiftRight_xor_distrib]
  cases a.getLsbD 0 <;> cases b.getLsbD 0 <;> simp [BitVec.xor_assoc, BitVec.xor_comm poly]

theorem iterate_shift_xor (n : ℕ) (a b : BitVec w) :
    (shift poly)^[n] (a ^^^ b) = (shift poly)^[n] a ^^^ (shift poly)^[n] b := by
  induction n generalizing a b with
  | zero => rfl
  | succ n ih => rw [Function.iterate_succ_apply, shift_xor, ih]; rfl

/-- Zeros fall out without a trace. -/
theorem iterate_shift_of_low {n : ℕ} {c : BitVec w} (h : ∀ i < n, c.getLsbD i = false) :
    (shift poly)^[n] c = c >>> n := by
  induction n generalizing c with
  | zero => simp
  | succ n ih =>
    have hlow : shift poly c = c >>> 1 := by
      rw [shift, h 0 (Nat.zero_lt_succ n)]
      rfl
    have hrest : ∀ i < n, (c >>> 1).getLsbD i = false := by
      intro i hi
      rw [BitVec.getLsbD_ushiftRight, Nat.add_comm]
      exact h (i + 1) (by omega)
    rw [Function.iterate_succ_apply, hlow, ih hrest, ← BitVec.shiftRight_add, Nat.add_comm]

/-- The little-endian number of some bytes. -/
def word : List UInt8 → BitVec w
  | [] => 0
  | b :: bs => b.toBitVec.setWidth w ^^^ (word bs <<< 8)

/-- It has no bits beyond the bytes. -/
theorem getLsbD_word_of_le {bs : List UInt8} {i : ℕ} (h : 8 * bs.length ≤ i) :
    (word bs : BitVec w).getLsbD i = false := by
  induction bs generalizing i with
  | nil => simp [word]
  | cons b bs ih =>
    rw [List.length_cons] at h
    have hb : b.toBitVec.getLsbD i = false := BitVec.getLsbD_of_ge _ _ (by omega)
    rw [word, BitVec.getLsbD_xor, BitVec.getLsbD_setWidth, hb, BitVec.getLsbD_shiftLeft,
      ih (by omega)]
    simp

/-- The low byte of a number in front of the others. -/
theorem word_low_cons {x : BitVec w} {bs : List UInt8} (h : word bs = x >>> 8) :
    word (⟨x.setWidth 8⟩ :: bs) = x := by
  refine BitVec.eq_of_getLsbD_eq fun i hi => ?_
  rw [word, h, BitVec.getLsbD_xor, BitVec.getLsbD_setWidth, BitVec.getLsbD_setWidth,
    BitVec.getLsbD_shiftLeft, BitVec.getLsbD_ushiftRight]
  by_cases h8 : i < 8
  · simp [hi, h8]
  · simp [hi, h8, show 8 + (i - 8) = i by omega]

/-- The first byte is the low one, -/
theorem setWidth_word_cons (h : 8 ≤ w) (b : UInt8) (bs : List UInt8) :
    (word (b :: bs) : BitVec w).setWidth 8 = b.toBitVec := by
  refine BitVec.eq_of_getLsbD_eq fun i hi => ?_
  rw [word, BitVec.getLsbD_setWidth, BitVec.getLsbD_xor, BitVec.getLsbD_setWidth,
    BitVec.getLsbD_shiftLeft]
  simp [hi, show i < w by omega]

/-- and the others are above it. -/
theorem word_cons_ushiftRight {bs : List UInt8} (h : 8 * (bs.length + 1) ≤ w) (b : UInt8) :
    (word (b :: bs) : BitVec w) >>> 8 = word bs := by
  refine BitVec.eq_of_getLsbD_eq fun i hi => ?_
  have hb : b.toBitVec.getLsbD (8 + i) = false := BitVec.getLsbD_of_ge _ _ (by omega)
  rw [word, BitVec.getLsbD_ushiftRight, BitVec.getLsbD_xor, BitVec.getLsbD_setWidth, hb,
    BitVec.getLsbD_shiftLeft, Nat.add_sub_cancel_left]
  by_cases hroom : 8 + i < w
  · simp [hroom]
  · rw [getLsbD_word_of_le (by omega)]
    simp

/-- A number moved up by a byte comes down again, when it has room. -/
theorem iterate_shift_shiftLeft {c : BitVec w} (h : ∀ i, w ≤ i + 8 → c.getLsbD i = false) :
    (shift poly)^[8] (c <<< 8) = c := by
  have hlow : ∀ i < 8, (c <<< 8).getLsbD i = false := by
    intro i hi
    simp [BitVec.getLsbD_shiftLeft, hi]
  rw [iterate_shift_of_low hlow]
  refine BitVec.eq_of_getLsbD_eq fun i hi => ?_
  rw [BitVec.getLsbD_ushiftRight, BitVec.getLsbD_shiftLeft, Nat.add_sub_cancel_left]
  by_cases hroom : 8 + i < w
  · simp [hroom]
  · rw [h i (by omega)]
    simp

/-- **Bytes that fit the remainder** are added to it as one number and moved through. -/
theorem crc_eq_iterate {bs : List UInt8} (h : 8 * bs.length ≤ w) (init : BitVec w) :
    crc poly init bs = (shift poly)^[8 * bs.length] (init ^^^ word bs) := by
  induction bs generalizing init with
  | nil => simp [word]
  | cons b bs ih =>
    rw [List.length_cons] at h ⊢
    have hroom : (shift poly)^[8] ((word bs : BitVec w) <<< 8) = word bs :=
      iterate_shift_shiftLeft fun i hi => getLsbD_word_of_le (by omega)
    calc crc poly init (b :: bs)
        = (shift poly)^[8 * bs.length] (byteStep poly init b ^^^ word bs) := by
          rw [crc_cons, ih (by omega)]
      _ = (shift poly)^[8 * bs.length]
            ((shift poly)^[8] (init ^^^ b.toBitVec.setWidth w ^^^ (word bs <<< 8))) := by
          rw [iterate_shift_xor 8, hroom, byteStep]
      _ = (shift poly)^[8 * (bs.length + 1)] (init ^^^ word (b :: bs)) := by
          rw [← Function.iterate_add_apply, word, BitVec.xor_assoc, Nat.mul_succ]

/-- **The trailer of some data leaves zero exactly when it is their check.** -/
theorem crc_trailer_iff (hp : poly.msb = true) {t : List UInt8} (ht : 8 * t.length ≤ w)
    (init : BitVec w) (data : List UInt8) :
    crc poly init (data ++ t) = 0 ↔ word t = crc poly init data := by
  have hzero : (shift poly)^[8 * t.length] 0 = 0 := by
    rw [iterate_shift_of_low (by simp)]
    simp
  rw [crc_append, crc_eq_iterate ht]
  constructor
  · intro h
    have hsum := ((shift_injective hp).iterate _) (h.trans hzero.symm)
    exact (BitVec.xor_eq_zero_iff.mp hsum).symm
  · intro h
    rw [h, BitVec.xor_self]
    exact hzero

/-! ### Tables -/

/-- `k` places in one step, with a table of what becomes of the bits that fall out. -/
def tableStep {k : ℕ} (table : BitVec k → BitVec w) (c : BitVec w) (n : BitVec k) : BitVec w :=
  (c >>> k) ^^^ table ((c ^^^ n.setWidth w).setWidth k)

/-- `k` places down: the bits that fall out leave their trace, the others move. -/
theorem iterate_shift_split {k : ℕ} (hk : k ≤ w) (c : BitVec w) :
    (shift poly)^[k] c = (c >>> k) ^^^ (shift poly)^[k] ((c.setWidth k).setWidth w) := by
  set low := (c.setWidth k).setWidth w with hlow
  have hbit : ∀ i, low.getLsbD i = (decide (i < k) && c.getLsbD i) := by
    intro i
    rw [hlow, BitVec.getLsbD_setWidth, BitVec.getLsbD_setWidth]
    by_cases hi : i < k
    · simp [hi, show i < w by omega]
    · simp [hi]
  have hhigh : ∀ i < k, (c ^^^ low).getLsbD i = false := by
    intro i hi
    rw [BitVec.getLsbD_xor, hbit]
    simp [hi]
  have hmove : (c ^^^ low) >>> k = c >>> k := by
    refine BitVec.eq_of_getLsbD_eq fun i _ => ?_
    rw [BitVec.getLsbD_ushiftRight, BitVec.getLsbD_ushiftRight, BitVec.getLsbD_xor, hbit,
      decide_eq_false (show ¬k + i < k by omega), Bool.false_and, Bool.xor_false]
  calc (shift poly)^[k] c
      = (shift poly)^[k] (c ^^^ low ^^^ low) := by rw [BitVec.xor_assoc, BitVec.xor_self]; simp
    _ = (c >>> k) ^^^ (shift poly)^[k] low := by
        rw [iterate_shift_xor, iterate_shift_of_low hhigh, hmove]

/-- **A step with the table** adds its bits to the low end and moves them through. -/
theorem tableStep_eq {k : ℕ} (hk : k ≤ w) {table : BitVec k → BitVec w}
    (htable : ∀ x, table x = (shift poly)^[k] (x.setWidth w)) (c : BitVec w) (n : BitVec k) :
    tableStep table c n = (shift poly)^[k] (c ^^^ n.setWidth w) := by
  have hmove : (c ^^^ n.setWidth w) >>> k = c >>> k := by
    refine BitVec.eq_of_getLsbD_eq fun i _ => ?_
    rw [BitVec.getLsbD_ushiftRight, BitVec.getLsbD_ushiftRight, BitVec.getLsbD_xor,
      BitVec.getLsbD_setWidth, BitVec.getLsbD_of_ge n (k + i) (by omega)]
    simp
  rw [tableStep, htable, iterate_shift_split hk (c ^^^ n.setWidth w), hmove]

/-- **A byte in two steps**, of four bits each. -/
theorem byteStep_eq_tableSteps (hw : 8 ≤ w) {table : BitVec 4 → BitVec w}
    (htable : ∀ x, table x = (shift poly)^[4] (x.setWidth w)) (c : BitVec w) (b : UInt8) :
    byteStep poly c b = tableStep table (tableStep table c (b.toBitVec.setWidth 4))
      ((b.toBitVec >>> 4).setWidth 4) := by
  have hsplit : b.toBitVec.setWidth w = (b.toBitVec.setWidth 4).setWidth w ^^^
      (((b.toBitVec >>> 4).setWidth 4).setWidth w <<< 4) := by
    refine BitVec.eq_of_getLsbD_eq fun i hi => ?_
    simp only [BitVec.getLsbD_xor, BitVec.getLsbD_setWidth, BitVec.getLsbD_shiftLeft,
      BitVec.getLsbD_ushiftRight, hi, decide_true, Bool.true_and]
    by_cases h4 : i < 4
    · simp [h4]
    · have hi' : 4 + (i - 4) = i := by omega
      by_cases h8 : i < 8
      · simp [h4, hi', show i - 4 < 4 by omega, show i - 4 < w by omega]
      · simp [h4, show ¬i - 4 < 4 by omega, BitVec.getLsbD_of_ge b.toBitVec i (by omega)]
  have hup : (shift poly)^[4] (((b.toBitVec >>> 4).setWidth 4).setWidth w <<< 4) =
      ((b.toBitVec >>> 4).setWidth 4).setWidth w := by
    rw [iterate_shift_of_low fun i hi => by simp [BitVec.getLsbD_shiftLeft, hi]]
    refine BitVec.eq_of_getLsbD_eq fun i hi => ?_
    rw [BitVec.getLsbD_ushiftRight, BitVec.getLsbD_shiftLeft, Nat.add_sub_cancel_left]
    by_cases hroom : 4 + i < w
    · simp [hroom]
    · rw [BitVec.getLsbD_setWidth, BitVec.getLsbD_of_ge _ i (by omega)]
      simp
  have htwice : ∀ x, (shift poly)^[8] x = (shift poly)^[4] ((shift poly)^[4] x) :=
    Function.iterate_add_apply (shift poly) 4 4
  rw [tableStep_eq (by omega) htable, tableStep_eq (by omega) htable, byteStep, hsplit,
    ← BitVec.xor_assoc, htwice, iterate_shift_xor 4 (c ^^^ _), hup]

end TcBle.Foundation.Crc
