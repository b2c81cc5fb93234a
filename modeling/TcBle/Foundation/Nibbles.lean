import Mathlib.Algebra.Ring.Nat
import Mathlib.Tactic.Common

/-!
# Nibbles in words

Four values of four bits make a word of sixteen. A word can be filled by shifting the values
in from the top; in memory its bytes lie with the low one first, and each has two values.

## What is proved

* `shiftIn_four` — four shifts fill the word, whatever was in it.
* `lowByte_ofNibbles` and `highByte_ofNibbles` with `low_and`, `high_shift` — the values come back
  from the bytes.
* `word_of_bytes` — a word is its two bytes.
-/

namespace TcBle.Foundation.Nibbles

/-- The word of four values, the first in the lowest bits. -/
def ofNibbles (a b c d : UInt16) : UInt16 :=
  UInt16.ofNat (a.toNat + b.toNat * 2 ^ 4 + c.toNat * 2 ^ 8 + d.toNat * 2 ^ 12)

/-- A value comes in from the top. -/
theorem shiftIn_toNat (w : UInt16) {c : UInt16} (hc : c.toNat < 16) :
    ((w >>> 4) ||| (c <<< 12)).toNat = w.toNat / 2 ^ 4 + c.toNat * 2 ^ 12 := by
  have hw := w.toNat_lt
  have hlow : w.toNat / 2 ^ 4 < 2 ^ 12 := by omega
  rw [UInt16.toNat_or, UInt16.toNat_shiftRight, UInt16.toNat_shiftLeft,
    show (4 : UInt16).toNat % 16 = 4 from rfl, show (12 : UInt16).toNat % 16 = 12 from rfl,
    Nat.shiftRight_eq_div_pow, Nat.mod_eq_of_lt (by rw [Nat.shiftLeft_eq]; omega), Nat.or_comm,
    ← Nat.shiftLeft_add_eq_or_of_lt hlow, Nat.shiftLeft_eq, Nat.add_comm]

/-- A word is its two bytes. -/
theorem word_of_bytes (w : UInt16) :
    (w.toUInt8.toUInt16 ||| ((w >>> 8).toUInt8.toUInt16 <<< 8)) = w := by
  have hw := w.toNat_lt
  have hlow : w.toNat % 2 ^ 8 < 2 ^ 8 := by omega
  have hhigh : w.toNat / 2 ^ 8 % 2 ^ 8 = w.toNat / 2 ^ 8 := by omega
  have hfit : (w.toNat / 2 ^ 8) <<< 8 < 2 ^ 16 := by
    rw [Nat.shiftLeft_eq]
    omega
  apply UInt16.toNat_inj.mp
  rw [UInt16.toNat_or, UInt8.toNat_toUInt16, UInt16.toNat_toUInt8, UInt16.toNat_shiftLeft,
    UInt8.toNat_toUInt16, UInt16.toNat_toUInt8, UInt16.toNat_shiftRight,
    show (8 : UInt16).toNat % 16 = 8 from rfl, Nat.shiftRight_eq_div_pow, hhigh,
    Nat.mod_eq_of_lt hfit, Nat.or_comm, ← Nat.shiftLeft_add_eq_or_of_lt hlow, Nat.shiftLeft_eq]
  omega

variable {a b c d : UInt16} (ha : a.toNat < 16) (hb : b.toNat < 16) (hc : c.toNat < 16)
  (hd : d.toNat < 16)

include ha hb hc hd

theorem ofNibbles_toNat :
    (ofNibbles a b c d).toNat = a.toNat + b.toNat * 2 ^ 4 + c.toNat * 2 ^ 8 + d.toNat * 2 ^ 12 := by
  rw [ofNibbles, UInt16.toNat_ofNat']
  omega

/-- **Four shifts fill the word.** -/
theorem shiftIn_four (w : UInt16) :
    ((((((((w >>> 4) ||| (a <<< 12)) >>> 4) ||| (b <<< 12)) >>> 4) ||| (c <<< 12)) >>> 4) |||
      (d <<< 12)) = ofNibbles a b c d := by
  have hw := w.toNat_lt
  apply UInt16.toNat_inj.mp
  rw [shiftIn_toNat _ hd, shiftIn_toNat _ hc, shiftIn_toNat _ hb, shiftIn_toNat _ ha,
    ofNibbles_toNat ha hb hc hd]
  omega

/-- The low byte has the first two values. -/
theorem lowByte_ofNibbles :
    (ofNibbles a b c d).toUInt8.toNat = a.toNat + b.toNat * 2 ^ 4 := by
  rw [UInt16.toNat_toUInt8, ofNibbles_toNat ha hb hc hd]
  omega

/-- The high byte has the other two. -/
theorem highByte_ofNibbles :
    (ofNibbles a b c d >>> 8).toUInt8.toNat = c.toNat + d.toNat * 2 ^ 4 := by
  rw [UInt16.toNat_toUInt8, UInt16.toNat_shiftRight, show (8 : UInt16).toNat % 16 = 8 from rfl,
    Nat.shiftRight_eq_div_pow, ofNibbles_toNat ha hb hc hd]
  omega

omit hb hc hd

/-- The low nibble of a byte of two values. -/
theorem low_and {x : UInt8} (hx : x.toNat = a.toNat + b.toNat * 2 ^ 4) :
    x &&& 15 = a.toUInt8 := by
  apply UInt8.toNat_inj.mp
  rw [UInt8.toNat_and, show (15 : UInt8).toNat = 2 ^ 4 - 1 from rfl, Nat.and_two_pow_sub_one_eq_mod,
    UInt16.toNat_toUInt8, hx]
  omega

include hb

/-- The high nibble of a byte of two values. -/
theorem high_shift {x : UInt8} (hx : x.toNat = a.toNat + b.toNat * 2 ^ 4) :
    x >>> 4 = b.toUInt8 := by
  apply UInt8.toNat_inj.mp
  rw [UInt8.toNat_shiftRight, show (4 : UInt8).toNat % 8 = 4 from rfl, Nat.shiftRight_eq_div_pow,
    UInt16.toNat_toUInt8, hx]
  omega

end TcBle.Foundation.Nibbles
