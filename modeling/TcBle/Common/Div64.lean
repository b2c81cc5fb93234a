import Mathlib.Algebra.Ring.Nat
import Mathlib.Data.UInt
import TcBle.Foundation.Calculation
import TcBle.Foundation.LongArithmetic

/-!
# Division without a divider

`common/utility.c` and `common/utility.h`: how the cores that have no long multiplication multiply
and divide numbers of 64 bits. `mul64_32x32` multiplies by halves of words, `__div64_32` divides by
a word, a bit at a time, and `__div64_64` estimates the quotient by what is left of the operands
when they are shifted until the divisor is a word, and corrects it once.

## The model

The functions run as on the core, every sum, difference, product and shift up being noted if it does
not fit (`Foundation.Calculation`), and so is a long word that is put where a word is. Only two
things lose a part on purpose: `u * v` in `mul64_32x32` is the lower half of the product, and the
lower halves of the column sums of `mul_u64_u64_shr` are its digits. Its union is `high`, `low` and
`join`. A name with a prime is the one with two underscores before it, and what `*n` is after it
comes first in its result.

## What is proved

* `mul64_32x32_exact` and `mulU64U64Shr_exact` — the products are exact.
* `fls_exact` — the last set bit is found.
* `doubling_exact`, `subtracting_exact` and `div64_32'_exact` — the shift loops end, and the
  division by a word is exact.
* `estimate_slack` — the estimate is at most one too large.
* `div64_64'_exact` and `div64_64_exact` — the division is exact.
-/

namespace TcBle.Common

open Foundation.Calculation Foundation.LongArithmetic

/-- `mul64_32x32`. -/
def mul64_32x32 (u v : UInt32) : Calc UInt64 := do
  let u0 := u &&& 0xFFFF
  let u1 := u >>> 16
  let v0 := v &&& 0xFFFF
  let v1 := v >>> 16
  let w0 ← mul32 u0 v0
  let t ← add32 (← mul32 u1 v0) (w0 >>> 16)
  let w1 := t &&& 0xFFFF
  let w2 := t >>> 16
  let w1 ← add32 (← mul32 u0 v1) w1
  let x ← add32 (← add32 (← mul32 u1 v1) w2) (w1 >>> 16)
  let y := u * v
  return join x y

/-- One of the tests of `fls`: if the bits of the mask are clear, `x` goes up by `k`. -/
def flsTest (mask k : UInt32) (s : UInt32 × UInt32) : Calc (UInt32 × UInt32) :=
  if s.1 &&& mask = 0 then do return (← shl32 s.1 k, ← sub32 s.2 k) else pure s

/-- `fls`. -/
def fls (x : UInt32) : Calc UInt32 :=
  if x = 0 then pure 0
  else do
    let s ← flsTest 0xffff0000 16 (x, 32)
    let s ← flsTest 0xff000000 8 s
    let s ← flsTest 0xf0000000 4 s
    let s ← flsTest 0xc0000000 2 s
    let s ← flsTest 0x80000000 1 s
    return s.2

/-- The variables of `__div64_32` in its loops. -/
structure Halving where
  /-- The multiple of the divisor. -/
  b : UInt64
  /-- The power of two that it is by. -/
  d : UInt64
  /-- What is left of the dividend. -/
  rem : UInt64
  /-- The quotient so far. -/
  res : UInt64

/-- The first part of `__div64_32`, that reduces the thing a bit: `res` and `rem`. -/
def reduceHigh (rem : UInt64) (base : UInt32) : Calc (UInt64 × UInt64) := do
  let high ← narrow (rem >>> 32)
  if base ≤ high then
    let high := high / base
    let res ← shl64 high.toUInt64 32
    let rem ← sub64 rem (← shl64 (← mul64_32x32 high base) 32)
    return (res, rem)
  else return (0, rem)

/-- The first loop of `__div64_32`: `b` and `d` are doubled until `b` reaches `rem`, or its top
bit. -/
def doubling (fuel : ℕ) (rem b : UInt64) : Calc (UInt64 × UInt64) :=
  whileLoop (fun s => decide (0 < s.1.toInt64 ∧ s.1 < rem))
    (fun s => do return (← add64 s.1 s.1, ← add64 s.2 s.2)) fuel (b, 1)

/-- The first half of a round of the second loop of `__div64_32`. -/
def takeOff (s : Halving) : Calc Halving :=
  if s.b ≤ s.rem then do
    let rem ← sub64 s.rem s.b
    let res ← add64 s.res s.d
    return { s with rem, res }
  else pure s

/-- A round of the second loop of `__div64_32`. -/
def subtractRound (s : Halving) : Calc Halving := do
  let s ← takeOff s
  return { s with b := s.b >>> 1, d := s.d >>> 1 }

/-- The second loop of `__div64_32`. -/
def subtracting (fuel : ℕ) (s : Halving) : Calc Halving :=
  doWhile (fun s => decide (s.d ≠ 0)) subtractRound fuel s

/-- `__div64_32`. -/
def div64_32' (fuel : ℕ) (n : UInt64) (base : UInt32) : Calc (UInt64 × UInt32) := do
  let (res, rem) ← reduceHigh n base
  let (b, d) ← doubling fuel rem base.toUInt64
  let s ← subtracting fuel { b, d, rem, res }
  return (s.res, ← narrow s.rem)

/-- `div64_32`. -/
def div64_32 (fuel : ℕ) (dividend : UInt64) (divisor : UInt32) : Calc UInt64 := do
  let (result, _) ← div64_32' fuel dividend divisor
  return result

/-- `div64_32mod`. -/
def div64_32mod (fuel : ℕ) (dividend : UInt64) (divisor : UInt32) : Calc UInt32 := do
  let (_, rem) ← div64_32' fuel dividend divisor
  return rem

/-- The end of `mul_u64_u64_shr`: the product is shifted right, and its high part thrown away. With
no shift that is `rh`, which is noted if it was not zero. -/
def shrProduct (rl rh : UInt64) (shift : UInt32) : Calc UInt64 :=
  if shift = 0 then keep rl (rh = 0)
  else if shift < 64 then do
    return (rl >>> shift.toUInt64) ||| (← shl64 rh (64 - shift.toUInt64))
  else pure (rh >>> (shift &&& 63).toUInt64)

/-- `mul_u64_u64_shr`. -/
def mulU64U64Shr (a b : UInt64) (shift : UInt32) : Calc UInt64 := do
  let rl ← mul64_32x32 (low a) (low b)
  let rm ← mul64_32x32 (low a) (high b)
  let rn ← mul64_32x32 (high a) (low b)
  let rh ← mul64_32x32 (high a) (high b)
  let c ← add64 (← add64 (high rl).toUInt64 (low rm).toUInt64) (low rn).toUInt64
  let rl := join (low c) (low rl)
  let c ← add64 (← add64 (← add64 (c >>> 32) (high rm).toUInt64) (high rn).toUInt64)
    (low rh).toUInt64
  let rh := join (← narrow (← add64 (c >>> 32) (high rh).toUInt64)) (low c)
  shrProduct rl rh shift

/-- What `__div64_64` takes off its estimate. -/
def lessOne (quot : UInt64) : Calc UInt64 := if quot ≠ 0 then sub64 quot 1 else pure quot

/-- `__div64_64`. -/
def div64_64' (fuel : ℕ) (n divisor : UInt64) : Calc (UInt64 × UInt64) := do
  let dividend := n
  let high ← narrow (divisor >>> 32)
  if high = 0 then
    let quot ← div64_32 fuel dividend (← narrow divisor)
    let rem ← div64_32mod fuel dividend (← narrow divisor)
    return (quot, rem.toUInt64)
  else
    let n ← fls high
    let quot ← div64_32 fuel (dividend >>> n.toUInt64) (← narrow (divisor >>> n.toUInt64))
    let quot ← lessOne quot
    let mul64_tmp ← mulU64U64Shr quot divisor 0
    let rem ← sub64 dividend mul64_tmp
    if divisor ≤ rem then return (← add64 quot 1, ← sub64 rem divisor)
    else return (quot, rem)

/-- `div64_64`. -/
def div64_64 (fuel : ℕ) (dividend divisor : UInt64) : Calc UInt64 := do
  let (result, _) ← div64_64' fuel dividend divisor
  return result

/-- `div64_64mod`. -/
def div64_64mod (fuel : ℕ) (dividend divisor : UInt64) : Calc UInt64 := do
  let (_, rem) ← div64_64' fuel dividend divisor
  return rem

/-! ### The products -/

theorem toNat_and_ffff (x : UInt32) : (x &&& 0xFFFF).toNat = x.toNat % 2 ^ 16 := by
  rw [UInt32.toNat_and, show (0xFFFF : UInt32).toNat = 2 ^ 16 - 1 from rfl,
    Nat.and_two_pow_sub_one_eq_mod]

theorem toNat_shiftRight16 (x : UInt32) : (x >>> 16).toNat = x.toNat / 2 ^ 16 := by
  rw [UInt32.toNat_shiftRight, Nat.shiftRight_eq_div_pow]
  rfl

/-- **The product of two words**. -/
theorem mul64_32x32_exact (u v : UInt32) :
    Exact (mul64_32x32 u v) fun z => z.toNat = u.toNat * v.toNat := by
  unfold mul64_32x32
  extract_lets u0 u1 v0 v1
  have hu := u.toNat_lt
  have hv := v.toNat_lt
  have hu0 : u0.toNat = u.toNat % 2 ^ 16 := toNat_and_ffff u
  have hu1 : u1.toNat = u.toNat / 2 ^ 16 := toNat_shiftRight16 u
  have hv0 : v0.toNat = v.toNat % 2 ^ 16 := toNat_and_ffff v
  have hv1 : v1.toNat = v.toNat / 2 ^ 16 := toNat_shiftRight16 v
  have hu' : u1.toNat * 2 ^ 16 + u0.toNat = u.toNat := by
    rw [hu0, hu1]
    exact Nat.div_add_mod' _ _
  have hv' : v1.toNat * 2 ^ 16 + v0.toNat = v.toNat := by
    rw [hv0, hv1]
    exact Nat.div_add_mod' _ _
  clear_value u0 u1 v0 v1
  have room : ∀ {a b c d : ℕ}, a < 2 ^ 16 → b < 2 ^ 16 → c < 2 ^ 16 → d < 2 ^ 16 →
      a * b + c + d < 2 ^ 32 := column_lt
  have hu0lt : u0.toNat < 2 ^ 16 := by omega
  have hu1lt : u1.toNat < 2 ^ 16 := by omega
  have hv0lt : v0.toNat < 2 ^ 16 := by omega
  have hv1lt : v1.toNat < 2 ^ 16 := by omega
  -- every sum is a column, with what is carried into it
  have hcol0 := room hu0lt hv0lt (c := 0) (d := 0) (by omega) (by omega)
  refine (exact_mul32 (by omega)).bind fun w0 hw0 => ?_
  have hw0lt := w0.toNat_lt
  have hcarry0 := toNat_shiftRight16 w0
  have hcol1 := room hu1lt hv0lt (c := w0.toNat / 2 ^ 16) (d := 0) (by omega) (by omega)
  refine (exact_mul32 (by omega)).bind fun p hp => ?_
  refine (exact_add32 (by omega)).bind fun t ht => ?_
  have htlt := t.toNat_lt
  have htlow := toNat_and_ffff t
  have hthigh := toNat_shiftRight16 t
  have hcol2 := room hu0lt hv1lt (c := t.toNat % 2 ^ 16) (d := 0) (by omega) (by omega)
  refine (exact_mul32 (by omega)).bind fun p' hp' => ?_
  refine (exact_add32 (by omega)).bind fun w1 hw1 => ?_
  have hw1lt := w1.toNat_lt
  have hcarry1 := toNat_shiftRight16 w1
  have hcol3 := room hu1lt hv1lt (c := t.toNat / 2 ^ 16) (d := w1.toNat / 2 ^ 16)
    (by omega) (by omega)
  refine (exact_mul32 (by omega)).bind fun p'' hp'' => ?_
  refine (exact_add32 (by omega)).bind fun s hs => ?_
  refine (exact_add32 (by omega)).bind fun x hx => exact_pure ?_
  have hx' : x.toNat = mulHigh (2 ^ 16) u0.toNat u1.toNat v0.toNat v1.toNat := by
    rw [mulHigh, hx, hs, hp'', hthigh, hcarry1, hw1, hp', htlow, ht, hp, hcarry0, hw0]
  rw [mulHigh_eq (by omega), hu', hv'] at hx'
  rw [toNat_join, hx', UInt32.toNat_mul, Nat.mul_comm (_ / _)]
  exact Nat.div_add_mod _ _

theorem shrProduct_exact {rl rh : UInt64} {shift : UInt32} (hshift : shift.toNat < 128)
    (hfit : (rh.toNat * 2 ^ 64 + rl.toNat) / 2 ^ shift.toNat < 2 ^ 64) :
    Exact (shrProduct rl rh shift) fun z =>
      z.toNat = (rh.toNat * 2 ^ 64 + rl.toNat) / 2 ^ shift.toNat := by
  have hrl := rl.toNat_lt
  rw [shrProduct]
  split_ifs with hzero hlt
  · subst hzero
    rw [show (0 : UInt32).toNat = 0 from rfl, pow_zero, Nat.div_one] at hfit ⊢
    have hrh : rh.toNat = 0 := by omega
    exact exact_keep (UInt64.toNat_inj.mp hrh) (by rw [hrh]; omega)
  · have hs : shift.toNat < 64 := UInt32.lt_iff_toNat_lt.mp hlt
    have hpos : shift.toNat ≠ 0 := fun h => hzero (UInt32.toNat_inj.mp h)
    have hleft : (64 - shift.toUInt64).toNat = 64 - shift.toNat := by
      rw [UInt64.toNat_sub_of_le _ _ (UInt64.le_iff_toNat_le.mpr (by simpa using hs.le)),
        UInt32.toNat_toUInt64]
      rfl
    have hpow : 2 ^ (64 - shift.toNat) * 2 ^ shift.toNat = 2 ^ 64 :=
      two_pow_mul_two_pow (Nat.sub_add_cancel hs.le)
    have hsum : (rh.toNat * 2 ^ 64 + rl.toNat) / 2 ^ shift.toNat =
        rh.toNat * 2 ^ (64 - shift.toNat) + rl.toNat / 2 ^ shift.toNat := by
      rw [← hpow, ← Nat.mul_assoc, Nat.add_comm, Nat.add_mul_div_right _ _ (Nat.two_pow_pos _),
        Nat.add_comm]
    have hlow : rl.toNat / 2 ^ shift.toNat < 2 ^ (64 - shift.toNat) :=
      Nat.div_lt_of_lt_mul (by rwa [Nat.mul_comm, hpow])
    rw [hsum] at hfit ⊢
    have hhigh : rh.toNat * 2 ^ (64 - shift.toNat) < 2 ^ 64 :=
      Nat.lt_of_le_of_lt (Nat.le_add_right _ _) hfit
    refine (exact_shl64 (by omega) (by rwa [hleft])).bind fun z hz => exact_pure ?_
    rw [UInt64.toNat_or, hz, toNat_shiftRight_word _ hs, hleft, Nat.or_comm, ← Nat.shiftLeft_eq,
      ← Nat.shiftLeft_add_eq_or_of_lt hlow]
  · have hs : 64 ≤ shift.toNat := by
      have := fun h => hlt (UInt32.lt_iff_toNat_lt.mpr h)
      exact Nat.le_of_not_lt this
    have hmask : (shift &&& 63).toNat = shift.toNat - 64 := by
      rw [UInt32.toNat_and, show (63 : UInt32).toNat = 2 ^ 6 - 1 from rfl,
        Nat.and_two_pow_sub_one_eq_mod]
      omega
    refine exact_pure ?_
    rw [toNat_shiftRight_word _ (by omega), hmask,
      show shift.toNat = 64 + (shift.toNat - 64) by omega, pow_add,
      ← Nat.div_div_eq_div_mul, Nat.add_comm (_ * _), Nat.add_mul_div_right _ _ (Nat.two_pow_pos _),
      Nat.div_eq_of_lt hrl, Nat.zero_add, Nat.add_sub_cancel_left]

/-- **The product of two long words**, shifted right, where it fits. -/
theorem mulU64U64Shr_exact {a b : UInt64} {shift : UInt32} (hshift : shift.toNat < 128)
    (hfit : a.toNat * b.toNat / 2 ^ shift.toNat < 2 ^ 64) :
    Exact (mulU64U64Shr a b shift) fun z => z.toNat = a.toNat * b.toNat / 2 ^ shift.toNat := by
  unfold mulU64U64Shr
  refine (mul64_32x32_exact _ _).bind fun rl hrl => ?_
  refine (mul64_32x32_exact _ _).bind fun rm hrm => ?_
  refine (mul64_32x32_exact _ _).bind fun rn hrn => ?_
  refine (mul64_32x32_exact _ _).bind fun rh hrh => ?_
  have hcolumns := mul_columns (2 ^ 32) rl.toNat rm.toNat rn.toNat rh.toNat
  have hproduct : a.toNat * b.toNat =
      rh.toNat * (2 ^ 32 * 2 ^ 32) + (rm.toNat + rn.toNat) * 2 ^ 32 + rl.toNat := by
    rw [hrl, hrm, hrn, hrh, high_low a, high_low b]
    ring
  have hlt : a.toNat * b.toNat < 2 ^ 64 * 2 ^ 64 :=
    Nat.mul_lt_mul'' a.toNat_lt b.toNat_lt
  have hrl' := rl.toNat_lt
  have hrm' := rm.toNat_lt
  have hrn' := rn.toNat_lt
  have hrh' := rh.toNat_lt
  -- the two columns in the middle, which are far from full
  refine (exact_add64 ?_).bind fun s hs => ?_
  · simp only [UInt32.toNat_toUInt64, toNat_high, toNat_low]
    omega
  refine (exact_add64 ?_).bind fun c hc => ?_
  · simp only [hs, UInt32.toNat_toUInt64, toNat_high, toNat_low]
    omega
  simp only [hs, UInt32.toNat_toUInt64, toNat_high, toNat_low] at hc
  refine (exact_add64 ?_).bind fun s' hs' => ?_
  · simp only [hc, UInt32.toNat_toUInt64, toNat_high, toNat_shiftRight32]
    omega
  refine (exact_add64 ?_).bind fun s'' hs'' => ?_
  · simp only [hs', hc, UInt32.toNat_toUInt64, toNat_high, toNat_shiftRight32]
    omega
  refine (exact_add64 ?_).bind fun e he => ?_
  · simp only [hs'', hs', hc, UInt32.toNat_toUInt64, toNat_high, toNat_low, toNat_shiftRight32]
    omega
  simp only [hs'', hs', UInt32.toNat_toUInt64, toNat_high, toNat_low, toNat_shiftRight32] at he
  rw [← hc, ← he, ← hproduct] at hcolumns
  -- the last one has no carry, since the product has four digits
  refine (exact_add64 ?_).bind fun x hx => ?_
  · simp only [UInt32.toNat_toUInt64, toNat_high, toNat_shiftRight32]
    omega
  simp only [UInt32.toNat_toUInt64, toNat_high, toNat_shiftRight32] at hx
  rw [← hx] at hcolumns
  refine (exact_narrow (by omega)).bind fun top htop => ?_
  have hwhole : (join top (low e)).toNat * 2 ^ 64 + (join (low c) (low rl)).toNat =
      a.toNat * b.toNat := by
    rw [toNat_join, toNat_join, toNat_low, toNat_low, toNat_low, htop, hcolumns]
    ring
  rw [← hwhole] at hfit ⊢
  exact shrProduct_exact hshift hfit

/-! ### The last set bit -/

/-- Where `fls` is: `x₀` has come up as far as `r` has gone down, and one of the top `j` bits is
set. -/
structure TopBits (x₀ j : ℕ) (s : UInt32 × UInt32) : Prop where
  moved : s.1.toNat = x₀ * 2 ^ (32 - s.2.toNat)
  top : 2 ^ (32 - j) ≤ s.1.toNat
  lower : j ≤ s.2.toNat
  upper : s.2.toNat ≤ 32

theorem flsTest_exact {x₀ n : ℕ} {mask k : UInt32} {s : UInt32 × UInt32} (hk : k.toNat = n)
    (hn : n ≤ 16) (hmask : mask.toNat = (2 ^ n - 1) * 2 ^ (32 - n)) (hs : TopBits x₀ (2 * n) s) :
    Exact (flsTest mask k s) (TopBits x₀ n) := by
  have hclear : s.1 &&& mask = 0 ↔ s.1.toNat < 2 ^ (32 - n) := by
    rw [← and_highMask_eq_zero (k := n), ← hmask, ← UInt32.toNat_and, ← UInt32.toNat_inj]
    · rfl
    · rw [Nat.sub_add_cancel (by omega)]
      exact s.1.toNat_lt
  have hpow : ∀ m, m + n ≤ 32 → 2 ^ (32 - (m + n)) * 2 ^ n = 2 ^ (32 - m) :=
    fun m hm => two_pow_mul_two_pow (by omega)
  obtain ⟨hmoved, htop, hlower, hupper⟩ := hs
  rw [flsTest]
  split_ifs with hzero
  · have hlt := hclear.mp hzero
    have hfit : s.1.toNat * 2 ^ k.toNat < 2 ^ 32 := by
      rw [hk, ← hpow 0 (by omega), Nat.zero_add]
      exact Nat.mul_lt_mul_of_pos_right hlt (Nat.two_pow_pos n)
    refine (exact_shl32 (by omega) hfit).bind fun x hx => ?_
    refine (exact_sub32 (by omega)).bind fun r hr => exact_pure ?_
    rw [hk] at hx hr
    refine ⟨?_, ?_, ?_, ?_⟩
    · rw [hx, hr, hmoved, Nat.mul_assoc, two_pow_mul_two_pow]
      omega
    · rw [hx, ← hpow n (by omega)]
      exact Nat.mul_le_mul_right _ (by rwa [← Nat.two_mul])
    · dsimp only
      omega
    · dsimp only
      omega
  · have hle : 2 ^ (32 - n) ≤ s.1.toNat := Nat.le_of_not_lt fun h => hzero (hclear.mpr h)
    exact exact_pure ⟨hmoved, hle, by omega, hupper⟩

/-- **`fls` finds the last set bit**. -/
theorem fls_exact {x : UInt32} (hx : x ≠ 0) :
    Exact (fls x) fun r => 0 < r.toNat ∧ r.toNat ≤ 32 ∧
      2 ^ (r.toNat - 1) ≤ x.toNat ∧ x.toNat < 2 ^ r.toNat := by
  have hpos : 0 < x.toNat := by
    rw [Nat.pos_iff_ne_zero]
    exact fun h => hx (UInt32.toNat_inj.mp h)
  have hstart : TopBits x.toNat (2 * 16) (x, 32) :=
    ⟨by simp, hpos, Nat.le_refl _, Nat.le_refl _⟩
  rw [fls, if_neg hx]
  refine (flsTest_exact (n := 16) rfl (by omega) rfl hstart).bind fun s hs => ?_
  refine (flsTest_exact (n := 8) rfl (by omega) rfl hs).bind fun s hs => ?_
  refine (flsTest_exact (n := 4) rfl (by omega) rfl hs).bind fun s hs => ?_
  refine (flsTest_exact (n := 2) rfl (by omega) rfl hs).bind fun s hs => ?_
  refine (flsTest_exact (n := 1) rfl (by omega) rfl hs).bind fun s hs => exact_pure ?_
  obtain ⟨hmoved, htop, hlower, hupper⟩ := hs
  have hlt := s.1.toNat_lt
  have hsplit : ∀ m ≤ s.2.toNat, 2 ^ (s.2.toNat - m) * 2 ^ (32 - s.2.toNat) = 2 ^ (32 - m) :=
    fun m hm => two_pow_mul_two_pow (by omega)
  rw [hmoved] at htop hlt
  refine ⟨by omega, hupper, ?_, ?_⟩
  · rw [← hsplit 1 hlower] at htop
    exact Nat.le_of_mul_le_mul_right htop (Nat.two_pow_pos _)
  · have hcap := hsplit 0 (by omega)
    rw [Nat.sub_zero, Nat.sub_zero] at hcap
    rw [← hcap] at hlt
    exact Nat.lt_of_mul_lt_mul_right hlt

/-! ### The division by a word -/

/-- A long word that is positive as a signed one has its top bit clear. -/
theorem toInt64_pos_iff (x : UInt64) : 0 < x.toInt64 ↔ 0 < x.toNat ∧ x.toNat < 2 ^ 63 := by
  have hx := x.toNat_lt
  have htoInt : x.toInt64.toInt =
      if 2 * x.toNat < 2 ^ 64 then (x.toNat : ℤ) else x.toNat - 2 ^ 64 :=
    BitVec.toInt_eq_toNat_cond _
  rw [Int64.lt_iff_toInt_lt, htoInt, Int64.toInt_zero]
  split_ifs <;> omega

/-- **The first loop ends**, with a multiple of the divisor that is at least half of what is left,
and without a carry. -/
theorem doubling_exact {fuel : ℕ} (hfuel : 64 ≤ fuel) (rem : UInt64) {b : UInt64}
    (hb : 0 < b.toNat) :
    Exact (doubling fuel rem b) fun s => ∃ k < 64, s.1.toNat = b.toNat * 2 ^ k ∧
      s.2.toNat = 2 ^ k ∧ rem.toNat < b.toNat * 2 ^ (k + 1) := by
  have hpow : ∀ k, 2 ^ k ≤ b.toNat * 2 ^ k := fun k => Nat.le_mul_of_pos_left _ hb
  have hsucc : ∀ n k, n * 2 ^ (k + 1) = n * 2 ^ k + n * 2 ^ k := by
    intro n k
    rw [pow_succ, ← Nat.mul_assoc, Nat.mul_two]
  refine exact_whileLoop (I := fun j s => ∃ k, j + k = 63 ∧ s.1.toNat = b.toNat * 2 ^ k ∧
    s.2.toNat = 2 ^ k) ?_ ?_ (show 63 < fuel by omega) ⟨0, rfl, by simp, rfl⟩
  · rintro j s ⟨k, hjk, hs1, hs2⟩ hcond
    obtain ⟨hpos, -⟩ := of_decide_eq_true hcond
    obtain ⟨-, htop⟩ := (toInt64_pos_iff _).mp hpos
    have hk : k < 63 := by
      have := hpow k
      exact (Nat.pow_lt_pow_iff_right (a := 2) (by omega)).mp (by omega)
    have hd := hpow k
    refine (exact_add64 (by omega)).bind fun b' hb' => ?_
    refine (exact_add64 (by omega)).bind fun d' hd' => exact_pure ?_
    refine ⟨j - 1, by omega, k + 1, by omega, ?_, ?_⟩
    · rw [hsucc, ← hs1, hb']
    · rw [pow_succ, Nat.mul_two, ← hs2, hd']
  · rintro j s ⟨k, hjk, hs1, hs2⟩ hcond
    refine ⟨k, by omega, hs1, hs2, ?_⟩
    have hrem := rem.toNat_lt
    have hpos : 0 < s.1.toNat := by
      rw [hs1]
      exact Nat.mul_pos hb (Nat.two_pow_pos k)
    rw [hsucc, ← hs1]
    by_contra hle
    refine of_decide_eq_false hcond ⟨(toInt64_pos_iff _).mpr ⟨hpos, by omega⟩, ?_⟩
    exact UInt64.lt_iff_toNat_lt.mpr (by omega)

/-- Where the second loop is, before the round for `2 ^ k`. -/
structure Halves (N : UInt64) (base : UInt32) (k : ℕ) (s : Halving) : Prop where
  b : s.b.toNat = base.toNat * 2 ^ k
  d : s.d.toNat = 2 ^ k
  found : Partial N.toNat base.toNat (k + 1) s.res.toNat s.rem.toNat

theorem takeOff_exact {N : UInt64} {base : UInt32} {k : ℕ} {s : Halving}
    (hs : Halves N base k s) (hbase : 0 < base.toNat) :
    Exact (takeOff s) fun s' => s'.b = s.b ∧ s'.d = s.d ∧
      Partial N.toNat base.toNat k s'.res.toNat s'.rem.toNat := by
  obtain ⟨hb, hd, hfound⟩ := hs
  rw [takeOff]
  split_ifs with hle
  · have hle' := UInt64.le_iff_toNat_le.mp hle
    have hnext := hfound.subtract (by rwa [← hb])
    have hN := N.toNat_lt
    have hfit : s.res.toNat + s.d.toNat ≤ N.toNat := by
      rw [hd, ← hnext.total]
      exact Nat.le_add_right_of_le (Nat.le_mul_of_pos_right _ hbase)
    refine (exact_sub64 hle').bind fun rem hrem => ?_
    refine (exact_add64 (by omega)).bind fun res hres => exact_pure ⟨rfl, rfl, ?_⟩
    rwa [hrem, hres, hb, hd]
  · have hlt : s.rem.toNat < s.b.toNat :=
      Nat.lt_of_not_le fun h => hle (UInt64.le_iff_toNat_le.mpr h)
    exact exact_pure ⟨rfl, rfl, hfound.skip (by rwa [← hb])⟩

/-- **A round of the second loop** finds a digit. -/
theorem subtractRound_exact {N : UInt64} {base : UInt32} {k : ℕ} {s : Halving}
    (hs : Halves N base k s) (hbase : 0 < base.toNat) :
    Exact (subtractRound s) fun s' => s'.b.toNat = base.toNat * 2 ^ k / 2 ∧
      s'.d.toNat = 2 ^ k / 2 ∧ Partial N.toNat base.toNat k s'.res.toNat s'.rem.toNat := by
  have hhalf : ∀ x : UInt64, (x >>> 1).toNat = x.toNat / 2 := fun x => by
    rw [UInt64.toNat_shiftRight, Nat.shiftRight_eq_div_pow]
    rfl
  refine (takeOff_exact hs hbase).bind fun s' hs' => ?_
  obtain ⟨hb, hd, hpartial⟩ := hs'
  refine exact_pure ⟨?_, ?_, hpartial⟩
  · rw [hhalf, hb, hs.b]
  · rw [hhalf, hd, hs.d]

/-- **The second loop ends**, with the quotient and the remainder. -/
theorem subtracting_exact {fuel : ℕ} {N : UInt64} {base : UInt32} {k : ℕ} {s : Halving}
    (hk : k < fuel) (hs : Halves N base k s) (hbase : 0 < base.toNat) :
    Exact (subtracting fuel s) fun s' => s'.res.toNat = N.toNat / base.toNat ∧
      s'.rem.toNat = N.toNat % base.toNat := by
  refine exact_doWhile (I := Halves N base) ?_ hk hs
  intro k s hs
  refine (subtractRound_exact hs hbase).mono ?_
  rintro s' ⟨hb, hd, hfound⟩
  cases k with
  | zero =>
    have hzero : s'.d = 0 := UInt64.toNat_inj.mp hd
    rw [if_neg (by simpa using hzero)]
    exact hfound.done
  | succ k =>
    have hhalf : ∀ n, n * 2 ^ (k + 1) / 2 = n * 2 ^ k := by
      intro n
      rw [pow_succ, ← Nat.mul_assoc, Nat.mul_div_cancel _ (by omega)]
    have hd' : s'.d.toNat = 2 ^ k := by
      rw [hd, ← Nat.one_mul (2 ^ (k + 1)), hhalf, Nat.one_mul]
    have hne : s'.d ≠ 0 := by
      intro h
      rw [h] at hd'
      exact (Nat.two_pow_pos k).ne hd'
    rw [if_pos (by simpa using hne)]
    exact ⟨k, by omega, by rw [hb, hhalf], hd', hfound⟩

theorem reduceHigh_exact (N : UInt64) (base : UInt32) :
    Exact (reduceHigh N base) fun p => p.1.toNat * base.toNat + p.2.toNat = N.toNat := by
  have hN := N.toNat_lt
  have hbase' := base.toNat_lt
  have hhigh := toNat_shiftRight32 N
  unfold reduceHigh
  refine (exact_narrow (by omega)).bind fun high hhigh' => ?_
  rw [hhigh] at hhigh'
  split_ifs with hle
  · extract_lets q
    have hq : q.toNat = high.toNat / base.toNat := UInt32.toNat_div _ _
    have hmul : q.toNat * base.toNat ≤ high.toNat := by
      rw [hq]
      exact Nat.div_mul_le_self _ _
    have hqle : q.toNat ≤ high.toNat := by
      rw [hq]
      exact Nat.div_le_self _ _
    clear_value q
    have hshift : (32 : UInt64).toNat = 32 := rfl
    refine (exact_shl64 (by omega) ?_).bind fun res hres => ?_
    · rw [hshift, UInt32.toNat_toUInt64]
      omega
    refine (mul64_32x32_exact _ _).bind fun p hp => ?_
    refine (exact_shl64 (by omega) ?_).bind fun p' hp' => ?_
    · rw [hshift, hp]
      omega
    rw [hshift, hp] at hp'
    refine (exact_sub64 (by omega)).bind fun rem hrem => exact_pure ?_
    rw [hshift, UInt32.toNat_toUInt64] at hres
    rw [hres, hrem, hp', Nat.mul_right_comm, Nat.add_sub_cancel' (by omega)]
  · exact exact_pure (by simp)

/-- **The division by a word is exact**. -/
theorem div64_32'_exact {fuel : ℕ} (hfuel : 64 ≤ fuel) (N : UInt64) {base : UInt32}
    (hbase : 0 < base.toNat) :
    Exact (div64_32' fuel N base) fun p => p.1.toNat = N.toNat / base.toNat ∧
      p.2.toNat = N.toNat % base.toNat := by
  unfold div64_32'
  refine (reduceHigh_exact N base).bind fun p hp => ?_
  obtain ⟨res, rem⟩ := p
  refine (doubling_exact hfuel rem (by rwa [UInt32.toNat_toUInt64])).bind fun p hd => ?_
  obtain ⟨b, d⟩ := p
  obtain ⟨k, hk, hb, hd, hlt⟩ := hd
  rw [UInt32.toNat_toUInt64] at hb hlt
  have hstart : Halves N base k { b, d, rem, res } := ⟨hb, hd, hp, hlt⟩
  refine (subtracting_exact (by omega) hstart hbase).bind fun s hs => ?_
  obtain ⟨hres, hrem⟩ := hs
  have hfit : s.rem.toNat < 2 ^ 32 := by
    rw [hrem]
    exact (Nat.mod_lt _ hbase).trans base.toNat_lt
  refine (exact_narrow hfit).bind fun r hr => exact_pure ⟨hres, ?_⟩
  rw [hr, hrem]

theorem div64_32_exact {fuel : ℕ} (hfuel : 64 ≤ fuel) (N : UInt64) {base : UInt32}
    (hbase : 0 < base.toNat) :
    Exact (div64_32 fuel N base) fun q => q.toNat = N.toNat / base.toNat :=
  (div64_32'_exact hfuel N hbase).bind fun _ hp => exact_pure hp.1

theorem div64_32mod_exact {fuel : ℕ} (hfuel : 64 ≤ fuel) (N : UInt64) {base : UInt32}
    (hbase : 0 < base.toNat) :
    Exact (div64_32mod fuel N base) fun r => r.toNat = N.toNat % base.toNat :=
  (div64_32'_exact hfuel N hbase).bind fun _ hp => exact_pure hp.2

/-! ### The division by a long word -/

section Estimate

variable {N M s : ℕ}

/-- How far the divisor is shifted: its top bit is the top bit of a word. -/
theorem shifted_bounds (hlow : 2 ^ (s - 1) ≤ M / 2 ^ 32) (hhigh : M / 2 ^ 32 < 2 ^ s) (hs : 0 < s) :
    2 ^ 31 ≤ M / 2 ^ s ∧ M / 2 ^ s < 2 ^ 32 := by
  constructor
  · rw [Nat.le_div_iff_mul_le (Nat.two_pow_pos s)]
    calc 2 ^ 31 * 2 ^ s = 2 ^ (31 + s) := two_pow_mul_two_pow rfl
      _ = 2 ^ (s - 1) * 2 ^ 32 := (two_pow_mul_two_pow (by omega)).symm
      _ ≤ M / 2 ^ 32 * 2 ^ 32 := Nat.mul_le_mul_right _ hlow
      _ ≤ M := Nat.div_mul_le_self _ _
  · rw [Nat.div_lt_iff_lt_mul (Nat.two_pow_pos s), Nat.mul_comm]
    exact (Nat.div_lt_iff_lt_mul (Nat.two_pow_pos 32)).mp hhigh

/-- **The estimate is good enough**, if by a hair where the divisor is shifted by one. -/
theorem estimate_slack (hN : N < 2 ^ 64) (hD : 2 ^ 31 ≤ M / 2 ^ s) (hs : 0 < s) :
    (N / 2 ^ s / (M / 2 ^ s) - 1) * (M % 2 ^ s) ≤ 2 ^ s * (M / 2 ^ s) := by
  have hQ : N / 2 ^ s / (M / 2 ^ s) ≤ N / 2 ^ s / 2 ^ 31 := Nat.div_le_div_left hD (by omega)
  obtain rfl | hs : s = 1 ∨ 2 ≤ s := by omega
  · have hbit : M % 2 ^ 1 ≤ 1 := by omega
    calc (N / 2 ^ 1 / (M / 2 ^ 1) - 1) * (M % 2 ^ 1)
        ≤ 2 ^ 32 * 1 := Nat.mul_le_mul (by omega) hbit
      _ ≤ 2 ^ 1 * (M / 2 ^ 1) := by omega
  · have hshift : N / 2 ^ s ≤ N / 2 ^ 2 :=
      Nat.div_le_div_left (Nat.pow_le_pow_right (by omega) hs) (by omega)
    calc (N / 2 ^ s / (M / 2 ^ s) - 1) * (M % 2 ^ s)
        ≤ M / 2 ^ s * 2 ^ s := Nat.mul_le_mul (by omega) (Nat.mod_lt _ (Nat.two_pow_pos s)).le
      _ = 2 ^ s * (M / 2 ^ s) := Nat.mul_comm _ _

end Estimate

theorem lessOne_exact (quot : UInt64) :
    Exact (lessOne quot) fun q => q.toNat = quot.toNat - 1 := by
  rw [lessOne]
  split_ifs with hne
  · have hpos : 1 ≤ quot.toNat :=
      Nat.one_le_iff_ne_zero.mpr fun h => hne (UInt64.toNat_inj.mp h)
    exact exact_sub64 hpos
  · rw [not_not.mp hne]
    exact exact_pure rfl

/-- **The division by a long word is exact**. -/
theorem div64_64'_exact {fuel : ℕ} (hfuel : 64 ≤ fuel) (N : UInt64) {divisor : UInt64}
    (hdivisor : 0 < divisor.toNat) :
    Exact (div64_64' fuel N divisor) fun p => p.1.toNat = N.toNat / divisor.toNat ∧
      p.2.toNat = N.toNat % divisor.toNat := by
  have hN := N.toNat_lt
  have hM := divisor.toNat_lt
  have hhigh := toNat_shiftRight32 divisor
  unfold div64_64'
  extract_lets dividend
  refine (exact_narrow (by omega)).bind fun high hhigh' => ?_
  rw [hhigh] at hhigh'
  split_ifs with hzero
  · -- the divisor is a word
    have hword : divisor.toNat < 2 ^ 32 := by
      rw [hzero, UInt32.toNat_zero] at hhigh'
      omega
    refine (exact_narrow hword).bind fun d hd => ?_
    refine (div64_32_exact hfuel _ (by omega)).bind fun quot hquot => ?_
    refine (exact_narrow hword).bind fun d' hd' => ?_
    refine (div64_32mod_exact hfuel _ (by omega)).bind fun rem hrem => exact_pure ⟨?_, ?_⟩
    · rw [hquot, hd]
    · rw [UInt32.toNat_toUInt64, hrem, hd']
  · refine (fls_exact hzero).bind fun n hn => ?_
    obtain ⟨hpos, hle, hlow, hup⟩ := hn
    rw [hhigh'] at hlow hup
    obtain ⟨hD, hDlt⟩ := shifted_bounds hlow hup hpos
    have hshr : ∀ x : UInt64, (x >>> n.toUInt64).toNat = x.toNat / 2 ^ n.toNat :=
      fun x => toNat_shiftRight_word x (by omega)
    refine (exact_narrow (by rwa [hshr])).bind fun d hd => ?_
    rw [hshr] at hd
    refine (div64_32_exact hfuel _ (by omega)).bind fun quot hquot => ?_
    rw [hshr, hd] at hquot
    have hslack := estimate_slack hN hD hpos
    have hestimate := estimate_sub_one_le hdivisor hslack
    have hle' := div_le_estimate (N := N.toNat) (show 0 < divisor.toNat / 2 ^ n.toNat by omega)
    rw [← hquot] at hestimate hle'
    refine (lessOne_exact quot).bind fun q hq => ?_
    rw [← hq] at hestimate
    have hmul : q.toNat * divisor.toNat ≤ N.toNat := (Nat.le_div_iff_mul_le hdivisor).mp hestimate
    have hfit : q.toNat * divisor.toNat / 2 ^ (0 : UInt32).toNat < 2 ^ 64 :=
      (Nat.div_le_self _ _).trans_lt (by omega)
    refine (mulU64U64Shr_exact (by simp) hfit).bind fun tmp htmp => ?_
    rw [UInt32.toNat_zero, pow_zero, Nat.div_one] at htmp
    refine (exact_sub64 (by rwa [htmp])).bind fun rem hrem => ?_
    rw [htmp] at hrem
    split_ifs with hcorrect
    · have hcorrect' := UInt64.le_iff_toNat_le.mp hcorrect
      obtain ⟨hdiv, hmod⟩ :=
        corrected_add_one (by omega) hmul (by rwa [← hrem]) hdivisor
      have hqlt : q.toNat + 1 ≤ N.toNat := by
        rw [hdiv]
        exact Nat.div_le_self _ _
      refine (exact_add64 (y := 1) ?_).bind fun q' hq' => ?_
      · rw [UInt64.toNat_one]
        omega
      refine (exact_sub64 hcorrect').bind fun rem' hrem' => exact_pure ⟨?_, ?_⟩
      · rw [hq', UInt64.toNat_one, hdiv]
      · rw [hrem', hrem, hmod]
    · have hlt : rem.toNat < divisor.toNat :=
        Nat.lt_of_not_le fun h => hcorrect (UInt64.le_iff_toNat_le.mpr h)
      obtain ⟨hdiv, hmod⟩ := corrected hmul (by rwa [← hrem])
      refine exact_pure ⟨hdiv, ?_⟩
      rw [hrem, hmod]

/-- **The software division is exact**: all loops end, nothing is lost on the way, and the quotient
and the remainder are those of the dividend. -/
theorem div64_64_exact {fuel : ℕ} (hfuel : 64 ≤ fuel) (dividend : UInt64) {divisor : UInt64}
    (hdivisor : divisor ≠ 0) :
    ∃ q r, div64_64' fuel dividend divisor false = some ((q, r), false) ∧
      div64_64 fuel dividend divisor false = some (q, false) ∧
      div64_64mod fuel dividend divisor false = some (r, false) ∧
      q.toNat * divisor.toNat + r.toNat = dividend.toNat ∧ r < divisor := by
  have hpos : 0 < divisor.toNat := Nat.pos_of_ne_zero fun h => hdivisor (UInt64.toNat_inj.mp h)
  obtain ⟨⟨q, r⟩, hrun, hq, hr⟩ := div64_64'_exact hfuel dividend hpos false
  refine ⟨q, r, hrun, bind_of_run hrun, bind_of_run hrun, ?_, ?_⟩
  · rw [hq, hr]
    exact Nat.div_add_mod' _ _
  · rw [UInt64.lt_iff_toNat_lt, hr]
    exact Nat.mod_lt _ hpos

/-- A divisor that takes the correction. -/
theorem div64_64_exact_corrected : (64 ≤ 64 ∧ (0x1FFFFFFFF : UInt64) ≠ 0) ∧
    ∃ q r, div64_64' 64 0xFFFFFFFFFFFFFFFF 0x1FFFFFFFF false = some ((q, r), false) ∧
      q.toNat * (0x1FFFFFFFF : UInt64).toNat + r.toNat = (0xFFFFFFFFFFFFFFFF : UInt64).toNat := by
  have hdivisor : (0x1FFFFFFFF : UInt64) ≠ 0 := by decide
  obtain ⟨q, r, hrun, -, -, hsum, -⟩ :=
    div64_64_exact (Nat.le_refl 64) 0xFFFFFFFFFFFFFFFF hdivisor
  exact ⟨⟨Nat.le_refl 64, hdivisor⟩, q, r, hrun, hsum⟩

end TcBle.Common
