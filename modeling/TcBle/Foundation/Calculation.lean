import Mathlib.Algebra.Ring.Nat
import Mathlib.Data.UInt
import Mathlib.Tactic.Common

/-!
# Calculations that note what they lose

A program that calculates with machine words goes on when a result does not fit: the word wraps.
`Calc` runs such a program as the machine does, and notes on the side whether any result was not the
number that it stands for. Its loops have as many rounds as they are given; one that has not ended
by then gives nothing.

## What is proved

* `exact_pure`, `exact_keep`, `Exact.bind`, `Exact.mono` — a calculation is exact where its parts
  are.
* `exact_whileLoop` and `exact_doWhile` — a loop is exact, and ends, by an invariant that counts the
  rounds.
* `exact_add32`, `exact_sub32`, `exact_mul32`, `exact_shl32`, `exact_add64`, `exact_sub64`,
  `exact_shl64`, `exact_narrow` — what fits is exact.
* `toNat_join`, `toNat_high` and `toNat_low` — a long word and its halves.
* `toNat_shiftRight_word` — a long word that is shifted down.
* `and_highMask_eq_zero` — whether the upper bits are clear.
-/

namespace TcBle.Foundation.Calculation

variable {α β σ : Type}

/-- A calculation, from and to the note that something was lost. It may never end. -/
abbrev Calc := StateT Bool Option

/-- A result, and whether it is the one that it should be. -/
def keep (a : α) (fits : Prop) [Decidable fits] : Calc α :=
  fun lost => some (a, lost || !decide fits)

/-- A loop that asks before each round. -/
def whileLoop (cond : σ → Bool) (body : σ → Calc σ) : ℕ → σ → Calc σ
  | 0, _ => StateT.lift none
  | fuel + 1, s => if cond s then body s >>= whileLoop cond body fuel else pure s

/-- A loop that asks after each round. -/
def doWhile (cond : σ → Bool) (body : σ → Calc σ) : ℕ → σ → Calc σ
  | 0, _ => StateT.lift none
  | fuel + 1, s => body s >>= fun s' => if cond s' then doWhile cond body fuel s' else pure s'

/-- **Nothing is lost**: the calculation ends, has no new note, and gives what it should. -/
def Exact (c : Calc α) (P : α → Prop) : Prop := ∀ lost, ∃ a, c lost = some (a, lost) ∧ P a

variable {c : Calc α} {f : α → Calc β} {P Q : α → Prop} {R : β → Prop} {a : α}

/-! ### The rules -/

theorem exact_pure (h : P a) : Exact (pure a) P := fun _ => ⟨a, rfl, h⟩

theorem exact_keep {fits : Prop} [Decidable fits] (hfits : fits) (h : P a) :
    Exact (keep a fits) P := by
  intro lost
  refine ⟨a, ?_, h⟩
  simp [keep, hfits]

theorem Exact.mono (h : Exact c P) (himp : ∀ a, P a → Q a) : Exact c Q := by
  intro lost
  obtain ⟨a, hrun, ha⟩ := h lost
  exact ⟨a, hrun, himp a ha⟩

/-- After one calculation, the next. -/
theorem bind_of_run {lost lost' : Bool} (h : c lost = some (a, lost')) :
    (c >>= f) lost = f a lost' := by
  calc (c >>= f) lost = (c lost).bind fun p => f p.1 p.2 := rfl
    _ = f a lost' := by rw [h]; rfl

theorem Exact.bind (hc : Exact c P) (hf : ∀ a, P a → Exact (f a) R) : Exact (c >>= f) R := by
  intro lost
  obtain ⟨a, hrun, ha⟩ := hc lost
  obtain ⟨b, hrun', hb⟩ := hf a ha lost
  exact ⟨b, (bind_of_run hrun).trans hrun', hb⟩

section Loops

variable {cond : σ → Bool} {body : σ → Calc σ} {I : ℕ → σ → Prop} {K : σ → Prop} {s : σ}

/-- **A loop that asks before each round**. The invariant counts the rounds that are left. -/
theorem exact_whileLoop
    (hbody : ∀ k s, I k s → cond s = true → Exact (body s) fun s' => ∃ j < k, I j s')
    (hend : ∀ k s, I k s → cond s = false → K s) {k fuel : ℕ} (hk : k < fuel) (hs : I k s) :
    Exact (whileLoop cond body fuel s) K := by
  induction fuel generalizing k s with
  | zero => omega
  | succ fuel ih =>
    rw [whileLoop]
    cases hcond : cond s with
    | false => exact exact_pure (hend k s hs hcond)
    | true =>
      refine (hbody k s hs hcond).bind fun s' hs' => ?_
      obtain ⟨j, hj, hs'⟩ := hs'
      exact ih (by omega) hs'

/-- **A loop that asks after each round**. -/
theorem exact_doWhile
    (hbody : ∀ k s, I k s →
      Exact (body s) fun s' => if cond s' then ∃ j < k, I j s' else K s')
    {k fuel : ℕ} (hk : k < fuel) (hs : I k s) : Exact (doWhile cond body fuel s) K := by
  induction fuel generalizing k s with
  | zero => omega
  | succ fuel ih =>
    rw [doWhile]
    refine (hbody k s hs).bind fun s' hs' => ?_
    split_ifs with hcond
    · rw [if_pos hcond] at hs'
      obtain ⟨j, hj, hs'⟩ := hs'
      exact ih (by omega) hs'
    · rw [if_neg hcond] at hs'
      exact exact_pure hs'

end Loops

/-! ### The words -/

/-- The sum of two words. -/
def add32 (x y : UInt32) : Calc UInt32 := keep (x + y) (x.toNat + y.toNat < 2 ^ 32)

/-- Their difference. -/
def sub32 (x y : UInt32) : Calc UInt32 := keep (x - y) (y ≤ x)

/-- Their product. -/
def mul32 (x y : UInt32) : Calc UInt32 := keep (x * y) (x.toNat * y.toNat < 2 ^ 32)

/-- A word that is shifted up. -/
def shl32 (x k : UInt32) : Calc UInt32 :=
  keep (x <<< k) (k.toNat < 32 ∧ x.toNat * 2 ^ k.toNat < 2 ^ 32)

/-- The sum of two long words. -/
def add64 (x y : UInt64) : Calc UInt64 := keep (x + y) (x.toNat + y.toNat < 2 ^ 64)

/-- Their difference. -/
def sub64 (x y : UInt64) : Calc UInt64 := keep (x - y) (y ≤ x)

/-- A long word that is shifted up. -/
def shl64 (x k : UInt64) : Calc UInt64 :=
  keep (x <<< k) (k.toNat < 64 ∧ x.toNat * 2 ^ k.toNat < 2 ^ 64)

/-- A long word that is put where a word is. -/
def narrow (x : UInt64) : Calc UInt32 := keep x.toUInt32 (x.toNat < 2 ^ 32)

theorem exact_add32 {x y : UInt32} (h : x.toNat + y.toNat < 2 ^ 32) :
    Exact (add32 x y) fun z => z.toNat = x.toNat + y.toNat := by
  refine exact_keep h ?_
  rw [UInt32.toNat_add, Nat.mod_eq_of_lt h]

theorem exact_sub32 {x y : UInt32} (h : y.toNat ≤ x.toNat) :
    Exact (sub32 x y) fun z => z.toNat = x.toNat - y.toNat := by
  refine exact_keep (UInt32.le_iff_toNat_le.mpr h) ?_
  exact UInt32.toNat_sub_of_le _ _ (UInt32.le_iff_toNat_le.mpr h)

theorem exact_mul32 {x y : UInt32} (h : x.toNat * y.toNat < 2 ^ 32) :
    Exact (mul32 x y) fun z => z.toNat = x.toNat * y.toNat := by
  refine exact_keep h ?_
  rw [UInt32.toNat_mul, Nat.mod_eq_of_lt h]

theorem exact_shl32 {x k : UInt32} (hk : k.toNat < 32) (h : x.toNat * 2 ^ k.toNat < 2 ^ 32) :
    Exact (shl32 x k) fun z => z.toNat = x.toNat * 2 ^ k.toNat := by
  refine exact_keep ⟨hk, h⟩ ?_
  rw [UInt32.toNat_shiftLeft, Nat.mod_eq_of_lt hk, Nat.shiftLeft_eq, Nat.mod_eq_of_lt h]

theorem exact_add64 {x y : UInt64} (h : x.toNat + y.toNat < 2 ^ 64) :
    Exact (add64 x y) fun z => z.toNat = x.toNat + y.toNat := by
  refine exact_keep h ?_
  rw [UInt64.toNat_add, Nat.mod_eq_of_lt h]

theorem exact_sub64 {x y : UInt64} (h : y.toNat ≤ x.toNat) :
    Exact (sub64 x y) fun z => z.toNat = x.toNat - y.toNat := by
  refine exact_keep (UInt64.le_iff_toNat_le.mpr h) ?_
  exact UInt64.toNat_sub_of_le _ _ (UInt64.le_iff_toNat_le.mpr h)

theorem exact_shl64 {x k : UInt64} (hk : k.toNat < 64) (h : x.toNat * 2 ^ k.toNat < 2 ^ 64) :
    Exact (shl64 x k) fun z => z.toNat = x.toNat * 2 ^ k.toNat := by
  refine exact_keep ⟨hk, h⟩ ?_
  rw [UInt64.toNat_shiftLeft, Nat.mod_eq_of_lt hk, Nat.shiftLeft_eq, Nat.mod_eq_of_lt h]

theorem exact_narrow {x : UInt64} (h : x.toNat < 2 ^ 32) :
    Exact (narrow x) fun z => z.toNat = x.toNat := by
  refine exact_keep h ?_
  rw [UInt64.toNat_toUInt32, Nat.mod_eq_of_lt h]

/-! ### The halves of a long word -/

/-- A long word from its halves. -/
def join (high low : UInt32) : UInt64 := (high.toUInt64 <<< 32) ||| low.toUInt64

/-- The upper half. -/
def high (x : UInt64) : UInt32 := (x >>> 32).toUInt32

/-- The lower half. -/
def low (x : UInt64) : UInt32 := x.toUInt32

theorem toNat_shiftRight32 (x : UInt64) : (x >>> 32).toNat = x.toNat / 2 ^ 32 := by
  rw [UInt64.toNat_shiftRight, Nat.shiftRight_eq_div_pow]
  rfl

theorem toNat_shiftRight_word (x : UInt64) {k : UInt32} (hk : k.toNat < 64) :
    (x >>> k.toUInt64).toNat = x.toNat / 2 ^ k.toNat := by
  rw [UInt64.toNat_shiftRight, UInt32.toNat_toUInt64, Nat.mod_eq_of_lt hk,
    Nat.shiftRight_eq_div_pow]

theorem toNat_join (h l : UInt32) : (join h l).toNat = h.toNat * 2 ^ 32 + l.toNat := by
  have hh := h.toNat_lt
  have hl := l.toNat_lt
  have hfit : h.toNat <<< 32 < 2 ^ 64 := by
    rw [Nat.shiftLeft_eq]
    omega
  rw [join, UInt64.toNat_or, UInt64.toNat_shiftLeft, UInt32.toNat_toUInt64, UInt32.toNat_toUInt64,
    show (32 : UInt64).toNat % 64 = 32 from rfl, Nat.mod_eq_of_lt hfit,
    ← Nat.shiftLeft_add_eq_or_of_lt hl, Nat.shiftLeft_eq]

theorem toNat_high (x : UInt64) : (high x).toNat = x.toNat / 2 ^ 32 := by
  have hx := x.toNat_lt
  rw [high, UInt64.toNat_toUInt32, toNat_shiftRight32]
  omega

theorem toNat_low (x : UInt64) : (low x).toNat = x.toNat % 2 ^ 32 := UInt64.toNat_toUInt32 x

theorem high_low (x : UInt64) : x.toNat = (high x).toNat * 2 ^ 32 + (low x).toNat := by
  rw [toNat_high, toNat_low]
  omega

/-- The upper bits are clear, if what they would be worth is not there. -/
theorem and_highMask_eq_zero {x n k : ℕ} (hx : x < 2 ^ (n + k)) :
    x &&& (2 ^ k - 1) * 2 ^ n = 0 ↔ x < 2 ^ n := by
  have hupper : (x &&& (2 ^ k - 1) * 2 ^ n) / 2 ^ n = x / 2 ^ n := by
    have hlt : x / 2 ^ n < 2 ^ k := Nat.div_lt_of_lt_mul (by rwa [← Nat.pow_add])
    rw [Nat.and_div_two_pow, Nat.mul_div_cancel _ (Nat.two_pow_pos n),
      Nat.and_two_pow_sub_one_eq_mod, Nat.mod_eq_of_lt hlt]
  have hlower : (x &&& (2 ^ k - 1) * 2 ^ n) % 2 ^ n = 0 := by
    rw [Nat.and_mod_two_pow, Nat.mul_mod_left, Nat.and_zero]
  constructor
  · intro h
    rw [h, Nat.zero_div] at hupper
    exact (Nat.div_eq_zero_iff_lt (Nat.two_pow_pos n)).mp hupper.symm
  · intro h
    rw [← Nat.div_add_mod (x &&& (2 ^ k - 1) * 2 ^ n) (2 ^ n), hlower, hupper, Nat.div_eq_of_lt h,
      Nat.mul_zero]

end TcBle.Foundation.Calculation
