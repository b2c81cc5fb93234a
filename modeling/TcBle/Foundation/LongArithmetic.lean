import Mathlib.Algebra.Order.Ring.Nat
import Mathlib.Tactic.Linarith
import Mathlib.Tactic.Ring

/-!
# Arithmetic on digits

How numbers of two digits are multiplied and divided, in any base. A product is summed up column by
column, with the carries. A quotient is found either a power of two at a time, or from the leading
digits, as an estimate that is corrected.

## What is proved

* `column_lt` — a product of two digits has room for two more digits.
* `mulHigh_eq` and `mul_columns` — the columns, with their carries, are the product.
* `Partial.subtract`, `Partial.skip` and `Partial.done` — the restoring division.
* `div_le_estimate` and `estimate_sub_one_le` — the estimate is the quotient or one more.
* `corrected_add_one` and `corrected` — the estimate, less one, and its single correction.
-/

namespace TcBle.Foundation.LongArithmetic

theorem two_pow_mul_two_pow {i j k : ℕ} (h : i + j = k) : 2 ^ i * 2 ^ j = 2 ^ k := by
  rw [← pow_add, h]

/-! ### Multiplication -/

section Multiplication

variable {B a b c d : ℕ}

/-- The room in a column. -/
theorem column_lt (ha : a < B) (hb : b < B) (hc : c < B) (hd : d < B) : a * b + c + d < B * B := by
  obtain ⟨m, rfl⟩ : ∃ m, B = m + 1 := ⟨B - 1, by omega⟩
  have hprod : a * b ≤ m * m := Nat.mul_le_mul (by omega) (by omega)
  calc a * b + c + d ≤ m * m + m + m := by omega
    _ < (m + 1) * (m + 1) := by linarith [Nat.succ_mul m (m + 1), Nat.mul_succ m m]

/-- The upper half of the product of `u₁u₀` and `v₁v₀`. -/
def mulHigh (B u₀ u₁ v₀ v₁ : ℕ) : ℕ :=
  let t := u₁ * v₀ + u₀ * v₀ / B
  u₁ * v₁ + t / B + (u₀ * v₁ + t % B) / B

theorem mulHigh_eq (hB : 0 < B) (u₀ u₁ v₀ v₁ : ℕ) :
    mulHigh B u₀ u₁ v₀ v₁ = (u₁ * B + u₀) * (v₁ * B + v₀) / (B * B) := by
  set t := u₁ * v₀ + u₀ * v₀ / B with ht
  set w := u₀ * v₁ + t % B with hw
  have hw₀ := Nat.div_add_mod (u₀ * v₀) B
  have ht' := Nat.div_add_mod t B
  have hw' := Nat.div_add_mod w B
  have hlow : w % B * B + u₀ * v₀ % B < B * B :=
    calc w % B * B + u₀ * v₀ % B < w % B * B + B := Nat.add_lt_add_left (Nat.mod_lt _ hB) _
      _ = (w % B + 1) * B := by ring
      _ ≤ B * B := Nat.mul_le_mul_right _ (Nat.mod_lt _ hB)
  have hsum : (u₁ * B + u₀) * (v₁ * B + v₀) =
      (w % B * B + u₀ * v₀ % B) + (u₁ * v₁ + t / B + w / B) * (B * B) := by
    calc (u₁ * B + u₀) * (v₁ * B + v₀)
        = u₁ * v₁ * (B * B) + (u₁ * v₀ + u₀ * v₁) * B + u₀ * v₀ := by ring
      _ = u₁ * v₁ * (B * B) + (u₁ * v₀ + u₀ * v₁) * B +
          (B * (u₀ * v₀ / B) + u₀ * v₀ % B) := by rw [hw₀]
      _ = u₁ * v₁ * (B * B) + (t + u₀ * v₁) * B + u₀ * v₀ % B := by rw [ht]; ring
      _ = u₁ * v₁ * (B * B) + (B * (t / B) + t % B + u₀ * v₁) * B + u₀ * v₀ % B := by rw [ht']
      _ = u₁ * v₁ * (B * B) + t / B * (B * B) + w * B + u₀ * v₀ % B := by rw [hw]; ring
      _ = u₁ * v₁ * (B * B) + t / B * (B * B) + (B * (w / B) + w % B) * B + u₀ * v₀ % B := by
        rw [hw']
      _ = (w % B * B + u₀ * v₀ % B) + (u₁ * v₁ + t / B + w / B) * (B * B) := by ring
  rw [hsum, Nat.add_mul_div_right _ _ (Nat.mul_pos hB hB), Nat.div_eq_of_lt hlow, Nat.zero_add]
  rfl

/-- **The columns of a product**, from the products of the digits. -/
theorem mul_columns (B l m n h : ℕ) :
    h * (B * B) + (m + n) * B + l =
      (((l / B + m % B + n % B) / B + m / B + n / B + h % B) / B + h / B) * B * (B * B) +
        ((l / B + m % B + n % B) / B + m / B + n / B + h % B) % B * (B * B) +
        ((l / B + m % B + n % B) % B * B + l % B) := by
  set c := l / B + m % B + n % B with hc
  set e := c / B + m / B + n / B + h % B with he
  have hl := Nat.div_add_mod l B
  have hm := Nat.div_add_mod m B
  have hn := Nat.div_add_mod n B
  have hh := Nat.div_add_mod h B
  have hc' := Nat.div_add_mod c B
  have he' := Nat.div_add_mod e B
  calc h * (B * B) + (m + n) * B + l
      = (B * (h / B) + h % B) * (B * B) + (B * (m / B) + m % B + (B * (n / B) + n % B)) * B +
        (B * (l / B) + l % B) := by rw [hl, hm, hn, hh]
    _ = (B * (h / B) + h % B) * (B * B) + (m / B + n / B) * (B * B) + c * B + l % B := by
      rw [hc]; ring
    _ = (B * (h / B) + h % B) * (B * B) + (m / B + n / B) * (B * B) + (B * (c / B) + c % B) * B +
        l % B := by rw [hc']
    _ = h / B * B * (B * B) + e * (B * B) + c % B * B + l % B := by rw [he]; ring
    _ = h / B * B * (B * B) + (B * (e / B) + e % B) * (B * B) + c % B * B + l % B := by rw [he']
    _ = (e / B + h / B) * B * (B * B) + e % B * (B * B) + (c % B * B + l % B) := by ring

end Multiplication

/-! ### Division -/

section Division

variable {N M : ℕ}

/-- **What a restoring division has found** of `N / M`, with the lowest `k` binary digits still to
come. -/
structure Partial (N M k res rem : ℕ) : Prop where
  /-- Nothing of the dividend is lost. -/
  total : res * M + rem = N
  /-- What is left is small. -/
  lt : rem < M * 2 ^ k

variable {k res rem : ℕ}

/-- A digit that is one. -/
theorem Partial.subtract (h : Partial N M (k + 1) res rem) (hle : M * 2 ^ k ≤ rem) :
    Partial N M k (res + 2 ^ k) (rem - M * 2 ^ k) where
  total := by
    obtain ⟨rest, rfl⟩ := Nat.exists_eq_add_of_le hle
    rw [Nat.add_sub_cancel_left, ← h.total]
    ring
  lt := by
    have := h.lt
    rw [pow_succ, ← mul_assoc] at this
    omega

/-- A digit that is zero. -/
theorem Partial.skip (h : Partial N M (k + 1) res rem) (hlt : rem < M * 2 ^ k) :
    Partial N M k res rem := ⟨h.total, hlt⟩

/-- **No digit is left**. -/
theorem Partial.done (h : Partial N M 0 res rem) : res = N / M ∧ rem = N % M := by
  have hlt : rem < M := by simpa using h.lt
  have hdiv : rem + M * res = N := by rw [← h.total, Nat.mul_comm, Nat.add_comm]
  obtain ⟨hres, hrem⟩ := (Nat.div_mod_unique (by omega)).mpr ⟨hdiv, hlt⟩
  exact ⟨hres.symm, hrem.symm⟩

variable {b : ℕ}

/-- The leading digits never give too little. -/
theorem div_le_estimate (hD : 0 < M / b) : N / M ≤ N / b / (M / b) := by
  have hb : 0 < b := by
    by_contra h
    obtain rfl : b = 0 := by omega
    simp at hD
  rw [Nat.div_div_eq_div_mul]
  exact Nat.div_le_div_left (Nat.mul_div_le M b) (Nat.mul_pos hb hD)

/-- **They give one too much at most**. -/
theorem estimate_sub_one_le (hM : 0 < M)
    (h : (N / b / (M / b) - 1) * (M % b) ≤ b * (M / b)) : N / b / (M / b) - 1 ≤ N / M := by
  cases hQ : N / b / (M / b) with
  | zero => simp
  | succ Q =>
    rw [hQ, Nat.add_sub_cancel] at h
    rw [Nat.add_sub_cancel, Nat.le_div_iff_mul_le hM]
    have hle : (Q + 1) * (b * (M / b)) ≤ N := by
      rw [← hQ, Nat.div_div_eq_div_mul]
      exact Nat.div_mul_le_self _ _
    calc Q * M = Q * (b * (M / b) + M % b) := by rw [Nat.div_add_mod]
      _ = Q * (b * (M / b)) + Q * (M % b) := Nat.mul_add _ _ _
      _ ≤ Q * (b * (M / b)) + b * (M / b) := Nat.add_le_add_left h _
      _ = (Q + 1) * (b * (M / b)) := by ring
      _ ≤ N := hle

variable {q : ℕ}

/-- The correction, where it is due. -/
theorem corrected_add_one (hq : N / M ≤ q + 1) (hle : q * M ≤ N) (hrem : M ≤ N - q * M)
    (hM : 0 < M) :
    q + 1 = N / M ∧ N - q * M - M = N % M := by
  have hmul : (q + 1) * M ≤ N := by
    rw [Nat.add_mul, Nat.one_mul]
    omega
  have hdiv : q + 1 = N / M := le_antisymm ((Nat.le_div_iff_mul_le hM).mpr hmul) hq
  refine ⟨hdiv, ?_⟩
  rw [Nat.sub_sub, ← Nat.succ_mul, Nat.succ_eq_add_one, hdiv, Nat.mul_comm, ← Nat.mod_eq_sub]

/-- And where it is not. -/
theorem corrected (hle : q * M ≤ N) (hrem : N - q * M < M) : q = N / M ∧ N - q * M = N % M := by
  have hpartial : Partial N M 0 q (N - q * M) := ⟨by omega, by simpa using hrem⟩
  exact hpartial.done

end Division

end TcBle.Foundation.LongArithmetic
