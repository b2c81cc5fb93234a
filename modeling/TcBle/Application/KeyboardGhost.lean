import Mathlib.Data.Fin.VecNotation
import Mathlib.Data.List.FinRange
import Mathlib.Data.Nat.Bitwise
import TcBle.Foundation.Conflicts

/-!
# Ghost keys

`application/keyboard/keyboard.c`: `kb_rmv_ghost_key` takes the keys out of a scanned matrix that four
or three pressed keys at the corners of a rectangle may have made up.

## The model

The matrix has a row of 32 columns for each of the `n` drive lines. The loops go over the lines in
order: `mixRow` is the inner one, which collects in `mix_final` what line `i` shares with the lines
behind it, and `rmvRow` the body of the outer one, which clears the row that was compared.

## What is proved

* `conflicts_iff` — the test of the code is that the two lines conflict.
* `columns_kbRmvGhostKey` — the loops clean the matrix, as `Foundation.Conflicts` says what that is.
* `ghostKeys_removed` — what follows for every matrix.
-/

namespace TcBle.Application

open TcBle.Foundation.Conflicts

variable {n : ℕ}

/-- `pressed_matrix`: a row for each drive line. -/
abbrev KeyMatrix (n : ℕ) := Fin n → UInt32

/-- `BIT_IS_POW2`. -/
def bitIsPow2 (x : UInt32) : Bool := x &&& (x - 1) = 0

/-- The test of `kb_rmv_ghost_key` for two rows. -/
def conflicts (a b : UInt32) : Bool :=
  let mix := a &&& b
  mix ≠ 0 && (!bitIsPow2 mix || a ^^^ b ≠ 0)

/-- One round of the inner loop: `mix_final` after line `i` is compared with line `j`. -/
def mixRow (m : KeyMatrix n) (i : Fin n) (mixFinal : UInt32) (j : Fin n) : UInt32 :=
  if conflicts (m i) (m j) then mixFinal ||| (m i &&& m j) else mixFinal

/-- One round of the outer loop: `mix_final` and the matrix after line `i`. -/
def rmvRow (s : UInt32 × KeyMatrix n) (i : Fin n) : UInt32 × KeyMatrix n :=
  let mixFinal := ((List.finRange n).filter (i < ·)).foldl (mixRow s.2 i) s.1
  (mixFinal, Function.update s.2 i (s.2 i &&& ~~~mixFinal))

/-- `kb_rmv_ghost_key`. -/
def kbRmvGhostKey (m : KeyMatrix n) : KeyMatrix n := ((List.finRange n).foldl rmvRow (0, m)).2

/-- The columns that are pressed on a row. -/
def columns (row : UInt32) : Set ℕ := {c | row.toNat.testBit c}

/-! ### Rows as sets of columns -/

theorem columns_injective : Function.Injective columns := by
  intro a b h
  refine UInt32.toNat_inj.mp (Nat.eq_of_testBit_eq fun c => ?_)
  exact Bool.eq_iff_iff.mpr (Set.ext_iff.mp h c)

theorem columns_zero : columns 0 = ∅ := by
  ext c
  simp [columns]

theorem columns_and (a b : UInt32) : columns (a &&& b) = columns a ∩ columns b := by
  ext c
  simp [columns, Nat.testBit_and]

theorem columns_or (a b : UInt32) : columns (a ||| b) = columns a ∪ columns b := by
  ext c
  simp [columns, Nat.testBit_or]

/-- A row has 32 columns. -/
theorem testBit_of_le (a : UInt32) {c : ℕ} (hc : 32 ≤ c) : a.toNat.testBit c = false :=
  Nat.testBit_lt_two_pow (a.toNat_lt.trans_le (Nat.pow_le_pow_right (by simp) hc))

/-- The complement of a mask, in one of them. -/
theorem testBit_not (b : UInt32) {c : ℕ} (hc : c < 32) :
    (~~~b).toNat.testBit c = !b.toNat.testBit c := by
  have hb : (~~~b).toNat = 2 ^ 32 - (b.toNat + 1) := by
    rw [UInt32.toNat_not]
    have := b.toNat_lt
    simp only [UInt32.size]
    omega
  rw [hb, Nat.testBit_two_pow_sub_succ b.toNat_lt]
  simp [hc]

/-- Clearing the columns of a mask. -/
theorem columns_and_not (a b : UInt32) : columns (a &&& ~~~b) = columns a \ columns b := by
  ext c
  show (a &&& ~~~b).toNat.testBit c = true ↔ a.toNat.testBit c = true ∧ ¬ b.toNat.testBit c = true
  rw [UInt32.toNat_and, Nat.testBit_and, Bool.and_eq_true]
  rcases lt_or_ge c 32 with hc | hc
  · rw [testBit_not b hc, Bool.not_eq_true', Bool.not_eq_true]
  · simp [testBit_of_le a hc]

/-- `BIT_IS_POW2` of a row with a column: it has no other. -/
theorem bitIsPow2_iff {x : UInt32} (hx : x ≠ 0) :
    bitIsPow2 x = true ↔ ∃ c, columns x = {c} := by
  have hone : (x - 1).toNat = x.toNat - 1 := by
    have : (1 : UInt32) ≤ x := by
      rw [UInt32.le_iff_toNat_le, UInt32.toNat_one]
      exact Nat.one_le_iff_ne_zero.mpr fun h => hx (UInt32.toNat_inj.mp h)
    rw [UInt32.toNat_sub_of_le _ _ this]
    rfl
  have hzero : x.toNat ≠ 0 := fun h => hx (UInt32.toNat_inj.mp h)
  rw [bitIsPow2, decide_eq_true_eq, ← UInt32.toNat_inj, UInt32.toNat_and, hone]
  refine (Nat.and_sub_one_eq_zero_iff_isPowerOfTwo hzero).trans ?_
  constructor
  · rintro ⟨k, hk⟩
    refine ⟨k, Set.ext fun c => ?_⟩
    simp [columns, hk, Nat.testBit_two_pow, eq_comm]
  · rintro ⟨k, hk⟩
    refine ⟨k, Nat.eq_of_testBit_eq fun c => ?_⟩
    have hbit := Set.ext_iff.mp hk c
    rw [Nat.testBit_two_pow, Bool.eq_iff_iff, decide_eq_true_eq]
    exact hbit.trans eq_comm

/-- **The test of the code** for two lines is that they conflict. -/
theorem conflicts_iff (m : KeyMatrix n) {i j : Fin n} (hij : i ≠ j) :
    conflicts (m i) (m j) = true ↔ Conflict (columns ∘ m) i j := by
  have hshare : m i &&& m j ≠ 0 ↔ (columns (m i) ∩ columns (m j)).Nonempty := by
    rw [← columns_and, Set.nonempty_iff_ne_empty, Ne, Ne, ← columns_zero,
      columns_injective.eq_iff]
  have hxor : m i ^^^ m j ≠ 0 ↔ columns (m i) ≠ columns (m j) := by
    rw [Ne, UInt32.xor_eq_zero_iff, columns_injective.ne_iff]
  simp only [conflicts, Bool.and_eq_true, decide_eq_true_eq, Bool.or_eq_true, Bool.not_eq_true',
    hxor]
  constructor
  · rintro ⟨hmix, hmore⟩
    refine ⟨hij, hshare.mp hmix, fun ⟨c, hi, hj⟩ => ?_⟩
    have hpow : bitIsPow2 (m i &&& m j) = true := by
      refine (bitIsPow2_iff hmix).mpr ⟨c, ?_⟩
      rw [columns_and]
      exact (congrArg₂ _ hi hj).trans (Set.inter_self _)
    rcases hmore with hpow' | hne
    · rw [hpow] at hpow'
      exact Bool.noConfusion hpow'
    · exact hne (hi.trans hj.symm)
  · rintro ⟨-, hnonempty, hsingle⟩
    refine ⟨hshare.mpr hnonempty, ?_⟩
    by_contra hnot
    obtain ⟨hpow, heq⟩ := not_or.mp hnot
    obtain ⟨c, hc⟩ := (bitIsPow2_iff (hshare.mpr hnonempty)).mp (Bool.eq_true_of_not_eq_false hpow)
    have hcols : columns (m i) = columns (m j) := not_not.mp heq
    rw [columns_and, hcols, Set.inter_self] at hc
    exact hsingle ⟨c, hcols.trans hc, hc⟩

/-! ### The loops -/

/-- What the inner loop collects: the columns that line `i` shares with a line of `js` that it
conflicts with. -/
theorem columns_foldl_mixRow (m : KeyMatrix n) (i : Fin n) (js : List (Fin n)) (mixFinal : UInt32) :
    columns (js.foldl (mixRow m i) mixFinal) =
      {c | c ∈ columns mixFinal ∨
        ∃ j ∈ js, conflicts (m i) (m j) = true ∧ c ∈ columns (m i) ∩ columns (m j)} := by
  induction js generalizing mixFinal with
  | nil =>
    ext c
    simp
  | cons j js ih =>
    rw [List.foldl_cons, ih, mixRow]
    ext c
    by_cases h : conflicts (m i) (m j) = true
    · simp [h, columns_or, columns_and, or_assoc]
    · simp [h]

/-- The lines of `is` are the last ones, in order. -/
structure Rest (is : List (Fin n)) : Prop where
  /-- In order. -/
  sorted : is.Pairwise (· < ·)
  /-- All behind a line are there. -/
  upper : ∀ i ∈ is, ∀ j, i < j → j ∈ is

theorem Rest.tail {i : Fin n} {is : List (Fin n)} (h : Rest (i :: is)) : Rest is where
  sorted := (List.pairwise_cons.mp h.sorted).2
  upper k hk j hkj := by
    rcases List.mem_cons.mp (h.upper k (List.mem_cons_of_mem i hk) j hkj) with rfl | hj
    · exact absurd hkj ((List.pairwise_cons.mp h.sorted).1 k hk).asymm
    · exact hj

/-- A round of the outer loop leaves the other lines alone. -/
theorem rmvRow_of_ne (s : UInt32 × KeyMatrix n) {i k : Fin n} (h : i ≠ k) :
    (rmvRow s k).2 i = s.2 i := Function.update_of_ne h _ _

/-- The line that is compared loses what is in `mix_final` after the round. -/
theorem rmvRow_self (s : UInt32 × KeyMatrix n) (i : Fin n) :
    (rmvRow s i).2 i = s.2 i &&& ~~~(rmvRow s i).1 := Function.update_self _ _ _

/-- The lines that are not compared keep their rows. -/
theorem foldl_rmvRow_of_notMem {is : List (Fin n)} (s : UInt32 × KeyMatrix n) {i : Fin n}
    (h : i ∉ is) : (is.foldl rmvRow s).2 i = s.2 i := by
  induction is generalizing s with
  | nil => rfl
  | cons k is ih =>
    obtain ⟨hik, his⟩ := not_or.mp (mt List.mem_cons.mpr h)
    rw [List.foldl_cons, ih _ his, rmvRow_of_ne s hik]

/-- `mix_final` after a round for line `k`, where the lines from `k` on are as in `m`. -/
theorem columns_rmvRow_fst {m : KeyMatrix n} (s : UInt32 × KeyMatrix n) {k : Fin n}
    (hs : ∀ j, k ≤ j → s.2 j = m j) :
    columns (rmvRow s k).1 =
      {c | c ∈ columns s.1 ∨
        ∃ j, k < j ∧ conflicts (m k) (m j) = true ∧ c ∈ columns (m k) ∩ columns (m j)} := by
  rw [rmvRow, columns_foldl_mixRow, hs k le_rfl]
  ext c
  refine or_congr_right ⟨?_, ?_⟩
  · rintro ⟨j, hj, h⟩
    have hkj : k < j := by simpa using hj
    rw [hs j hkj.le] at h
    exact ⟨j, hkj, h⟩
  · rintro ⟨j, hkj, h⟩
    refine ⟨j, by simpa using hkj, ?_⟩
    rwa [hs j hkj.le]

/-- **The outer loop** from a line on, where the rows from there on are as they were scanned: each of
them loses what is in `mix_final` already, and what a line up to its own shares with one behind that
it conflicts with. -/
theorem columns_foldl_rmvRow {m : KeyMatrix n} {is : List (Fin n)} (his : Rest is)
    (s : UInt32 × KeyMatrix n) (hs : ∀ j ∈ is, s.2 j = m j) {i : Fin n} (hi : i ∈ is) :
    columns ((is.foldl rmvRow s).2 i) =
      {c | c ∈ columns (m i) ∧ c ∉ columns s.1 ∧ ∀ a ∈ is, a ≤ i → ∀ b, a < b →
        conflicts (m a) (m b) = true → c ∉ columns (m a) ∩ columns (m b)} := by
  induction is generalizing s with
  | nil => exact absurd hi List.not_mem_nil
  | cons k is ih =>
    have hk := (List.pairwise_cons.mp his.sorted).1
    have hmix := columns_rmvRow_fst (m := m) s fun j hkj => by
      rcases hkj.eq_or_lt with rfl | hlt
      · exact hs _ List.mem_cons_self
      · exact hs j (his.upper k List.mem_cons_self j hlt)
    rw [List.foldl_cons]
    rcases List.mem_cons.mp hi with rfl | hrest
    · -- the row that is cleared in this round
      have hrow : columns ((rmvRow s i).2 i) = columns (m i) \ columns (rmvRow s i).1 := by
        rw [rmvRow_self, columns_and_not, hs i List.mem_cons_self]
      rw [foldl_rmvRow_of_notMem _ fun h => lt_irrefl i (hk i h), hrow, hmix]
      ext c
      refine and_congr_right fun _ => not_or.trans (and_congr_right fun _ => ?_)
      constructor
      · intro h a ha hai b hab hconf hc
        obtain rfl : a = i := by
          rcases List.mem_cons.mp ha with rfl | ha
          · rfl
          · exact absurd (hk a ha) hai.not_gt
        exact h ⟨b, hab, hconf, hc⟩
      · rintro h ⟨j, hij, hconf, hc⟩
        exact h i List.mem_cons_self le_rfl j hij hconf hc
    · have hki := hk i hrest
      have hnext : ∀ j ∈ is, (rmvRow s k).2 j = m j := fun j hj => by
        rw [rmvRow_of_ne s (hk j hj).ne', hs j (List.mem_cons_of_mem k hj)]
      rw [ih his.tail _ hnext hrest, hmix]
      ext c
      refine and_congr_right fun _ => ?_
      constructor
      · rintro ⟨hnot, hall⟩
        obtain ⟨hs₁, hrow⟩ := not_or.mp hnot
        refine ⟨hs₁, fun a ha hai b hab hconf hc => ?_⟩
        rcases List.mem_cons.mp ha with rfl | ha
        · exact hrow ⟨b, hab, hconf, hc⟩
        · exact hall a ha hai b hab hconf hc
      · rintro ⟨hs₁, hall⟩
        refine ⟨not_or.mpr ⟨hs₁, ?_⟩, fun a ha => hall a (List.mem_cons_of_mem k ha)⟩
        rintro ⟨j, hkj, hconf, hc⟩
        exact hall k List.mem_cons_self hki.le j hkj hconf hc

/-- **The loops clean the matrix**: a column that two earlier lines conflict about is one that the line
has a conflict about itself, so the mask that is carried along takes away nothing else. -/
theorem columns_kbRmvGhostKey (m : KeyMatrix n) :
    columns ∘ kbRmvGhostKey m = clean (columns ∘ m) := by
  have hall : Rest (List.finRange n) :=
    ⟨List.pairwise_lt_finRange n, fun _ _ j _ => List.mem_finRange j⟩
  funext i
  refine (columns_foldl_rmvRow (m := m) hall (0, m) (fun _ _ => rfl) (List.mem_finRange i)).trans ?_
  ext c
  refine and_congr_right fun hc => ?_
  rw [columns_zero]
  constructor
  · rintro ⟨-, h⟩ j hconf hcj
    -- the line that comes first of the two is the one whose round collects the column
    rcases lt_or_gt_of_ne hconf.ne with hlt | hgt
    · exact h i (List.mem_finRange i) le_rfl j hlt ((conflicts_iff m hlt.ne).mpr hconf) ⟨hc, hcj⟩
    · exact h j (List.mem_finRange j) hgt.le i hgt ((conflicts_iff m hgt.ne).mpr hconf.symm) ⟨hcj, hc⟩
  · intro h
    refine ⟨Set.notMem_empty c, fun a _ _ b hab hconf hcab => ?_⟩
    obtain ⟨l, hl, hcl⟩ := ((conflicts_iff m hab.ne).mp hconf).spreads hcab.1 hcab.2 hc
    exact h l hl hcl

/-- The matrices with the same pressed columns are the same. -/
theorem columns_comp_injective : Function.Injective fun m : KeyMatrix n => columns ∘ m :=
  fun _ _ h => funext fun i => columns_injective (congrFun h i)

/-- **Ghost keys are removed**: of every matrix each line keeps the columns that it does not share with
a line that it conflicts with. So the order of the lines does not matter, no conflict is left, a second
time changes nothing, and neither does the first where there is no conflict. -/
theorem ghostKeys_removed (m : KeyMatrix n) :
    (∀ i c, c ∈ columns (kbRmvGhostKey m i) ↔
      c ∈ columns (m i) ∧ ∀ j, Conflict (columns ∘ m) i j → c ∉ columns (m j)) ∧
    (∀ σ : Equiv.Perm (Fin n), kbRmvGhostKey (m ∘ σ) = kbRmvGhostKey m ∘ σ) ∧
    (∀ i j, ¬ Conflict (columns ∘ kbRmvGhostKey m) i j) ∧
    kbRmvGhostKey (kbRmvGhostKey m) = kbRmvGhostKey m ∧
    ((∀ i j, ¬ Conflict (columns ∘ m) i j) → kbRmvGhostKey m = m) := by
  refine ⟨fun i c => ?_, fun σ => columns_comp_injective ?_, fun i j => ?_,
    columns_comp_injective ?_, fun h => columns_comp_injective ?_⟩
  · exact Set.ext_iff.mp (congrFun (columns_kbRmvGhostKey m) i) c
  · show columns ∘ kbRmvGhostKey (m ∘ σ) = (columns ∘ kbRmvGhostKey m) ∘ σ
    rw [columns_kbRmvGhostKey, columns_kbRmvGhostKey]
    exact clean_comp (S := columns ∘ m) σ
  · rw [columns_kbRmvGhostKey]
    exact not_conflict_clean i j
  · show columns ∘ kbRmvGhostKey (kbRmvGhostKey m) = columns ∘ kbRmvGhostKey m
    rw [columns_kbRmvGhostKey, columns_kbRmvGhostKey, clean_clean]
  · show columns ∘ kbRmvGhostKey m = columns ∘ m
    rw [columns_kbRmvGhostKey, clean_of_not_conflict h]

/-- Three keys at the corners of a rectangle, and a fourth key by itself. -/
example : ∀ i, kbRmvGhostKey ![0b0011, 0b0001, 0b1000] i = ![0b0010, 0b0000, 0b1000] i := by decide

end TcBle.Application
