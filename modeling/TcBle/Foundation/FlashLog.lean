import TcBle.Foundation.Flash
import Mathlib.Data.List.Range
import Mathlib.Tactic.Ring

/-!
# A log in a NOR flash

Units of one size, one after the other. The first byte of a unit is its mark: a unit whose
mark is still `0xff` is free, and the units are used from the first one on. What is
deleted is marked so; its unit stays used.

## What is proved

* `Filled.find_eq` and `Filled.firstFree_eq` — what a loop over the units finds, and the unit that
  is used next.
* `Filled.take` and `Filled.remark` — a unit is taken, a mark is changed; `marked_take` and
  `marked_remark` — what becomes of the units with a given mark.
* `program_unit_other` — what is written within one unit leaves the others alone.
-/

namespace TcBle.Foundation

/-- Where the units are. -/
structure FlashLog where
  /-- The first address. -/
  base : ℕ
  /-- The size of a unit. -/
  size : ℕ
  /-- How many units there are. -/
  num : ℕ
  /-- A unit has its mark. -/
  size_pos : 0 < size

namespace FlashLog

variable (L : FlashLog)

/-- The address of unit `i`. -/
def unit (i : ℕ) : ℕ := L.base + i * L.size

/-- Its mark. -/
def mark (f : Flash) (i : ℕ) : UInt8 := f (L.unit i)

/-- The units with the mark `m` among the first `k`. -/
def marked (f : Flash) (m : UInt8) (k : ℕ) : List ℕ := (List.range k).filter fun i => L.mark f i = m

/-- The first `k` units are used, the others free. -/
structure Filled (f : Flash) (k : ℕ) : Prop where
  /-- There are as many. -/
  le : k ≤ L.num
  /-- The used units. -/
  used : ∀ i < k, L.mark f i ≠ 0xff
  /-- The free ones. -/
  free : ∀ i < L.num, k ≤ i → L.mark f i = 0xff

/-- The loop over the `n` units from `cur` on, which ends at a free one, or where `p` says so. -/
def findFrom (f : Flash) (p : ℕ → Bool) : ℕ → ℕ → Option ℕ
  | 0, _ => none
  | n + 1, cur =>
    if f cur = 0xff then none
    else if p cur then some cur
    else findFrom f p n (cur + L.size)

/-- The first unit in use that `p` says is the one. -/
def find (f : Flash) (p : ℕ → Bool) : Option ℕ := L.findFrom f p L.num L.base

/-- The loop over the `n` units from `cur` on, which ends at a free one. -/
def firstFreeFrom (f : Flash) : ℕ → ℕ → Option ℕ
  | 0, _ => none
  | n + 1, cur => if f cur = 0xff then some cur else firstFreeFrom f n (cur + L.size)

/-- The first free unit. -/
def firstFree (f : Flash) : Option ℕ := L.firstFreeFrom f L.num L.base

variable {L} {f g : Flash} {k : ℕ}

theorem unit_zero : L.unit 0 = L.base := by simp [unit]

theorem unit_succ (i : ℕ) : L.unit (i + 1) = L.unit i + L.size := by
  unfold unit
  ring

/-- A unit ends before the next one starts. -/
theorem unit_add_le {i j : ℕ} (h : i < j) : L.unit i + L.size ≤ L.unit j := by
  have : (i + 1) * L.size ≤ j * L.size := Nat.mul_le_mul_right L.size h
  rw [Nat.add_mul] at this
  unfold unit
  omega

/-- What is written within one unit leaves the others alone. -/
theorem program_unit_other {i j o a : ℕ} {data : List UInt8} (hne : j ≠ i)
    (hdata : o + data.length ≤ L.size)
    (ha : a < L.size) : f.program (L.unit i + o) data (L.unit j + a) = f (L.unit j + a) := by
  refine f.program_other ?_
  cases lt_or_gt_of_ne hne with
  | inl hlt =>
    have := unit_add_le (L := L) hlt
    omega
  | inr hlt =>
    have := unit_add_le (L := L) hlt
    omega

/-! ### The used units -/

/-- An erased log. -/
theorem filled_zero (h : f.Erased L.base (L.num * L.size)) : L.Filled f 0 := by
  refine ⟨Nat.zero_le _, fun i hi => absurd hi (Nat.not_lt_zero i), fun i hi _ => ?_⟩
  exact h (i * L.size) (Nat.mul_lt_mul_of_pos_right hi L.size_pos)

theorem Filled.unit_used (h : L.Filled f k) {i : ℕ} (hi : i < k) : f (L.unit i) ≠ 0xff :=
    h.used i hi

theorem Filled.unit_free (h : L.Filled f k) {i : ℕ} (hi : i < L.num) (hk : k ≤ i) :
    f (L.unit i) = 0xff := h.free i hi hk

theorem Filled.congr (h : L.Filled f k) (hmark : ∀ i < L.num, L.mark g i = L.mark f i) :
    L.Filled g k := by
  refine ⟨h.le, fun i hi => ?_, fun i hi hk => ?_⟩
  · rw [hmark i (hi.trans_le h.le)]
    exact h.used i hi
  · rw [hmark i hi]
    exact h.free i hi hk

/-- The first free unit is taken. -/
theorem Filled.take (h : L.Filled f k) (hk : k < L.num) (hmark : L.mark g k ≠ 0xff)
    (hother : ∀ i, i ≠ k → L.mark g i = L.mark f i) : L.Filled g (k + 1) := by
  refine ⟨hk, fun i hi => ?_, fun i hi hki => ?_⟩
  · by_cases heq : i = k
    · rw [heq]
      exact hmark
    · rw [hother i heq]
      exact h.used i (by omega)
  · rw [hother i (by omega)]
    exact h.free i hi (by omega)

/-- The mark of a used unit is changed. -/
theorem Filled.remark (h : L.Filled f k) {i : ℕ} (hi : i < k) (hmark : L.mark g i ≠ 0xff)
    (hother : ∀ j, j ≠ i → L.mark g j = L.mark f j) : L.Filled g k := by
  refine ⟨h.le, fun j hj => ?_, fun j hj hkj => ?_⟩
  · by_cases heq : j = i
    · rw [heq]
      exact hmark
    · rw [hother j heq]
      exact h.used j hj
  · rw [hother j (by omega)]
    exact h.free j hj hkj

theorem mem_marked {m : UInt8} {i : ℕ} : i ∈ L.marked f m k ↔ i < k ∧ L.mark f i = m := by
  simp [marked]

/-- A unit that is taken comes after the others with its mark. -/
theorem marked_take {m : UInt8} (hmark : L.mark g k = m)
    (hother : ∀ i, i ≠ k → L.mark g i = L.mark f i) :
    L.marked g m (k + 1) = L.marked f m k ++ [k] := by
  unfold marked
  rw [List.range_succ, List.filter_append]
  congr 1
  · refine List.filter_congr fun i hi => ?_
    rw [hother i (List.mem_range.mp hi).ne]
  · simp [hmark]

theorem nodup_marked (m : UInt8) : (L.marked f m k).Nodup := List.nodup_range.filter _

/-- A unit that loses its mark. -/
theorem marked_remark {m : UInt8} {i : ℕ} (hmark : L.mark g i ≠ m)
    (hother : ∀ j, j ≠ i → L.mark g j = L.mark f j) :
    L.marked g m k = (L.marked f m k).erase i := by
  rw [(nodup_marked m).erase_eq_filter]
  unfold marked
  rw [List.filter_filter]
  refine List.filter_congr fun j _ => ?_
  by_cases heq : j = i
  · simp [heq, hmark]
  · simp [heq, hother j heq]

theorem marked_succ (f : Flash) (m : UInt8) (k : ℕ) :
    L.marked f m (k + 1) = L.marked f m k ++ if L.mark f k = m then [k] else [] := by
  unfold marked
  rw [List.range_succ, List.filter_append]
  congr 1
  by_cases h : L.mark f k = m
  · simp [h]
  · simp [h]

theorem marked_congr {m : UInt8} (h : ∀ i < k, L.mark g i = L.mark f i) :
    L.marked g m k = L.marked f m k :=
  List.filter_congr fun i hi => by rw [h i (List.mem_range.mp hi)]

theorem marked_prefix (m : UInt8) {i : ℕ} (h : i ≤ k) : L.marked f m i <+: L.marked f m k := by
  obtain ⟨n, rfl⟩ := Nat.exists_eq_add_of_le h
  induction n with
  | zero => exact List.prefix_rfl
  | succ n ih =>
    rw [← Nat.add_assoc, marked_succ]
    exact (ih (Nat.le_add_right i n)).trans (List.prefix_append _ _)

/-- The free units have no other mark. -/
theorem Filled.marked_num (h : L.Filled f k) {m : UInt8} (hm : m ≠ 0xff) :
    L.marked f m L.num = L.marked f m k := by
  obtain ⟨n, hn⟩ := Nat.exists_eq_add_of_le h.le
  have hfree : ∀ j ≤ n, L.marked f m (k + j) = L.marked f m k := by
    intro j hj
    induction j with
    | zero => rfl
    | succ j ih =>
      rw [← Nat.add_assoc, marked_succ, h.free (k + j) (by omega) (Nat.le_add_right k j),
        if_neg (Ne.symm hm), List.append_nil, ih (by omega)]
  rw [hn]
  exact hfree n (le_refl n)

/-! ### The loops -/

theorem Filled.findFrom_eq (h : L.Filled f k) (p : ℕ → Bool) (n i : ℕ) (hi : i + n = L.num)
    (hik : i ≤ k) :
    L.findFrom f p n (L.unit i) =
      ((List.range' i (k - i)).find? fun j => p (L.unit j)).map L.unit := by
  induction n generalizing i with
  | zero =>
    have := h.le
    rw [show k - i = 0 by omega]
    rfl
  | succ n ih =>
    rw [findFrom]
    by_cases hlt : i < k
    · rw [if_neg (h.unit_used hlt), show k - i = (k - (i + 1)) + 1 by omega, List.range'_succ,
        List.find?_cons, ← unit_succ, ih (i + 1) (by omega) hlt]
      cases hp : p (L.unit i)
      · rfl
      · rfl
    · rw [if_pos (h.unit_free (by omega) (by omega)), show k - i = 0 by omega]
      rfl

/-- **What the loop finds**: the first of the used units that `p` says is the one. -/
theorem Filled.find_eq (h : L.Filled f k) (p : ℕ → Bool) :
    L.find f p = ((List.range k).find? fun i => p (L.unit i)).map L.unit := by
  have := h.findFrom_eq p L.num 0 (Nat.zero_add _) (Nat.zero_le _)
  rwa [unit_zero, Nat.sub_zero, ← List.range_eq_range'] at this

theorem Filled.find_eq_none (h : L.Filled f k) {p : ℕ → Bool} :
    L.find f p = none ↔ ∀ i < k, p (L.unit i) = false := by
  rw [h.find_eq, Option.map_eq_none_iff, List.find?_eq_none]
  simp

/-- The unit found is one of the used ones, and `p` says it is the one. -/
theorem Filled.of_find (h : L.Filled f k) {p : ℕ → Bool} {cur : ℕ} (hfind : L.find f p = some cur) :
    ∃ i < k, cur = L.unit i ∧ p (L.unit i) = true := by
  rw [h.find_eq, Option.map_eq_some_iff] at hfind
  obtain ⟨i, hi, rfl⟩ := hfind
  have hp := List.find?_some hi
  exact ⟨i, List.mem_range.mp (List.mem_of_find?_eq_some hi), rfl, hp⟩

theorem Filled.firstFreeFrom_eq (h : L.Filled f k) (n i : ℕ) (hi : i + n = L.num) (hik : i ≤ k) :
    L.firstFreeFrom f n (L.unit i) = if k < L.num then some (L.unit k) else none := by
  induction n generalizing i with
  | zero =>
    have := h.le
    rw [if_neg (by omega)]
    rfl
  | succ n ih =>
    rw [firstFreeFrom]
    by_cases hlt : i < k
    · rw [if_neg (h.unit_used hlt), ← unit_succ, ih (i + 1) (by omega) hlt]
    · have hk : i = k := by omega
      rw [if_pos (h.unit_free (by omega) hk.ge), if_pos (by omega), hk]

/-- **The unit used next.** -/
theorem Filled.firstFree_eq (h : L.Filled f k) :
    L.firstFree f = if k < L.num then some (L.unit k) else none := by
  have := h.firstFreeFrom_eq L.num 0 (Nat.zero_add _) (Nat.zero_le _)
  rwa [unit_zero] at this

/-! ### Where the loops look -/

theorem findFrom_congr {p q : ℕ → Bool} (n i : ℕ)
    (hmark : ∀ j, i ≤ j → j < i + n → L.mark g j = L.mark f j)
    (hp : ∀ j, i ≤ j → j < i + n → q (L.unit j) = p (L.unit j)) :
    L.findFrom g q n (L.unit i) = L.findFrom f p n (L.unit i) := by
  induction n generalizing i with
  | zero => rfl
  | succ n ih =>
    have hunit : g (L.unit i) = f (L.unit i) := hmark i (le_refl i) (by omega)
    rw [findFrom, findFrom, hunit, hp i (le_refl i) (by omega), ← unit_succ,
      ih (i + 1) (fun j hj hn => hmark j (by omega) (by omega))
        fun j hj hn => hp j (by omega) (by omega)]

/-- The loop reads the marks, and what `p` reads. -/
theorem find_congr {p q : ℕ → Bool} (hmark : ∀ j < L.num, L.mark g j = L.mark f j)
    (hp : ∀ j < L.num, q (L.unit j) = p (L.unit j)) : L.find g q = L.find f p := by
  have := findFrom_congr (L := L) L.num 0 (fun j _ hj => hmark j (by omega))
    fun j _ hj => hp j (by omega)
  rwa [unit_zero] at this

theorem firstFreeFrom_congr (n i : ℕ)
    (hmark : ∀ j, i ≤ j → j < i + n → L.mark g j = L.mark f j) :
    L.firstFreeFrom g n (L.unit i) = L.firstFreeFrom f n (L.unit i) := by
  induction n generalizing i with
  | zero => rfl
  | succ n ih =>
    have hunit : g (L.unit i) = f (L.unit i) := hmark i (le_refl i) (by omega)
    rw [firstFreeFrom, firstFreeFrom, hunit, ← unit_succ,
      ih (i + 1) fun j hj hn => hmark j (by omega) (by omega)]

theorem firstFree_congr (hmark : ∀ j < L.num, L.mark g j = L.mark f j) :
    L.firstFree g = L.firstFree f := by
  have := firstFreeFrom_congr (L := L) L.num 0 fun j _ hj => hmark j (by omega)
  rwa [unit_zero] at this

/-- What the loop finds is a unit. -/
theorem findFrom_unit {p : ℕ → Bool} {n i cur : ℕ} (h : L.findFrom f p n (L.unit i) = some cur) :
    ∃ j, j < i + n ∧ cur = L.unit j := by
  induction n generalizing i with
  | zero => cases h
  | succ n ih =>
    rw [findFrom] at h
    split_ifs at h with hfree hp
    · exact ⟨i, by omega, (Option.some.inj h).symm⟩
    · rw [← unit_succ] at h
      obtain ⟨j, hj, hcur⟩ := ih h
      exact ⟨j, by omega, hcur⟩

theorem find_unit {p : ℕ → Bool} {cur : ℕ} (h : L.find f p = some cur) :
    ∃ j < L.num, cur = L.unit j := by
  rw [find, ← unit_zero] at h
  obtain ⟨j, hj, hcur⟩ := findFrom_unit h
  exact ⟨j, by omega, hcur⟩

theorem firstFreeFrom_unit {n i cur : ℕ} (h : L.firstFreeFrom f n (L.unit i) = some cur) :
    ∃ j, j < i + n ∧ cur = L.unit j := by
  induction n generalizing i with
  | zero => cases h
  | succ n ih =>
    rw [firstFreeFrom] at h
    split_ifs at h with hfree
    · exact ⟨i, by omega, (Option.some.inj h).symm⟩
    · rw [← unit_succ] at h
      obtain ⟨j, hj, hcur⟩ := ih h
      exact ⟨j, by omega, hcur⟩

theorem firstFree_unit {cur : ℕ} (h : L.firstFree f = some cur) :
    ∃ j < L.num, cur = L.unit j := by
  rw [firstFree, ← unit_zero] at h
  obtain ⟨j, hj, hcur⟩ := firstFreeFrom_unit h
  exact ⟨j, by omega, hcur⟩

end FlashLog

end TcBle.Foundation
