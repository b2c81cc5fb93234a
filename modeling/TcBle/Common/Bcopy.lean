import Mathlib.Data.List.Range
import Mathlib.Data.UInt
import TcBle.Foundation.Copies

/-!
# The copies of `string.c`

`common/string.c`: `bcopy` and `memcpy`, which copy a block of the memory to another place in it,
byte by byte. The blocks may overlap: `bcopy` goes up or down, by which of the pointers is the lower
one.

## The model

The memory is a function from the 32-bit addresses, and pointers are such addresses, with an
arithmetic that wraps, as is that of `len`. A block ends where the addresses do, at the latest.

## What is proved

* `copyUp_eq` and `copyDown_eq` — each of the loops is a row of copies, in its order.
* `fresh_row` and `fresh_row_reverse` — in the order that `bcopy` takes, no copy reads what one
  before it has written.
* `memcpy_moves` — the block is what the other was before, and everything else stays.
-/

namespace TcBle.Common.Bcopy

open Foundation.Copies

/-- The memory. -/
abbrev Memory := UInt32 → UInt8

/-- The loop of `bcopy` that goes up. -/
def copyUp : ℕ → UInt32 → UInt32 → Memory → Memory
  | 0, _, _, m => m
  | len + 1, src, dest, m => copyUp len (src + 1) (dest + 1) (Function.update m dest (m src))

/-- The loop of `bcopy` that goes down. -/
def copyDown : ℕ → UInt32 → UInt32 → Memory → Memory
  | 0, _, _, m => m
  | len + 1, lasts, lastd, m =>
    copyDown len (lasts - 1) (lastd - 1) (Function.update m lastd (m lasts))

/-- `bcopy`. Each of its loops makes as many rounds as `len` has to go down to be zero. -/
def bcopy (src dest : UInt32) (len : Int32) (m : Memory) : Memory :=
  if dest < src then copyUp len.toUInt32.toNat src dest m
  else
    let lasts := src + (len - 1).toUInt32
    let lastd := dest + (len - 1).toUInt32
    copyDown len.toUInt32.toNat lasts lastd m

/-- `memcpy`: what it returns, and the memory after it. -/
def memcpy (out inp length : UInt32) (m : Memory) : UInt32 × Memory :=
  (out, bcopy inp out length.toInt32 m)

/-- The block of `n` bytes at `p` lies in the memory. -/
def InMemory (p : UInt32) (n : ℕ) : Prop := p.toNat + n ≤ 2 ^ 32

instance (p : UInt32) (n : ℕ) : Decidable (InMemory p n) := inferInstanceAs (Decidable (_ ≤ _))

/-- **What `memmove` does**: from `m` to `m'` the bytes at `src` have come to `dest`. -/
structure Moved (m m' : Memory) (src dest : UInt32) (n : ℕ) : Prop where
  /-- The bytes at `dest` are those that were at `src`. -/
  copied : ∀ i < n, m' (dest + UInt32.ofNat i) = m (src + UInt32.ofNat i)
  /-- All others are as they were. -/
  frame : ∀ a, (∀ i < n, a ≠ dest + UInt32.ofNat i) → m' a = m a

variable {src dest p : UInt32} {n : ℕ} {m : Memory}

/-! ### The loops -/

/-- The copies, from the first byte on. -/
def row (src dest : UInt32) (n : ℕ) : List (UInt32 × UInt32) :=
  (List.range n).map fun i => (dest + UInt32.ofNat i, src + UInt32.ofNat i)

theorem add_one_add_ofNat (p : UInt32) (i : ℕ) :
    p + 1 + UInt32.ofNat i = p + UInt32.ofNat (i + 1) := by
  rw [UInt32.ofNat_add, UInt32.add_assoc, UInt32.add_comm 1]
  rfl

theorem add_ofNat_succ_sub_one (p : UInt32) (n : ℕ) :
    p + UInt32.ofNat (n + 1) - 1 = p + UInt32.ofNat n := by
  rw [← add_one_add_ofNat, UInt32.add_assoc, UInt32.add_comm 1, ← UInt32.add_assoc,
    UInt32.add_sub_cancel]

/-- **Up**. -/
theorem copyUp_eq (n : ℕ) (src dest : UInt32) (m : Memory) :
    copyUp n src dest m = (row src dest n).foldl copy m := by
  induction n generalizing src dest m with
  | zero => rfl
  | succ n ih =>
    rw [copyUp, ih, row, row, List.range_succ_eq_map, List.map_cons, List.foldl_cons, List.map_map]
    congr 1
    · simp [copy]
    · refine List.map_congr_left fun i _ => ?_
      rw [add_one_add_ofNat, add_one_add_ofNat]
      rfl

/-- **Down**. -/
theorem copyDown_eq (n : ℕ) (src dest : UInt32) (m : Memory) :
    copyDown n (src + UInt32.ofNat n - 1) (dest + UInt32.ofNat n - 1) m =
      (row src dest n).reverse.foldl copy m := by
  induction n generalizing m with
  | zero => rfl
  | succ n ih =>
    rw [copyDown, add_ofNat_succ_sub_one, add_ofNat_succ_sub_one, ih, row, row, List.range_succ,
      List.map_append, List.reverse_append, List.foldl_append]
    rfl

/-! ### The order -/

theorem toNat_add_ofNat (h : InMemory p n) {i : ℕ} (hi : i < n) :
    (p + UInt32.ofNat i).toNat = p.toNat + i := by
  unfold InMemory at h
  rw [UInt32.toNat_add, UInt32.toNat_ofNat', Nat.add_mod_mod, Nat.mod_eq_of_lt (by omega)]

/-- Two bytes of blocks of which one is behind the other. -/
theorem add_ofNat_ne {q : UInt32} (hp : InMemory p n) (hq : InMemory q n) (hle : p ≤ q) {i j : ℕ}
    (hij : i < j) (hj : j < n) : q + UInt32.ofNat j ≠ p + UInt32.ofNat i := by
  intro heq
  have hnat := congrArg UInt32.toNat heq
  rw [toNat_add_ofNat hq hj, toNat_add_ofNat hp (hij.trans hj)] at hnat
  have := UInt32.le_iff_toNat_le.mp hle
  omega

/-- **Going up** is right where the block goes down. -/
theorem fresh_row (hsrc : InMemory src n) (hdest : InMemory dest n) (hlt : dest < src) :
    Fresh (row src dest n) := by
  rw [Fresh, row, List.pairwise_map]
  refine List.Pairwise.imp_of_mem ?_ List.pairwise_lt_range
  intro i j _ hj hij
  have hj := List.mem_range.mp hj
  exact ⟨add_ofNat_ne hdest hsrc (UInt32.le_of_lt hlt) hij hj,
    add_ofNat_ne hdest hdest (UInt32.le_refl _) hij hj⟩

/-- **Going down** is right where it goes up, or stays. -/
theorem fresh_row_reverse (hsrc : InMemory src n) (hdest : InMemory dest n) (hle : src ≤ dest) :
    Fresh (row src dest n).reverse := by
  rw [Fresh, List.pairwise_reverse, row, List.pairwise_map]
  refine List.Pairwise.imp_of_mem ?_ List.pairwise_lt_range
  intro i j _ hj hij
  have hj := List.mem_range.mp hj
  exact ⟨(add_ofNat_ne hsrc hdest hle hij hj).symm,
    (add_ofNat_ne hdest hdest (UInt32.le_refl _) hij hj).symm⟩

/-- Copies in an order in which none reads what one before it has written. -/
theorem moved_of_fresh {cs : List (UInt32 × UInt32)} (hfresh : Fresh cs)
    (hmem : ∀ c, c ∈ cs ↔ c ∈ row src dest n) : Moved m (cs.foldl copy m) src dest n where
  copied i hi := by
    have hrow : (dest + UInt32.ofNat i, src + UInt32.ofNat i) ∈ cs := by
      rw [hmem, row]
      exact List.mem_map_of_mem (List.mem_range.mpr hi)
    exact foldl_copy_of_mem hfresh hrow
  frame a ha := by
    refine foldl_copy_of_forall_ne fun c hc => ?_
    rw [hmem, row] at hc
    obtain ⟨i, hi, rfl⟩ := List.mem_map.mp hc
    exact ha i (List.mem_range.mp hi)

/-- **`bcopy` is `memmove`**. -/
theorem bcopy_moved (m : Memory) {len : Int32} (hn : len.toUInt32.toNat = n)
    (hsrc : InMemory src n) (hdest : InMemory dest n) : Moved m (bcopy src dest len m) src dest n := by
  have hlast : ∀ p : UInt32, p + (len - 1).toUInt32 = p + UInt32.ofNat n - 1 := by
    intro p
    have hofNat : UInt32.ofNat n = len.toUInt32 := by rw [← hn, UInt32.ofNat_toNat]
    rw [hofNat, Int32.toUInt32_sub, UInt32.sub_eq_add_neg, UInt32.sub_eq_add_neg, UInt32.add_assoc]
    rfl
  rw [bcopy, hn]
  split_ifs with hlt
  · rw [copyUp_eq]
    exact moved_of_fresh (fresh_row hsrc hdest hlt) fun c => Iff.rfl
  · simp only [hlast]
    rw [copyDown_eq]
    exact moved_of_fresh (fresh_row_reverse hsrc hdest (UInt32.not_lt.mp hlt))
      fun c => List.mem_reverse

/-- **The copies of `string.c` are those of `memmove`**, and `memcpy` returns where it copied to. -/
theorem memcpy_moves (m : Memory) {src dest length : UInt32} (hsrc : InMemory src length.toNat)
    (hdest : InMemory dest length.toNat) :
    Moved m (bcopy src dest length.toInt32 m) src dest length.toNat ∧
      memcpy dest src length m = (dest, bcopy src dest length.toInt32 m) := by
  refine ⟨bcopy_moved m ?_ hsrc hdest, rfl⟩
  rw [UInt32.toUInt32_toInt32]

/-- A block that is shifted up by a byte, as it is done in place. -/
theorem memcpy_moves_shifted :
    (InMemory 0x840000 256 ∧ InMemory 0x840001 256) ∧
      Moved UInt32.toUInt8 (bcopy 0x840000 0x840001 256 UInt32.toUInt8) 0x840000 0x840001 256 := by
  have hsrc : InMemory 0x840000 (256 : UInt32).toNat := by decide
  have hdest : InMemory 0x840001 (256 : UInt32).toNat := by decide
  exact ⟨⟨hsrc, hdest⟩, (memcpy_moves UInt32.toUInt8 hsrc hdest).1⟩

end TcBle.Common.Bcopy
