import Mathlib.Algebra.Ring.Int.Defs
import Mathlib.Logic.Function.Basic
import TcBle.Foundation.Crc
import TcBle.Foundation.Flash
import TcBle.HciTransport.Common

/-!
# The check of the firmware

`flash_fw_check` runs over the image in the flash, in blocks of 256 bytes and what is left of the
last one, and compares the result with the last four bytes. Each byte is split into two nibbles for
`crc32_half_cal` of the library, which is a parameter here.

## What is proved

* `checkPart_spec` — a part of the image is added to the check.
* `checkBlocks_spec`, `checkRest_spec` — so are all the blocks, and the rest, when at least four
  bytes are left of the last block; with less, the buffer is overrun (`checkRest_overruns`).
* `flashFwCheck_iff` — the check succeeds exactly when the last four bytes are the check of the
  others, from the initial value, or from all ones for the value zero.
-/

namespace TcBle.Vendor

open TcBle.Foundation TcBle.HciTransport

/-- `fw_crc32_half_tbl`. -/
def fwCrc32HalfTbl (i : BitVec 4) : BitVec 32 :=
  [0x00000000#32, 0x1db71064#32, 0x3b6e20c8#32, 0x26d930ac#32,
    0x76dc4190#32, 0x6b6b51f4#32, 0x4db26158#32, 0x5005713c#32,
    0xedb88320#32, 0xf00f9344#32, 0xd6d6a3e8#32, 0xcb61b38c#32,
    0x9b64c2b0#32, 0x86d3d2d4#32, 0xa00ae278#32, 0xbdbdf21c#32].getD i.toNat 0#32

/-- `FW_READ_SIZE`. -/
def FW_READ_SIZE : ℕ := 256

/-- The type of `crc32_half_cal`: the check so far, the nibbles, the table and their number. -/
abbrev Crc32HalfCal := BitVec 32 → Mem → (BitVec 4 → BitVec 32) → ℤ → BitVec 32

/-- **What the library is assumed to do**: one step with the table for each nibble. -/
def Crc32HalfCal.Standard (cal : Crc32HalfCal) : Prop :=
  ∀ crc input table (len : ℕ), cal crc input table len =
    (bytes input len).foldl (fun c b => Crc.tableStep table c (b.toBitVec.setWidth 4)) crc

/-- Where the firmware is. -/
structure FwConfig where
  /-- `ota_program_offset`. -/
  otaProgramOffset : ℕ
  /-- `ota_program_bootAddr`. -/
  otaProgramBootAddr : ℕ
  /-- The size of the slot of an image. -/
  slotSize : ℕ
  /-- The two slots are in the flash. -/
  le : otaProgramBootAddr + slotSize ≤ 2 ^ 24

/-- The state of the check. -/
structure FwCheck where
  /-- `fw_crc_init`. -/
  fwCrcInit : BitVec 32
  /-- `fw_tmpdata`. -/
  fwTmpdata : Mem
  /-- `ota_dat`. -/
  otaDat : Mem
  /-- The first index past all that was read or written of `fw_tmpdata`. -/
  tmpTop : ℕ
  /-- The first index past all that was read or written of `ota_dat`. -/
  datTop : ℕ

/-- `fw_flashAddr`. -/
def FwConfig.fwFlashAddr (c : FwConfig) : ℕ :=
  if c.otaProgramOffset = 0 then c.otaProgramBootAddr else 0

/-- `fw_size`. -/
def FwConfig.fwSize (c : FwConfig) (flash : Flash) : ℕ := u32At (adv flash (c.fwFlashAddr + 0x18))

/-- The image. -/
def FwConfig.image (c : FwConfig) (flash : Flash) : List UInt8 :=
  bytes (adv flash c.fwFlashAddr) (c.fwSize flash)

namespace FwConfig

variable (c : FwConfig) (flash : Flash)

/-- An image of the slot is in the flash. -/
theorem fwFlashAddr_add_le {n : ℕ} (h : n ≤ c.slotSize) : c.fwFlashAddr + n ≤ 2 ^ 24 := by
  have hle := c.le
  have haddr : c.fwFlashAddr ≤ c.otaProgramBootAddr := by
    unfold fwFlashAddr
    split <;> omega
  omega

/-- The image without its last bytes, -/
theorem image_take {n : ℕ} (h : n ≤ c.fwSize flash) :
    (c.image flash).take (c.fwSize flash - n) =
      bytes (adv flash c.fwFlashAddr) (c.fwSize flash - n) := by
  obtain ⟨m, hm⟩ := Nat.exists_eq_add_of_le h
  rw [image, hm, Nat.add_sub_cancel_left, Nat.add_comm, bytes_add]
  exact List.take_left' (length_bytes _ _)

/-- and the last bytes. -/
theorem image_drop {n : ℕ} (h : n ≤ c.fwSize flash) :
    (c.image flash).drop (c.fwSize flash - n) =
      bytes (adv flash (c.fwFlashAddr + (c.fwSize flash - n))) n := by
  obtain ⟨m, hm⟩ := Nat.exists_eq_add_of_le h
  rw [image, hm, Nat.add_sub_cancel_left, Nat.add_comm, bytes_add, ← adv_adv]
  exact List.drop_left' (length_bytes _ _)

end FwConfig

namespace FwCheck

/-- The loop that splits the first `n` bytes into nibbles. -/
def splitNibbles (fwTmpdata : Mem) (n : ℕ) (otaDat : Mem) : Mem :=
  (List.range n).foldl (fun dat i => Function.update
    (Function.update dat (i * 2) (fwTmpdata i &&& 0x0f)) (i * 2 + 1) (fwTmpdata i >>> 4)) otaDat

variable (cal : Crc32HalfCal) (flash : Flash)

/-- A part of the image of `n` bytes is read, split and added to the check. `n` is an `int`, which
the read takes for an unsigned number. -/
def checkPart (addr : ℕ) (n : ℤ) (s : FwCheck) : FwCheck :=
  let len := (n % 2 ^ 32).toNat
  let fwTmpdata := memcpy s.fwTmpdata 0 (bytes (adv flash (addr % 2 ^ 32)) len)
  let otaDat := splitNibbles fwTmpdata n.toNat s.otaDat
  { fwCrcInit := cal s.fwCrcInit otaDat fwCrc32HalfTbl (n * 2)
    fwTmpdata := fwTmpdata
    otaDat := otaDat
    tmpTop := max s.tmpTop (max len n.toNat)
    datTop := max s.datTop (n.toNat * 2) }

/-- The loop over the `fwBlock` blocks. -/
def checkBlocks (fwFlashAddr fwBlock : ℕ) (s : FwCheck) : FwCheck :=
  (List.range fwBlock).foldl (fun s i =>
    s.checkPart cal flash (fwFlashAddr + i * FW_READ_SIZE) FW_READ_SIZE) s

/-- What is left of the last block, without the stored value. -/
def checkRest (fwFlashAddr fwSize : ℕ) (s : FwCheck) : FwCheck :=
  let fwRemainSizeByte := fwSize % FW_READ_SIZE % 2 ^ 16
  if fwRemainSizeByte ≠ 4 then
    s.checkPart cal flash (fwFlashAddr + fwSize - fwRemainSizeByte) ((fwRemainSizeByte : ℤ) - 4)
  else s

/-- `flash_fw_check`, with what it returns; `fwTmpdata` and `otaDat` are what the buffers hold at
first. -/
def flashFwCheck (c : FwConfig) (crcInitValue : BitVec 32) (fwTmpdata otaDat : Mem) :
    FwCheck × ℕ :=
  let s : FwCheck :=
    { fwCrcInit := if crcInitValue = 0 then 0xFFFFFFFF else crcInitValue
      fwTmpdata, otaDat
      tmpTop := 0
      datTop := 0 }
  let fwSize := c.fwSize flash
  let fwBlock := fwSize / FW_READ_SIZE % 2 ^ 16
  let s := s.checkBlocks cal flash c.fwFlashAddr fwBlock
  let s := s.checkRest cal flash c.fwFlashAddr fwSize
  let fwCheckValue : BitVec 32 :=
    Crc.word (bytes (adv flash (subU32 (c.fwFlashAddr + fwSize) 4)) 4)
  (s, if fwCheckValue ≠ s.fwCrcInit then 1 else 0)

variable {cal flash}

/-! ### A part of the image -/

/-- One more byte. -/
theorem splitNibbles_succ (tmp dat : Mem) (n : ℕ) : splitNibbles tmp (n + 1) dat =
    Function.update (Function.update (splitNibbles tmp n dat) (n * 2) (tmp n &&& 0x0f))
      (n * 2 + 1) (tmp n >>> 4) := by
  rw [splitNibbles, List.range_succ, List.foldl_append]
  rfl

/-- The nibbles of the first bytes, the low one of each first. -/
theorem bytes_splitNibbles (tmp dat : Mem) (n : ℕ) :
    bytes (splitNibbles tmp n dat) (n * 2) =
      (bytes tmp n).flatMap fun (b : UInt8) => [b &&& 0x0f, b >>> 4] := by
  induction n with
  | zero => rfl
  | succ n ih =>
    rw [Nat.add_mul, bytes_add, bytes_add tmp, List.flatMap_append, ← ih, splitNibbles_succ]
    congr 1
    · refine bytes_congr fun i hi => ?_
      rw [Function.update_of_ne (by omega), Function.update_of_ne (by omega)]
    · show [_, _] = [_, _]
      simp [adv, Nat.add_comm 1]

/-- The table of the sixteen nibbles. -/
theorem fwCrc32HalfTbl_eq (x : BitVec 4) :
    fwCrc32HalfTbl x = (Crc.shift 0xEDB88320#32)^[4] (x.setWidth 32) := by
  revert x
  decide

/-- The steps with the table for the nibbles of some bytes are those of the check of the bytes. -/
theorem foldl_nibbles (crc : BitVec 32) (data : List UInt8) :
    (data.flatMap fun (b : UInt8) => [b &&& 0x0f, b >>> 4]).foldl
      (fun c b => Crc.tableStep fwCrc32HalfTbl c (b.toBitVec.setWidth 4)) crc =
      Crc.crc 0xEDB88320#32 crc data := by
  induction data generalizing crc with
  | nil => rfl
  | cons b data ih =>
    have hlow : (b &&& 0x0f).toBitVec.setWidth 4 = b.toBitVec.setWidth 4 := by
      have hmask : b.toNat % 16 &&& 15 = b.toNat % 16 := by
        rw [Nat.and_two_pow_sub_one_eq_mod _ 4, Nat.mod_mod]
      refine BitVec.eq_of_toNat_eq ?_
      simpa using hmask
    have hhigh : (b >>> 4).toBitVec.setWidth 4 = (b.toBitVec >>> 4).setWidth 4 := rfl
    rw [List.flatMap_cons, List.foldl_append, ih, Crc.crc_cons,
      Crc.byteStep_eq_tableSteps (by simp) fwCrc32HalfTbl_eq]
    simp only [List.foldl_cons, List.foldl_nil, hlow, hhigh]

/-- **A part of the image** is added to the check; the buffers are kept to when it has at most
256 bytes. -/
theorem checkPart_spec (flash : Flash) (hcal : cal.Standard) {addr n : ℕ} (haddr : addr < 2 ^ 32)
    (hn : n ≤ FW_READ_SIZE) (s : FwCheck) :
    (s.checkPart cal flash addr n).fwCrcInit =
        Crc.crc 0xEDB88320#32 s.fwCrcInit (bytes (adv flash addr) n) ∧
      (s.checkPart cal flash addr n).tmpTop = max s.tmpTop n ∧
      (s.checkPart cal flash addr n).datTop = max s.datTop (n * 2) := by
  have hlen : ((n : ℤ) % 2 ^ 32).toNat = n := by
    unfold FW_READ_SIZE at hn
    omega
  have hread : bytes (memcpy s.fwTmpdata 0 (bytes (adv flash addr) n)) n =
      bytes (adv flash addr) n := by
    have := bytes_buffer (bytes (adv flash addr) n) s.fwTmpdata
    rwa [length_bytes] at this
  refine ⟨?_, ?_, ?_⟩
  · have hmul : (n : ℤ) * 2 = ((n * 2 : ℕ) : ℤ) := by push_cast; rfl
    simp only [checkPart, hlen, Nat.mod_eq_of_lt haddr, Int.toNat_natCast, hmul]
    rw [hcal, bytes_splitNibbles, hread, foldl_nibbles]
  · simp only [checkPart, hlen, Int.toNat_natCast, max_self]
  · simp only [checkPart, Int.toNat_natCast]

/-- One more block. -/
theorem checkBlocks_succ (a k : ℕ) (s : FwCheck) : checkBlocks cal flash a (k + 1) s =
    (checkBlocks cal flash a k s).checkPart cal flash (a + k * FW_READ_SIZE) FW_READ_SIZE := by
  rw [checkBlocks, List.range_succ, List.foldl_append]
  rfl

/-- **The blocks** are added to the check in order. -/
theorem checkBlocks_spec (flash : Flash) (hcal : cal.Standard) {a k : ℕ}
    (hk : a + k * FW_READ_SIZE ≤ 2 ^ 32) (s : FwCheck) :
    (s.checkBlocks cal flash a k).fwCrcInit =
        Crc.crc 0xEDB88320#32 s.fwCrcInit (bytes (adv flash a) (k * FW_READ_SIZE)) ∧
      (s.checkBlocks cal flash a k).tmpTop ≤ max s.tmpTop FW_READ_SIZE ∧
      (s.checkBlocks cal flash a k).datTop ≤ max s.datTop (FW_READ_SIZE * 2) := by
  induction k with
  | zero => exact ⟨by simp [checkBlocks], Nat.le_max_left _ _, Nat.le_max_left _ _⟩
  | succ k ih =>
    have haddr : a + k * FW_READ_SIZE < 2 ^ 32 := by
      unfold FW_READ_SIZE at hk ⊢
      omega
    obtain ⟨hcrc, htmp, hdat⟩ := ih haddr.le
    obtain ⟨hcrc', htmp', hdat'⟩ :=
      checkPart_spec flash hcal haddr le_rfl (checkBlocks cal flash a k s)
    rw [checkBlocks_succ, hcrc', htmp', hdat', hcrc, Nat.succ_mul, bytes_add, Crc.crc_append,
      adv_adv]
    exact ⟨rfl, max_le htmp (Nat.le_max_right _ _), max_le hdat (Nat.le_max_right _ _)⟩

/-- **The rest** is added to the check, when four bytes or more are left. -/
theorem checkRest_spec (flash : Flash) (hcal : cal.Standard) {a size : ℕ}
    (hsize : a + size ≤ 2 ^ 32) (hrest : 4 ≤ size % FW_READ_SIZE) (s : FwCheck) :
    (s.checkRest cal flash a size).fwCrcInit = Crc.crc 0xEDB88320#32 s.fwCrcInit
        (bytes (adv flash (a + size / FW_READ_SIZE * FW_READ_SIZE)) (size % FW_READ_SIZE - 4)) ∧
      (s.checkRest cal flash a size).tmpTop ≤ max s.tmpTop FW_READ_SIZE ∧
      (s.checkRest cal flash a size).datTop ≤ max s.datTop (FW_READ_SIZE * 2) := by
  have hlt : size % FW_READ_SIZE < FW_READ_SIZE := Nat.mod_lt _ (by decide)
  have hdiv := Nat.div_add_mod' size FW_READ_SIZE
  have hword : size % FW_READ_SIZE % 2 ^ 16 = size % FW_READ_SIZE :=
    Nat.mod_eq_of_lt (hlt.trans (by decide))
  simp only [checkRest, hword]
  by_cases h4 : size % FW_READ_SIZE = 4
  · rw [if_neg (not_not.mpr h4), h4]
    exact ⟨by simp, Nat.le_max_left _ _, Nat.le_max_left _ _⟩
  · have haddr : a + size - size % FW_READ_SIZE = a + size / FW_READ_SIZE * FW_READ_SIZE := by
      omega
    have hlen : ((size % FW_READ_SIZE : ℕ) : ℤ) - 4 = ((size % FW_READ_SIZE - 4 : ℕ) : ℤ) := by
      omega
    have hstart : a + size / FW_READ_SIZE * FW_READ_SIZE < 2 ^ 32 := by omega
    obtain ⟨hcrc, htmp, hdat⟩ :=
      checkPart_spec flash hcal hstart (show size % FW_READ_SIZE - 4 ≤ FW_READ_SIZE by omega) s
    rw [if_pos h4, haddr, hlen]
    exact ⟨hcrc, by omega, by omega⟩

/-- With less than four bytes left the length to read is negative, and the read goes past the
buffer. -/
theorem checkRest_overruns {size : ℕ} (h : size % FW_READ_SIZE < 4) (a : ℕ) (s : FwCheck) :
    FW_READ_SIZE < (s.checkRest cal flash a size).tmpTop := by
  have hword : size % FW_READ_SIZE % 2 ^ 16 = size % FW_READ_SIZE := Nat.mod_eq_of_lt (by omega)
  have hlen : FW_READ_SIZE < (((size % FW_READ_SIZE : ℕ) : ℤ) - 4) % 2 ^ 32 := by
    unfold FW_READ_SIZE at h ⊢
    omega
  simp only [checkRest, hword, if_pos (show size % FW_READ_SIZE ≠ 4 by omega), checkPart]
  omega

/-- A library that does what is assumed. -/
def crc32HalfCal : Crc32HalfCal := fun crc input table len =>
  (bytes input len.toNat).foldl (fun c b => Crc.tableStep table c (b.toBitVec.setWidth 4)) crc

theorem crc32HalfCal_standard : crc32HalfCal.Standard := fun _ _ _ _ => rfl

/-- An image of `n` bytes, zero but for the size and the four bytes of `trailer` from 28 on. -/
def sized (n : ℕ) (trailer : List UInt8) : Flash := fun a =>
  if a = 0x18 then UInt8.ofNat n else if a = 0x19 then UInt8.ofNat (n / 2 ^ 8)
  else if 28 ≤ a then trailer.getD (a - 28) 0 else 0

/-- The firmware at the start of the flash. -/
def atStart : FwConfig := ⟨0x20000, 0x20000, 0x20000, by decide⟩

/-- **The check of the firmware**: with four bytes or more left of the last block, it succeeds
exactly when the last four bytes are the check of the others, and keeps to the buffers. -/
theorem flashFwCheck_iff (hcal : cal.Standard) (c : FwConfig) (hslot : c.fwSize flash ≤ c.slotSize)
    (hrest : 4 ≤ c.fwSize flash % FW_READ_SIZE) (crcInitValue : BitVec 32)
    (fwTmpdata otaDat : Mem) :
    ((flashFwCheck cal flash c crcInitValue fwTmpdata otaDat).2 = 0 ↔
      Crc.word ((c.image flash).drop (c.fwSize flash - 4)) =
        Crc.crc 0xEDB88320#32 (if crcInitValue = 0 then 0xFFFFFFFF else crcInitValue)
          ((c.image flash).take (c.fwSize flash - 4))) ∧
      (flashFwCheck cal flash c crcInitValue fwTmpdata otaDat).1.tmpTop ≤ FW_READ_SIZE ∧
      (flashFwCheck cal flash c crcInitValue fwTmpdata otaDat).1.datTop ≤ FW_READ_SIZE * 2 := by
  have hin := c.fwFlashAddr_add_le hslot
  have hdiv := Nat.div_add_mod' (c.fwSize flash) FW_READ_SIZE
  have hblock : c.fwSize flash / FW_READ_SIZE % 2 ^ 16 = c.fwSize flash / FW_READ_SIZE :=
    Nat.mod_eq_of_lt (by unfold FW_READ_SIZE at hrest ⊢; omega)
  have hstored : subU32 (c.fwFlashAddr + c.fwSize flash) 4 =
      c.fwFlashAddr + (c.fwSize flash - 4) := by
    rw [subU32_of_le (by omega) (by omega)]
    omega
  have hsplit : c.fwSize flash - 4 = c.fwSize flash / FW_READ_SIZE * FW_READ_SIZE +
      (c.fwSize flash % FW_READ_SIZE - 4) := by omega
  have hdata : bytes (adv flash c.fwFlashAddr) (c.fwSize flash - 4) =
      bytes (adv flash c.fwFlashAddr) (c.fwSize flash / FW_READ_SIZE * FW_READ_SIZE) ++
        bytes (adv flash (c.fwFlashAddr + c.fwSize flash / FW_READ_SIZE * FW_READ_SIZE))
          (c.fwSize flash % FW_READ_SIZE - 4) := by rw [hsplit, bytes_add, adv_adv]
  set s₀ : FwCheck := ⟨if crcInitValue = 0 then 0xFFFFFFFF else crcInitValue, fwTmpdata, otaDat,
    0, 0⟩ with hs₀
  have hinit : s₀.fwCrcInit = if crcInitValue = 0 then 0xFFFFFFFF else crcInitValue := rfl
  have hblocks : c.fwFlashAddr + c.fwSize flash / FW_READ_SIZE * FW_READ_SIZE ≤ 2 ^ 32 := by omega
  have hall : c.fwFlashAddr + c.fwSize flash ≤ 2 ^ 32 := by omega
  obtain ⟨hcrc, htmp, hdat⟩ := checkBlocks_spec flash hcal hblocks s₀
  obtain ⟨hcrc', htmp', hdat'⟩ := checkRest_spec flash hcal hall hrest
    (s₀.checkBlocks cal flash c.fwFlashAddr (c.fwSize flash / FW_READ_SIZE))
  rw [c.image_drop flash (by omega), c.image_take flash (by omega), hdata, Crc.crc_append]
  simp only [flashFwCheck, hblock, ← hs₀, hstored]
  refine ⟨?_, ?_, ?_⟩
  · rw [hcrc', hcrc, hinit]
    simp only [ne_eq, ite_eq_right_iff, Nat.one_ne_zero, imp_false, not_not]
  · exact htmp'.trans (max_le (htmp.trans (by simp [s₀])) le_rfl)
  · exact hdat'.trans (max_le (hdat.trans (by simp [s₀])) le_rfl)

/-- An image of a block and 48 bytes more. The first 32 bytes leave a remainder of zero, and so do the
zeros behind them. -/
def longImage : Flash := sized 304 [0x80, 0x1a, 0x66, 0x8e]

/-- It is good. -/
theorem sized_checks :
    (flashFwCheck crc32HalfCal longImage atStart 0xFFFFFFFF (fun _ => 0) (fun _ => 0)).2 = 0 := by
  refine (flashFwCheck_iff crc32HalfCal_standard atStart (by decide) (by decide) 0xFFFFFFFF
    _ _).1.mpr ?_
  have hsize : atStart.fwSize longImage = 32 + 268 + 4 := rfl
  have hhead : Crc.crc 0xEDB88320#32 0xFFFFFFFF (bytes (adv longImage atStart.fwFlashAddr) 32) =
      0 := by decide +kernel
  have htail : bytes (adv (adv longImage atStart.fwFlashAddr) 32) 268 = List.replicate 268 0 := by
    decide +kernel
  rw [atStart.image_take longImage (by decide), if_neg (by decide), hsize, Nat.add_sub_cancel,
    bytes_add, Crc.crc_append, hhead, htail, Crc.crc_zeros]
  decide +kernel

/-- The initial value zero is not used, and an image of whole blocks is read past the buffer. -/
theorem zeroValue_unused :
    (atStart.fwSize (sized 4 []) = 4 ∧
      (flashFwCheck crc32HalfCal (sized 4 []) atStart 0 (fun _ => 0) (fun _ => 0)).2 = 1 ∧
      Crc.word ((atStart.image (sized 4 [])).drop 0) =
        Crc.crc 0xEDB88320#32 0 ((atStart.image (sized 4 [])).take 0)) ∧
      atStart.fwSize (sized 256 []) = 256 ∧
      FW_READ_SIZE <
        (flashFwCheck crc32HalfCal (sized 256 []) atStart 0xFFFFFFFF
          (fun _ => 0) (fun _ => 0)).1.tmpTop := by
  decide +kernel

end FwCheck

end TcBle.Vendor
