import Mathlib.Tactic.IntervalCases
import TcBle.Drivers.Flash

/-!
# Flash protection

`flash_prot.c` over `flash_mid1471cd.c`: locking a part of the flash through the bits of its status
register, with up to three attempts, and unlocking it.

## The model

The chip is the one of the flash driver, and what a write to its status register leaves is up to
it. The function that writes the register, `flash_write_status`, is a parameter (`write`): the
driver has one, and an application may put the stack's in its place.

## What is proved

* `flashLock_spec`, `flashUnlock_spec` — the answer tells what is locked, whatever the chip does.
* `flashLock_protects` — after a lock no request to the driver changes a byte of the locked part.
-/

namespace TcBle.Vendor

open TcBle.Foundation TcBle.Drivers SerialFlash

/-- `FLASH_WRITE_STATUS_BP_MID1471cd`. -/
def FLASH_WRITE_STATUS_BP : UInt16 := 0x407c

/-- `FLASH_LOCK_NONE_MID1471cd`. -/
def FLASH_LOCK_NONE : UInt16 := 0x0000

/-- How often `flash_lock` and `flash_unlock` try. -/
def lockTries : ℕ := 3

section Model

variable (write : UInt16 → SerialFlash → SerialFlash)

/-- `flash_read_status_mid1471cd`. -/
def flashReadStatusMid (c : SerialFlash) : SerialFlash × UInt16 :=
  let (c, statusLow) := flashReadStatus FLASH_READ_STATUS_CMD_LOWBYTE c
  let (c, statusHigh) := flashReadStatus FLASH_READ_STATUS_CMD_HIGHBYTE c
  (c, statusLow.toUInt16 ||| statusHigh.toUInt16 <<< 8)

/-- `flash_write_status_mid1471cd`. -/
def flashWriteStatusMid (data mask : UInt16) (c : SerialFlash) : SerialFlash × UInt8 :=
  if data &&& ~~~mask ≠ 0 then (c, 2)
  else
    let (c, status) := flashReadStatusMid c
    let (c, status) :=
      if data ≠ status &&& mask then
        flashReadStatusMid (write (data ||| (status &&& ~~~mask)) c)
      else (c, status)
    (c, if data = status &&& mask then 1 else 0)

/-- `flash_lock_mid1471cd`. -/
def flashLockMid (data : UInt32) (c : SerialFlash) : SerialFlash × UInt8 :=
  flashWriteStatusMid write data.toUInt16 FLASH_WRITE_STATUS_BP c

/-- `flash_unlock_mid1471cd`. -/
def flashUnlockMid (c : SerialFlash) : SerialFlash × UInt8 :=
  flashWriteStatusMid write FLASH_LOCK_NONE FLASH_WRITE_STATUS_BP c

/-- `flash_get_lock_block_mid1471cd`. -/
def flashGetLockBlockMid (c : SerialFlash) : SerialFlash × UInt16 :=
  let (c, status) := flashReadStatusMid c
  (c, status &&& FLASH_WRITE_STATUS_BP)

/-- A loop of `flash_lock` or `flash_unlock`: `n` times at most something is tried, until what is
locked is as it should be; and whether it is. -/
def attempts (attempt : SerialFlash → SerialFlash × UInt8) (done : UInt16 → Bool) :
    ℕ → SerialFlash → SerialFlash × Bool
  | 0, c => (c, false)
  | n + 1, c =>
    let (c, curLockStatus) := flashGetLockBlockMid (attempt c).1
    if done curLockStatus then (c, true) else attempts attempt done n c

/-- The loop that unlocks. -/
def unlockLoop : SerialFlash → SerialFlash × Bool :=
  attempts (flashUnlockMid write) (· = FLASH_LOCK_NONE) lockTries

/-- The loop that locks. -/
def lockLoop (flashLockCmd : UInt32) : SerialFlash → SerialFlash × Bool :=
  attempts (flashLockMid write flashLockCmd) (·.toUInt32 = flashLockCmd) lockTries

/-- `flash_lock`; `initErr` is `blc_flashProt.init_err`. -/
def flashLock (initErr : Bool) (flashLockCmd : UInt32) (c : SerialFlash) : SerialFlash × Bool :=
  if initErr then (c, false)
  else
    let (c, curLockStatus) := flashGetLockBlockMid c
    if curLockStatus.toUInt32 = flashLockCmd then (c, true)
    else
      let c := if curLockStatus ≠ FLASH_LOCK_NONE then (unlockLoop write c).1 else c
      lockLoop write flashLockCmd c

/-- `flash_unlock`. -/
def flashUnlock (initErr : Bool) (c : SerialFlash) : SerialFlash × Bool :=
  if initErr then (c, false)
  else
    let (c, curLockStatus) := flashGetLockBlockMid c
    if curLockStatus = FLASH_LOCK_NONE then (c, true) else unlockLoop write c

end Model

/-! ### What is read -/

variable {c : SerialFlash}

/-- The bits of the status register that tell what is locked. -/
def lockBits (c : SerialFlash) : UInt16 := c.status &&& FLASH_WRITE_STATUS_BP

/-- The two bytes of the register, read from a chip that is free. -/
theorem flashReadStatusMid_eq (hc : Ready c) :
    flashReadStatusMid c = (c, (c.status.toUInt8 &&& 0xfe).toUInt16 |||
      (c.status >>> 8).toUInt8.toUInt16 <<< 8) := by
  have hlow := flashReadStatus_eq hc FLASH_READ_STATUS_CMD_LOWBYTE (by decide)
  have hhigh := flashReadStatus_eq hc FLASH_READ_STATUS_CMD_HIGHBYTE (by decide)
  have hreply : c.reply [FLASH_READ_STATUS_CMD_LOWBYTE] = c.status.toUInt8 &&& 0xfe := by
    simp only [FLASH_READ_STATUS_CMD_LOWBYTE, reply, hc.busy, if_true]
    exact UInt8.or_zero
  simp only [flashReadStatusMid, hlow, hhigh, hreply]
  rfl

theorem lockBits_bytes (status : UInt16) :
    ((status.toUInt8 &&& 0xfe).toUInt16 ||| (status >>> 8).toUInt8.toUInt16 <<< 8) &&&
      FLASH_WRITE_STATUS_BP = status &&& FLASH_WRITE_STATUS_BP := by
  refine UInt16.eq_of_toBitVec_eq (BitVec.eq_of_getElem_eq fun i hi => ?_)
  have hmask : FLASH_WRITE_STATUS_BP.toBitVec = 0x407c#16 := rfl
  simp only [UInt16.toBitVec_and, UInt16.toBitVec_or, UInt8.toBitVec_toUInt16, UInt8.toBitVec_and,
    UInt16.toBitVec_toUInt8, UInt16.toBitVec_shiftLeft, UInt16.toBitVec_shiftRight,
    BitVec.getElem_and, BitVec.getElem_or, BitVec.getElem_setWidth, hmask]
  interval_cases i <;> simp

theorem flashGetLockBlockMid_eq (hc : Ready c) : flashGetLockBlockMid c = (c, lockBits c) := by
  simp only [flashGetLockBlockMid, flashReadStatusMid_eq hc, lockBits_bytes]
  rfl

/-! ### What is kept -/

/-- A chip that is free and has the memory of `c`, and protects what `c` does for each status. -/
structure Kept (c c' : SerialFlash) : Prop where
  /-- The chip is free. -/
  ready : Ready c'
  /-- The memory. -/
  mem : c'.mem = c.mem
  /-- What is protected. -/
  protects : c'.protects = c.protects

theorem Kept.refl (hc : Ready c) : Kept c c := ⟨hc, rfl, rfl⟩

theorem Kept.trans {c' c'' : SerialFlash} (h : Kept c c') (h' : Kept c' c'') : Kept c c'' :=
  ⟨h'.ready, h'.mem.trans h.mem, h'.protects.trans h.protects⟩

/-- **A write to the status register** touches nothing else. -/
def WritesStatus (write : UInt16 → SerialFlash → SerialFlash) : Prop :=
  ∀ c data, Ready c → Kept c (write data c)

/-- The driver's does. -/
theorem flashWriteStatus_writesStatus : WritesStatus flashWriteStatus := fun _ data hc =>
  ⟨(flashWriteStatus_eq hc data).1, (flashWriteStatus_eq hc data).2.1,
    (flashWriteStatus_eq hc data).2.2⟩

variable {write : UInt16 → SerialFlash → SerialFlash}

theorem flashWriteStatusMid_kept (hwrite : WritesStatus write) (hc : Ready c)
    (data mask : UInt16) : Kept c (flashWriteStatusMid write data mask c).1 := by
  unfold flashWriteStatusMid
  split
  · exact .refl hc
  · simp only [flashReadStatusMid_eq hc]
    split
    · have hkept := hwrite c (data ||| (((c.status.toUInt8 &&& 0xfe).toUInt16 |||
        (c.status >>> 8).toUInt8.toUInt16 <<< 8) &&& ~~~mask)) hc
      rw [flashReadStatusMid_eq hkept.ready]
      exact hkept
    · exact .refl hc

/-- **The loops** tell whether what is locked is as it should be. -/
theorem attempts_spec (attempt : SerialFlash → SerialFlash × UInt8) (done : UInt16 → Bool)
    (hattempt : ∀ c, Ready c → Kept c (attempt c).1) (n : ℕ) (hc : Ready c) :
    Kept c (attempts attempt done (n + 1) c).1 ∧
      (attempts attempt done (n + 1) c).2 = done (lockBits (attempts attempt done (n + 1) c).1) := by
  induction n generalizing c with
  | zero =>
    have hkept := hattempt c hc
    simp only [attempts, flashGetLockBlockMid_eq hkept.ready]
    by_cases hdone : done (lockBits (attempt c).1) = true
    · rw [if_pos hdone]
      exact ⟨hkept, hdone.symm⟩
    · rw [if_neg hdone]
      exact ⟨hkept, (Bool.eq_false_iff.mpr hdone).symm⟩
  | succ n ih =>
    have hkept := hattempt c hc
    rw [attempts, flashGetLockBlockMid_eq hkept.ready]
    by_cases hdone : done (lockBits (attempt c).1) = true
    · simp only [if_pos hdone]
      exact ⟨hkept, hdone.symm⟩
    · simp only [if_neg hdone]
      obtain ⟨hkept', hdone'⟩ := ih hkept.ready
      exact ⟨hkept.trans hkept', hdone'⟩

theorem unlockLoop_spec (hwrite : WritesStatus write) (hc : Ready c) :
    Kept c (unlockLoop write c).1 ∧
      ((unlockLoop write c).2 = true ↔ lockBits (unlockLoop write c).1 = FLASH_LOCK_NONE) := by
  obtain ⟨hkept, hdone⟩ := attempts_spec (flashUnlockMid write) (· = FLASH_LOCK_NONE)
    (fun _ hc => flashWriteStatusMid_kept hwrite hc _ _) 2 hc
  exact ⟨hkept, by rw [unlockLoop, lockTries, hdone, decide_eq_true_iff]⟩

theorem lockLoop_spec (hwrite : WritesStatus write) (cmd : UInt32) (hc : Ready c) :
    Kept c (lockLoop write cmd c).1 ∧
      ((lockLoop write cmd c).2 = true ↔ (lockBits (lockLoop write cmd c).1).toUInt32 = cmd) := by
  obtain ⟨hkept, hdone⟩ := attempts_spec (flashLockMid write cmd) (·.toUInt32 = cmd)
    (fun _ hc => flashWriteStatusMid_kept hwrite hc _ _) 2 hc
  exact ⟨hkept, by rw [lockLoop, lockTries, hdone, decide_eq_true_iff]⟩

/-! ### Locking -/

/-- **`flash_lock`** answers `TRUE` exactly when what is locked at its end is what was asked for,
whatever the chip has done with the writes. -/
theorem flashLock_spec (hwrite : WritesStatus write) (cmd : UInt32) (hc : Ready c) :
    Kept c (flashLock write false cmd c).1 ∧
      ((flashLock write false cmd c).2 = true ↔
        (lockBits (flashLock write false cmd c).1).toUInt32 = cmd) := by
  simp only [flashLock, Bool.false_eq_true, if_false, flashGetLockBlockMid_eq hc]
  by_cases hdone : (lockBits c).toUInt32 = cmd
  · simp only [if_pos hdone]
    exact ⟨.refl hc, iff_of_true trivial hdone⟩
  · simp only [if_neg hdone]
    by_cases hnone : lockBits c ≠ FLASH_LOCK_NONE
    · rw [if_pos hnone]
      obtain ⟨hkept, -⟩ := unlockLoop_spec hwrite hc
      obtain ⟨hkept', hiff⟩ := lockLoop_spec hwrite cmd hkept.ready
      exact ⟨hkept.trans hkept', hiff⟩
    · rw [if_neg hnone]
      exact lockLoop_spec hwrite cmd hc

/-- **`flash_unlock`** answers `TRUE` exactly when nothing is locked at its end. -/
theorem flashUnlock_spec (hwrite : WritesStatus write) (hc : Ready c) :
    Kept c (flashUnlock write false c).1 ∧
      ((flashUnlock write false c).2 = true ↔
        lockBits (flashUnlock write false c).1 = FLASH_LOCK_NONE) := by
  simp only [flashUnlock, Bool.false_eq_true, if_false, flashGetLockBlockMid_eq hc]
  by_cases hnone : lockBits c = FLASH_LOCK_NONE
  · simp only [if_pos hnone]
    exact ⟨.refl hc, iff_of_true trivial hnone⟩
  · simp only [if_neg hnone]
    exact unlockLoop_spec hwrite hc

/-- **What is locked stays.** After `flash_lock` has answered `TRUE`, no requests to the driver,
whatever they ask for, change a byte that the chip protects when that is locked: not in any frame up to
one that stalls, and not when all are served. -/
theorem flashLock_protects (hwrite : WritesStatus write) {cmd : UInt32} (hc : Ready c)
    {c₁ : SerialFlash} (hlock : flashLock write false cmd c = (c₁, true)) (rs : List FlashRequest)
    {a : ℕ} (ha : ∀ status : UInt16, (status &&& FLASH_WRITE_STATUS_BP).toUInt32 = cmd →
      c.protects status a = true) :
    (∀ c₂ ∈ statesAll c₁ rs, c₂.mem a = c.mem a) ∧
      ∀ c₂ out, serveAll c₁ rs = some (c₂, out) → c₂.mem a = c.mem a := by
  obtain ⟨hkept, hiff⟩ := flashLock_spec hwrite cmd hc
  rw [hlock] at hkept hiff
  have hbits : (lockBits c₁).toUInt32 = cmd := hiff.mp rfl
  have hlocked : c₁.protects c₁.status a = true := by
    rw [hkept.protects]
    exact ha c₁.status hbits
  have hstates : ∀ c₂ ∈ statesAll c₁ rs, c₂.mem a = c.mem a := by
    intro c₂ hc₂
    rw [(statesAll_protected hkept.ready rs c₂ hc₂).2.mem a hlocked, hkept.mem]
  refine ⟨hstates, fun c₂ out hserve => ?_⟩
  rcases List.mem_cons.mp (serveAll_mem rs hserve) with rfl | hlast
  · rw [hkept.mem]
  · exact hstates c₂ hlast

/-- A chip whose first write to the status register does nothing. -/
def failingChip : SerialFlash :=
  { sampleChip (fun _ => 0xff) with
    protects := fun status a => (status &&& FLASH_WRITE_STATUS_BP).toUInt32 = 0x2c ∧ a < 0x40000
    settles := fun n status data => if n = 0 then status else data }

/-- An erase, a program over the end of the locked part, and one from the flash that stalls after the
end of the page. -/
def crossingRequests : List FlashRequest :=
  [.erase 0x3f000, .program 0x3fff0 32 (.ram fun _ => 0x00), .program 0x3fff0 64 (.flash 0x40000)]

theorem flashLock_protects_crossing :
    ∃ c₁, flashLock flashWriteStatus false 0x2c failingChip = (c₁, true) ∧
      serveAll c₁ crossingRequests = none ∧ (statesAll c₁ crossingRequests).length = 4 ∧
      ∀ c₂ ∈ statesAll c₁ crossingRequests, c₂.mem 0x3fff8 = 0xff := by
  have hc : Ready failingChip := ⟨rfl, rfl, (sampleChip_ready fun _ => 0xff).delay⟩
  have hlock : (flashLock flashWriteStatus false 0x2c failingChip).2 = true := by decide +kernel
  have hstall : (serveAll (flashLock flashWriteStatus false 0x2c failingChip).1
      crossingRequests).isNone = true := by decide +kernel
  have hframes : (statesAll (flashLock flashWriteStatus false 0x2c failingChip).1
      crossingRequests).length = 4 := by decide +kernel
  have heq : flashLock flashWriteStatus false 0x2c failingChip =
      ((flashLock flashWriteStatus false 0x2c failingChip).1, true) := Prod.ext rfl hlock
  exact ⟨_, heq, Option.isNone_iff_eq_none.mp hstall, hframes,
    (flashLock_protects flashWriteStatus_writesStatus hc heq crossingRequests (a := 0x3fff8)
      fun _ hstatus => decide_eq_true ⟨hstatus, by decide⟩).1⟩

end TcBle.Vendor
