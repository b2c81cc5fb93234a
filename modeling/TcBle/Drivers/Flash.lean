import TcBle.Foundation.SerialFlash

/-!
# The flash driver

`flash.c`: the sector erase, the read and the page program of the serial flash, as the frames they
put on the bus of the chip. A program of more than what is left of a page is cut at the ends of the
pages; what is programmed comes from the RAM, or from the flash itself through a small buffer.

## The model

A function takes the chip and gives it back. The loop that waits for the chip has the bound of the
source. A program of a part of more than `STACK_SIZE_FOR_FLASH_DATA` bytes from the flash ends in
`while(1)`, and gives nothing then. Addresses and lengths are natural numbers. What concerns the
interrupts, the watchdog and the time between two frames is left out.

## What is proved

* `flashMspiWriteRam_eq`, `flashReadData_eq` — one frame, with the chip free before and after it.
* `flashPageProgram_leaves` — a program is one plain write, however it is cut.
* `flashPageProgram_eq_none` — when it stalls.
* `statesAll_protected` — no requests change what is protected, and no part of one that stalls.
* `serveAll_leaves` — any requests to the driver leave in the chip what they leave in a plain
  memory, and read it.
-/

namespace TcBle.Drivers

open TcBle.Foundation SerialFlash

/-! ### Constants -/

/-- `PAGE_SIZE`. -/
def PAGE_SIZE : ℕ := 256
/-- `STACK_SIZE_FOR_FLASH_DATA`. -/
def STACK_SIZE_FOR_FLASH_DATA : ℕ := 32
/-- `FLASH_WRITE_CMD`. -/
def FLASH_WRITE_CMD : UInt8 := 0x02
/-- `FLASH_READ_CMD`. -/
def FLASH_READ_CMD : UInt8 := 0x03
/-- `FLASH_SECT_ERASE_CMD`. -/
def FLASH_SECT_ERASE_CMD : UInt8 := 0x20
/-- `FLASH_READ_STATUS_CMD_LOWBYTE`. -/
def FLASH_READ_STATUS_CMD_LOWBYTE : UInt8 := 0x05
/-- `FLASH_READ_STATUS_CMD_HIGHBYTE`. -/
def FLASH_READ_STATUS_CMD_HIGHBYTE : UInt8 := 0x35
/-- `FLASH_WRITE_STATUS_CMD_LOWBYTE`. -/
def FLASH_WRITE_STATUS_CMD_LOWBYTE : UInt8 := 0x01
/-- `FLASH_WRITE_ENABLE_CMD`. -/
def FLASH_WRITE_ENABLE_CMD : UInt8 := 0x06
/-- How often `flash_wait_done` asks. -/
def waitDoneBound : ℕ := 10000000

/-! ### The bus -/

/-- `mspi_high`. -/
def mspiHigh (c : SerialFlash) : SerialFlash := c.deselect

/-- `mspi_low`. -/
def mspiLow (c : SerialFlash) : SerialFlash := c.select

/-- `mspi_write`. -/
def mspiWrite (b : UInt8) (c : SerialFlash) : SerialFlash := (c.clock b).1

/-- `mspi_read`. -/
def mspiRead (c : SerialFlash) : SerialFlash × UInt8 := c.clock 0

/-- `flash_is_busy`. -/
def flashIsBusy (c : SerialFlash) : SerialFlash × Bool :=
  ((mspiRead c).1, (mspiRead c).2 &&& 0x01 ≠ 0)

/-- `flash_send_cmd`. -/
def flashSendCmd (cmd : UInt8) (c : SerialFlash) : SerialFlash :=
  mspiWrite cmd (mspiLow (mspiHigh c))

/-- `flash_send_addr`. -/
def flashSendAddr (addr : ℕ) (c : SerialFlash) : SerialFlash :=
  let c := mspiWrite (.ofNat (addr >>> 16)) c
  let c := mspiWrite (.ofNat (addr >>> 8)) c
  mspiWrite (.ofNat addr) c

/-- The loop of `flash_wait_done`. -/
def waitLoop : ℕ → SerialFlash → SerialFlash
  | 0, c => c
  | n + 1, c =>
    let (c, busy) := flashIsBusy c
    if busy then waitLoop n c else c

/-- `flash_wait_done`. -/
def flashWaitDone (c : SerialFlash) : SerialFlash :=
  mspiHigh (waitLoop waitDoneBound (flashSendCmd FLASH_READ_STATUS_CMD_LOWBYTE c))

/-- The loop of `flash_mspi_read_ram`: in auto mode, taking the byte that was clocked last clocks
the next one. -/
def readLoop : ℕ → UInt8 → SerialFlash → SerialFlash × List UInt8
  | 0, _, c => (c, [])
  | n + 1, got, c =>
    let (c, next) := c.clock 0
    let (c, data) := readLoop n next c
    (c, got :: data)

/-- `flash_mspi_read_ram`. -/
def flashMspiReadRam (cmd : UInt8) (addr : ℕ) (addrEn : Bool) (dummyCnt dataLen : ℕ)
    (c : SerialFlash) : SerialFlash × List UInt8 :=
  let c := flashSendCmd cmd c
  let c := if addrEn then flashSendAddr addr c else c
  let c := c.clockAll (List.replicate dummyCnt 0)
  let (c, got) := c.clock 0
  let (c, data) := readLoop dataLen got c
  (mspiHigh c, data)

/-- `flash_mspi_write_ram`. -/
def flashMspiWriteRam (cmd : UInt8) (addr : ℕ) (addrEn : Bool) (data : List UInt8)
    (c : SerialFlash) : SerialFlash :=
  let c := flashSendCmd FLASH_WRITE_ENABLE_CMD c
  let c := flashSendCmd cmd c
  let c := if addrEn then flashSendAddr addr c else c
  flashWaitDone (mspiHigh (c.clockAll data))

/-! ### The functions of the driver -/

/-- `flash_erase_sector`. -/
def flashEraseSector (addr : ℕ) (c : SerialFlash) : SerialFlash :=
  flashMspiWriteRam FLASH_SECT_ERASE_CMD addr true [] c

/-- `flash_read_data`. -/
def flashReadData (addr len : ℕ) (c : SerialFlash) : SerialFlash × List UInt8 :=
  flashMspiReadRam FLASH_READ_CMD addr true 0 len c

/-- `flash_read_status`. -/
def flashReadStatus (cmd : UInt8) (c : SerialFlash) : SerialFlash × UInt8 :=
  let (c, data) := flashMspiReadRam cmd 0 false 0 1 c
  (c, data.getD 0 0)

/-- `flash_write_status`, with `FLASH_TYPE_16BIT_STATUS_ONE_CMD`. -/
def flashWriteStatus (data : UInt16) (c : SerialFlash) : SerialFlash :=
  flashMspiWriteRam FLASH_WRITE_STATUS_CMD_LOWBYTE 0 false [data.toUInt8, (data >>> 8).toUInt8] c

/-- Where the bytes to be programmed are. -/
inductive Source where
  /-- In the RAM, at `RAM_ADDR_BASE` or above. -/
  | ram (buf : ℕ → UInt8)
  /-- In the flash, from an address on. -/
  | flash (addr : ℕ)

/-- `n` bytes of a source, from byte `off` on. -/
def Source.get (s : Source) (mem : Flash) (off n : ℕ) : List UInt8 :=
  match s with
  | .ram buf => (List.range n).map fun i => buf (off + i)
  | .flash addr => mem.read (addr + off) n

/-- `is_flash_addr`. -/
def Source.isFlashAddr : Source → Bool
  | .ram _ => false
  | .flash _ => true

/-- The loop of `flash_page_program`, which has `off` bytes behind it. -/
def pageLoop (buf : Source) (addr ns len off : ℕ) (_hns : 0 < ns) (c : SerialFlash) :
    Option SerialFlash :=
  let nw := if len > ns then ns else len
  if buf.isFlashAddr ∧ nw > STACK_SIZE_FOR_FLASH_DATA then none
  else
    let c := flashMspiWriteRam FLASH_WRITE_CMD addr true (buf.get c.mem off nw) c
    if h : 0 < len - nw then
      pageLoop buf (addr + nw) PAGE_SIZE (len - nw) (off + nw) (by decide) c
    else some c
termination_by len
decreasing_by
  have hnw : nw = if len > ns then ns else len := rfl
  split at hnw <;> omega

/-- `flash_page_program`. -/
def flashPageProgram (addr len : ℕ) (buf : Source) (c : SerialFlash) : Option SerialFlash :=
  pageLoop buf addr (PAGE_SIZE - addr % PAGE_SIZE) len 0
    (Nat.sub_pos_of_lt (Nat.mod_lt _ (by decide))) c

/-! ### Requests -/

/-- What is asked of the driver. -/
inductive FlashRequest where
  /-- `flash_erase_sector`. -/
  | erase (addr : ℕ)
  /-- `flash_write_page`, which is `flash_page_program`. -/
  | program (addr len : ℕ) (buf : Source)
  /-- `flash_read_page`, which is `flash_read_data`. -/
  | read (addr len : ℕ)

/-- A request to the driver, and what it reads. -/
def serve (c : SerialFlash) : FlashRequest → Option (SerialFlash × List UInt8)
  | .erase addr => some (flashEraseSector addr c, [])
  | .program addr len buf => (flashPageProgram addr len buf c).map (·, [])
  | .read addr len => some (flashReadData addr len c)

/-- Requests to the driver, one after the other. -/
def serveAll : SerialFlash → List FlashRequest → Option (SerialFlash × List (List UInt8))
  | c, [] => some (c, [])
  | c, r :: rs =>
    (serve c r).bind fun (c, data) => (serveAll c rs).map fun (c, out) => (c, data :: out)

/-- The same request to a plain memory. -/
def FlashRequest.plain (mem : Flash) : FlashRequest → Flash × List UInt8
  | .erase addr => (mem.erase (sectorOf addr) sectorSize, [])
  | .program addr len buf => (mem.program addr (buf.get mem 0 len), [])
  | .read addr len => (mem, mem.read addr len)

/-- The same requests to a plain memory. -/
def plainAll : Flash → List FlashRequest → Flash × List (List UInt8)
  | mem, [] => (mem, [])
  | mem, r :: rs =>
    let rest := plainAll (r.plain mem).1 rs
    (rest.1, (r.plain mem).2 :: rest.2)

/-! ### One frame -/

variable {c : SerialFlash}

/-- The chip is free, as the driver leaves it, and its writes end while the driver waits. -/
structure Ready (c : SerialFlash) : Prop where
  /-- Not selected. -/
  frame : c.frame = none
  /-- Not busy. -/
  busy : c.busy = 0
  /-- The time of a write. -/
  delay : ∀ n, c.delay n ≤ waitDoneBound

/-- From `c` to `c'` the memory has become `mem`, and the rest is as before. -/
structure Leaves (mem : Flash) (c c' : SerialFlash) : Prop where
  /-- The chip is free. -/
  ready : Ready c'
  /-- The memory. -/
  mem : c'.mem = mem
  /-- The status register. -/
  status : c'.status = c.status
  /-- What it protects. -/
  protects : c'.protects = c.protects

theorem Leaves.trans {mem mem' : Flash} {c c' c'' : SerialFlash} (h : Leaves mem c c')
    (h' : Leaves mem' c' c'') : Leaves mem' c c'' :=
  ⟨h'.ready, h'.mem, h'.status.trans h.status, h'.protects.trans h.protects⟩

theorem Leaves.open_iff {mem : Flash} {c c' : SerialFlash} (h : Leaves mem c c') {lo n : ℕ} :
    c'.Open lo n ↔ c.Open lo n := by
  unfold SerialFlash.Open
  rw [h.protects, h.status]

theorem flashSendCmd_none (hframe : c.frame = none) (hbusy : c.busy = 0) (cmd : UInt8) :
    flashSendCmd cmd c = { c with frame := some [cmd] } := by
  rw [flashSendCmd, mspiHigh, deselect, hframe]
  exact clock_select hbusy cmd

/-- The bytes of an address, as they are sent. -/
def addrBytes (addr : ℕ) : List UInt8 :=
  [.ofNat (addr >>> 16), .ofNat (addr >>> 8), .ofNat addr]

/-- The address of a frame; with more than three bytes it is cut. -/
theorem address_addrBytes (addr : ℕ) :
    address (.ofNat (addr >>> 16)) (.ofNat (addr >>> 8)) (.ofNat addr) = addr % 2 ^ 24 := by
  simp only [address, UInt8.toNat_ofNat', Nat.shiftRight_eq_div_pow]
  omega

theorem flashSendAddr_eq (addr : ℕ) (c : SerialFlash) :
    flashSendAddr addr c = c.clockAll (addrBytes addr) := rfl

/-- The chip tells whether it is busy. -/
theorem busyBit (status : UInt8) (busy : ℕ) :
    (status &&& 0xfe ||| if busy = 0 then 0 else 1) &&& 0x01 = 0 ↔ busy = 0 := by
  split_ifs with h
  · rw [UInt8.or_zero, UInt8.and_assoc]
    exact iff_of_true UInt8.and_zero h
  · refine iff_of_false ?_ h
    have hone : (status &&& 0xfe ||| 1) &&& 0x01 = 1 := by
      refine UInt8.eq_of_toBitVec_eq (BitVec.eq_of_getElem_eq fun i hi => ?_)
      simp only [UInt8.toBitVec_and, UInt8.toBitVec_or, BitVec.getElem_and, BitVec.getElem_or]
      cases (UInt8.toBitVec 1)[i] <;> simp
    rw [hone]
    decide

theorem flashIsBusy_eq {asked : List UInt8} (hframe : c.frame = some (0x05 :: asked)) :
    flashIsBusy c =
      ({ c with frame := some (0x05 :: asked ++ [0]), busy := c.busy - 1 },
        decide (c.busy ≠ 0)) := by
  have hbit := busyBit c.status.toUInt8 c.busy
  rw [flashIsBusy, mspiRead, clock_heard 0 hframe (by simp)]
  simp only [reply, ne_eq, hbit]

/-- The loop that waits for the chip ends when the chip is free. -/
theorem waitLoop_eq {n : ℕ} {asked : List UInt8} (hframe : c.frame = some (0x05 :: asked))
    (hbusy : c.busy < n) :
    ∃ asked', waitLoop n c = { c with frame := some (0x05 :: asked'), busy := 0 } := by
  induction n generalizing c asked with
  | zero => exact absurd hbusy (Nat.not_lt_zero _)
  | succ n ih =>
    rw [waitLoop, flashIsBusy_eq hframe]
    by_cases hfree : c.busy = 0
    · refine ⟨asked ++ [0], ?_⟩
      simp [hfree]
    · simp only [ne_eq, hfree, not_false_eq_true, decide_true, if_true]
      exact ih rfl (show c.busy - 1 < n by omega)

/-- **Waiting** for a chip that is not selected. -/
theorem flashWaitDone_eq (hframe : c.frame = none) (hbusy : c.busy ≤ waitDoneBound) :
    flashWaitDone c = { c with busy := 0 } := by
  have hcmd : flashSendCmd FLASH_READ_STATUS_CMD_LOWBYTE c =
      { c with frame := some [0x05], busy := c.busy - 1 } := by
    rw [flashSendCmd, mspiHigh, deselect, hframe]
    simp [mspiLow, mspiWrite, select, clock, FLASH_READ_STATUS_CMD_LOWBYTE]
  have hlt : c.busy - 1 < waitDoneBound := by
    have : 0 < waitDoneBound := by decide
    omega
  rw [flashWaitDone, hcmd]
  obtain ⟨asked, heq⟩ := waitLoop_eq
    (c := { c with frame := some [0x05], busy := c.busy - 1 }) rfl hlt
  rw [heq, mspiHigh, deselect]
  simp only
  rw [execute_quiet (by decide), ← hframe]

/-- What is sent of an address. -/
def sent (addr : ℕ) (addrEn : Bool) : List UInt8 := if addrEn then addrBytes addr else []

/-- **One frame to write**, while the chip is free. -/
theorem flashMspiWriteRam_eq (hc : Ready c) (cmd : UInt8) (addr : ℕ) (addrEn : Bool)
    (data : List UInt8) :
    flashMspiWriteRam cmd addr addrEn data c =
      { ({ c with latch := true }.execute (cmd :: (sent addr addrEn ++ data))) with
        frame := none, busy := 0 } := by
  have henable : flashSendCmd FLASH_WRITE_ENABLE_CMD c = { c with frame := some [0x06] } :=
    flashSendCmd_none hc.frame hc.busy _
  have hcmd : flashSendCmd cmd { c with frame := some [0x06] } =
      ({ c with latch := true }.select.clock cmd).1 := rfl
  have haddr : (if addrEn then flashSendAddr addr ({ c with latch := true }.select.clock cmd).1
      else ({ c with latch := true }.select.clock cmd).1) =
      ({ c with latch := true }.select.clock cmd).1.clockAll (sent addr addrEn) := by
    cases addrEn <;> rfl
  have hbus : mspiHigh ((({ c with latch := true }.select.clock cmd).1.clockAll
      (sent addr addrEn)).clockAll data) =
      { ({ c with latch := true }.execute (cmd :: (sent addr addrEn ++ data))) with
        frame := none } := by
    rw [← clockAll_append]
    exact frame_run (c := { c with latch := true }) hc.busy cmd (sent addr addrEn ++ data)
  simp only [flashMspiWriteRam, henable, hcmd, haddr]
  rw [hbus]
  exact flashWaitDone_eq rfl (execute_busy (c := { c with latch := true }) hc.busy hc.delay _)

theorem flashMspiWriteRam_ready (hc : Ready c) (cmd : UInt8) (addr : ℕ) (addrEn : Bool)
    (data : List UInt8) : Ready (flashMspiWriteRam cmd addr addrEn data c) := by
  rw [flashMspiWriteRam_eq hc]
  refine ⟨rfl, rfl, fun n => ?_⟩
  rw [execute_delay]
  exact hc.delay n

theorem sent_cons (addr : ℕ) (cmd : UInt8) (data : List UInt8) :
    cmd :: (sent addr true ++ data) =
      cmd :: .ofNat (addr >>> 16) :: .ofNat (addr >>> 8) :: .ofNat addr :: data := rfl

/-- A frame that changes the memory, while the chip is free and the range is open. -/
theorem flashMspiWriteRam_leaves (hc : Ready c) {cmd : UInt8} {addr lo n : ℕ} {data : List UInt8}
    {mem : Flash} (hopen : c.Open lo n)
    (hexec : { c with latch := true }.execute (cmd :: (sent addr true ++ data)) =
      { c with latch := true }.change lo n mem) :
    Leaves mem c (flashMspiWriteRam cmd addr true data c) := by
  have hopen' : { c with latch := true }.Open lo n := hopen
  have hchange : { c with latch := true }.change lo n mem =
      { c with latch := true, mem }.started := by
    rw [change, if_pos rfl, if_pos hopen']
  rw [flashMspiWriteRam_eq hc, hexec, hchange]
  exact ⟨⟨rfl, rfl, hc.delay⟩, rfl, rfl, rfl⟩

/-- **The erase** of a sector. -/
theorem flashEraseSector_leaves (hc : Ready c) {addr : ℕ} (haddr : addr < 2 ^ 24)
    (hopen : c.Open (sectorOf addr) sectorSize) :
    Leaves (c.mem.erase (sectorOf addr) sectorSize) c (flashEraseSector addr c) := by
  refine flashMspiWriteRam_leaves hc hopen ?_
  rw [sent_cons, FLASH_SECT_ERASE_CMD, execute, address_addrBytes, Nat.mod_eq_of_lt haddr]

/-- **The program** of a part of a page. -/
theorem program_leaves (hc : Ready c) {addr : ℕ} {data : List UInt8}
    (haddr : addr + data.length ≤ 2 ^ 24)
    (hfit : addr % pageSize + data.length ≤ pageSize)
    (hopen : data ≠ [] → c.Open (addr / pageSize * pageSize) pageSize) :
    Leaves (c.mem.program addr data) c (flashMspiWriteRam FLASH_WRITE_CMD addr true data c) := by
  cases data with
  | nil =>
    have hexec : { c with latch := true }.execute (FLASH_WRITE_CMD :: (sent addr true ++ [])) =
        { c with latch := true } := rfl
    rw [flashMspiWriteRam_eq hc, hexec, Flash.program_nil]
    exact ⟨⟨rfl, rfl, hc.delay⟩, rfl, rfl, rfl⟩
  | cons b data =>
    refine flashMspiWriteRam_leaves hc (hopen (List.cons_ne_nil _ _)) ?_
    rw [List.length_cons] at haddr
    rw [sent_cons, FLASH_WRITE_CMD, execute, address_addrBytes, Nat.mod_eq_of_lt (by omega)]
    simp only [programPage_eq c.mem hfit]

/-! ### Reading -/

/-- The chip sends its memory, one byte after the other. -/
theorem readLoop_eq {x y z : UInt8} (got : UInt8) (rest : List UInt8) (n : ℕ) (hbusy : c.busy = 0)
    (hframe : c.frame = some (0x03 :: x :: y :: z :: rest)) :
    ∃ rest', readLoop n got c = ({ c with frame := some (0x03 :: x :: y :: z :: rest') },
      (got :: c.mem.read (address x y z + rest.length) n).take n) := by
  induction n generalizing c got rest with
  | zero =>
    refine ⟨rest, ?_⟩
    rw [readLoop, List.take_zero, ← hframe]
  | succ n ih =>
    have hread : c.mem.read (address x y z + rest.length) (n + 1) =
        c.mem (address x y z + rest.length) ::
          c.mem.read (address x y z + (rest ++ [0]).length) n := by
      rw [Flash.read_succ, List.length_append, List.length_singleton, Nat.add_assoc]
    obtain ⟨rest', heq⟩ := ih (c := { c with
      frame := some (0x03 :: x :: y :: z :: rest ++ [0]), busy := c.busy - 1 })
      (c.reply (0x03 :: x :: y :: z :: rest)) (rest ++ [0]) (by simp [hbusy]) rfl
    refine ⟨rest', ?_⟩
    rw [readLoop, clock_heard 0 hframe (by simp), hread, List.take_succ_cons]
    simp only
    rw [heq]
    simp only [hbusy, Nat.zero_sub]
    rfl

/-- **A read** gives the bytes of the memory, and leaves the chip as it was. -/
theorem flashReadData_eq (hc : Ready c) (addr len : ℕ) :
    flashReadData addr len c = (c, c.mem.read (addr % 2 ^ 24) len) := by
  have hcmd : flashSendCmd FLASH_READ_CMD c = { c with frame := some [0x03] } :=
    flashSendCmd_none hc.frame hc.busy _
  have hasked : flashSendAddr addr { c with frame := some [0x03] } =
      { c with frame := some (0x03 :: addrBytes addr) } := by
    rw [flashSendAddr_eq, clockAll_heard rfl (by simp)]
    simp [hc.busy]
  have hfirst : { c with frame := some (0x03 :: addrBytes addr) }.clock 0 =
      ({ c with frame := some (0x03 :: addrBytes addr ++ [0]) }, c.mem (addr % 2 ^ 24)) := by
    rw [clock_heard 0 rfl (by simp)]
    simp only [hc.busy, addrBytes, reply, address_addrBytes, List.length_nil, Nat.add_zero,
      Nat.zero_sub]
  obtain ⟨rest, hloop⟩ := readLoop_eq
    (c := { c with frame := some (0x03 :: addrBytes addr ++ [0]) })
    (c.mem (addr % 2 ^ 24)) [0] len hc.busy rfl
  have hread : (c.mem (addr % 2 ^ 24) :: c.mem.read (addr % 2 ^ 24 + 1) len).take len =
      c.mem.read (addr % 2 ^ 24) len := by
    rw [← Flash.read_succ, Flash.read_append]
    exact List.take_left' (Flash.length_read ..)
  simp only [flashReadData, flashMspiReadRam, hcmd, hasked, if_true, List.replicate_zero, clockAll,
    List.foldl_nil, hfirst]
  rw [hloop, address_addrBytes]
  simp only [List.length_singleton, hread, mspiHigh, deselect]
  rw [execute_quiet (by decide), ← hc.frame]

/-! ### A program of any length -/

/-- Every byte of a range lies in a page that is open. -/
def OpenPages (c : SerialFlash) (addr len : ℕ) : Prop :=
  ∀ i < len, c.Open ((addr + i) / pageSize * pageSize) pageSize

/-- The parts that a program of `len` bytes to `addr` is cut into, from the flash, are no longer
than the buffer for them. -/
def Short (addr len : ℕ) : Prop :=
  min (PAGE_SIZE - addr % PAGE_SIZE) len ≤ STACK_SIZE_FOR_FLASH_DATA ∧
    len - (PAGE_SIZE - addr % PAGE_SIZE) ≤ STACK_SIZE_FOR_FLASH_DATA

instance (addr len : ℕ) : Decidable (Short addr len) := inferInstanceAs (Decidable (_ ∧ _))

/-- The bytes to be programmed are not where they are programmed to. -/
def Source.Apart (addr len : ℕ) : Source → Prop
  | .ram _ => True
  | .flash src => src + len ≤ addr ∨ addr + len ≤ src

@[simp] theorem Source.length_get (s : Source) (mem : Flash) (off n : ℕ) :
    (s.get mem off n).length = n := by
  cases s <;> simp [Source.get]

theorem Source.get_append (s : Source) (mem : Flash) (off m n : ℕ) :
    s.get mem off (m + n) = s.get mem off m ++ s.get mem (off + m) n := by
  cases s with
  | ram buf => simp [Source.get, List.range_add, Nat.add_assoc]
  | flash addr => simp only [Source.get, Flash.read_append, Nat.add_assoc]

/-- What is still to be programmed has not been changed by what was programmed before. -/
theorem Source.get_program (s : Source) (mem : Flash) {addr off m : ℕ} (n : ℕ) {data : List UInt8}
    (hlen : data.length = m) (hapart : s.Apart (addr - off) (off + m + n)) (hoff : off ≤ addr) :
    s.get (mem.program addr data) (off + m) n = s.get mem (off + m) n := by
  cases s with
  | ram buf => rfl
  | flash src =>
    refine Flash.read_congr fun i hi => mem.program_other ?_
    simp only [Source.Apart] at hapart
    omega

theorem OpenPages.part {addr len : ℕ} (h : OpenPages c addr len) (off n : ℕ) (hle : off + n ≤ len) :
    OpenPages c (addr + off) n := fun i hi => by
  rw [Nat.add_assoc]
  exact h (off + i) (by omega)

/-- The part of a page that is programmed first. -/
theorem part_leaves (hc : Ready c) {addr len n : ℕ} (off : ℕ) (buf : Source) (hle : n ≤ len)
    (hpage : n ≤ PAGE_SIZE - addr % PAGE_SIZE) (hbound : addr + len ≤ 2 ^ 24)
    (hopen : OpenPages c addr len) :
    Leaves (c.mem.program addr (buf.get c.mem off n)) c
      (flashMspiWriteRam FLASH_WRITE_CMD addr true (buf.get c.mem off n) c) := by
  have hmod : addr % PAGE_SIZE < PAGE_SIZE := Nat.mod_lt _ (by decide)
  refine program_leaves hc ?_ ?_ fun hne => ?_
  · rw [Source.length_get]
    omega
  · rw [Source.length_get]
    simp only [pageSize, PAGE_SIZE] at *
    omega
  · have hpos : 0 < n := by simpa using List.length_pos_of_ne_nil hne
    exact hopen 0 (by omega)

/-- The loop, which has programmed `off` bytes from `base` on. -/
theorem pageLoop_leaves (base : ℕ) {buf : Source} (len off : ℕ) (hc : Ready c) (ns : ℕ)
    (hpos : 0 < ns) (hns : ns = PAGE_SIZE - (base + off) % PAGE_SIZE)
    (hbound : base + off + len ≤ 2 ^ 24) (hopen : OpenPages c (base + off) len)
    (hshort : buf.isFlashAddr → Short (base + off) len) (hapart : buf.Apart base (off + len)) :
    ∃ c', pageLoop buf (base + off) ns len off hpos c = some c' ∧
      Leaves (c.mem.program (base + off) (buf.get c.mem off len)) c c' := by
  induction len using Nat.strong_induction_on generalizing off c ns with
  | _ len ih =>
    obtain ⟨nw, hnw⟩ : ∃ nw, nw = if len > ns then ns else len := ⟨_, rfl⟩
    have hle : nw ≤ len ∧ nw ≤ ns := by split_ifs at hnw <;> omega
    have hfirst := part_leaves hc off buf hle.1 (hns ▸ hle.2) hbound hopen
    have hgo : ¬ (buf.isFlashAddr = true ∧ nw > STACK_SIZE_FOR_FLASH_DATA) := by
      rintro ⟨hflash, hgt⟩
      have := (hshort hflash).1
      omega
    unfold pageLoop
    simp only [← hnw, if_neg hgo]
    by_cases hmore : 0 < len - nw
    · have hcut : nw = ns := by split_ifs at hnw <;> omega
      have hmod : (base + (off + nw)) % PAGE_SIZE = 0 := by
        simp only [PAGE_SIZE] at *
        omega
      have hsum : off + nw + (len - nw) = off + len := by omega
      have hopen' := hopen.part nw (len - nw) (by omega)
      obtain ⟨c', hrun, hrest⟩ := ih (len - nw) (by omega) (off + nw) hfirst.ready PAGE_SIZE
        (by decide) (by rw [hmod, Nat.sub_zero]) (by omega)
        (fun i hi => hfirst.open_iff.mpr (by rw [← Nat.add_assoc]; exact hopen' i hi))
        (fun hflash => by
          have := (hshort hflash).2
          rw [Short, hmod]
          omega)
        (by rwa [hsum])
      refine ⟨c', ?_, ?_⟩
      · rw [dif_pos hmore, Nat.add_assoc]
        exact hrun
      · have hbytes := buf.get_program c.mem (len - nw) (Source.length_get buf c.mem off nw)
          (show buf.Apart (base + off - off) _ by rwa [Nat.add_sub_cancel, hsum]) (by omega)
        have hall : c.mem.program (base + off) (buf.get c.mem off len) =
            (c.mem.program (base + off) (buf.get c.mem off nw)).program (base + (off + nw))
              (buf.get (c.mem.program (base + off) (buf.get c.mem off nw)) (off + nw)
                (len - nw)) := by
          rw [hbytes, ← Nat.add_assoc]
          conv_lhs => rw [← Nat.add_sub_cancel' hle.1, Source.get_append, Flash.program_append,
            Source.length_get]
        rw [hall]
        rw [hfirst.mem] at hrest
        exact hfirst.trans hrest
    · have hall : nw = len := by omega
      rw [dif_neg hmore]
      exact ⟨_, rfl, hall ▸ hfirst⟩

/-- **A program is one plain write**, however it is cut. -/
theorem flashPageProgram_leaves (hc : Ready c) {addr len : ℕ} {buf : Source}
    (hbound : addr + len ≤ 2 ^ 24) (hopen : OpenPages c addr len)
    (hshort : buf.isFlashAddr → Short addr len) (hapart : buf.Apart addr len) :
    ∃ c', flashPageProgram addr len buf c = some c' ∧
      Leaves (c.mem.program addr (buf.get c.mem 0 len)) c c' :=
  pageLoop_leaves addr len 0 hc _ _ rfl hbound hopen hshort (by rwa [Nat.zero_add])

/-- The loop stalls when a part from the flash is too long. -/
theorem pageLoop_eq_none {buf : Source} (addr len off : ℕ) {ns : ℕ} (hpos : 0 < ns) :
    pageLoop buf addr ns len off hpos c = none ↔
      buf.isFlashAddr ∧ ¬ (min ns len ≤ STACK_SIZE_FOR_FLASH_DATA ∧
        len - ns ≤ STACK_SIZE_FOR_FLASH_DATA) := by
  induction len using Nat.strong_induction_on generalizing addr off c ns with
  | _ len ih =>
    obtain ⟨nw, hnw⟩ : ∃ nw, nw = if len > ns then ns else len := ⟨_, rfl⟩
    have hmin : nw = min ns len := by split_ifs at hnw <;> omega
    unfold pageLoop
    simp only [← hnw]
    by_cases hstall : buf.isFlashAddr = true ∧ nw > STACK_SIZE_FOR_FLASH_DATA
    · rw [if_pos hstall]
      exact iff_of_true rfl ⟨hstall.1, fun h => absurd hstall.2 (by omega)⟩
    · rw [if_neg hstall]
      by_cases hmore : 0 < len - nw
      · rw [dif_pos hmore, ih (len - nw) (by omega)]
        simp only [PAGE_SIZE, STACK_SIZE_FOR_FLASH_DATA] at *
        refine and_congr_right fun hflash => not_congr ?_
        have : ¬ nw > 32 := fun h => hstall ⟨hflash, h⟩
        omega
      · rw [dif_neg hmore]
        refine iff_of_false (Option.some_ne_none _) ?_
        rintro ⟨hflash, hlong⟩
        have : ¬ nw > STACK_SIZE_FOR_FLASH_DATA := fun h => hstall ⟨hflash, h⟩
        exact hlong ⟨by omega, by omega⟩

/-- **A program stalls** exactly when it is from the flash and one of its parts is too long. -/
theorem flashPageProgram_eq_none (addr len : ℕ) (buf : Source) (c : SerialFlash) :
    flashPageProgram addr len buf c = none ↔ buf.isFlashAddr ∧ ¬ Short addr len :=
  pageLoop_eq_none addr len 0 _

/-! ### Any requests -/

/-- What a request may ask for. -/
def FlashRequest.Fits (c : SerialFlash) : FlashRequest → Prop
  | .erase addr => addr < 2 ^ 24 ∧ c.Open (sectorOf addr) sectorSize
  | .program addr len buf => addr + len ≤ 2 ^ 24 ∧ OpenPages c addr len ∧
      (buf.isFlashAddr → Short addr len) ∧ buf.Apart addr len
  | .read addr _ => addr < 2 ^ 24

theorem FlashRequest.Fits.leaves {mem : Flash} {c' : SerialFlash} {r : FlashRequest}
    (hr : r.Fits c) (h : Leaves mem c c') : r.Fits c' := by
  cases r with
  | erase addr => exact ⟨hr.1, h.open_iff.mpr hr.2⟩
  | program addr len buf => exact ⟨hr.1, fun i hi => h.open_iff.mpr (hr.2.1 i hi), hr.2.2⟩
  | read addr len => exact hr

/-- **One request.** -/
theorem serve_leaves (hc : Ready c) {r : FlashRequest} (hr : r.Fits c) :
    ∃ c', serve c r = some (c', (r.plain c.mem).2) ∧ Leaves (r.plain c.mem).1 c c' := by
  cases r with
  | erase addr => exact ⟨_, rfl, flashEraseSector_leaves hc hr.1 hr.2⟩
  | program addr len buf =>
    obtain ⟨hbound, hopen, hshort, hapart⟩ := hr
    obtain ⟨c', hrun, hleaves⟩ := flashPageProgram_leaves hc hbound hopen hshort hapart
    exact ⟨c', by rw [serve, hrun]; rfl, hleaves⟩
  | read addr len =>
    refine ⟨c, ?_, ⟨hc, rfl, rfl, rfl⟩⟩
    rw [serve, flashReadData_eq hc, Nat.mod_eq_of_lt hr]
    rfl

/-! ### What is protected -/

theorem flashMspiWriteRam_protected (hc : Ready c) (cmd : UInt8) (hcmd : cmd ≠ 0x01) (addr : ℕ)
    (addrEn : Bool) (data : List UInt8) :
    Protected c (flashMspiWriteRam cmd addr addrEn data c) := by
  have hexec := execute_protected { c with latch := true } hcmd (sent addr addrEn ++ data)
  rw [flashMspiWriteRam_eq hc]
  exact ⟨hexec.mem, hexec.status, hexec.protects⟩

/-- The chip after each part of a program, up to where it stalls. -/
def pageParts (buf : Source) (addr ns len off : ℕ) (_hns : 0 < ns) (c : SerialFlash) :
    List SerialFlash :=
  let nw := if len > ns then ns else len
  if buf.isFlashAddr ∧ nw > STACK_SIZE_FOR_FLASH_DATA then []
  else
    let c := flashMspiWriteRam FLASH_WRITE_CMD addr true (buf.get c.mem off nw) c
    if h : 0 < len - nw then
      c :: pageParts buf (addr + nw) PAGE_SIZE (len - nw) (off + nw) (by decide) c
    else [c]
termination_by len
decreasing_by
  have hnw : nw = if len > ns then ns else len := rfl
  split at hnw <;> omega

/-- The chip after each frame of a request that writes, and after the others, up to a stall. -/
def states (c : SerialFlash) : FlashRequest → List SerialFlash
  | .erase addr => [flashEraseSector addr c]
  | .program addr len buf =>
    pageParts buf addr (PAGE_SIZE - addr % PAGE_SIZE) len 0
      (Nat.sub_pos_of_lt (Nat.mod_lt _ (by decide))) c
  | .read addr len => [(flashReadData addr len c).1]

/-- The chip after each frame of the requests, up to a stall. -/
def statesAll : SerialFlash → List FlashRequest → List SerialFlash
  | _, [] => []
  | c, r :: rs =>
    states c r ++ (serve c r).elim [] fun served => statesAll served.1 rs

/-- A program that does not stall ends in the last of them. -/
theorem pageLoop_mem {buf : Source} (addr len off : ℕ) {ns : ℕ} (hpos : 0 < ns) {c' : SerialFlash}
    (hrun : pageLoop buf addr ns len off hpos c = some c') :
    c' ∈ pageParts buf addr ns len off hpos c := by
  induction len using Nat.strong_induction_on generalizing addr off c ns with
  | _ len ih =>
    obtain ⟨nw, hnw⟩ : ∃ nw, nw = if len > ns then ns else len := ⟨_, rfl⟩
    unfold pageLoop at hrun
    unfold pageParts
    simp only [← hnw] at hrun ⊢
    split at hrun
    case isTrue => cases hrun
    case isFalse hfits =>
      rw [if_neg hfits]
      split at hrun
      case isTrue hrest =>
        rw [dif_pos hrest]
        have hless : len - nw < len := by split_ifs at hnw <;> omega
        exact List.mem_cons_of_mem _ (ih (len - nw) hless _ _ _ hrun)
      case isFalse hlast =>
        rw [dif_neg hlast, Option.some.inj hrun]
        exact List.mem_singleton_self c'

/-- **The parts of a program** change no byte that is protected, whether or not it stalls. -/
theorem pageParts_protected {buf : Source} (addr len off : ℕ) (hc : Ready c) {ns : ℕ}
    (hpos : 0 < ns) : ∀ c' ∈ pageParts buf addr ns len off hpos c, Ready c' ∧ Protected c c' := by
  induction len using Nat.strong_induction_on generalizing addr off c ns with
  | _ len ih =>
    obtain ⟨nw, hnw⟩ : ∃ nw, nw = if len > ns then ns else len := ⟨_, rfl⟩
    unfold pageParts
    simp only [← hnw]
    have hready := flashMspiWriteRam_ready hc FLASH_WRITE_CMD addr true (buf.get c.mem off nw)
    have hfirst := flashMspiWriteRam_protected hc FLASH_WRITE_CMD (by decide) addr true
      (buf.get c.mem off nw)
    intro c' hc'
    split at hc'
    case isTrue => exact absurd hc' List.not_mem_nil
    case isFalse =>
      split at hc'
      case isTrue hrest =>
        rcases List.mem_cons.mp hc' with rfl | hc'
        · exact ⟨hready, hfirst⟩
        · have hless : len - nw < len := by split_ifs at hnw <;> omega
          obtain ⟨hready', hlater⟩ := ih (len - nw) hless _ _ hready _ c' hc'
          exact ⟨hready', hfirst.trans hlater⟩
      case isFalse =>
        obtain rfl := List.mem_singleton.mp hc'
        exact ⟨hready, hfirst⟩

/-- A request, whatever it asks for, changes no byte that is protected. -/
theorem states_protected (hc : Ready c) (r : FlashRequest) :
    ∀ c' ∈ states c r, Ready c' ∧ Protected c c' := by
  cases r with
  | erase addr =>
    intro c' hc'
    obtain rfl := List.mem_singleton.mp hc'
    exact ⟨flashMspiWriteRam_ready hc _ _ _ _, flashMspiWriteRam_protected hc _ (by decide) _ _ _⟩
  | program addr len buf => exact pageParts_protected addr len 0 hc _
  | read addr len =>
    intro c' hc'
    rw [states, flashReadData_eq hc] at hc'
    obtain rfl := List.mem_singleton.mp hc'
    exact ⟨hc, .refl _⟩

/-- What a request that is served leaves. -/
theorem serve_mem {r : FlashRequest} {c' : SerialFlash} {data : List UInt8}
    (hserve : serve c r = some (c', data)) : c' ∈ states c r := by
  cases r with
  | erase addr =>
    obtain ⟨rfl, -⟩ := Prod.mk.inj (Option.some.inj hserve)
    exact List.mem_singleton_self _
  | program addr len buf =>
    obtain ⟨c₁, hrun, heq⟩ := Option.map_eq_some_iff.mp hserve
    obtain ⟨rfl, -⟩ := Prod.mk.inj heq
    exact pageLoop_mem addr len 0 _ hrun
  | read addr len =>
    have heq := congrArg Prod.fst (Option.some.inj hserve)
    exact List.mem_singleton.mpr heq.symm

/-- **Any requests**, whatever they ask for, change no byte that is protected, up to a stall. -/
theorem statesAll_protected (hc : Ready c) (rs : List FlashRequest) :
    ∀ c' ∈ statesAll c rs, Ready c' ∧ Protected c c' := by
  induction rs generalizing c with
  | nil => exact fun c' hc' => absurd hc' List.not_mem_nil
  | cons r rs ih =>
    intro c' hc'
    rcases List.mem_append.mp hc' with hc' | hc'
    · exact states_protected hc r c' hc'
    · cases hserve : serve c r with
      | none =>
        rw [hserve] at hc'
        exact absurd hc' List.not_mem_nil
      | some served =>
        rw [hserve] at hc'
        obtain ⟨hready, hfirst⟩ := states_protected hc r _ (serve_mem hserve)
        obtain ⟨hready', hlater⟩ := ih hready c' hc'
        exact ⟨hready', hfirst.trans hlater⟩

/-- Requests that are all served end in the last of these states. -/
theorem serveAll_mem (rs : List FlashRequest) {c' : SerialFlash} {out : List (List UInt8)}
    (hserve : serveAll c rs = some (c', out)) : c' ∈ c :: statesAll c rs := by
  induction rs generalizing c out with
  | nil =>
    obtain ⟨rfl, -⟩ := Prod.mk.inj (Option.some.inj hserve)
    exact List.mem_cons_self
  | cons r rs ih =>
    obtain ⟨⟨c₁, data⟩, hone, hrest⟩ := Option.bind_eq_some_iff.mp hserve
    obtain ⟨⟨c₂, out'⟩, hrest', heq⟩ := Option.map_eq_some_iff.mp hrest
    obtain ⟨rfl, -⟩ := Prod.mk.inj heq
    rw [statesAll, hone]
    rcases List.mem_cons.mp (ih hrest') with rfl | hlater
    · exact List.mem_cons_of_mem _ (List.mem_append_left _ (serve_mem hone))
    · exact List.mem_cons_of_mem _ (List.mem_append_right _ hlater)

/-! ### The status register -/

/-- What `flash_read_status` gets is what the chip replies. -/
theorem flashReadStatus_eq (hc : Ready c) (cmd : UInt8) (hcmd : cmd ∉ [0x06, 0x02, 0x20, 0x01]) :
    flashReadStatus cmd c = (c, c.reply [cmd]) := by
  have hsend : flashSendCmd cmd c = { c with frame := some [cmd] } :=
    flashSendCmd_none hc.frame hc.busy _
  have hfirst : { c with frame := some [cmd] }.clock 0 =
      ({ c with frame := some [cmd, 0] }, c.reply [cmd]) := by
    rw [clock_heard 0 rfl (by simp), reply_frame]
    simp only [hc.busy, Nat.zero_sub, List.singleton_append]
  have hnext : { c with frame := some [cmd, 0] }.clock 0 =
      ({ c with frame := some [cmd, 0, 0] }, c.reply [cmd, 0]) := by
    rw [clock_heard 0 rfl (by simp), reply_frame]
    simp only [hc.busy, Nat.zero_sub, List.cons_append, List.nil_append]
  simp only [flashReadStatus, flashMspiReadRam, hsend, Bool.false_eq_true, if_false,
    List.replicate_zero, clockAll, List.foldl_nil, hfirst, readLoop, hnext, mspiHigh, deselect]
  rw [execute_quiet hcmd, ← hc.frame]
  rfl

/-- A write to the status register touches no byte of the memory. -/
theorem flashWriteStatus_eq (hc : Ready c) (data : UInt16) :
    Ready (flashWriteStatus data c) ∧ (flashWriteStatus data c).mem = c.mem ∧
      (flashWriteStatus data c).protects = c.protects := by
  refine ⟨flashMspiWriteRam_ready hc _ _ _ _, ?_⟩
  rw [flashWriteStatus, flashMspiWriteRam_eq hc]
  exact ⟨rfl, rfl⟩

/-- A chip that is free, protects its upper half when its status is not zero, and takes some time
for a write. -/
def sampleChip (mem : Flash) : SerialFlash where
  mem := mem
  status := 0
  latch := false
  busy := 0
  frame := none
  writes := 0
  protects := fun status a => status ≠ 0 ∧ 0x40000 ≤ a
  delay := fun n => 100 + 50 * (n % 8)
  settles := fun _ _ status => status

theorem sampleChip_ready (mem : Flash) : Ready (sampleChip mem) :=
  ⟨rfl, rfl, fun n => by
    have : n % 8 < 8 := Nat.mod_lt _ (by decide)
    simp only [sampleChip, waitDoneBound]
    omega⟩

/-- **Any requests** leave in the chip what they leave in a plain memory, and read it. -/
theorem serveAll_leaves (hc : Ready c) (rs : List FlashRequest) (hrs : ∀ r ∈ rs, r.Fits c) :
    ∃ c', serveAll c rs = some (c', (plainAll c.mem rs).2) ∧
      Leaves (plainAll c.mem rs).1 c c' := by
  induction rs generalizing c with
  | nil => exact ⟨c, rfl, ⟨hc, rfl, rfl, rfl⟩⟩
  | cons r rs ih =>
    obtain ⟨c', hserve, hleaves⟩ := serve_leaves hc (hrs r List.mem_cons_self)
    obtain ⟨c'', hrest, hleaves'⟩ := ih hleaves.ready fun r' hr' =>
      (hrs r' (List.mem_cons_of_mem r hr')).leaves hleaves
    rw [hleaves.mem] at hrest hleaves'
    refine ⟨c'', ?_, hleaves.trans hleaves'⟩
    rw [serveAll, hserve, Option.bind_some]
    simp only [hrest, Option.map_some]
    rfl

/-- An erase, a program over the end of a page, one from the flash itself, and a read. -/
def sampleRequests : List FlashRequest :=
  [.erase 0x1234, .program 0x10fc 40 (.ram fun i => .ofNat i), .program 0x20f0 40 (.flash 0x10fc),
    .read 0x20f0 40]

theorem serveAll_leaves_four :
    ∃ c', serveAll (sampleChip fun _ => 0xff) sampleRequests =
        some (c', (plainAll (fun _ => 0xff) sampleRequests).2) ∧
      Leaves (plainAll (fun _ => 0xff) sampleRequests).1 (sampleChip fun _ => 0xff) c' :=
  serveAll_leaves (sampleChip_ready _) sampleRequests (by
    have hopen : ∀ lo n, (sampleChip fun _ => 0xff).Open lo n := fun _ _ _ _ => rfl
    rintro r (_ | ⟨_, _ | ⟨_, _ | ⟨_, _ | ⟨_, ⟨⟩⟩⟩⟩⟩)
    · exact ⟨by decide, hopen _ _⟩
    · exact ⟨by decide, fun _ _ => hopen _ _, fun h => absurd h (by decide), trivial⟩
    · exact ⟨by decide, fun _ _ => hopen _ _, fun _ => by decide, .inl (by decide)⟩
    · exact (by decide : (0x20f0 : ℕ) < 2 ^ 24))

end TcBle.Drivers
