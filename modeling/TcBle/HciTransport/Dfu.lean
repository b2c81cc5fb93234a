import TcBle.Foundation.Crc
import TcBle.Foundation.Flash
import TcBle.HciTransport.Common

/-!
# The firmware update over HCI

`hci_dfu.c` and what it uses of `hci_dfu_port.c`: the host starts an update
(`HCI_Start_Dfu`), sends the image in pieces (`HCI_Fw_Data`) and ends it
(`HCI_End_Dfu`); the main loop runs `DFU_TaskStart`.

## The model

A device (`Dev`) is the control block `dfuCb`, the flash, the HCI revision and three
things the code does not keep: the flash operations performed so far (`ops`), the
events sent to the host so far (`evts`), and whether `MCU_Reset` was called
(`halted`), after which nothing runs. A run is a list of inputs: an HCI command
packet, as the bytes its RX slot holds, or a round of the main loop, which finds the
TX FIFO drained and the UART free or not. Every input carries the system tick.

An event is what `Hci_SendCmdCmplEvt` and `Hci_SendCmdStatusEvt` are called with.
Flash addresses are natural numbers: the slots lie far below `2^32`.
-/

namespace TcBle.HciTransport

open TcBle.Foundation

/-! ### Constants -/

/-- `DFU_FW_VERSION`. -/
def dfuFwVersion : ℕ := 0x0003
/-- `DFU_NEW_FW_ADDR_BASE`. -/
def dfuNewFwAddrBase : ℕ := 0x20000
/-- `DFU_NEW_FW_MAX_SIZE`. -/
def dfuNewFwMaxSize : ℕ := 0x20000 - 0x1000
/-- `DFU_MAX_PAYLOAD`. -/
def dfuMaxPayload : ℕ := 64
/-- `DFU_TIMEOUT`, in seconds. -/
def dfuTimeout : ℕ := 30
/-- `DFU_RESEND_CNT`. -/
def dfuResendCnt : ℕ := 3
/-- `DFU_CRC_INIT_VALUE`. -/
def dfuCrcInitValue : BitVec 32 := 0xFFFFFFFF#32
/-- `DFU_CHECKSUM_LEN`. -/
def dfuChecksumLen : ℕ := 4

/-- `HCI_OCF_VS_START_DFU`. -/
def hciOcfVsStartDfu : ℕ := 0x0300
/-- `HCI_OCF_VS_FW_DATA`. -/
def hciOcfVsFwData : ℕ := 0x0302
/-- `HCI_OGF_VS`. -/
def hciOgfVs : ℕ := 0x3F
/-- `HCI_OPCODE_VS_START_DFU`. -/
def hciOpcodeVsStartDfu : ℕ := 0x3F * 2 ^ 10 + 0x0300
/-- `HCI_OPCODE_VS_END_DFU`. -/
def hciOpcodeVsEndDfu : ℕ := 0x3F * 2 ^ 10 + 0x0301
/-- `HCI_OPCODE_VS_FW_DATA`. -/
def hciOpcodeVsFwData : ℕ := 0x3F * 2 ^ 10 + 0x0302

/-- The statuses of the events. -/
inductive DfuErr where
  /-- `HCI_SUCCESS`. -/
  | success
  /-- `HCI_ERR_FW_VER`. -/
  | fwVer
  /-- `HCI_ERR_DFU_DISABLED`. -/
  | dfuDisabled
  /-- `HCI_ERR_DFU_ENABLEED`. -/
  | dfuEnableed
  /-- `HCI_ERR_FW_CHECKSUM`. -/
  | fwChecksum
  /-- `HCI_ERR_FW_CRC`. -/
  | fwCrc
  /-- `HCI_ERR_FW_INCOMPLETE`. -/
  | fwIncomplete
  /-- `HCI_ERR_DATA_LENGTH`. -/
  | dataLength
  /-- `HCI_ERR_INVALID_PARAM`. -/
  | invalidParam
  /-- `HCI_ERR_CMD_DISALLOWED`, of the stack. -/
  | cmdDisallowed
  deriving DecidableEq

/-- The code of a status. -/
def DfuErr.code : DfuErr → UInt8
  | .success => 0x00 | .fwVer => 0xA0 | .dfuDisabled => 0xA2 | .dfuEnableed => 0xA3
  | .fwChecksum => 0xA4 | .fwCrc => 0xA5 | .fwIncomplete => 0xA6 | .dataLength => 0xA7
  | .invalidParam => 0xA8 | .cmdDisallowed => 0x0C

/-- An event sent to the host. -/
inductive HciEvt where
  /-- `Hci_SendCmdCmplEvt(opcode, param)`. -/
  | cmdCmpl (opcode : ℕ) (param : List UInt8)
  /-- `Hci_SendCmdStatusEvt(opcode, status)`. -/
  | cmdStatus (opcode : ℕ) (status : UInt8)
  deriving DecidableEq

/-! ### The state -/

/-- The DFU status. -/
inductive DfuSta where
  /-- `DFU_STA_NONE`. -/
  | none
  /-- `DFU_STA_START`. -/
  | start
  /-- `DFU_STA_END`. -/
  | ended
  /-- `DFU_STA_TERM`. -/
  | term
  deriving DecidableEq

/-- `DfuCb_t`. -/
structure DfuCb where
  /-- `DFU_NEW_FW_ADDR_BASE`. -/
  newFwAddrStart : ℕ
  /-- The size of the area for the new firmware. -/
  maxFwSize : ℕ
  /-- Where the new firmware goes. -/
  nextFwAddrStart : ℕ
  /-- The size announced by `HCI_Start_Dfu`. -/
  newFwSize : ℕ
  /-- How much has been received. -/
  fwOffset : ℕ
  /-- The check of what has been received. -/
  curCrc : BitVec 32
  /-- The timeout timer; `0` when off. -/
  timer : UInt32
  /-- The status. -/
  status : DfuSta
  /-- How many bad pieces in a row. -/
  resendCnt : ℕ

/-- The device. -/
structure Dev where
  /-- `dfuCb`. -/
  cb : DfuCb
  /-- The flash. -/
  flash : Flash
  /-- The HCI revision. -/
  revision : ℕ
  /-- The flash operations performed so far. -/
  ops : List FlashOp
  /-- The events sent so far. -/
  evts : List HciEvt
  /-- `MCU_Reset` was called. -/
  halted : Bool

/-- An HCI command packet in an RX slot. -/
def cmdPkt (opcode : ℕ) (param : List UInt8) : Mem :=
  buffer ([hciTrTypeCmd, UInt8.ofNat opcode, UInt8.ofNat (opcode / 2 ^ 8),
    UInt8.ofNat param.length] ++
    param) fun _ => 0

/-- What the host or the main loop does. -/
inductive DfuInput where
  /-- An HCI command packet, in its RX slot. -/
  | hci (pkt : Mem) (now : UInt32)
  /-- A round of the main loop; `idle` when the TX FIFO is drained and the UART free. -/
  | task (idle : Bool) (now : UInt32)

namespace Dev

/-! ### The port -/

/-- One flash operation. -/
def flashOp (op : FlashOp) (d : Dev) : Dev :=
  { d with flash := op.apply d.flash, ops := d.ops ++ [op] }

/-- Several flash operations, in order. -/
def flashOps (ops : List FlashOp) (d : Dev) : Dev :=
  { d with flash := d.flash.replay ops, ops := d.ops ++ ops }

/-- The writes of `FLASH_WritePage`, at most 16 bytes each; `fuel` bounds the rounds of
its loop. -/
def writePageOps : ℕ → ℕ → List UInt8 → List FlashOp
  | 0, _, _ => []
  | fuel + 1, addr, data =>
    if data = [] then []
    else .write addr (data.take 16) :: writePageOps fuel (addr + 16) (data.drop 16)

/-- `FLASH_WritePage`. -/
def flashWritePage (addr : ℕ) (data : List UInt8) (d : Dev) : Dev :=
  d.flashOps (writePageOps data.length addr data)

/-- `FLASH_EraseSector`. -/
def flashEraseSector (addr : ℕ) (d : Dev) : Dev :=
  d.flashOp (.erase (addr / 0x1000 * 0x1000) 0x1000)

/-- `Hci_SendCmdCmplEvt`. -/
def hciSendCmdCmplEvt (opcode : ℕ) (param : List UInt8) (d : Dev) : Dev :=
  { d with evts := d.evts ++ [.cmdCmpl opcode param] }

/-- `Hci_SendCmdCmplStatusEvt`. -/
def hciSendCmdCmplStatusEvt (opcode : ℕ) (status : DfuErr) (d : Dev) : Dev :=
  d.hciSendCmdCmplEvt opcode [status.code]

/-- `Hci_SendCmdStatusEvt`. -/
def hciSendCmdStatusEvt (opcode : ℕ) (status : DfuErr) (d : Dev) : Dev :=
  { d with evts := d.evts ++ [.cmdStatus opcode status.code] }

/-- `dfuCb.timer = clock_time()|1`. -/
def resetTimer (now : UInt32) (d : Dev) : Dev := { d with cb := { d.cb with timer := now ||| 1 } }

/-- `dfuCb.status = s`. -/
def setStatus (s : DfuSta) (d : Dev) : Dev := { d with cb := { d.cb with status := s } }

/-! ### Reset and erase -/

/-- `DFU_Reset`. -/
def dfuReset (d : Dev) : Dev :=
  { d with cb := { d.cb with newFwSize := 0, fwOffset := 0, curCrc := dfuCrcInitValue, timer := 0,
                             status := .none, resendCnt := 0 } }

/-- The four bytes at `addr` are `0xFFFFFFFF`. -/
def wordBlank (f : Flash) (addr : ℕ) : Bool := f.read addr 4 = [0xff, 0xff, 0xff, 0xff]

/-- The three words that are read to tell whether the area for the new firmware is
erased: its first, one in its middle, and its last. -/
def sampledBlank (d : Dev) : Bool :=
  wordBlank d.flash d.cb.nextFwAddrStart &&
    (wordBlank d.flash (d.cb.nextFwAddrStart + d.cb.maxFwSize / 0x1000 / 2 * 0x1000) &&
      wordBlank d.flash (d.cb.nextFwAddrStart + d.cb.maxFwSize - 4))

/-- The loop over the sectors of the area, `n` of them from offset `i` on. -/
def eraseSectors : ℕ → ℕ → Dev → Dev
  | 0, _, d => d
  | n + 1, i, d => eraseSectors n (i + 0x1000) (d.flashEraseSector (d.cb.nextFwAddrStart + i))

/-- `DFU_EraseNewFwArea`. -/
def dfuEraseNewFwArea (d : Dev) : Dev :=
  if d.sampledBlank then d else d.eraseSectors ((d.cb.maxFwSize + 0xFFF) / 0x1000) 0

/-! ### The check -/

/-- One round of the bit loop of `DFU_Crc32Calc`. -/
def dfuCrcBit (crc : BitVec 32) : BitVec 32 :=
  if crc &&& 1#32 = 1#32 then (crc >>> 1) ^^^ 0xEDB88320#32 else crc >>> 1

/-- `DFU_Crc32Calc`. -/
def dfuCrc32Calc (crc : BitVec 32) : List UInt8 → BitVec 32
  | [] => crc
  | b :: data => dfuCrc32Calc (dfuCrcBit^[8] (crc ^^^ b.toBitVec.setWidth 32)) data

/-! ### The commands -/

/-- The label `DFU_START` of `DFU_StartDfuCmdHandler`. -/
def dfuStart (fwSize : ℕ) (now : UInt32) (d : Dev) : Dev :=
  let d := d.dfuReset
  let d := { d with cb := { d.cb with status := .start, newFwSize := fwSize, timer := now ||| 1 } }
  d.hciSendCmdCmplEvt hciOpcodeVsStartDfu [DfuErr.success.code, UInt8.ofNat dfuMaxPayload, 0]

/-- `DFU_StartDfuCmdHandler`. -/
def dfuStartDfuCmdHandler (pParam : Mem) (now : UInt32) (d : Dev) : Dev :=
  let opcode := hciOpcodeVsStartDfu
  let dfuMode := pParam 0
  let fwVer := u16At (adv pParam 1)
  let fwSize := u32At (adv pParam 3)
  if d.cb.status = .start then d.hciSendCmdCmplStatusEvt opcode .dfuEnableed
  else if d.cb.maxFwSize < fwSize then d.dfuReset.hciSendCmdCmplStatusEvt opcode .invalidParam
  else if dfuMode = 0x01 then d.dfuStart fwSize now
  else if dfuMode = 0x02 then
    if fwVer ≤ d.revision then d.hciSendCmdCmplStatusEvt opcode .fwVer else d.dfuStart fwSize now
  else if dfuMode = 0x03 then
    if d.revision ≤ fwVer then d.hciSendCmdCmplStatusEvt opcode .fwVer else d.dfuStart fwSize now
  else d.hciSendCmdCmplStatusEvt opcode .invalidParam

/-- The last branch of `DFU_END_MODE_FW_UPD`: switch the boot marks. -/
def switchMarks (d : Dev) : Dev :=
  let d := d.flashWritePage (d.cb.nextFwAddrStart + 0x8) [0x4b]
  let baswAddr := if d.cb.nextFwAddrStart = 0 then d.cb.newFwAddrStart else 0
  let d := d.flashWritePage (baswAddr + 0x8) [0x00]
  (d.hciSendCmdCmplStatusEvt hciOpcodeVsEndDfu .success).setStatus .ended

/-- `DFU_EndDfuCmdHandler`. -/
def dfuEndDfuCmdHandler (pParam : Mem) (now : UInt32) (d : Dev) : Dev :=
  let opcode := hciOpcodeVsEndDfu
  let endMode := pParam 0
  let d := d.resetTimer now
  if endMode = 0x00 then
    if d.cb.fwOffset ≠ d.cb.newFwSize then
      (d.hciSendCmdCmplStatusEvt opcode .fwIncomplete).setStatus .term
    else if d.cb.curCrc ≠ 0#32 then (d.hciSendCmdCmplStatusEvt opcode .fwCrc).setStatus .term
    else d.switchMarks
  else if endMode = 0x01 then (d.setStatus .term).hciSendCmdCmplStatusEvt opcode .success
  else d.hciSendCmdCmplStatusEvt opcode .invalidParam

/-- The payload as it is written: the byte of the boot mark is left erased in a first
payload of at least 8 bytes. -/
def maskedParam (pParam : Mem) (dataLen : ℕ) (d : Dev) : Mem :=
  if d.cb.fwOffset = 0 ∧ 0x8 ≤ dataLen then Function.update pParam 8 0xff else pParam

/-- The local `bootFlag`. -/
def bootFlag (pParam : Mem) (dataLen : ℕ) (d : Dev) : UInt8 :=
  if d.cb.fwOffset = 0 ∧ 0x8 ≤ dataLen then pParam 8 else 0

/-- The local `buf` that the check runs over: what was read back, with `bootFlag` in
place of byte 8 at the start of the image. -/
def checkedBuf (pParam : Mem) (dataLen : ℕ) (d : Dev) (f : Flash) : Mem :=
  let buf := buffer (f.read (d.cb.nextFwAddrStart + d.cb.fwOffset) dataLen) fun _ => 0
  if d.cb.fwOffset = 0 then Function.update buf 8 (d.bootFlag pParam dataLen) else buf

/-- The branch of `DFU_FwDataCmdHandler` that takes the payload. -/
def takePayload (pParam : Mem) (dataLen : ℕ) (d : Dev) : Dev :=
  let w := d.flashWritePage (d.cb.nextFwAddrStart + d.cb.fwOffset)
    (bytes (d.maskedParam pParam dataLen) dataLen)
  let buf := d.checkedBuf pParam dataLen w.flash
  let w := { w with cb := { w.cb with curCrc := dfuCrc32Calc w.cb.curCrc (bytes buf dataLen),
                                      fwOffset := w.cb.fwOffset + dataLen } }
  w.hciSendCmdStatusEvt hciOpcodeVsFwData .success

/-- `DFU_FwDataCmdHandler`. -/
def dfuFwDataCmdHandler (pParam : Mem) (len : ℕ) (now : UInt32) (d : Dev) : Dev :=
  let opcode := hciOpcodeVsFwData
  let dataLen := subU32 len dfuChecksumLen
  if dfuResendCnt ≤ d.cb.resendCnt then d
  else
    let d := d.resetTimer now
    if d.cb.status ≠ .start then d.hciSendCmdStatusEvt opcode .dfuDisabled
    else if dfuMaxPayload < dataLen then d.hciSendCmdStatusEvt opcode .dataLength
    else if dfuCrc32Calc dfuCrcInitValue (bytes pParam len) ≠ 0#32 then
      { d with cb := { d.cb with resendCnt := (d.cb.resendCnt + 1) % 2 ^ 8 } }.hciSendCmdStatusEvt
        opcode .fwChecksum
    else
      let d := { d with cb := { d.cb with resendCnt := 0 } }
      if d.cb.fwOffset < d.cb.newFwSize then d.takePayload pParam dataLen
      else d.hciSendCmdStatusEvt opcode .fwIncomplete

/-- `DFU_CmdHandler`. -/
def dfuCmdHandler (pHciTrPkt : Mem) (now : UInt32) (d : Dev) : Dev :=
  let opcode := u16At (adv pHciTrPkt 1)
  let paramLen := (pHciTrPkt 3).toNat
  let pPkt := adv pHciTrPkt 4
  if opcode = hciOpcodeVsStartDfu then d.dfuStartDfuCmdHandler pPkt now
  else if opcode = hciOpcodeVsFwData then d.dfuFwDataCmdHandler pPkt paramLen now
  else if opcode = hciOpcodeVsEndDfu then d.dfuEndDfuCmdHandler pPkt now
  else d.hciSendCmdStatusEvt opcode .cmdDisallowed

/-- `DFU_isEnable`. -/
def dfuIsEnable (d : Dev) : Bool := d.cb.status = .start

/-- `DFU_Handler`: a command it does not take goes to the stack. -/
def dfuHandler (p : Mem) (now : UInt32) (d : Dev) : Dev :=
  let opcode := u16At (adv p 1)
  if opcode / 2 ^ 10 = hciOgfVs ∨ d.dfuIsEnable then
    if (hciOcfVsStartDfu ≤ opcode % 2 ^ 10 ∧ opcode % 2 ^ 10 ≤ hciOcfVsFwData) ∨ d.dfuIsEnable then
      d.dfuCmdHandler p now
    else d
  else d

/-! ### The main loop -/

/-- The timeout of `DFU_TaskStart`. -/
def dfuTimedOut (now : UInt32) (d : Dev) : Bool :=
  d.cb.timer ≠ 0 && clockTimeExceed now d.cb.timer (dfuTimeout * 1000 * 1000)

/-- `DFU_TaskStart`. -/
def dfuTaskStart (idle : Bool) (now : UInt32) (d : Dev) : Dev :=
  if d.cb.status = .ended ∧ idle then { d.setStatus .none with halted := true }
  else
    let d := if d.cb.status = .term ∧ idle then (d.setStatus .none).dfuReset.dfuEraseNewFwArea
      else d
    if d.dfuTimedOut now then d.dfuEraseNewFwArea.dfuReset else d

/-- The control block that `DFU_Init` sets up: cleared, but for the slots. -/
def dfuInitCb (otaProgramOffset : ℕ) : DfuCb where
  newFwAddrStart := dfuNewFwAddrBase
  maxFwSize := dfuNewFwMaxSize
  nextFwAddrStart := otaProgramOffset
  newFwSize := 0
  fwOffset := 0
  curCrc := 0#32
  timer := 0
  status := .none
  resendCnt := 0

/-- `DFU_Init`: the area for the new firmware, which starts at the library's
`ota_program_offset`, is erased unless it looks blank. -/
def dfuInit (otaProgramOffset : ℕ) (flash : Flash) : Dev :=
  let d : Dev := { cb := dfuInitCb otaProgramOffset, flash, revision := 0, ops := [], evts := [],
                   halted := false }
  { d.dfuEraseNewFwArea with revision := dfuFwVersion }

/-- One input. -/
def step (d : Dev) (i : DfuInput) : Dev :=
  if d.halted then d
  else
    match i with
    | .hci pkt now => d.dfuHandler pkt now
    | .task idle now => d.dfuTaskStart idle now

/-- The four bytes of a check, as the host sends them. -/
def crcBytes (crc : BitVec 32) : List UInt8 :=
  [⟨crc.setWidth 8⟩, ⟨(crc >>> 8).setWidth 8⟩, ⟨(crc >>> 16).setWidth 8⟩, ⟨(crc >>> 24).setWidth 8⟩]

/-- The command that starts an update with an image of `size` bytes, of any version. -/
def startCmd (size : ℕ) : DfuInput :=
  .hci (cmdPkt hciOpcodeVsStartDfu [0x01, 0, 0, UInt8.ofNat size, UInt8.ofNat (size / 2 ^ 8),
    UInt8.ofNat (size / 2 ^ 16), UInt8.ofNat (size / 2 ^ 24)]) 0

/-- The command that sends a payload, with its check. -/
def fwDataCmd (data : List UInt8) : DfuInput :=
  .hci (cmdPkt hciOpcodeVsFwData (data ++ crcBytes (dfuCrc32Calc dfuCrcInitValue data))) 0

/-- The command that ends an update, as an image (`0x00`) or given up (`0x01`). -/
def endCmd (mode : UInt8) : DfuInput := .hci (cmdPkt hciOpcodeVsEndDfu [mode]) 0

/-- A run from `DFU_Init`. -/
def run (otaProgramOffset : ℕ) (flash : Flash) (is : List DfuInput) : Dev :=
  is.foldl step (dfuInit otaProgramOffset flash)

end Dev

end TcBle.HciTransport
