import TcBle.HciTransport.Slip

/-!
# The receiver of the H5 transport

`hci_tr_h5.c`: the receive handler looks for SLIP frames in the chunks that the UART's DMA
has put into its slots. A frame that a chunk cuts is collected in the backup buffer.

## The model

`H5Tr` is the control block `hciH5TrCb` with the backup buffer, and the list of what was
given to the SLIP handler, which is `HCI_Slip_DecodePacket`. The handler never looks past
the end of a chunk, so that a pointer into it with a length is the list of the bytes left.
The lengths of `u8` and `u16` variables are numbers, taken modulo their size wherever the
code computes with them; the loop over one chunk has fuel.

The assertions and the configuration of the UART are left out.
-/

namespace TcBle.HciTransport

/-- `HCI_H5_TR_RX_BUF_SIZE`, for HCI RX slots of `rxBufSize` bytes. -/
def hciH5TrRxBufSize (rxBufSize : ℕ) : ℕ :=
  memSizeAlign16 (4 + 2 + (hciH5HeadLen + rxBufSize + hciH5CrcLen) * 2) * 2

/-- `HCI_SLIP_DECODE_BUF_SIZE`. -/
def hciSlipDecodeBufSize (rxBufSize : ℕ) : ℕ :=
    memSizeAlign4 (hciH5HeadLen + rxBufSize + hciH5CrcLen)

/-- `HCI_H5_FLUSH_TO`, in milliseconds. -/
def hciH5FlushTo : ℕ := 1000

/-- The control block. -/
structure H5Tr where
  /-- `HCI_H5_TR_RX_BUF_SIZE`. -/
  bufSize : ℕ
  /-- `pBackupBuf`. -/
  backupBuf : Mem
  /-- `backupCnt`, eight bits long. -/
  backupCnt : ℕ
  /-- `flushTimer`; `0` when off. -/
  flushTimer : UInt32
  /-- What the SLIP handler was called with. -/
  handed : List (List UInt8)

/-- `HCI_Tr_H5FindSlipHeadFlag`: the bytes from there on. -/
def hciTrH5FindSlipHeadFlag : List UInt8 → Option (List UInt8)
  | [] => none
  | [b] => if b = slipDelimiter then some [b] else none
  | b :: c :: rest =>
    if b = slipDelimiter ∧ c ≠ slipDelimiter then some (b :: c :: rest)
    else hciTrH5FindSlipHeadFlag (c :: rest)

/-- `HCI_Tr_H5FindSlipFlag`: the number of bytes before it. -/
def hciTrH5FindSlipFlag : List UInt8 → Option ℕ
  | [] => none
  | b :: rest => if b = slipDelimiter then some 0 else (hciTrH5FindSlipFlag rest).map (· + 1)

namespace H5Tr

/-- `HCI_Tr_H5TimerEnable`. -/
def timerEnable (now : UInt32) (e : H5Tr) : H5Tr := { e with flushTimer := now ||| 1 }

/-- `HCI_Tr_H5TimerDisable`. -/
def timerDisable (e : H5Tr) : H5Tr := { e with flushTimer := 0 }

/-- `HCI_Tr_H5FlushHandler`. -/
def flushHandler (now : UInt32) (e : H5Tr) : H5Tr :=
  if e.flushTimer ≠ 0 ∧ clockTimeExceed now e.flushTimer (hciH5FlushTo * 1000) then
    { e with flushTimer := 0, backupCnt := 0 }
  else e

/-- `HCI_Tr_SlipHandler`. -/
def slipHandler (pPacket : List UInt8) (e : H5Tr) : H5Tr :=
    { e with handed := e.handed ++ [pPacket] }

/-- Bytes are appended to the backup buffer. -/
def backup (data : List UInt8) (e : H5Tr) : H5Tr :=
  { e with backupBuf := memcpy e.backupBuf e.backupCnt data,
           backupCnt := (e.backupCnt + data.length) % 2 ^ 8 }

/-- The loop of `HCI_Tr_H5BackupHandler`: also the number of bytes taken. -/
def backupLoop (now : UInt32) : List UInt8 → H5Tr → H5Tr × ℕ
  | [], e => (e, 0)
  | b :: rest, e =>
    if e.bufSize < e.backupCnt + 1 then ({ e with backupCnt := 0 }.timerDisable, 0)
    else if b = slipDelimiter then
      if e.backupCnt = 1 then
        let r := backupLoop now rest e
        (r.1, r.2 + 1)
      else
        let e := e.backup [b]
        ({ e.slipHandler (bytes e.backupBuf e.backupCnt) with backupCnt := 0 }.timerDisable, 1)
    else
      let r := backupLoop now rest ((e.backup [b]).timerEnable now)
      (r.1, r.2 + 1)

/-- `HCI_Tr_H5BackupHandler`: also the number of bytes taken. -/
def hciTrH5BackupHandler (pPacket : List UInt8) (now : UInt32) (e : H5Tr) : H5Tr × ℕ :=
  if e.backupCnt = 0 then
    if e.bufSize < pPacket.length then (e, pPacket.length)
    else ((e.backup pPacket).timerEnable now, pPacket.length)
  else
    let r := backupLoop now pPacket e
    (r.1, r.2 % 2 ^ 16)

/-- The start of a round of the loop over a chunk: the backup buffer takes what it can; how much
that was is kept in a `u8`. -/
def backupFirst (pPacket : List UInt8) (now : UInt32) (e : H5Tr) : H5Tr × ℕ :=
  if e.backupCnt ≠ 0 then
    ((e.hciTrH5BackupHandler pPacket now).1, (e.hciTrH5BackupHandler pPacket now).2 % 2 ^ 8)
  else (e, 0)

/-- The rest of a round, before the loop goes on. -/
def rxFrame (loop : List UInt8 → UInt32 → H5Tr → Option H5Tr) (pPacket : List UInt8) (now : UInt32)
    (e : H5Tr) : Option H5Tr :=
  match hciTrH5FindSlipHeadFlag pPacket with
  | none => some e
  | some pBuf =>
    match hciTrH5FindSlipFlag (pBuf.drop 1) with
    | none => some (e.hciTrH5BackupHandler pBuf now).1
    | some n =>
      let slipLen := (1 + n + 1) % 2 ^ 16
      if slipLen < 6 then loop (pBuf.drop slipLen) now e
      else loop (pBuf.drop slipLen) now (e.slipHandler (pBuf.take slipLen))

/-- The loop over one chunk. -/
def rxLoop : ℕ → List UInt8 → UInt32 → H5Tr → Option H5Tr
  | 0, _, _, _ => none
  | fuel + 1, pPacket, now, e =>
    if pPacket = [] then some e
    else
      let r := e.backupFirst pPacket now
      rxFrame (rxLoop fuel) (pPacket.drop r.2) now r.1

/-- The loop over the chunks that have come. -/
def rxChunks (fuel : ℕ) (now : UInt32) : List (List UInt8) → H5Tr → Option H5Tr
  | [], e => some e
  | data :: rest, e => (rxLoop fuel data now e).bind (rxChunks fuel now rest)

/-- `HCI_Tr_H5RxHandler`, with chunks in the slots. -/
def hciTrH5RxHandler (fuel : ℕ) (chunks : List (List UInt8)) (now : UInt32) (e : H5Tr) :
    Option H5Tr :=
  rxChunks fuel now chunks (e.flushHandler now)

/-- `HCI_Tr_H5Init`. -/
def hciTrH5Init (rxBufSize : ℕ) (backupBuf : Mem) : H5Tr :=
    ⟨hciH5TrRxBufSize rxBufSize, backupBuf, 0, 0, []⟩

end H5Tr

end TcBle.HciTransport
