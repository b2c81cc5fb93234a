import TcBle.HciTransport.Common

/-!
# The receiver of the H4 transport

`hci_tr_h4.c`: the UART's DMA fills a slot with a chunk of bytes, and the receive handler
cuts the chunks into HCI packets. What is left of a chunk when its last packet is not
complete goes to the backup buffer, which the next chunk completes.

## The model

`H4Tr` is the control block `hciH4TrCB` with the backup buffer, and the list of what was
pushed into the HCI RX FIFO, which the code writes without looking whether there is room.
The handler works on one slot: the memory from the first byte of the chunk on, the
length, and the time. Its loop has fuel, since `len` wraps around when an event is longer
than its chunk. The lengths of `u8`, `u16` and `u32` variables are numbers, taken modulo
their size wherever the code computes with them.

The configuration of the UART and its interrupt handler are left out.
-/

namespace TcBle.HciTransport

/-- `HCI_H4_TR_RX_BUF_SIZE`, for HCI RX slots of `rxBufSize` bytes. -/
def hciH4TrRxBufSize (rxBufSize : ℕ) : ℕ := memSizeAlign16 (4 + rxBufSize) * 2

/-- `HCI_H4_FLUSH_TO`, in milliseconds. -/
def hciH4FlushTo : ℕ := 1000

/-- The control block. -/
structure H4Tr where
  /-- `pBackUpBuf`. -/
  backUpBuf : Mem
  /-- `backupCnt`, eight bits long. -/
  backupCnt : ℕ
  /-- `flushTimer`; `0` when off. -/
  flushTimer : UInt32
  /-- What was pushed into the HCI RX FIFO. -/
  pushed : List (List UInt8)

/-- The header of an HCI packet after its type byte. -/
structure H4Head where
  /-- Its length. -/
  headLen : ℕ
  /-- The length of the parameters, read from the memory that the packet starts at. -/
  paramLen : Mem → ℕ

/-- The header of a command. -/
def h4CmdHead : H4Head := ⟨hciCmdHeadLen, fun p => (p 3).toNat⟩

/-- The header of an ACL data packet. -/
def h4AclHead : H4Head := ⟨hciAclHeadLen, fun p => u16At (adv p 3)⟩

/-- The types of packets that a host sends and the handler keeps. -/
def h4Head (hciType : UInt8) : Option H4Head :=
  if hciType = hciTrTypeCmd then some h4CmdHead
  else if hciType = hciTrTypeAcl then some h4AclHead
  else none

/-- The length of the packet at `p`. -/
def H4Head.pktLen (h : H4Head) (p : Mem) : ℕ := 1 + h.headLen + h.paramLen p

namespace H4Tr

/-- `HCI_Tr_H4TimerEnable`. -/
def timerEnable (now : UInt32) (e : H4Tr) : H4Tr := { e with flushTimer := now ||| 1 }

/-- `HCI_Tr_H4TimerDisable`. -/
def timerDisable (e : H4Tr) : H4Tr := { e with flushTimer := 0 }

/-- `HCI_Tr_H4FlushHandler`. -/
def flushHandler (now : UInt32) (e : H4Tr) : H4Tr :=
  if e.flushTimer ≠ 0 ∧ clockTimeExceed now e.flushTimer (hciH4FlushTo * 1000) then
    { e with flushTimer := 0, backupCnt := 0 }
  else e

/-- The first `n` bytes at `pPacket` are appended to the backup buffer. -/
def backUp (pPacket : Mem) (n : ℕ) (e : H4Tr) : H4Tr :=
  { e with backUpBuf := memcpy e.backUpBuf e.backupCnt (bytes pPacket n),
           backupCnt := (e.backupCnt + n) % 2 ^ 8 }

/-- A packet is pushed into the HCI RX FIFO. -/
def push (pPacket : Mem) (len : ℕ) (e : H4Tr) : H4Tr :=
    { e with pushed := e.pushed ++ [bytes pPacket len] }

/-- The part of `HCI_Tr_H4BackUpHandler` that follows a complete header in the backup buffer: the
rest of the packet is taken from the chunk, as far as it goes. -/
def backUpPacket (head : H4Head) (pPacket : Mem) (len : ℕ) (now : UInt32) (e : H4Tr) : H4Tr × ℕ :=
  let pktLen := head.pktLen e.backUpBuf
  let cpyLen := (pktLen + 2 ^ 16 - e.backupCnt) % 2 ^ 16
  let e := e.backUp pPacket (min cpyLen len)
  (if e.backupCnt = pktLen then { e.push e.backUpBuf e.backupCnt with backupCnt := 0 }.timerDisable
    else e.timerEnable now, min cpyLen len)

/-- `HCI_Tr_H4BackUpHandler`: also the number of bytes taken. -/
def hciTrH4BackUpHandler (pPacket : Mem) (len : ℕ) (now : UInt32) (e : H4Tr) : H4Tr × ℕ :=
  if e.backupCnt = 0 then ((e.backUp pPacket len).timerEnable now, len)
  else
    match h4Head (e.backUpBuf 0) with
    | some head =>
      if 1 + head.headLen ≤ e.backupCnt then e.backUpPacket head pPacket len now
      else if 1 + head.headLen ≤ (e.backupCnt + len) % 2 ^ 32 then
        let cpyLen := 1 + head.headLen - e.backupCnt
        let r := (e.backUp pPacket cpyLen).backUpPacket head (adv pPacket cpyLen)
          (subU32 len cpyLen) now
        (r.1, (cpyLen + r.2) % 2 ^ 16)
      else ((e.backUp pPacket len).timerEnable now, len)
    | none => (e, len)

/-- The start of a round of the loop of `HCI_Tr_H4RxHandler`: the backup buffer takes what it can;
how much that was is kept in a `u8`. -/
def backUpFirst (pPacket : Mem) (len : ℕ) (now : UInt32) (e : H4Tr) : H4Tr × ℕ :=
  if e.backupCnt ≠ 0 then
    ((e.hciTrH4BackUpHandler pPacket len now).1, (e.hciTrH4BackUpHandler pPacket len now).2 % 2 ^ 8)
  else (e, 0)

/-- The rest of a round: the packet at `pPacket` is pushed, kept or skipped. Then the loop ends, or
goes on at `pPacket + n`. -/
def rxPacket {α : Type} (stop : H4Tr → α) (goOn : (n len : ℕ) → H4Tr → α) (pPacket : Mem) (len : ℕ)
    (now : UInt32) (e : H4Tr) : α :=
  match h4Head (pPacket 0) with
  | some head =>
    if len < 1 + head.headLen then stop (e.hciTrH4BackUpHandler pPacket len now).1
    else
      let pktLen := head.pktLen pPacket % 2 ^ 16
      if pktLen ≠ 0 ∧ pktLen ≤ len then goOn pktLen (subU32 len pktLen) (e.push pPacket pktLen)
      else if pktLen ≠ 0 ∧ len < pktLen then stop (e.hciTrH4BackUpHandler pPacket len now).1
      else goOn 0 len e
  | none =>
    -- an event or an SCO packet is skipped, but only in `len`
    if pPacket 0 = hciTrTypeEvent then
      if len < 1 + hciEvtHeadLen then stop e
      else goOn 0 (subU32 len (1 + hciEvtHeadLen + (pPacket 2).toNat)) e
    else if pPacket 0 = hciTrTypeSco then
      if len < 1 + hciScoHeadLen then stop e
      else goOn 0 (subU32 len (1 + hciScoHeadLen + (pPacket 3).toNat)) e
    else stop e

/-- The loop of `HCI_Tr_H4RxHandler`. -/
def rxLoop : ℕ → Mem → ℕ → UInt32 → H4Tr → Option H4Tr
  | 0, _, _, _, _ => none
  | fuel + 1, pPacket, len, now, e =>
    if len = 0 then some e
    else
      let r := e.backUpFirst pPacket len now
      rxPacket some (fun n len e => rxLoop fuel (adv (adv pPacket r.2) n) len now e)
        (adv pPacket r.2)
        (subU32 len r.2) now r.1

/-- `HCI_Tr_H4RxHandler`, with a chunk of `len` bytes in the slot. -/
def hciTrH4RxHandler (fuel : ℕ) (pPacket : Mem) (len : ℕ) (now : UInt32) (e : H4Tr) : Option H4Tr :=
  (e.flushHandler now).rxLoop fuel pPacket len now

/-- `HCI_Tr_H4Init`. -/
def hciTrH4Init (backUpBuf : Mem) : H4Tr := ⟨backUpBuf, 0, 0, []⟩

end H4Tr

end TcBle.HciTransport
