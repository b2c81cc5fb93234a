import TcBle.Foundation.RingBuffer
import TcBle.HciTransport.H5Head
import TcBle.HciTransport.Slip

/-!
# The H5 protocol

`hci_h5.c`, with what it uses of `hci_slip.c`: link establishment, reliable transport
with a sliding window, acknowledgements and sending again.

## The model

An endpoint (`H5`) is the control block `hciH5Cb`, the local configuration
`hciH5Config`, the two HCI FIFOs, the UART's flag `isUartTxDone`, the decode buffer of
the SLIP decoder, and a few things the code does not keep: what was given to the UART
since it was last taken from there (`out`), and, since the last `HCI_H5_Reset`, the
packets queued in the TX FIFO (`queued`), how many of them its read pointer has passed
(`released`), how many were sent at least once (`sent`), the packets pushed into the RX
FIFO (`handed`), and whether a reliable packet was processed after the last
acknowledgement was sent (`owed`).

Eight-bit fields are natural numbers, taken modulo `2 ^ 8` where the code adds to them.
`ASSERT` does nothing outside of debug builds. `blc_hci_reset`, which the reset of an
active link calls, is the controller's and leaves this module alone.
-/

namespace TcBle.HciTransport

open TcBle.Foundation

/-- `HciH5Config_t`. -/
structure HciH5Config where
  /-- The sliding window. -/
  slidWinSize : ℕ
  /-- Out-of-frame flow control. -/
  oofFlowCtrl : ℕ
  /-- The data-integrity check. -/
  dataIntgrtChkType : ℕ
  /-- The version. -/
  version : ℕ
  deriving DecidableEq

/-- The link states. -/
inductive LinkState where
  /-- `HCI_H5_LINK_STATE_IDLE`. -/
  | idle
  /-- `HCI_H5_LINK_STATE_INIT`. -/
  | init
  /-- `HCI_H5_LINK_STATE_ACTIVE`. -/
  | active
  deriving DecidableEq

/-- `hci_type_t`. -/
inductive HciType where
  /-- `HCI_TYPE_CMD`. -/
  | cmd
  /-- `HCI_TYPE_ACL_DATA`. -/
  | aclData
  /-- `HCI_TYPE_SCO_DATA`. -/
  | scoData
  /-- `HCI_TYPE_EVENT`. -/
  | event
  /-- `HCI_TYPE_ISO_DATA`. -/
  | isoData
  deriving DecidableEq

/-- The code of a type. -/
def HciType.code : HciType → ℕ
  | .cmd => 1 | .aclData => 2 | .scoData => 3 | .event => 4 | .isoData => 5

theorem HciType.code_lt (t : HciType) : t.code < 16 := by cases t <;> decide

/-- A packet of the controller is neither an acknowledgement nor about the link. -/
theorem HciType.code_ne (t : HciType) : t.code ≠ hciH5PktTypeAck ∧
    t.code ≠ hciH5PktTypeLinkCtrl := by
  cases t <;> decide

/-- A packet in the TX FIFO: its type, and its payload, which has a 16-bit length with the
header and the check. -/
structure TxPkt where
  /-- The type. -/
  hciType : HciType
  /-- The payload. -/
  payload : List UInt8
  /-- The lengths fit a `u16`. -/
  fits : payload.length + 6 < 2 ^ 16
  deriving DecidableEq

theorem TxPkt.fits_nil : ([] : List UInt8).length + 6 < 2 ^ 16 := by decide

/-- A packet in the RX FIFO. -/
structure RxPkt where
  /-- The type. -/
  hciType : ℕ
  /-- The payload. -/
  payload : List UInt8
  deriving DecidableEq

/-- A packet pushed into the RX FIFO, and whether it was a reliable one. -/
structure Handed where
  /-- The packet. -/
  pkt : RxPkt
  /-- Whether it was reliable. -/
  reliable : Bool
  deriving DecidableEq

/-- An endpoint. -/
structure H5 where
  /-- `hciH5Config`. -/
  hciH5Config : HciH5Config
  /-- The negotiated configuration. -/
  config : HciH5Config
  /-- The link state control timer. -/
  tick : UInt32
  /-- The link state. -/
  linkState : LinkState
  /-- Packets received since the last acknowledgement. -/
  rxSlidWinSize : ℕ
  /-- Packets sent and not acknowledged. -/
  txSlidWinSize : ℕ
  /-- The next sequence number. -/
  txSeq : ℕ
  /-- The expected sequence number. -/
  txAck : ℕ
  /-- The last acknowledgement received. -/
  rxAck : ℕ
  /-- The resend monitor; `0` when off. -/
  txTick : UInt32
  /-- When a packet was received; `0` when off. -/
  rxTick : UInt32
  /-- When a bad acknowledgement was received; `0` when off. -/
  resendTick : UInt32
  /-- `pHciRxFifo`. -/
  hciRxFifo : RingBuffer RxPkt
  /-- `pHciTxFifo`. -/
  hciTxFifo : RingBuffer TxPkt
  /-- The UART has sent the last packet. -/
  isUartTxDone : Bool
  /-- Out-of-frame flow control of the SLIP encoder. -/
  oofEnable : Bool
  /-- `HCI_SLIP_DECODE_BUF_SIZE`. -/
  decodeBufSize : ℕ
  /-- The decode buffer. -/
  decodeBuf : Mem
  /-- What was given to the UART: SLIP packets. -/
  out : List (List UInt8)
  /-- The packets queued. -/
  queued : List TxPkt
  /-- How many of them the read pointer has passed. -/
  released : ℕ
  /-- How many of them were sent at least once. -/
  sent : ℕ
  /-- The packets pushed into the RX FIFO. -/
  handed : List Handed
  /-- A reliable packet was processed after the last acknowledgement was sent. -/
  owed : Bool

/-- `H5_PURE_ACK_TO`, in milliseconds. -/
def h5PureAckTo : ℕ := 10
/-- `H5_RESEND_TO`, in milliseconds. -/
def h5ResendTo : ℕ := 50

namespace H5

/-! ### Reset -/

/-- `HCI_H5_Reset`. -/
def hciH5Reset (now : UInt32) (e : H5) : H5 :=
  { e with rxSlidWinSize := 0, txSlidWinSize := 0, txSeq := 0, txAck := 0, rxAck := 0,
           tick := now ||| 1, txTick := 0, rxTick := 0, resendTick := 0,
           hciRxFifo := e.hciRxFifo.reset, hciTxFifo := e.hciTxFifo.reset, oofEnable := false,
           queued := [], released := 0, sent := 0, handed := [], owed := false }

/-- `HCI_H5_Init`, of a control block that is zero otherwise. -/
def hciH5Init (hciH5Config : HciH5Config) (hciRxFifo : RingBuffer RxPkt)
    (hciTxFifo : RingBuffer TxPkt)
    (decodeBufSize : ℕ) (decodeBuf : Mem) (now : UInt32) : H5 where
  hciH5Config := hciH5Config
  config := ⟨0, 0, 0, 0⟩
  tick := now ||| 1
  linkState := .idle
  rxSlidWinSize := 0
  txSlidWinSize := 0
  txSeq := 0
  txAck := 0
  rxAck := 0
  txTick := 0
  rxTick := 0
  resendTick := 0
  hciRxFifo := hciRxFifo
  hciTxFifo := hciTxFifo
  isUartTxDone := true
  oofEnable := false
  decodeBufSize := decodeBufSize
  decodeBuf := decodeBuf
  out := []
  queued := []
  released := 0
  sent := 0
  handed := []
  owed := false

/-! ### Sending -/

/-- `HCI_Slip_Send`: the packet is encoded and goes to the UART, if it is free. -/
def hciSlipSend (pPacket : List UInt8) (e : H5) : H5 × Bool :=
  if e.isUartTxDone then
    ({ e with isUartTxDone := false, out := e.out ++ [hciSlipEncodePacket e.oofEnable pPacket] },
      true)
  else (e, false)

/-- What the TX buffer holds: header, payload and check. -/
def txBuf (head : HciH5Head) (pPacket : List UInt8) : List UInt8 :=
  let buf := hciH5PackHeader head ++ pPacket
  if head.crc ≠ 0 then buf ++ hciH5CrcBytes (hciH5CcittCrc16Calc 0xFFFF#16 buf) else buf

/-- The header that `HCI_H5_Send` builds. -/
def txHead (h5Type : ℕ) (pPacket : List UInt8) (e : H5) : HciH5Head where
  seqNum := if hciH5IsReliablePacket h5Type then e.txSeq else 0
  ackNum := e.txAck
  crc := if h5Type ≠ hciH5PktTypeAck ∧ h5Type ≠ hciH5PktTypeLinkCtrl then e.config.dataIntgrtChkType
    else 0
  reliable := if hciH5IsReliablePacket h5Type then 1 else 0
  pktType := h5Type
  payloadLen := pPacket.length % 2 ^ 16

/-- `pktLen`. -/
def txLen (head : HciH5Head) (pPacket : List UInt8) : ℕ :=
  (hciH5HeadLen + pPacket.length + if head.crc ≠ 0 then hciH5CrcLen else 0) % 2 ^ 16

/-- `HCI_H5_Send`. -/
def hciH5Send (h5Type : ℕ) (pPacket : List UInt8) (e : H5) : H5 × Bool :=
  let head := e.txHead h5Type pPacket
  let e := if hciH5IsReliablePacket h5Type then { e with txSeq := (e.txSeq + 1) % 8 } else e
  let (e, res) := e.hciSlipSend ((txBuf head pPacket).take (txLen head pPacket))
  ({ e with owed := e.owed && !(res && h5Type ≠ hciH5PktTypeLinkCtrl) }, res)

/-- The successful branch of `HCI_H5_SendData`: packet number `n` has been sent. -/
def dataSent (n : ℕ) (now : UInt32) (e : H5) : H5 :=
  { e with rxSlidWinSize := 0, txTick := now ||| 1, rxTick := 0, sent := max e.sent (n + 1) }

/-- The other branch: the packet is taken back. -/
def dataNotSent (e : H5) : H5 :=
  { e with txSeq := (e.txSeq + 7) % 8, txSlidWinSize := e.txSlidWinSize - 1, txTick := 0 }

/-- `HCI_H5_SendData`. The comparison of the FIFO's counters is one of integers, which do
not wrap around. -/
def hciH5SendData (now : UInt32) (e : H5) : H5 :=
  if e.config.slidWinSize ≤ e.txSlidWinSize then e
  else if e.hciTxFifo.wptr = e.hciTxFifo.rptr + e.txSlidWinSize then e
  else
    let p := e.hciTxFifo.get ((e.hciTxFifo.rptr + e.txSlidWinSize) % 2 ^ 8)
    let n := e.released + e.txSlidWinSize
    let e := { e with txSlidWinSize := e.txSlidWinSize + 1 }
    let (e, res) := e.hciH5Send p.hciType.code p.payload
    if res then e.dataSent n now else e.dataNotSent

/-- `HCI_H5_SendPureAck`. -/
def hciH5SendPureAck (e : H5) : H5 := (e.hciH5Send hciH5PktTypeAck []).1

/-- A link message: its code, low byte first, and what follows it. -/
def linkMsg (msg : ℕ) (rest : List UInt8) : List UInt8 :=
  UInt8.ofNat msg :: UInt8.ofNat (msg / 2 ^ 8) :: rest

/-- The byte of a configuration. -/
def configByte (c : HciH5Config) : UInt8 :=
  UInt8.ofNat
    (c.slidWinSize ||| c.oofFlowCtrl <<< 3 ||| c.dataIntgrtChkType <<< 4 ||| c.version <<< 5)

/-- Send a link message. -/
def sendLink (msg : ℕ) (rest : List UInt8) (e : H5) : H5 :=
  (e.hciH5Send hciH5PktTypeLinkCtrl (linkMsg msg rest)).1

/-- `HCI_H5_SendSync`. -/
def hciH5SendSync (e : H5) : H5 := e.sendLink hciH5MsgSync []

/-- `HCI_H5_SendSyncRsp`. -/
def hciH5SendSyncRsp (e : H5) : H5 := e.sendLink hciH5MsgSyncRsp []

/-- `HCI_H5_SendConfig`. -/
def hciH5SendConfig (e : H5) : H5 := e.sendLink hciH5MsgConfig [configByte e.hciH5Config]

/-- `HCI_H5_SendConfigRsp`. -/
def hciH5SendConfigRsp (e : H5) : H5 := e.sendLink hciH5MsgConfigRsp [configByte e.hciH5Config]

/-! ### Receiving -/

/-- The configuration taken on a `CONFIG_RSP` with configuration byte `cfg`. -/
def setConfig (cfg : ℕ) (e : H5) : H5 :=
  { e with config :=
      { slidWinSize := min e.hciH5Config.slidWinSize (cfg % 2 ^ 3)
        oofFlowCtrl := e.hciH5Config.oofFlowCtrl &&& (cfg / 2 ^ 3 % 2)
        dataIntgrtChkType := e.hciH5Config.dataIntgrtChkType &&& (cfg / 2 ^ 4 % 2)
        version := min e.hciH5Config.version (cfg / 2 ^ 5 % 2 ^ 3) } }

/-- What `HCI_H5_DecodeLinkPdu` does on a `CONFIG_RSP`: the link is active. -/
def activate (cfg : ℕ) (now : UInt32) (e : H5) : H5 :=
  ({ e with linkState := .active }.hciH5Reset now).setConfig cfg

/-- `HCI_H5_DecodeLinkPdu`. -/
def hciH5DecodeLinkPdu (pPacket : Mem) (now : UInt32) (e : H5) : H5 :=
  let msg := u16At (adv pPacket hciH5HeadLen)
  let cfg := (pPacket (hciH5HeadLen + 2)).toNat
  match e.linkState with
  | .idle =>
    if msg = hciH5MsgSync then e.hciH5SendSyncRsp
    else if msg = hciH5MsgSyncRsp then { e with linkState := .init }.hciH5SendConfig
    else e.hciH5SendSync
  | .init =>
    if msg = hciH5MsgSync then e.hciH5SendSyncRsp
    else if msg = hciH5MsgConfig then e.hciH5SendConfigRsp
    else if msg = hciH5MsgConfigRsp then e.activate cfg now
    else e
  | .active =>
    if msg = hciH5MsgConfig then e.hciH5SendConfigRsp
    else if msg = hciH5MsgSync then ({ e with linkState := .idle }.hciH5Reset now).hciH5SendSyncRsp
    else e

/-- `HCI_H5_PackHciPdu`, of a reliable packet or not. -/
def hciH5PackHciPdu (reliable : Bool) (hciType : ℕ) (pPayload : Mem) (len : ℕ) (e : H5) : H5 :=
  let pkt : RxPkt := ⟨hciType, bytes pPayload len⟩
  { e with hciRxFifo := e.hciRxFifo.push pkt, handed := e.handed ++ [⟨pkt, reliable⟩] }

/-- Everything sent is acknowledged: the TX FIFO releases it. -/
def releaseSent (e : H5) : H5 :=
  { e with
    hciTxFifo := e.hciTxFifo.release e.txSlidWinSize
    released := e.released + e.txSlidWinSize
    txSlidWinSize := 0
    txTick := 0
    resendTick := 0 }

/-- `HCI_H5_ReSendCheck`. -/
def hciH5ReSendCheck (now : UInt32) (e : H5) : H5 :=
  if e.rxAck = e.txSeq then e.releaseSent
  else { e with txTick := 0, resendTick := if e.resendTick = 0 then now ||| 1 else e.resendTick }

/-- `HCI_H5_ResendStart`. -/
def hciH5ResendStart (now : UInt32) (e : H5) : H5 :=
  { e with txSeq := e.rxAck, txSlidWinSize := 0 }.hciH5SendData now

/-- The data-integrity check of `HCI_H5_DecodeDataPdu` fails. -/
def crcBad (pPacket : Mem) (len : ℕ) : Bool :=
  let pLen := subU32 len hciH5CrcLen % 2 ^ 16
  hciH5CrcBytes (hciH5CcittCrc16Calc 0x0000#16 (bytes pPacket pLen)) ≠ bytes (adv pPacket pLen) 2

/-- The expected packet has come: it is counted, and acknowledged when the window is full. -/
def countReceived (now : UInt32) (e : H5) : H5 :=
  let e := { e with txAck := (e.txAck + 1) % 8, rxSlidWinSize := (e.rxSlidWinSize + 1) % 2 ^ 8,
                    rxTick := now ||| 1 }
  if e.config.slidWinSize ≠ 1 ∧ e.config.slidWinSize ≤ e.rxSlidWinSize then
    { e.hciH5SendPureAck with rxSlidWinSize := 0 }
  else e

/-- The first part of the reliable branch of `HCI_H5_DecodeDataPdu`: the packet is handed
over if it is the expected one. -/
def receiveSeq (head : HciH5Head) (pPacket : Mem) (now : UInt32) (e : H5) : H5 :=
  if head.seqNum = e.txAck then
    (e.countReceived now).hciH5PackHciPdu true head.pktType
      (adv pPacket hciH5HeadLen) head.payloadLen
  else e

/-- The second part: the resend check. -/
def receiveAck (head : HciH5Head) (now : UInt32) (e : H5) : H5 :=
  if head.ackNum = e.txSeq then { e with rxAck := head.ackNum }.releaseSent
  else { e with resendTick := if e.resendTick = 0 then now ||| 1 else e.resendTick }

/-- `HCI_H5_DecodeDataPdu`. -/
def hciH5DecodeDataPdu (head : HciH5Head) (pPacket : Mem) (len : ℕ) (now : UInt32) (e : H5) : H5 :=
  if e.config.dataIntgrtChkType = 0 ∧ head.crc ≠ 0 then e
  else if head.crc ≠ 0 ∧ crcBad pPacket len then e
  else if head.reliable ≠ 0 then
    ({ e with owed := true }.receiveSeq head pPacket now).receiveAck head now
  else
    { e with txAck := (e.txAck + 1) % 8 }.hciH5PackHciPdu false head.pktType
      (adv pPacket hciH5HeadLen)
      head.payloadLen

/-- The packet has the length that its header says. -/
def lenOk (head : HciH5Head) (len : ℕ) : Bool :=
  if head.crc = 0 then hciH5HeadLen + head.payloadLen = len
  else hciH5HeadLen + head.payloadLen + hciH5CrcLen = len

/-- The type of a data packet. -/
def isDataType (pktType : ℕ) : Bool :=
  pktType = hciH5PktTypeCmd ∨ pktType = hciH5PktTypeAcl ∨ pktType = hciH5PktTypeSco ∨
    pktType = hciH5PktTypeEvt

/-- `HCI_H5_PakcetHandler`. -/
def hciH5PakcetHandler (pPacket : Mem) (len : ℕ) (now : UInt32) (e : H5) : H5 :=
  let head := hciH5UnpackHeader pPacket
  if hciH5IsCheckSumValid pPacket = false then e
  else if lenOk head len = false then e
  else if head.pktType = hciH5PktTypeAck then
    if e.linkState = .active then { e with rxAck := head.ackNum }.hciH5ReSendCheck now else e
  else if head.pktType = hciH5PktTypeLinkCtrl then e.hciH5DecodeLinkPdu pPacket now
  else if isDataType head.pktType then
    if e.linkState = .active then e.hciH5DecodeDataPdu head pPacket len now else e
  else e

/-- `HCI_Slip_DecodePacket`, of a packet with its delimiters. -/
def hciSlipDecodePacket (pPacket : List UInt8) (now : UInt32) (e : H5) : H5 :=
  if pPacket.length < 6 then e
  else
    let r := slipDecode e.decodeBufSize (pPacket.drop 1).dropLast
    let e := { e with decodeBuf := buffer r.1 e.decodeBuf }
    if r.2 then e.hciH5PakcetHandler e.decodeBuf r.1.length now else e

/-! ### The main loop -/

/-- The first part of `HCI_H5_Poll` of an active link: send again, or send. -/
def pollData (now : UInt32) (e : H5) : H5 :=
  if e.resendTick ≠ 0 then
    if clockTimeExceed now e.resendTick (h5ResendTo * 1000) then
      { e with resendTick := 0 }.hciH5ResendStart now
    else e
  else if e.config.slidWinSize ≤ e.txSlidWinSize then
    if e.txTick ≠ 0 ∧ clockTimeExceed now e.txTick (h5ResendTo * 1000) then
      { e with txTick := 0 }.hciH5ResendStart now
    else e
  else e.hciH5SendData now

/-- The second part: the pure acknowledgement. -/
def pollAck (now : UInt32) (e : H5) : H5 :=
  if e.config.slidWinSize = 1 ∧ e.rxTick ≠ 0 ∧
    clockTimeExceed now e.rxTick (h5PureAckTo * 1000) then
    { { e with rxTick := 0 }.hciH5SendPureAck with rxSlidWinSize := 0 }
  else e

/-- `HCI_H5_Poll`. -/
def hciH5Poll (now : UInt32) (e : H5) : H5 :=
  match e.linkState with
  | .idle =>
    if clockTimeExceed now e.tick (250 * 1000) then { e.hciH5SendSync with tick := now } else e
  | .init =>
    if clockTimeExceed now e.tick (250 * 1000) then { e.hciH5SendConfig with tick := now } else e
  | .active => (e.pollData now).pollAck now

/-! ### What happens around it -/

/-- The UART has sent the packet. -/
def uartTxDone (e : H5) : H5 := { e with isUartTxDone := true }

/-- The controller queues a packet in the TX FIFO, if there is room. -/
def queue (p : TxPkt) (e : H5) : H5 :=
  if e.hciTxFifo.count < e.hciTxFifo.num then
    { e with hciTxFifo := e.hciTxFifo.push p, queued := e.queued ++ [p] }
  else e

/-- `HCI_RxHandler`: the controller takes a packet from the RX FIFO. -/
def hciRxHandler (e : H5) : H5 :=
  if e.hciRxFifo.wptr = e.hciRxFifo.rptr then e else { e with hciRxFifo := e.hciRxFifo.release 1 }

end H5

end TcBle.HciTransport
