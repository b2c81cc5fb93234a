import TcBle.HciTransport.H5

/-!
# What the functions of an H5 endpoint do

One lemma for each function of `H5`, from which the invariants of the runs are proved
without going back to the functions. Sending touches only what it must (`Kept`): not the
link, nor what has been received, nor what is queued.
-/

namespace TcBle.HciTransport.H5

open TcBle.Foundation

/-! ### Sending -/

/-- What sending leaves alone. -/
structure Kept (e e' : H5) : Prop where
  /-- The local configuration. -/
  hciH5Config : e'.hciH5Config = e.hciH5Config
  /-- The negotiated configuration. -/
  config : e'.config = e.config
  /-- The link state. -/
  linkState : e'.linkState = e.linkState
  /-- The expected sequence number. -/
  txAck : e'.txAck = e.txAck
  /-- The last acknowledgement received. -/
  rxAck : e'.rxAck = e.rxAck
  /-- The TX FIFO. -/
  hciTxFifo : e'.hciTxFifo = e.hciTxFifo
  /-- The size of the decode buffer. -/
  decodeBufSize : e'.decodeBufSize = e.decodeBufSize
  /-- What is queued. -/
  queued : e'.queued = e.queued
  /-- What is released. -/
  released : e'.released = e.released
  /-- What is handed over. -/
  handed : e'.handed = e.handed
  /-- The RX FIFO. -/
  hciRxFifo : e'.hciRxFifo = e.hciRxFifo

theorem Kept.refl (e : H5) : Kept e e := ⟨rfl, rfl, rfl, rfl, rfl, rfl, rfl, rfl, rfl, rfl, rfl⟩

theorem Kept.trans {e₁ e₂ e₃ : H5} (h : Kept e₁ e₂) (h' : Kept e₂ e₃) : Kept e₁ e₃ :=
  ⟨h'.hciH5Config.trans h.hciH5Config, h'.config.trans h.config, h'.linkState.trans h.linkState,
    h'.txAck.trans h.txAck, h'.rxAck.trans h.rxAck, h'.hciTxFifo.trans h.hciTxFifo,
    h'.decodeBufSize.trans h.decodeBufSize, h'.queued.trans h.queued, h'.released.trans h.released,
    h'.handed.trans h.handed, h'.hciRxFifo.trans h.hciRxFifo⟩

/-- The packet that `HCI_H5_Send` frames. -/
def framed (h5Type : ℕ) (pPacket : List UInt8) (e : H5) : List UInt8 :=
  (txBuf (e.txHead h5Type pPacket) pPacket).take (txLen (e.txHead h5Type pPacket) pPacket)

/-- What `HCI_H5_Send` gives to the UART. -/
def txPkt (h5Type : ℕ) (pPacket : List UInt8) (e : H5) : List UInt8 :=
  hciSlipEncodePacket e.oofEnable (e.framed h5Type pPacket)

/-- **`HCI_H5_Send`**: the packet goes to the UART if it is free; the sequence number of a
reliable packet is used up in any case. -/
theorem hciH5Send_eq (h5Type : ℕ) (pPacket : List UInt8) (e : H5) :
    e.hciH5Send h5Type pPacket =
      ({ e with txSeq := if hciH5IsReliablePacket h5Type then (e.txSeq + 1) % 8 else e.txSeq
                isUartTxDone := false
                out := e.out ++ if e.isUartTxDone then [e.txPkt h5Type pPacket] else []
                owed := e.owed && !(e.isUartTxDone && h5Type ≠ hciH5PktTypeLinkCtrl) },
        e.isUartTxDone) := by
  unfold hciH5Send hciSlipSend txPkt framed
  cases hrel : hciH5IsReliablePacket h5Type <;> cases huart : e.isUartTxDone <;> simp [huart]

theorem kept_send (h5Type : ℕ) (pPacket : List UInt8) (e : H5) :
    Kept e (e.hciH5Send h5Type pPacket).1 := by
  rw [hciH5Send_eq]
  constructor <;> rfl

/-- A packet that is not reliable uses up no sequence number. -/
theorem send_unreliable {h5Type : ℕ} (h : hciH5IsReliablePacket h5Type = false)
    (pPacket : List UInt8)
    (e : H5) : (e.hciH5Send h5Type pPacket).1 =
      { e with isUartTxDone := false
               out := e.out ++ if e.isUartTxDone then [e.txPkt h5Type pPacket] else []
               owed := e.owed && !(e.isUartTxDone && h5Type ≠ hciH5PktTypeLinkCtrl) } := by
  rw [hciH5Send_eq, h]
  rfl

theorem kept_sendLink (msg : ℕ) (rest : List UInt8) (e : H5) : Kept e (e.sendLink msg rest) :=
  kept_send _ _ e

theorem kept_sendPureAck (e : H5) : Kept e e.hciH5SendPureAck := kept_send _ _ e

/-- A pure acknowledgement. -/
theorem sendPureAck_eq (e : H5) : e.hciH5SendPureAck =
    { e with isUartTxDone := false
             out := e.out ++ if e.isUartTxDone then [e.txPkt hciH5PktTypeAck []] else []
             owed := e.owed && !e.isUartTxDone } := by
  rw [hciH5SendPureAck, send_unreliable (by decide)]
  simp [show hciH5PktTypeAck ≠ hciH5PktTypeLinkCtrl by decide]

/-- A link message. -/
theorem sendLink_eq (msg : ℕ) (rest : List UInt8) (e : H5) : e.sendLink msg rest =
    { e with isUartTxDone := false
             out := e.out ++
               if e.isUartTxDone then [e.txPkt hciH5PktTypeLinkCtrl (linkMsg msg rest)]
                 else [] } := by
  rw [sendLink, send_unreliable (by decide)]
  simp

/-- The packet that `HCI_H5_SendData` sends. -/
def nextPkt (e : H5) : TxPkt := e.hciTxFifo.get ((e.hciTxFifo.rptr + e.txSlidWinSize) % 2 ^ 8)

/-- **`HCI_H5_SendData`** does nothing when the window is full or there seems to be no more
data; else it sends a packet, when the UART is free. -/
theorem sendData_cases (now : UInt32) (e : H5) :
    ((e.config.slidWinSize ≤ e.txSlidWinSize ∨
        e.hciTxFifo.wptr = e.hciTxFifo.rptr + e.txSlidWinSize) ∧ e.hciH5SendData now = e) ∨
      (e.txSlidWinSize < e.config.slidWinSize ∧
        e.hciTxFifo.wptr ≠ e.hciTxFifo.rptr + e.txSlidWinSize ∧
        e.hciH5SendData now =
          if e.isUartTxDone then
            (({ e with txSlidWinSize := e.txSlidWinSize + 1 }.hciH5Send e.nextPkt.hciType.code
              e.nextPkt.payload).1).dataSent (e.released + e.txSlidWinSize) now
          else
            (({ e with txSlidWinSize := e.txSlidWinSize + 1 }.hciH5Send e.nextPkt.hciType.code
              e.nextPkt.payload).1).dataNotSent) := by
  unfold hciH5SendData
  by_cases hfull : e.config.slidWinSize ≤ e.txSlidWinSize
  · exact Or.inl ⟨Or.inl hfull, if_pos hfull⟩
  by_cases hempty : e.hciTxFifo.wptr = e.hciTxFifo.rptr + e.txSlidWinSize
  · exact Or.inl ⟨Or.inr hempty, by rw [if_neg hfull, if_pos hempty]⟩
  refine Or.inr ⟨not_le.mp hfull, hempty, ?_⟩
  simp only [if_neg hfull, if_neg hempty, hciH5Send_eq, nextPkt]

theorem kept_sendData (now : UInt32) (e : H5) : Kept e (e.hciH5SendData now) := by
  unfold hciH5SendData
  split_ifs
  · exact Kept.refl e
  · exact Kept.refl e
  · simp only [hciH5Send_eq]
    split_ifs <;> constructor <;> rfl

theorem kept_resendStart (now : UInt32) (e : H5) : Kept e (e.hciH5ResendStart now) := by
  have hstart : Kept e { e with txSeq := e.rxAck, txSlidWinSize := 0 } := by constructor <;> rfl
  exact hstart.trans (kept_sendData now _)

theorem kept_pollData (now : UInt32) (e : H5) : Kept e (e.pollData now) := by
  unfold pollData
  split_ifs
  · have htick : Kept e { e with resendTick := 0 } := by constructor <;> rfl
    exact htick.trans (kept_resendStart now _)
  · exact Kept.refl e
  · have htick : Kept e { e with txTick := 0 } := by constructor <;> rfl
    exact htick.trans (kept_resendStart now _)
  · exact Kept.refl e
  · exact kept_sendData now e

theorem kept_pollAck (now : UInt32) (e : H5) : Kept e (e.pollAck now) := by
  unfold pollAck
  split_ifs
  · have htick : Kept e { e with rxTick := 0 } := by constructor <;> rfl
    refine (htick.trans (kept_sendPureAck _)).trans ?_
    constructor <;> rfl
  · exact Kept.refl e

/-- **`HCI_H5_Poll` only sends.** -/
theorem kept_poll (now : UInt32) (e : H5) : Kept e (e.hciH5Poll now) := by
  unfold hciH5Poll
  split
  · split_ifs
    · refine (kept_sendLink hciH5MsgSync [] e).trans ?_
      constructor <;> rfl
    · exact Kept.refl e
  · split_ifs
    · refine (kept_sendLink hciH5MsgConfig [configByte e.hciH5Config] e).trans ?_
      constructor <;> rfl
    · exact Kept.refl e
  · exact (kept_pollData now e).trans (kept_pollAck now _)

/-! ### What is given to the UART -/

/-- From `e` to `e'` packets were given to the UART, all of which meet `P`. -/
def Emits (P : List UInt8 → Prop) (e e' : H5) : Prop := ∃ ws, e'.out = e.out ++ ws ∧ ∀ w ∈ ws, P w

variable {P : List UInt8 → Prop}

theorem Emits.of_out_eq {e e' : H5} (h : e'.out = e.out) : Emits P e e' :=
    ⟨[], by simp [h], by simp⟩

theorem Emits.trans {e₁ e₂ e₃ : H5} (h : Emits P e₁ e₂) (h' : Emits P e₂ e₃) : Emits P e₁ e₃ := by
  obtain ⟨ws, hout, hws⟩ := h
  obtain ⟨ws', hout', hws'⟩ := h'
  refine ⟨ws ++ ws', by rw [hout', hout, List.append_assoc], fun w hw => ?_⟩
  exact (List.mem_append.mp hw).elim (hws w) (hws' w)

theorem emits_send {h5Type : ℕ} {pPacket : List UInt8} {e : H5} (h : P (e.txPkt h5Type pPacket)) :
    Emits P e (e.hciH5Send h5Type pPacket).1 := by
  rw [hciH5Send_eq]
  refine ⟨_, rfl, fun w hw => ?_⟩
  split_ifs at hw
  · rw [List.mem_singleton.mp hw]
    exact h
  · simp at hw

/-! ### Framing -/

/-- A framed packet whose length fits is its header, its payload and its check. -/
theorem framed_eq {h5Type : ℕ} {pPacket : List UInt8} (h : pPacket.length + 6 < 2 ^ 16) (e : H5) :
    e.framed h5Type pPacket = txBuf (e.txHead h5Type pPacket) pPacket := by
  refine List.take_of_length_le ?_
  unfold txBuf txLen hciH5HeadLen hciH5CrcLen
  simp only
  split_ifs <;> simp [hciH5CrcBytes] <;> omega

/-- The header of a framed packet fits when the link's numbers do. -/
theorem txHead_fits {h5Type : ℕ} (ht : h5Type < 16) {e : H5} (hseq : e.txSeq < 8)
    (hack : e.txAck < 8)
    (hcrc : e.config.dataIntgrtChkType < 2) (pPacket : List UInt8) :
      (e.txHead h5Type pPacket).Fits := by
  refine ⟨?_, hack, ?_, ?_, ht⟩ <;> simp only [txHead] <;> split_ifs <;> omega

/-- The endpoint with `buf` in its decode buffer. -/
def withBuf (buf : Mem) (e : H5) : H5 := { e with decodeBuf := buf }

/-- **The SLIP decoder gives a packet back** to the packet handler, if it fits the decode
buffer; else only the buffer is touched. -/
theorem slipDecodePacket_encode {f : List UInt8} (hlen : 4 ≤ f.length) (oofEnable : Bool)
    (now : UInt32)
    (e : H5) : ∃ buf, e.hciSlipDecodePacket (hciSlipEncodePacket oofEnable f) now =
      if f.length ≤ e.decodeBufSize then
        (e.withBuf (buffer f buf)).hciH5PakcetHandler (buffer f buf) f.length now
      else e.withBuf buf := by
  have hsix : ¬(hciSlipEncodePacket oofEnable f).length < 6 := by
    have := length_le_encodePacket oofEnable f
    omega
  have hbody : ((hciSlipEncodePacket oofEnable f).drop 1).dropLast =
      f.flatMap (slipEncodeByte oofEnable) := by
    simp [hciSlipEncodePacket]
  unfold hciSlipDecodePacket
  rw [if_neg hsix, hbody]
  split_ifs with hfit
  · exact ⟨e.decodeBuf, by simp [slipDecode_encode oofEnable hfit, withBuf]⟩
  · have hover := slipDecode_encode_overflow oofEnable (not_le.mp hfit)
    exact ⟨_, by simp only [hover, Bool.false_eq_true, if_false]; rfl⟩

/-- The decoder gives to the packet handler what it decodes, and nothing else changes. -/
theorem slipDecodePacket_eq (pPacket : List UInt8) (now : UInt32) (e : H5) : ∃ buf,
    e.hciSlipDecodePacket pPacket now =
      match slipDecoded e.decodeBufSize pPacket with
      | some p => (e.withBuf (buffer p buf)).hciH5PakcetHandler (buffer p buf) p.length now
      | none => e.withBuf buf := by
  unfold hciSlipDecodePacket slipDecoded
  split_ifs with hsix
  · exact ⟨e.decodeBuf, rfl⟩
  · cases hok : (slipDecode e.decodeBufSize (pPacket.drop 1).dropLast).2 with
    | false => exact ⟨_, by simp only [hok, Bool.false_eq_true, if_false]; rfl⟩
    | true => exact ⟨e.decodeBuf, by simp only [hok, if_true]; rfl⟩

/-! ### Receiving -/

/-- The second part of the reliable branch leaves what has been received alone. -/
@[simp] theorem receiveAck_txAck (head : HciH5Head) (now : UInt32) (e : H5) :
    (e.receiveAck head now).txAck = e.txAck := by
  unfold receiveAck releaseSent
  split <;> rfl

@[simp] theorem receiveAck_handed (head : HciH5Head) (now : UInt32) (e : H5) :
    (e.receiveAck head now).handed = e.handed := by
  unfold receiveAck releaseSent
  split <;> rfl

@[simp] theorem reSendCheck_txAck (now : UInt32) (e : H5) :
    (e.hciH5ReSendCheck now).txAck = e.txAck := by
  unfold hciH5ReSendCheck releaseSent
  split <;> rfl

@[simp] theorem reSendCheck_handed (now : UInt32) (e : H5) :
    (e.hciH5ReSendCheck now).handed = e.handed := by
  unfold hciH5ReSendCheck releaseSent
  split <;> rfl

@[simp] theorem countReceived_txAck (now : UInt32) (e : H5) :
    (e.countReceived now).txAck = (e.txAck + 1) % 8 := by
  unfold countReceived
  simp only
  split_ifs
  · exact (kept_sendPureAck _).txAck
  · rfl

@[simp] theorem countReceived_handed (now : UInt32) (e : H5) :
    (e.countReceived now).handed = e.handed := by
  unfold countReceived
  simp only
  split_ifs
  · exact (kept_sendPureAck _).handed
  · rfl

/-- The packet that a data packet hands over. -/
def rxPkt (pPacket : Mem) : RxPkt :=
  ⟨(hciH5UnpackHeader pPacket).pktType,
    bytes (adv pPacket hciH5HeadLen) (hciH5UnpackHeader pPacket).payloadLen⟩

/-- The packet passes the checks of `HCI_H5_PakcetHandler`. -/
def WellFormed (pPacket : Mem) (len : ℕ) : Prop :=
  hciH5IsCheckSumValid pPacket = true ∧ lenOk (hciH5UnpackHeader pPacket) len = true

instance (pPacket : Mem) (len : ℕ) : Decidable (WellFormed pPacket len) :=
  inferInstanceAs (Decidable (_ ∧ _))

/-- The endpoint takes the data packet: it is active, and the packet passes every check. -/
structure TakesData (e : H5) (pPacket : Mem) (len : ℕ) : Prop where
  /-- The link is active. -/
  active : e.linkState = .active
  /-- Header and length are right. -/
  wellFormed : WellFormed pPacket len
  /-- It is a data packet. -/
  isData : isDataType (hciH5UnpackHeader pPacket).pktType = true
  /-- It has no check unless that was negotiated. -/
  negotiated : (hciH5UnpackHeader pPacket).crc ≠ 0 → e.config.dataIntgrtChkType ≠ 0
  /-- The check, if any, is right. -/
  crc : (hciH5UnpackHeader pPacket).crc ≠ 0 → crcBad pPacket len = false

instance (e : H5) (pPacket : Mem) (len : ℕ) : Decidable (e.TakesData pPacket len) :=
  decidable_of_iff (_ ∧ _ ∧ _ ∧ _ ∧ _)
    ⟨fun h => ⟨h.1, h.2.1, h.2.2.1, h.2.2.2.1, h.2.2.2.2⟩,
      fun h => ⟨h.active, h.wellFormed, h.isData, h.negotiated, h.crc⟩⟩

/-- A data packet is neither an acknowledgement nor about the link. -/
theorem ne_of_isDataType {t : ℕ} (h : isDataType t = true) :
    t ≠ hciH5PktTypeAck ∧ t ≠ hciH5PktTypeLinkCtrl := by
  constructor <;>
    · rintro rfl
      exact absurd h (by decide)

/-- A data packet that is taken. -/
theorem pakcetHandler_of_takesData {e : H5} {pPacket : Mem} {len : ℕ} (h : e.TakesData pPacket len)
    (now : UInt32) : e.hciH5PakcetHandler pPacket len now =
      if (hciH5UnpackHeader pPacket).reliable ≠ 0 then
        ({ e with owed := true }.receiveSeq (hciH5UnpackHeader pPacket) pPacket now).receiveAck
          (hciH5UnpackHeader pPacket) now
      else
        { e with txAck := (e.txAck + 1) % 8 }.hciH5PackHciPdu false
          (hciH5UnpackHeader pPacket).pktType
          (adv pPacket hciH5HeadLen) (hciH5UnpackHeader pPacket).payloadLen := by
  obtain ⟨hack, hlink⟩ := ne_of_isDataType h.isData
  have hneg : ¬(e.config.dataIntgrtChkType = 0 ∧ (hciH5UnpackHeader pPacket).crc ≠ 0) :=
    fun hc => h.negotiated hc.2 hc.1
  have hcrc : ¬((hciH5UnpackHeader pPacket).crc ≠ 0 ∧ crcBad pPacket len = true) :=
    fun hc => by simp [h.crc hc.1] at hc
  simp only [hciH5PakcetHandler, h.wellFormed.1, h.wellFormed.2, Bool.true_eq_false, if_false,
    if_neg hack,
    if_neg hlink, h.isData, if_true, h.active, hciH5DecodeDataPdu, if_neg hneg, if_neg hcrc]

/-- A packet that is about the link. -/
theorem pakcetHandler_of_link {pPacket : Mem} {len : ℕ} (h : WellFormed pPacket len)
    (hlink : (hciH5UnpackHeader pPacket).pktType = hciH5PktTypeLinkCtrl) (now : UInt32) (e : H5) :
    e.hciH5PakcetHandler pPacket len now = e.hciH5DecodeLinkPdu pPacket now := by
  simp only [hciH5PakcetHandler, h.1, h.2, Bool.true_eq_false, if_false, hlink, if_true]
  rw [if_neg (by decide)]

/-- An acknowledgement. -/
theorem pakcetHandler_of_ack {e : H5} {pPacket : Mem} {len : ℕ} (h : WellFormed pPacket len)
    (hack : (hciH5UnpackHeader pPacket).pktType = hciH5PktTypeAck) (hactive : e.linkState = .active)
    (now : UInt32) : e.hciH5PakcetHandler pPacket len now =
      { e with rxAck := (hciH5UnpackHeader pPacket).ackNum }.hciH5ReSendCheck now := by
  simp only [hciH5PakcetHandler, h.1, h.2, Bool.true_eq_false, if_false, hack, if_true, hactive]

/-- A data packet that an active endpoint is given: nothing happens, or it passes the checks. -/
theorem decodeDataPdu_cases (e : H5) (head : HciH5Head) (pPacket : Mem) (len : ℕ) (now : UInt32) :
    e.hciH5DecodeDataPdu head pPacket len now = e ∨
      ((head.crc ≠ 0 → e.config.dataIntgrtChkType ≠ 0) ∧
        (head.crc ≠ 0 → crcBad pPacket len = false)) := by
  unfold hciH5DecodeDataPdu
  by_cases hneg : e.config.dataIntgrtChkType = 0 ∧ head.crc ≠ 0
  · exact Or.inl (if_pos hneg)
  rw [if_neg hneg]
  by_cases hcrc : head.crc ≠ 0 ∧ crcBad pPacket len = true
  · exact Or.inl (if_pos hcrc)
  · exact Or.inr ⟨fun hc h0 => hneg ⟨h0, hc⟩,
      fun hc => Bool.eq_false_iff.mpr fun hbad => hcrc ⟨hc, hbad⟩⟩

/-- **What a packet does** to an endpoint: one of four things. -/
theorem pakcetHandler_cases (e : H5) (pPacket : Mem) (len : ℕ) (now : UInt32) :
    e.hciH5PakcetHandler pPacket len now = e ∨
      (WellFormed pPacket len ∧ (hciH5UnpackHeader pPacket).pktType = hciH5PktTypeAck ∧
        e.linkState = .active) ∨
      (WellFormed pPacket len ∧ (hciH5UnpackHeader pPacket).pktType = hciH5PktTypeLinkCtrl) ∨
      e.TakesData pPacket len := by
  unfold hciH5PakcetHandler
  dsimp only
  cases hsum : hciH5IsCheckSumValid pPacket with
  | false => exact Or.inl (if_pos rfl)
  | true =>
  cases hlen : lenOk (hciH5UnpackHeader pPacket) len with
  | false => exact Or.inl rfl
  | true =>
  rw [if_neg (by simp), if_neg (by simp)]
  by_cases hack : (hciH5UnpackHeader pPacket).pktType = hciH5PktTypeAck
  · rw [if_pos hack]
    by_cases hactive : e.linkState = .active
    · exact Or.inr (Or.inl ⟨⟨hsum, hlen⟩, hack, hactive⟩)
    · exact Or.inl (if_neg hactive)
  rw [if_neg hack]
  by_cases hlink : (hciH5UnpackHeader pPacket).pktType = hciH5PktTypeLinkCtrl
  · exact Or.inr (Or.inr (Or.inl ⟨⟨hsum, hlen⟩, hlink⟩))
  rw [if_neg hlink]
  by_cases hdata : isDataType (hciH5UnpackHeader pPacket).pktType = true
  · rw [if_pos hdata]
    by_cases hactive : e.linkState = .active
    · rw [if_pos hactive]
      exact (decodeDataPdu_cases e _ pPacket len now).imp id fun ⟨hneg, hcrc⟩ =>
        Or.inr (Or.inr ⟨hactive, ⟨hsum, hlen⟩, hdata, hneg, hcrc⟩)
    · exact Or.inl (if_neg hactive)
  · exact Or.inl (if_neg hdata)

/-- **What a packet about the link does**: it sends something, moves on to `INIT`, resets an
active link, or makes the link active. -/
theorem decodeLinkPdu_cases (e : H5) (pPacket : Mem) (now : UInt32) :
    Kept e (e.hciH5DecodeLinkPdu pPacket now) ∨
      (e.linkState = .idle ∧ Kept { e with linkState := .init }
        (e.hciH5DecodeLinkPdu pPacket now)) ∨
      (e.linkState = .active ∧ u16At (adv pPacket hciH5HeadLen) = hciH5MsgSync ∧
        Kept ({ e with linkState := .idle }.hciH5Reset now) (e.hciH5DecodeLinkPdu pPacket now)) ∨
      (e.linkState = .init ∧ u16At (adv pPacket hciH5HeadLen) = hciH5MsgConfigRsp ∧
        e.hciH5DecodeLinkPdu pPacket now = e.activate (pPacket (hciH5HeadLen + 2)).toNat now) := by
  unfold hciH5DecodeLinkPdu
  cases hstate : e.linkState with
  | idle =>
    simp only
    split_ifs
    · exact Or.inl (kept_sendLink _ _ e)
    · exact Or.inr (Or.inl ⟨trivial, kept_sendLink _ _ { e with linkState := .init }⟩)
    · exact Or.inl (kept_sendLink _ _ e)
  | init =>
    simp only
    split_ifs with h₁ h₂ h₃
    · exact Or.inl (kept_sendLink _ _ e)
    · exact Or.inl (kept_sendLink _ _ e)
    · exact Or.inr (Or.inr (Or.inr ⟨trivial, h₃, rfl⟩))
    · exact Or.inl (Kept.refl e)
  | active =>
    simp only
    split_ifs with h₁ h₂
    · exact Or.inl (kept_sendLink _ _ e)
    · exact Or.inr (Or.inr (Or.inl ⟨trivial, h₂, kept_sendLink _ _ _⟩))
    · exact Or.inl (Kept.refl e)

end TcBle.HciTransport.H5
