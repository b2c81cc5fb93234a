import TcBle.HciTransport.H5Link
import TcBle.HciTransport.H5Simulation

/-!
# Recovery from losses

Whatever is lost, an endpoint should get it back by itself: what it sent and was not
acknowledged is sent again by its main loop, and a reliable packet that it processed is
acknowledged, at once or by its main loop. `Recovers` says so without the monitors: run
alone, the main loop gives the packet, or an acknowledgement, to the UART.

## What is proved

* `recovers_run` — so it is in every run whose steps meet `RecoverOk`: data is sent only when
  there is enough of it to fill the window, and an acknowledgement that is owed is armed or
  sent, or there is data to send that carries it.
* `half_window_stuck` — the resend monitor is looked at only when the window is full, so a
  packet that does not fill it is sent once.
-/

namespace TcBle.HciTransport

open TcBle.Foundation

namespace H5

/-! ### What is armed -/

/-- The main loop alone, each time with the UART done: one round for each of the times. -/
def pollAll (ts : List UInt32) (e : H5) : H5 := ts.foldl (fun e now => e.uartTxDone.hciH5Poll now) e

/-- **The main loop will send**, without further input, a SLIP packet that meets `P`. -/
def WillSend (P : List UInt8 → Prop) (e : H5) : Prop :=
  ∃ ts now w rest, ((e.pollAll ts).uartTxDone.hciH5Poll now).out = (e.pollAll ts).out ++ w :: rest ∧
    P w

/-- The SLIP packet is data packet `p` with the sequence number `seq` and the acknowledgement number
`num`. -/
def IsData (p : TxPkt) (seq num : ℕ) (w : List UInt8) : Prop :=
  ∃ s : H5, s.txSeq = seq ∧ s.txAck = num ∧ w = s.txPkt p.hciType.code p.payload

/-- The SLIP packet acknowledges with the number `num`. -/
def IsAck (num : ℕ) (w : List UInt8) : Prop :=
  (∃ s : H5, s.txAck = num ∧ w = s.txPkt hciH5PktTypeAck []) ∨ ∃ p seq, IsData p seq num w

/-- The sequence number that the first packet not released is sent with: `rxAck`, from which
`hciH5ResendStart` begins again, and `txSeq` if the window is empty and no resend is to come. -/
def firstSeq (e : H5) : ℕ :=
  if e.resendTick = 0 ∧ e.txSlidWinSize = 0 then e.txSeq else e.rxAck

/-- **What an active endpoint owes**: the first packet that is sent and not released will be sent
again, and a reliable packet that was processed will be acknowledged, unless it has been. -/
structure Recovers (e : H5) : Prop where
  /-- The retransmission. -/
  retransmits : e.released < e.sent → ∃ p, e.queued[e.released]? = some p ∧
    e.WillSend (IsData p e.firstSeq e.txAck)
  /-- The acknowledgement. -/
  acknowledges : e.owed = true → e.WillSend (IsAck e.txAck)

/-! ### The conditions -/

/-- A round of the main loop sends data, if the UART is free. -/
def DataDue (now : UInt32) (e : H5) : Prop :=
  (e.Resends now ∧ e.hciTxFifo.wptr ≠ e.hciTxFifo.rptr) ∨
    (e.resendTick = 0 ∧ e.txSlidWinSize < e.config.slidWinSize ∧
      e.hciTxFifo.wptr ≠ e.hciTxFifo.rptr + e.txSlidWinSize)

/-- The pure acknowledgement is due. -/
def AckDue (now : UInt32) (e : H5) : Prop :=
  e.config.slidWinSize = 1 ∧ e.rxTick ≠ 0 ∧ clockTimeExceed now e.rxTick (h5PureAckTo * 1000) = true

instance (now : UInt32) (e : H5) : Decidable (e.DataDue now) :=
  inferInstanceAs (Decidable (_ ∨ _ ∧ _ ∧ _))

instance (now : UInt32) (e : H5) : Decidable (e.AckDue now) :=
    inferInstanceAs (Decidable (_ ∧ _ ∧ _))

/-- **The condition on a round of the main loop.** -/
structure RoundOk (now : UInt32) (e : H5) : Prop where
  /-- Data is sent only when there is enough of it to fill the window. -/
  data : e.isUartTxDone = true → e.DataDue now → e.config.slidWinSize ≤ e.hciTxFifo.count
  /-- A pure acknowledgement that is owed finds the UART free, or there is data to send. -/
  ack : e.owed = true → e.AckDue now → e.isUartTxDone = true ∨ 1 ≤ e.hciTxFifo.count

instance (now : UInt32) (e : H5) : Decidable (e.RoundOk now) :=
  decidable_of_iff (_ ∧ _) ⟨fun h => ⟨h.1, h.2⟩, fun h => ⟨h.data, h.ack⟩⟩

/-- How many packets the FIFO holds after acknowledgement `num`. -/
def countAfter (num : ℕ) (e : H5) : ℕ :=
  e.hciTxFifo.count - if num = e.txSeq then e.txSlidWinSize else 0

/-- The pure acknowledgement is armed. -/
def AckArmed (e : H5) : Prop := e.config.slidWinSize = 1 ∧ e.rxTick ≠ 0

instance (e : H5) : Decidable e.AckArmed := inferInstanceAs (Decidable (_ ∧ _))

/-- **The condition on a packet**: an endpoint that owes an acknowledgement after it has armed it,
has sent it, or has data to send. -/
structure PacketOk (pPacket : Mem) (len : ℕ) (e : H5) : Prop where
  /-- A pure acknowledgement. -/
  ack : WellFormed pPacket len → (hciH5UnpackHeader pPacket).pktType = hciH5PktTypeAck →
    e.owed = true → e.AckArmed ∨ 1 ≤ e.countAfter (hciH5UnpackHeader pPacket).ackNum
  /-- A reliable packet, new or not: -/
  data : e.TakesData pPacket len → (hciH5UnpackHeader pPacket).reliable ≠ 0 →
    -- the endpoint has data to send,
    1 ≤ e.countAfter (hciH5UnpackHeader pPacket).ackNum ∨
    -- the window is 1, and the packet is new or the acknowledgement is armed already,
    (e.config.slidWinSize = 1 ∧ ((hciH5UnpackHeader pPacket).seqNum = e.txAck ∨ e.rxTick ≠ 0)) ∨
    -- or the packet is new and the last one of a window, and the UART is free
    (e.config.slidWinSize ≠ 1 ∧ (hciH5UnpackHeader pPacket).seqNum = e.txAck ∧
      e.config.slidWinSize ≤ (e.rxSlidWinSize + 1) % 2 ^ 8 ∧ e.isUartTxDone = true)

instance (pPacket : Mem) (len : ℕ) (e : H5) : Decidable (e.PacketOk pPacket len) :=
  decidable_of_iff (_ ∧ _) ⟨fun h => ⟨h.1, h.2⟩, fun h => ⟨h.ack, h.data⟩⟩

/-! ### The invariant -/

/-- What is sent can be sent again. -/
structure Steady (e : H5) : Prop where
  /-- The FIFO holds what is queued and not released. -/
  fifo : e.hciTxFifo.Holds e.queued e.released
  /-- What is in the window has been sent. -/
  win : e.released + e.txSlidWinSize ≤ e.sent
  /-- What has been sent was queued. -/
  sent : e.sent ≤ e.queued.length
  /-- The resend monitor of a full window runs. -/
  tick : e.resendTick = 0 → 0 < e.txSlidWinSize → e.config.slidWinSize ≤ e.txSlidWinSize →
    e.txTick ≠ 0
  /-- A window that is not empty can be filled. -/
  filled : e.resendTick = 0 → 0 < e.txSlidWinSize →
    e.released + e.config.slidWinSize ≤ e.queued.length

/-- **The invariant of an active endpoint.** -/
structure Alive (e : H5) : Prop extends Steady e where
  /-- An acknowledgement that is owed is armed, or there is data to send. -/
  owed : e.owed = true → e.AckArmed ∨ e.released < e.queued.length

variable {e : H5}

theorem or_one_ne_zero (now : UInt32) : now ||| 1 ≠ 0 := by
  intro h
  have hbit := congrArg (fun x => x.toBitVec.getLsbD 0) h
  simp at hbit

/-- `HCI_H5_SendData` sends. -/
theorem sendData_of_ready (now : UInt32) (hroom : e.txSlidWinSize < e.config.slidWinSize)
    (hmore : e.hciTxFifo.wptr ≠ e.hciTxFifo.rptr + e.txSlidWinSize)
    (huart : e.isUartTxDone = true) :
    e.hciH5SendData now =
      { e with
        txSeq := if hciH5IsReliablePacket e.nextPkt.hciType.code then (e.txSeq + 1) % 8 else e.txSeq
        txSlidWinSize := e.txSlidWinSize + 1
        isUartTxDone := false
        out := e.out ++ [e.txPkt e.nextPkt.hciType.code e.nextPkt.payload]
        owed := false, rxSlidWinSize := 0, txTick := now ||| 1, rxTick := 0
        sent := max e.sent (e.released + e.txSlidWinSize + 1) } := by
  have hlink := (HciType.code_ne e.nextPkt.hciType).2
  rcases sendData_cases now e with ⟨hstop, -⟩ | ⟨-, -, heq⟩
  · exact absurd hstop (by simp [hmore, hroom])
  · rw [heq, hciH5Send_eq]
    simp [huart, hlink, dataSent, txPkt, framed, txHead]

/-- `HCI_H5_SendData` does not send. -/
theorem sendData_of_not_ready (now : UInt32) (h : e.txSlidWinSize < e.config.slidWinSize →
    e.hciTxFifo.wptr ≠ e.hciTxFifo.rptr + e.txSlidWinSize → e.isUartTxDone = false) :
    e.hciH5SendData now = e ∨ (e.txSlidWinSize < e.config.slidWinSize ∧
      ∃ seq, e.hciH5SendData now = { e with txSeq := seq, txTick := 0 }) := by
  rcases sendData_cases now e with ⟨-, heq⟩ | ⟨hroom, hmore, heq⟩
  · exact Or.inl heq
  · refine Or.inr ⟨hroom, ?_⟩
    rw [heq, hciH5Send_eq]
    have huart := h hroom hmore
    cases e
    simp only at huart
    subst huart
    exact ⟨_, by simp [dataNotSent]; rfl⟩

/-! ### The main loop keeps the invariant -/

/-- From `e` to `e'` a data packet is sent, which acknowledges as well, or the acknowledgement is
left alone. -/
def SentOrLeft (e e' : H5) : Prop :=
  (e'.owed = false ∧ e'.rxTick = 0 ∧
      ∃ p w, e'.out = e.out ++ [w] ∧ ∃ seq, IsData p seq e.txAck w) ∨
    (e'.owed = e.owed ∧ e'.rxTick = e.rxTick ∧ e'.isUartTxDone = e.isUartTxDone ∧ e'.out = e.out)

theorem sendData_sentOrLeft (now : UInt32) (e : H5) : SentOrLeft e (e.hciH5SendData now) := by
  by_cases hready : e.txSlidWinSize < e.config.slidWinSize ∧
      e.hciTxFifo.wptr ≠ e.hciTxFifo.rptr + e.txSlidWinSize ∧ e.isUartTxDone = true
  · rw [sendData_of_ready now hready.1 hready.2.1 hready.2.2]
    exact Or.inl ⟨rfl, rfl, _, _, rfl, _, e, rfl, rfl, rfl⟩
  · have hnot : e.txSlidWinSize < e.config.slidWinSize →
        e.hciTxFifo.wptr ≠ e.hciTxFifo.rptr + e.txSlidWinSize →
        e.isUartTxDone = false := fun h₁ h₂ =>
      Bool.eq_false_iff.mpr fun h₃ => hready ⟨h₁, h₂, h₃⟩
    rcases sendData_of_not_ready now hnot with heq | ⟨-, seq, heq⟩
    · rw [heq]
      exact Or.inr ⟨rfl, rfl, rfl, rfl⟩
    · rw [heq]
      exact Or.inr ⟨rfl, rfl, rfl, rfl⟩

theorem pollData_sentOrLeft (now : UInt32) (e : H5) : SentOrLeft e (e.pollData now) := by
  unfold pollData hciH5ResendStart
  split_ifs
  · exact sendData_sentOrLeft now _
  · exact Or.inr ⟨rfl, rfl, rfl, rfl⟩
  · exact sendData_sentOrLeft now _
  · exact Or.inr ⟨rfl, rfl, rfl, rfl⟩
  · exact sendData_sentOrLeft now _

namespace Alive

theorem sendData (h : Alive e) (now : UInt32)
    (hok : e.isUartTxDone = true → e.txSlidWinSize < e.config.slidWinSize →
      e.hciTxFifo.wptr ≠ e.hciTxFifo.rptr + e.txSlidWinSize →
        e.config.slidWinSize ≤ e.hciTxFifo.count) :
    Alive (e.hciH5SendData now) := by
  have hrel := h.fifo.released
  by_cases hready : e.txSlidWinSize < e.config.slidWinSize ∧
      e.hciTxFifo.wptr ≠ e.hciTxFifo.rptr + e.txSlidWinSize ∧ e.isUartTxDone = true
  · have hcount := hok hready.2.2 hready.1 hready.2.1
    rw [h.fifo.count] at hcount
    have hwin := h.win
    have hsent := h.sent
    have hroom := hready.1
    rw [sendData_of_ready now hready.1 hready.2.1 hready.2.2]
    refine ⟨⟨h.fifo, ?_, ?_, fun _ _ _ => or_one_ne_zero now, fun _ _ => ?_⟩, nofun⟩
    · exact (Nat.add_assoc _ _ _).symm.le.trans (le_max_right _ _)
    · simp only
      omega
    · simp only
      omega
  · have hnot : e.txSlidWinSize < e.config.slidWinSize →
        e.hciTxFifo.wptr ≠ e.hciTxFifo.rptr + e.txSlidWinSize →
        e.isUartTxDone = false := fun h₁ h₂ =>
      Bool.eq_false_iff.mpr fun h₃ => hready ⟨h₁, h₂, h₃⟩
    rcases sendData_of_not_ready now hnot with heq | ⟨hroom, seq, heq⟩
    · rw [heq]
      exact h
    · rw [heq]
      exact { h with tick := fun _ _ hfull => absurd hfull (not_le.mpr hroom) }

/-- Starting again empties the window, whatever the monitors are set to. -/
theorem resendStart (h : Alive e) (resendTick txTick now : UInt32)
    (hok : e.isUartTxDone = true → e.hciTxFifo.wptr ≠ e.hciTxFifo.rptr →
      e.config.slidWinSize ≤ e.hciTxFifo.count) :
    Alive ({ e with resendTick := resendTick, txTick := txTick }.hciH5ResendStart now) := by
  have hwin := h.win
  have hstart : Alive { e with resendTick := resendTick, txTick := txTick, txSeq := e.rxAck,
                               txSlidWinSize := 0 } :=
    { h with
      win := by
        simp only
        omega
      tick := fun _ hpos => absurd hpos (Nat.lt_irrefl 0)
      filled := fun _ hpos => absurd hpos (Nat.lt_irrefl 0) }
  exact hstart.sendData now fun huart _ hmore => hok huart hmore

theorem pollData (h : Alive e) {now : UInt32} (hok : e.RoundOk now) : Alive (e.pollData now) := by
  unfold H5.pollData
  split_ifs with htick hexc hfull hexc
  · refine h.resendStart 0 e.txTick now fun huart hmore => hok.data huart (Or.inl ⟨?_, hmore⟩)
    rw [Resends, if_pos htick]
    exact hexc
  · exact h
  · refine h.resendStart e.resendTick 0 now fun huart hmore => hok.data huart (Or.inl ⟨?_, hmore⟩)
    rw [Resends, if_neg htick]
    exact ⟨hfull, hexc⟩
  · exact h
  · exact h.sendData now fun huart hroom hmore =>
      hok.data huart (Or.inr ⟨not_not.mp htick, hroom, hmore⟩)

theorem pollAck (h : Alive e) {now : UInt32} (hok : e.owed = true → e.AckDue now →
    e.isUartTxDone = true ∨ 1 ≤ e.hciTxFifo.count) : Alive (e.pollAck now) := by
  unfold H5.pollAck
  split_ifs with hdue
  · rw [sendPureAck_eq]
    refine { h with owed := fun howed => Or.inr ?_ }
    simp only [Bool.and_eq_true, Bool.not_eq_true'] at howed
    cases hok howed.1 hdue with
    | inl huart =>
      rw [huart] at howed
      exact absurd howed.2 (by simp)
    | inr hcount =>
      rw [h.fifo.count] at hcount
      simp only
      omega
  · exact h

/-- **A round of the main loop keeps the invariant.** -/
theorem poll (h : Alive e) (hactive : e.linkState = .active) {now : UInt32} (hok : e.RoundOk now) :
    Alive (e.hciH5Poll now) := by
  unfold hciH5Poll
  rw [hactive]
  refine (h.pollData hok).pollAck fun howed hdue => ?_
  have hk := kept_pollData now e
  rcases pollData_sentOrLeft now e with ⟨hfalse, -⟩ | ⟨howed', htick', huart', -⟩
  · rw [hfalse] at howed
    exact absurd howed (by simp)
  · rw [huart', hk.hciTxFifo]
    unfold AckDue at hdue
    rw [hk.config, htick'] at hdue
    exact hok.ack (howed'.symm.trans howed) hdue

/-! ### Packets keep the invariant -/

end Alive

/-- The monitor that is set when an acknowledgement was not the one waited for is set. -/
theorem resendTick_ne_zero (now tick : UInt32) : (if tick = 0 then now ||| 1 else tick) ≠ 0 := by
  split_ifs with h
  · exact or_one_ne_zero now
  · exact h

namespace Steady

/-- Everything sent is released. -/
theorem releaseSent (h : Steady e)
    (howed : e.owed = true → e.AckArmed ∨ e.released + e.txSlidWinSize < e.queued.length) :
    Alive e.releaseSent :=
  ⟨⟨h.fifo.release (h.win.trans h.sent), h.win, h.sent, fun _ hpos => absurd hpos (Nat.lt_irrefl 0),
    fun _ hpos => absurd hpos (Nat.lt_irrefl 0)⟩, howed⟩

/-- What the FIFO holds after an acknowledgement. -/
theorem countAfter (h : Steady e) (num : ℕ) : e.countAfter num =
    e.queued.length - e.released - if num = e.txSeq then e.txSlidWinSize else 0 := by
  rw [H5.countAfter, h.fifo.count]

/-- An acknowledgement that is not the one waited for. -/
theorem setResend (h : Steady e) (howed : e.owed = true → e.AckArmed ∨ e.released < e.queued.length)
    (rxAck : ℕ) (txTick now : UInt32) :
    Alive { e with rxAck := rxAck, txTick := txTick,
                   resendTick := if e.resendTick = 0 then now ||| 1 else e.resendTick } :=
  ⟨{ h with
      tick := fun hz => absurd hz (resendTick_ne_zero now _)
      filled := fun hz => absurd hz (resendTick_ne_zero now _) }, howed⟩

/-- **An acknowledgement**, of everything sent or not. -/
theorem takeAck (h : Steady e) (head : HciH5Head)
    (howed : e.owed = true → e.AckArmed ∨ 1 ≤ e.countAfter head.ackNum) (now : UInt32) :
    Alive (e.receiveAck head now) ∧
      Alive ({ e with rxAck := head.ackNum }.hciH5ReSendCheck now) := by
  rw [h.countAfter] at howed
  unfold H5.receiveAck hciH5ReSendCheck
  by_cases hnum : head.ackNum = e.txSeq
  · rw [if_pos hnum] at howed
    rw [if_pos hnum, if_pos hnum]
    have hstart : Steady { e with rxAck := head.ackNum } := { h with }
    have hrelease := hstart.releaseSent fun ho => (howed ho).imp id fun hc => by
      simp only
      omega
    exact ⟨hrelease, hrelease⟩
  · rw [if_neg hnum] at howed
    rw [if_neg hnum, if_neg hnum]
    have hmore : e.owed = true → e.AckArmed ∨ e.released < e.queued.length :=
      fun ho => (howed ho).imp id fun hc => by omega
    exact ⟨h.setResend hmore e.rxAck e.txTick now, h.setResend hmore head.ackNum 0 now⟩

/-- The packet of a data packet does not concern the sender. -/
theorem receiveSeq (h : Steady e) (head : HciH5Head) (pPacket : Mem) (now : UInt32) :
    Steady (e.receiveSeq head pPacket now) ∧
      ∀ num, (e.receiveSeq head pPacket now).countAfter num = e.countAfter num := by
  rw [receiveSeq_eq]
  split_ifs
  · rw [sendPureAck_eq]
    exact ⟨{ h with }, fun _ => rfl⟩
  · exact ⟨{ h with }, fun _ => rfl⟩
  · exact ⟨h, fun _ => rfl⟩

end Steady

/-- When the packet of a data packet arms an acknowledgement, or sends one. -/
theorem receiveSeq_armed (head : HciH5Head) (pPacket : Mem) (now : UInt32) (e : H5)
    (hok : (e.config.slidWinSize = 1 ∧ (head.seqNum = e.txAck ∨ e.rxTick ≠ 0)) ∨
      (e.config.slidWinSize ≠ 1 ∧ head.seqNum = e.txAck ∧
        e.config.slidWinSize ≤ (e.rxSlidWinSize + 1) % 2 ^ 8 ∧ e.isUartTxDone = true)) :
    (e.receiveSeq head pPacket now).owed = true → (e.receiveSeq head pPacket now).AckArmed := by
  rw [receiveSeq_eq]
  rcases hok with ⟨hone, hnew | hold⟩ | ⟨hne, hnew, hfull, huart⟩
  · rw [if_pos hnew, if_neg (fun hc => hc.1 hone)]
    exact fun _ => ⟨hone, or_one_ne_zero now⟩
  · split_ifs with hnew hfull
    · exact absurd hone hfull.1
    · exact fun _ => ⟨hone, or_one_ne_zero now⟩
    · exact fun _ => ⟨hone, hold⟩
  · rw [if_pos hnew, if_pos ⟨hne, hfull⟩, sendPureAck_eq]
    simp [accept, hciH5PackHciPdu, huart]

/-- A link that becomes active is alive. -/
theorem alive_activate (cfg : ℕ) (now : UInt32) (e : H5) : Alive (e.activate cfg now) :=
  ⟨⟨RingBuffer.holds_reset _, Nat.le_refl _, Nat.le_refl _,
    fun _ hpos => absurd hpos (Nat.lt_irrefl 0),
    fun _ hpos => absurd hpos (Nat.lt_irrefl 0)⟩, nofun⟩

/-- A link message. -/
theorem alive_decodeLinkPdu (h : e.linkState = .active → Alive e) (pPacket : Mem) (now : UInt32)
    (hactive : (e.hciH5DecodeLinkPdu pPacket now).linkState = .active) :
    Alive (e.hciH5DecodeLinkPdu pPacket now) := by
  unfold hciH5DecodeLinkPdu at hactive ⊢
  cases hstate : e.linkState with
  | idle =>
    simp only [hstate] at hactive
    split_ifs at hactive
    · cases hstate.symm.trans ((kept_sendLink _ _ e).linkState.symm.trans hactive)
    · cases (kept_sendLink _ _ { e with linkState := .init }).linkState.symm.trans hactive
    · cases hstate.symm.trans ((kept_sendLink _ _ e).linkState.symm.trans hactive)
  | init =>
    simp only [hstate] at hactive ⊢
    split_ifs at hactive ⊢
    · cases hstate.symm.trans ((kept_sendLink _ _ e).linkState.symm.trans hactive)
    · cases hstate.symm.trans ((kept_sendLink _ _ e).linkState.symm.trans hactive)
    · exact alive_activate _ now e
    · cases hstate.symm.trans hactive
  | active =>
    have halive := h hstate
    simp only [hstate] at hactive ⊢
    split_ifs at hactive ⊢
    · rw [hciH5SendConfigRsp, sendLink_eq]
      exact { halive with }
    · have hidle :=
        (kept_sendLink hciH5MsgSyncRsp [] ({ e with linkState := .idle }.hciH5Reset now)).linkState
      cases hidle.symm.trans hactive
    · exact halive

/-- **A packet keeps the invariant.** -/
theorem alive_pakcetHandler (h : e.linkState = .active → Alive e) {pPacket : Mem} {len : ℕ}
    {now : UInt32} (hok : e.PacketOk pPacket len)
    (hactive : (e.hciH5PakcetHandler pPacket len now).linkState = .active) :
    Alive (e.hciH5PakcetHandler pPacket len now) := by
  rcases pakcetHandler_cases e pPacket len now with heq | ⟨hwf, hack, hstate⟩ | ⟨hwf, hlink⟩ | hdata
  · rw [heq] at hactive ⊢
    exact h hactive
  · rw [pakcetHandler_of_ack hwf hack hstate]
    exact ((h hstate).toSteady.takeAck _ (hok.ack hwf hack) now).2
  · rw [pakcetHandler_of_link hwf hlink] at hactive ⊢
    exact alive_decodeLinkPdu h pPacket now hactive
  · have halive := h hdata.active
    rw [pakcetHandler_of_takesData hdata]
    split_ifs with hrel
    · have hstart : Steady { e with owed := true } := { halive.toSteady with }
      obtain ⟨hsteady, hcount⟩ := hstart.receiveSeq (hciH5UnpackHeader pPacket) pPacket now
      refine (hsteady.takeAck _ (fun howed => ?_) now).1
      rw [hcount]
      cases hok.data hdata hrel with
      | inl hmore =>
        exact Or.inr hmore
      | inr harmed =>
        exact Or.inl (receiveSeq_armed _ pPacket now { e with owed := true } harmed howed)
    · exact { halive with }

/-! ### An endpoint that is alive recovers -/

variable {P : List UInt8 → Prop}

theorem willSend_now {now : UInt32} {w : List UInt8} {rest : List (List UInt8)}
    (h : (e.uartTxDone.hciH5Poll now).out = e.out ++ w :: rest) (hw : P w) : e.WillSend P :=
  ⟨[], now, w, rest, h, hw⟩

theorem willSend_later (now : UInt32) (h : (e.uartTxDone.hciH5Poll now).WillSend P) :
    e.WillSend P := by
  obtain ⟨ts, t, w, rest, hout, hw⟩ := h
  exact ⟨now :: ts, t, w, rest, hout, hw⟩

theorem WillSend.mono {Q : List UInt8 → Prop} (h : e.WillSend P) (hPQ : ∀ w, P w → Q w) :
    e.WillSend Q := by
  obtain ⟨ts, t, w, rest, hout, hw⟩ := h
  exact ⟨ts, t, w, rest, hout, hPQ w hw⟩

/-- A timer that is set runs out. -/
theorem exists_clockTimeExceed (tick : UInt32) :
    ∃ now, clockTimeExceed now tick (h5ResendTo * 1000) = true ∧
    clockTimeExceed now tick (h5PureAckTo * 1000) = true := by
  refine ⟨800001 + tick, ?_, ?_⟩ <;>
    · simp only [clockTimeExceed, UInt32.add_sub_cancel]
      decide

/-- What the pure acknowledgement of a round adds. -/
theorem pollAck_out (now : UInt32) (e : H5) : ∃ rest, (e.pollAck now).out = e.out ++ rest := by
  unfold pollAck
  split_ifs
  · rw [sendPureAck_eq]
    exact ⟨_, rfl⟩
  · exact ⟨[], (List.append_nil _).symm⟩

theorem pollAck_of_due {now : UInt32} (h : e.AckDue now) (huart : e.isUartTxDone = true) :
    (e.pollAck now).out = e.out ++ [{ e with rxTick := 0 }.txPkt hciH5PktTypeAck []] := by
  unfold AckDue at h
  rw [pollAck, if_pos h, sendPureAck_eq]
  simp only [huart, if_true]

/-- A round of an active endpoint that sends data. -/
theorem poll_out (hactive : e.linkState = .active) {now : UInt32} {w : List UInt8}
    (h : (e.pollData now).out = e.out ++ [w]) :
    ∃ rest, (e.hciH5Poll now).out = e.out ++ w :: rest := by
  obtain ⟨rest, hrest⟩ := pollAck_out now (e.pollData now)
  refine ⟨rest, ?_⟩
  unfold hciH5Poll
  rw [hactive]
  simp only
  rw [hrest, h, List.append_assoc]
  rfl

/-- The first packet that is not released. -/
theorem Steady.first (h : Steady e) (hmore : e.released < e.queued.length) :
    e.hciTxFifo.wptr ≠ e.hciTxFifo.rptr ∧
      e.queued[e.released]? = some (e.hciTxFifo.get (e.hciTxFifo.rptr % 2 ^ 8)) := by
  have hroom := h.fifo.room
  have hnum := e.hciTxFifo.num_le
  refine ⟨?_, ?_⟩
  · rw [h.fifo.wptr, h.fifo.rptr]
    omega
  · have hget := h.fifo.get_rptr (w := 0) hmore
    rw [Nat.add_zero] at hget
    rw [hget, List.getElem?_eq_getElem hmore]
    rfl

/-- Starting again sends it. -/
theorem Steady.resendStart_out (h : Steady e) (hW : 1 ≤ e.config.slidWinSize)
    (hmore : e.released < e.queued.length) (huart : e.isUartTxDone = true)
    (resendTick txTick now : UInt32) : ∃ w,
      ({ e with resendTick := resendTick, txTick := txTick }.hciH5ResendStart now).out =
        e.out ++ [w] ∧
        IsData (e.hciTxFifo.get (e.hciTxFifo.rptr % 2 ^ 8)) e.rxAck e.txAck w := by
  have hout := sendData_of_ready
    (e := { e with
      resendTick := resendTick, txTick := txTick, txSeq := e.rxAck, txSlidWinSize := 0 })
    now hW (h.first hmore).1 huart
  unfold hciH5ResendStart
  rw [hout]
  exact ⟨_, rfl,
    { e with resendTick := resendTick, txTick := txTick, txSeq := e.rxAck, txSlidWinSize := 0 },
      rfl, rfl, rfl⟩

/-! Which branch of `pollData` is taken. -/

theorem pollData_resend {now : UInt32} (htick : e.resendTick ≠ 0)
    (hexc : clockTimeExceed now e.resendTick (h5ResendTo * 1000) = true) :
    e.pollData now = { e with resendTick := 0 }.hciH5ResendStart now := by
  rw [pollData, if_pos htick, if_pos hexc]

theorem pollData_full {now : UInt32} (htick : e.resendTick = 0)
    (hfull : e.config.slidWinSize ≤ e.txSlidWinSize) (hmon : e.txTick ≠ 0)
    (hexc : clockTimeExceed now e.txTick (h5ResendTo * 1000) = true) :
    e.pollData now = { e with txTick := 0 }.hciH5ResendStart now := by
  rw [pollData, if_neg (not_not.mpr htick), if_pos hfull, if_pos ⟨hmon, hexc⟩]

theorem pollData_send (htick : e.resendTick = 0) (hroom : e.txSlidWinSize < e.config.slidWinSize)
    (now : UInt32) : e.pollData now = e.hciH5SendData now := by
  rw [pollData, if_neg (not_not.mpr htick), if_neg (not_le.mpr hroom)]

/-- The pure acknowledgement leaves the window alone. -/
theorem pollAck_window (now : UInt32) (e : H5) : (e.pollAck now).resendTick = e.resendTick ∧
    (e.pollAck now).txSlidWinSize = e.txSlidWinSize := by
  unfold pollAck
  split_ifs
  · rw [sendPureAck_eq]
    exact ⟨rfl, rfl⟩
  · exact ⟨rfl, rfl⟩

namespace Alive

/-- A full window is sent again when its monitor runs out. -/
theorem willSend_full (h : Alive e) (hactive : e.linkState = .active)
    (hW : 1 ≤ e.config.slidWinSize)
    (htick : e.resendTick = 0) (hfull : e.config.slidWinSize ≤ e.txSlidWinSize) :
    e.WillSend (IsData (e.hciTxFifo.get (e.hciTxFifo.rptr % 2 ^ 8)) e.rxAck e.txAck) := by
  have hpos : 0 < e.txSlidWinSize := by omega
  have hmore : e.released < e.queued.length := by
    have := h.filled htick hpos
    omega
  obtain ⟨now, hexc, -⟩ := exists_clockTimeExceed e.txTick
  have hsteady : Steady e.uartTxDone := { h.toSteady with }
  obtain ⟨w, hout, hw⟩ := hsteady.resendStart_out hW hmore rfl e.resendTick 0 now
  have hdata : (e.uartTxDone.pollData now).out = e.out ++ [w] := by
    rw [pollData_full (e := e.uartTxDone) htick hfull (h.tick htick hpos hfull) hexc]
    exact hout
  obtain ⟨rest, hrest⟩ := poll_out (e := e.uartTxDone) hactive hdata
  exact willSend_now hrest hw

/-- A round of the main loop with room in the window and data to send. -/
theorem poll_fill (h : Alive e) (hactive : e.linkState = .active) (htick : e.resendTick = 0)
    (hroom : e.txSlidWinSize < e.config.slidWinSize)
    (hfill : e.released + e.config.slidWinSize ≤ e.queued.length) :
    let d := e.uartTxDone.hciH5Poll 0
    Alive d ∧ Kept e d ∧ d.resendTick = 0 ∧ d.txSlidWinSize = e.txSlidWinSize + 1 := by
  have halive : Alive e.uartTxDone := { h with }
  have hfifo := h.fifo
  have hnum := e.hciTxFifo.num_le
  have hmax := hfifo.room
  have hcount : e.config.slidWinSize ≤ e.hciTxFifo.count := by
    rw [hfifo.count]
    omega
  have hmore : e.hciTxFifo.wptr ≠ e.hciTxFifo.rptr + e.txSlidWinSize := by
    rw [hfifo.wptr, hfifo.rptr]
    omega
  have hsend := sendData_of_ready (e := e.uartTxDone) 0 hroom hmore rfl
  have hdata := pollData_send (e := e.uartTxDone) htick hroom 0
  have hk : Kept e e.uartTxDone := by constructor <;> rfl
  have hpoll : e.uartTxDone.hciH5Poll 0 = (e.uartTxDone.pollData 0).pollAck 0 := by
    unfold hciH5Poll
    rw [show e.uartTxDone.linkState = .active from hactive]
  refine ⟨halive.poll hactive ⟨fun _ _ => hcount, fun _ _ => Or.inl rfl⟩, hk.trans (kept_poll 0 _),
    ?_, ?_⟩
  · rw [hpoll, (pollAck_window 0 _).1, hdata, hsend]
    exact htick
  · rw [hpoll, (pollAck_window 0 _).2, hdata, hsend]
    rfl

/-- A window that is not empty is filled, then sent again. -/
theorem willSend_window (k : ℕ) {e : H5} (h : Alive e) (hactive : e.linkState = .active)
    (hW : 1 ≤ e.config.slidWinSize) (htick : e.resendTick = 0) (hpos : 0 < e.txSlidWinSize)
    (hk : e.config.slidWinSize ≤ e.txSlidWinSize + k) :
    e.WillSend (IsData (e.hciTxFifo.get (e.hciTxFifo.rptr % 2 ^ 8)) e.rxAck e.txAck) := by
  induction k generalizing e with
  | zero => exact h.willSend_full hactive hW htick hk
  | succ k ih =>
    by_cases hfull : e.config.slidWinSize ≤ e.txSlidWinSize
    · exact h.willSend_full hactive hW htick hfull
    · obtain ⟨halive, hkept, htick', hwin⟩ :=
        h.poll_fill hactive htick (not_le.mp hfull) (h.filled htick hpos)
      have := ih halive (hkept.linkState.trans hactive) (hkept.config ▸ hW) htick' (by omega)
        (by rw [hkept.config]; omega)
      rw [hkept.hciTxFifo, hkept.rxAck, hkept.txAck] at this
      exact willSend_later 0 this

/-- **What is not released will be sent**: at once, when a monitor runs out, or when the window has
been filled and its monitor runs out. -/
theorem willSend (h : Alive e) (hactive : e.linkState = .active) (hW : 1 ≤ e.config.slidWinSize)
    (hmore : e.released < e.queued.length) :
    ∃ p, e.queued[e.released]? = some p ∧ e.WillSend (IsData p e.firstSeq e.txAck) := by
  refine ⟨_, (h.first hmore).2, ?_⟩
  have hsteady : Steady e.uartTxDone := { h.toSteady with }
  by_cases htick : e.resendTick = 0
  · by_cases hwin : e.txSlidWinSize = 0
    · -- nothing is in the window: the next packet to be sent is the first one
      have hroom : e.txSlidWinSize < e.config.slidWinSize := by omega
      have hnext : e.hciTxFifo.wptr ≠ e.hciTxFifo.rptr + e.txSlidWinSize := by
        rw [hwin]
        exact (h.first hmore).1
      have hdata : (e.uartTxDone.pollData 0).out =
          e.out ++ [e.uartTxDone.txPkt e.nextPkt.hciType.code e.nextPkt.payload] := by
        rw [pollData_send (e := e.uartTxDone) htick hroom,
          sendData_of_ready (e := e.uartTxDone) 0 hroom hnext rfl]
        rfl
      obtain ⟨rest, hrest⟩ := poll_out (e := e.uartTxDone) hactive hdata
      refine willSend_now hrest ⟨e.uartTxDone, (if_pos ⟨htick, hwin⟩).symm, rfl, ?_⟩
      rw [nextPkt, hwin, Nat.add_zero]
    · rw [firstSeq, if_neg fun hempty => hwin hempty.2]
      exact willSend_window e.config.slidWinSize h hactive hW htick (Nat.pos_of_ne_zero hwin)
        (by omega)
  · rw [firstSeq, if_neg fun hempty => htick hempty.1]
    obtain ⟨now, hexc, -⟩ := exists_clockTimeExceed e.resendTick
    obtain ⟨w, hout, hw⟩ := hsteady.resendStart_out hW hmore rfl 0 e.txTick now
    have hdata : (e.uartTxDone.pollData now).out = e.out ++ [w] := by
      rw [pollData_resend (e := e.uartTxDone) htick hexc]
      exact hout
    obtain ⟨rest, hrest⟩ := poll_out (e := e.uartTxDone) hactive hdata
    exact willSend_now hrest hw

/-- **An acknowledgement that is owed will be sent.** -/
theorem willAck (h : Alive e) (hactive : e.linkState = .active) (hW : 1 ≤ e.config.slidWinSize)
    (howed : e.owed = true) : e.WillSend (IsAck e.txAck) := by
  rcases h.owed howed with ⟨hone, harmed⟩ | hmore
  · obtain ⟨now, -, hexc⟩ := exists_clockTimeExceed e.rxTick
    have hk := kept_pollData now e.uartTxDone
    rcases pollData_sentOrLeft now e.uartTxDone with ⟨-, -, p, w, hout, seq, hw⟩ |
      ⟨-, htick, huart, hout⟩
    · obtain ⟨rest, hrest⟩ := poll_out (e := e.uartTxDone) hactive hout
      exact willSend_now hrest (Or.inr ⟨p, seq, hw⟩)
    · have hdue : (e.uartTxDone.pollData now).AckDue now := by
        refine ⟨?_, ?_, ?_⟩
        · rw [hk.config]
          exact hone
        · rw [htick]
          exact harmed
        · rw [htick]
          exact hexc
      have hpoll : (e.uartTxDone.hciH5Poll now).out = e.out ++
          { e.uartTxDone.pollData now with rxTick := 0 }.txPkt hciH5PktTypeAck [] :: [] := by
        unfold hciH5Poll
        rw [show e.uartTxDone.linkState = .active from hactive]
        simp only
        rw [pollAck_of_due hdue (huart.trans rfl), hout]
        rfl
      exact willSend_now hpoll (Or.inl ⟨_, hk.txAck, rfl⟩)
  · obtain ⟨p, -, hwill⟩ := h.willSend hactive hW hmore
    exact hwill.mono fun w hw => Or.inr ⟨p, _, hw⟩

/-- **An endpoint that is alive recovers.** -/
theorem recovers (h : Alive e) (hactive : e.linkState = .active) (hW : 1 ≤ e.config.slidWinSize) :
    Recovers e :=
  ⟨fun hsent => h.willSend hactive hW (hsent.trans_le h.sent), h.willAck hactive hW⟩

end Alive

end H5

/-! ### Runs -/

namespace H5Net

open H5

/-- The condition on a SLIP packet that arrives: the one on the packet that is decoded from it. -/
def ArrivalOk (w : List UInt8) (e : H5) : Prop :=
  6 ≤ w.length → (slipDecode e.decodeBufSize (w.drop 1).dropLast).2 = true →
    e.PacketOk (buffer (slipDecode e.decodeBufSize (w.drop 1).dropLast).1 e.decodeBuf)
      (slipDecode e.decodeBufSize (w.drop 1).dropLast).1.length

/-- **The condition on a step.** -/
def RecoverOk (n : H5Net) : H5Input → Prop
  | .poll s now => (n.side s).linkState = .active → (n.side s).RoundOk now
  | .recv s _ => ∀ w ∈ (n.wire s.peer).head?, ArrivalOk w (n.side s)
  | _ => True

instance (w : List UInt8) (e : H5) : Decidable (ArrivalOk w e) :=
  inferInstanceAs (Decidable (_ → _ → _))

instance (n : H5Net) : ∀ i, Decidable (n.RecoverOk i)
  | .poll s now =>
    inferInstanceAs (Decidable ((n.side s).linkState = .active → (n.side s).RoundOk now))
  | .recv s _ => inferInstanceAs (Decidable (∀ w ∈ (n.wire s.peer).head?, ArrivalOk w (n.side s)))
  | .queue _ _ | .lose _ | .txDone _ | .handle _ => inferInstanceAs (Decidable True)

/-- A SLIP packet keeps the invariant. -/
theorem alive_decodePacket {e : H5} (h : e.linkState = .active → Alive e) {w : List UInt8}
    {now : UInt32}
    (hok : ArrivalOk w e) (hactive : (e.hciSlipDecodePacket w now).linkState = .active) :
    Alive (e.hciSlipDecodePacket w now) := by
  unfold hciSlipDecodePacket at hactive ⊢
  split_ifs at hactive ⊢ with hshort
  · exact h hactive
  · have hbuf : ∀ buf, (e.withBuf buf).linkState = .active → Alive (e.withBuf buf) :=
      fun buf ha => { h ha with }
    simp only at hactive ⊢
    split_ifs at hactive ⊢ with hdone
    · have hpacket := hok (not_lt.mp hshort) hdone
      exact alive_pakcetHandler (hbuf _) ⟨hpacket.ack, fun hd => hpacket.data { hd with }⟩ hactive
    · exact hbuf _ hactive

variable {n : H5Net}

/-- An endpoint that makes a step keeps the active endpoints alive. -/
theorem alive_set (h : ∀ s, (n.side s).linkState = .active → Alive (n.side s)) (s : Side) {e : H5}
    (he : e.linkState = .active → Alive e) (t : Side)
    (hactive : ((n.set s e).side t).linkState = .active) :
    Alive ((n.set s e).side t) := by
  rcases Side.eq_or_eq_peer s t with rfl | rfl
  · rw [set_side_self] at hactive ⊢
    exact { he hactive with }
  · rw [set_side_peer] at hactive ⊢
    exact h _ hactive

/-- **One thing that happens keeps the active endpoints alive.** -/
theorem alive_step (h : ∀ s, (n.side s).linkState = .active → Alive (n.side s)) {i : H5Input}
    (hok : n.RecoverOk i) (t : Side) (hactive : ((n.step i).side t).linkState = .active) :
    Alive ((n.step i).side t) := by
  cases i with
  | poll s now =>
    refine alive_set h s (fun ha => ?_) t hactive
    have hwas := (kept_poll now (n.side s)).linkState.symm.trans ha
    exact (h s hwas).poll hwas (hok hwas)
  | recv s now =>
    simp only [H5Net.step] at hactive ⊢
    cases hwire : n.wire s.peer with
    | nil =>
      rw [hwire] at hactive
      exact h t hactive
    | cons w ws =>
      rw [hwire] at hactive
      have hw : ArrivalOk w (n.side s) := hok w (by rw [hwire]; rfl)
      exact alive_set (n := n.setWire s.peer ws) h s (alive_decodePacket (h s) hw) t hactive
  | lose s => exact h t hactive
  | txDone s =>
    exact alive_set h s (e := (n.side s).uartTxDone)
      (fun ha => { h s ha with }) t hactive
  | queue s p =>
    refine alive_set h s (fun ha => ?_) t hactive
    unfold H5.queue at ha ⊢
    split_ifs at ha ⊢ with hroom
    · have halive := h s ha
      have hsent := halive.sent
      have hlen : (n.side s).queued.length < ((n.side s).queued ++ [p]).length := by simp
      exact { halive with
        fifo := halive.fifo.push hroom p
        sent := hsent.trans hlen.le
        filled := fun htick hpos => (halive.filled htick hpos).trans hlen.le
        owed := fun howed => (halive.owed howed).imp id fun hmore => hmore.trans hlen }
    · exact h s ha
  | handle s =>
    refine alive_set h s (fun ha => ?_) t hactive
    unfold hciRxHandler at ha ⊢
    split_ifs at ha ⊢
    · exact h s ha
    · exact { h s ha with }

/-- **Recovery**: in every run from `HCI_H5_Init` whose steps meet `RecoverOk`, an active endpoint
sends again what is not released and acknowledges what it has processed, without further input. -/
theorem recovers_run (c : Side → LocalConfig) (rx : Side → RingBuffer RxPkt)
    (tx : Side → RingBuffer TxPkt)
    (size : Side → ℕ) (buf : Side → Mem) (now : Side → UInt32) {is : List H5Input}
    (hwindow : 1 ≤ linkWindow c) (hok : Run.Along step RecoverOk (linkInit c rx tx size buf now) is)
    (s : Side) (hactive : (((linkInit c rx tx size buf now).run is).side s).linkState = .active) :
    Recovers (((linkInit c rx tx size buf now).run is).side s) := by
  have halive := hok.induction
    (P := fun _ n => ∀ s, (n.side s).linkState = .active → Alive (n.side s))
    (fun s ha => by cases ha) fun is i h hi t ha => alive_step h hi t ha
  have hlink := (linked_run c rx tx size buf now is).side s
  have hsize : 1 ≤ (((linkInit c rx tx size buf now).run is).side s).config.slidWinSize := by
    rw [hlink.active hactive, negotiated_window]
    exact hwindow
  exact (halive s hactive).recovers hactive hsize

/-- Two endpoints after `HCI_H5_Init` that want a window of one packet. -/
def singleInit : H5Net :=
  linkInit (fun _ => ⟨⟨1, 0, 0, 0⟩, by decide, by decide, by decide, by decide⟩)
    (fun _ => ⟨8, eight_dvd, fun _ => ⟨0, []⟩, 0, 0⟩)
    (fun _ => ⟨8, eight_dvd, fun _ => ⟨.event, [], TxPkt.fits_nil⟩, 0, 0⟩) (fun _ => 64)
    (fun _ _ => 0) fun _ => 0

/-- After the handshake a packet is sent, and its acknowledgement is lost. -/
def lostAck : List H5Input :=
  handshake ++ [.txDone .left, .txDone .right, .queue .left (byteEvent 1),
    .poll .left 20000000, .txDone .left, .recv .right 20000000, .poll .right 20200000, .lose .left]

/-- The packet will be sent again. -/
theorem lostAck_recovers : Recovers ((singleInit.run lostAck).side .left) :=
  recovers_run _ _ _ _ _ _ (by decide) (by decide +kernel) .left (by decide +kernel)

end H5Net

namespace H5

/-! ### What does not recover -/

/-- A window that is not full, with no more data to send. -/
structure Stuck (e : H5) : Prop where
  /-- The link is active. -/
  active : e.linkState = .active
  /-- No bad acknowledgement was received. -/
  tick : e.resendTick = 0
  /-- The window is not full. -/
  room : e.txSlidWinSize < e.config.slidWinSize
  /-- There is no more data. -/
  ended : e.hciTxFifo.wptr = e.hciTxFifo.rptr + e.txSlidWinSize
  /-- The window is not 1. -/
  several : e.config.slidWinSize ≠ 1

instance (e : H5) : Decidable e.Stuck :=
  decidable_of_iff (_ ∧ _ ∧ _ ∧ _ ∧ _)
    ⟨fun h => ⟨h.1, h.2.1, h.2.2.1, h.2.2.2.1, h.2.2.2.2⟩,
      fun h => ⟨h.active, h.tick, h.room, h.ended, h.several⟩⟩

variable {e : H5}

/-- The main loop does nothing. -/
theorem Stuck.poll (h : Stuck e) (now : UInt32) : e.hciH5Poll now = e := by
  have hdata : e.pollData now = e := by
    rw [pollData_send h.tick h.room, hciH5SendData, if_neg (not_le.mpr h.room), if_pos h.ended]
  unfold hciH5Poll
  rw [h.active]
  simp only
  rw [hdata, pollAck, if_neg fun hdue => h.several hdue.1]

theorem Stuck.uartTxDone (h : Stuck e) : Stuck e.uartTxDone :=
    ⟨h.active, h.tick, h.room, h.ended, h.several⟩

/-- **The main loop of such an endpoint never sends anything.** -/
theorem Stuck.not_willSend (h : Stuck e) (P : List UInt8 → Prop) : ¬ e.WillSend P := by
  rintro ⟨ts, now, w, rest, hout, -⟩
  have hall : Stuck (e.pollAll ts) := by
    clear hout
    induction ts generalizing e with
    | nil => exact h
    | cons t ts ih =>
      have hnext : Stuck (e.uartTxDone.hciH5Poll t) := by
        rw [h.uartTxDone.poll]
        exact h.uartTxDone
      exact ih hnext
  rw [hall.uartTxDone.poll] at hout
  have hlen := congrArg List.length hout
  simp [H5.uartTxDone] at hlen

end H5

namespace H5Net

open H5

/-- After the handshake one packet is sent, with a window of two. -/
def halfWindow : List H5Input :=
  handshake ++ [.txDone .left, .txDone .right, .queue .left ⟨.event, [1], by decide⟩,
    .poll .left 20000000]

/-- **A packet that does not fill the window is not sent again.** -/
theorem half_window_stuck : ¬ ∀ (c : Side → LocalConfig) (rx : Side → RingBuffer RxPkt)
    (tx : Side → RingBuffer TxPkt)
    (size : Side → ℕ) (buf : Side → Mem) (now : Side → UInt32) (is : List H5Input) (s : Side),
    1 ≤ linkWindow c →
    (∀ t, (((linkInit c rx tx size buf now).run is).side t).linkState = .active) →
      Recovers (((linkInit c rx tx size buf now).run is).side s) := by
  intro h
  have hrec : Recovers ((smallInit.run halfWindow).side .left) :=
    h smallConfig _ _ _ _ _ halfWindow .left (by decide) fun t => by cases t <;> decide +kernel
  have hstuck : Stuck ((smallInit.run halfWindow).side .left) := by decide +kernel
  have hsent : ((smallInit.run halfWindow).side .left).released <
      ((smallInit.run halfWindow).side .left).sent := by decide +kernel
  obtain ⟨p, -, hwill⟩ := hrec.retransmits hsent
  exact hstuck.not_willSend _ hwill

end H5Net

end TcBle.HciTransport
