import TcBle.HciTransport.H5Sequence
import TcBle.HciTransport.H5Simulation

/-!
# What the sender of H5 may send

`HCI_H5_SendData` sends the packet that is `txSlidWinSize` places behind the read counter of
the TX FIFO. An endpoint is given any packets at all, as in `H5Sequence`, and each call that
its main loop makes is looked at: is the slot between the counters, and is nothing changed
when the UART does not take the packet?

## What is proved

* `window_run` — no more than a window of packets is ever unacknowledged.
* `sendsQueued_iff` — a call sends a queued packet, or leaves number and window as they were,
  exactly when it meets `SendOk`: not all of the FIFO is in flight with the write counter
  wrapped around, and a packet that the UART refuses has a reliable type.
* `sender_iff` — so it is for the calls of a run.
-/

namespace TcBle.HciTransport.H5

open TcBle.Foundation

/-! ### The sender -/

/-- What the sender depends on. -/
structure Sender where
  /-- The TX FIFO. -/
  hciTxFifo : RingBuffer TxPkt
  /-- The next sequence number. -/
  txSeq : ℕ
  /-- The last acknowledgement received. -/
  rxAck : ℕ
  /-- Packets sent and not acknowledged. -/
  txSlidWinSize : ℕ
  /-- The negotiated window. -/
  slidWinSize : ℕ
  /-- How many packets were sent at least once. -/
  sent : ℕ
  /-- How many packets are released. -/
  released : ℕ

/-- The sender of an endpoint. -/
def sender (e : H5) : Sender :=
  ⟨e.hciTxFifo, e.txSeq, e.rxAck, e.txSlidWinSize, e.config.slidWinSize, e.sent, e.released⟩

/-- **The window is kept**: the counters and numbers have their bits, and no more than a window
of packets is unacknowledged. -/
structure Sender.Window (v : Sender) : Prop where
  /-- Eight bits. -/
  wptr : v.hciTxFifo.wptr < 2 ^ 8
  /-- Eight bits. -/
  rptr : v.hciTxFifo.rptr < 2 ^ 8
  /-- Three bits. -/
  txSeq : v.txSeq < 8
  /-- Three bits. -/
  rxAck : v.rxAck < 8
  /-- The packets in flight. -/
  inFlight : v.txSlidWinSize ≤ v.slidWinSize
  /-- The packets that were sent, in flight or to be sent again. -/
  unacked : v.sent ≤ v.released + v.slidWinSize

/-- What is in flight is queued. -/
def Sender.Queued (v : Sender) : Prop := v.txSlidWinSize ≤ v.hciTxFifo.count

/-- The counter `r` is that of a slot between the read and the write counter. -/
def Between (q : RingBuffer TxPkt) (r : ℕ) : Prop := (r + (2 ^ 8 - q.rptr)) % 2 ^ 8 < q.count

instance (q : RingBuffer TxPkt) (r : ℕ) : Decidable (Between q r) :=
  inferInstanceAs (Decidable (_ < _))

/-- **A call of `HCI_H5_SendData` does what it may**: what it gives to the UART is in a slot
between the counters, and a refusal of the UART changes neither number nor window. -/
structure SendsQueued (now : UInt32) (e : H5) : Prop where
  /-- The slot. -/
  slot : (e.hciH5SendData now).out ≠ e.out →
    Between e.hciTxFifo ((e.hciTxFifo.rptr + e.txSlidWinSize) % 2 ^ 8)
  /-- The refusal. -/
  refused : e.isUartTxDone = false → (e.hciH5SendData now).txSeq = e.txSeq ∧
    (e.hciH5SendData now).txSlidWinSize = e.txSlidWinSize

/-- **The condition on a call of `HCI_H5_SendData`.** -/
structure SendOk (e : H5) : Prop where
  /-- When everything in the FIFO is in flight, and the window is not full, the write counter is
  not wrapped around. -/
  ended : e.isUartTxDone = true → e.txSlidWinSize < e.config.slidWinSize →
    e.txSlidWinSize = e.hciTxFifo.count → e.hciTxFifo.rptr + e.txSlidWinSize < 2 ^ 8
  /-- What the UART refuses is of a reliable type. -/
  reliable : e.isUartTxDone = false → e.txSlidWinSize < e.config.slidWinSize →
    e.hciTxFifo.wptr ≠ e.hciTxFifo.rptr + e.txSlidWinSize → e.nextPkt.Reliable

instance (e : H5) : Decidable (e.SendOk) :=
  decidable_of_iff (_ ∧ _) ⟨fun h => ⟨h.1, h.2⟩, fun h => ⟨h.ended, h.reliable⟩⟩

/-! ### One call -/

variable {e : H5}

/-- The slot that is sent next is between the counters when more is queued than in flight. -/
theorem between_iff (h : e.sender.Window) (hq : e.sender.Queued) :
    Between e.hciTxFifo ((e.hciTxFifo.rptr + e.txSlidWinSize) % 2 ^ 8) ↔
      e.txSlidWinSize < e.hciTxFifo.count := by
  have hr : e.hciTxFifo.rptr < 2 ^ 8 := h.rptr
  have hle : e.txSlidWinSize ≤ e.hciTxFifo.count := hq
  have hcount : e.hciTxFifo.count < 2 ^ 8 := Nat.mod_lt _ (by simp)
  have hplace :
      ((e.hciTxFifo.rptr + e.txSlidWinSize) % 2 ^ 8 + (2 ^ 8 - e.hciTxFifo.rptr)) % 2 ^ 8 =
        e.txSlidWinSize := by omega
  rw [Between, hplace]

/-- The write counter is that of the slot sent next, when everything queued is in flight. -/
theorem wptr_eq_iff (h : e.sender.Window) (hq : e.sender.Queued) :
    e.hciTxFifo.wptr = e.hciTxFifo.rptr + e.txSlidWinSize ↔
      e.txSlidWinSize = e.hciTxFifo.count ∧ e.hciTxFifo.rptr + e.txSlidWinSize < 2 ^ 8 := by
  have hw : e.hciTxFifo.wptr < 2 ^ 8 := h.wptr
  have hr : e.hciTxFifo.rptr < 2 ^ 8 := h.rptr
  have hle : e.txSlidWinSize ≤ e.hciTxFifo.count := hq
  rw [RingBuffer.count] at hle ⊢
  omega

/-- **A call whose packet the UART refuses** takes the number back, also if it was not advanced. -/
theorem sendData_refused (now : UInt32) (hroom : e.txSlidWinSize < e.config.slidWinSize)
    (hmore : e.hciTxFifo.wptr ≠ e.hciTxFifo.rptr + e.txSlidWinSize)
    (huart : e.isUartTxDone = false) :
    (e.hciH5SendData now).out = e.out ∧
      (e.hciH5SendData now).txSeq = ((if hciH5IsReliablePacket e.nextPkt.hciType.code then
        (e.txSeq + 1) % 8 else e.txSeq) + 7) % 8 ∧
      (e.hciH5SendData now).txSlidWinSize = e.txSlidWinSize := by
  rcases sendData_cases now e with ⟨hfull | hempty, -⟩ | ⟨-, -, heq⟩
  · exact absurd hroom (not_lt.mpr hfull)
  · exact absurd hempty hmore
  · rw [heq, huart, hciH5Send_eq]
    refine ⟨?_, rfl, rfl⟩
    simp [dataNotSent]

/-- **A call does what it may exactly when it meets its condition.** -/
theorem sendsQueued_iff (h : e.sender.Window) (hq : e.sender.Queued) (now : UInt32) :
    SendsQueued now e ↔ SendOk e := by
  have hend := wptr_eq_iff h hq
  have hslot := between_iff h hq
  have hle : e.txSlidWinSize ≤ e.hciTxFifo.count := hq
  have hseq : e.txSeq < 8 := h.txSeq
  rcases sendData_cases now e with ⟨hnothing, heq⟩ | ⟨hroom, hmore, heq⟩
  · -- nothing is sent, and the condition asks nothing
    constructor
    · intro _
      refine ⟨fun _ hroom hall => ?_, fun _ hroom hmore => ?_⟩
      · cases hnothing with
        | inl hfull =>
          exact absurd hroom (not_lt.mpr hfull)
        | inr hempty =>
          exact (hend.mp hempty).2
      · cases hnothing with
        | inl hfull =>
          exact absurd hroom (not_lt.mpr hfull)
        | inr hempty =>
          exact absurd hempty hmore
    · intro _
      refine ⟨fun hout => absurd (congrArg H5.out heq) hout, fun _ => ?_⟩
      rw [heq]
      exact ⟨rfl, rfl⟩
  · cases huart : e.isUartTxDone with
    | true =>
      have hout : (e.hciH5SendData now).out ≠ e.out := by
        rw [heq, huart, hciH5Send_eq]
        simp [dataSent]
      constructor
      · intro hsends
        refine ⟨fun _ _ hall => ?_, fun hf => absurd (huart.symm.trans hf) (by simp)⟩
        have := hslot.mp (hsends.slot hout)
        omega
      · intro hok
        refine ⟨fun _ => hslot.mpr ?_, fun hf => absurd (huart.symm.trans hf) (by simp)⟩
        by_contra hnot
        have hall : e.txSlidWinSize = e.hciTxFifo.count := by omega
        exact hmore (hend.mpr ⟨hall, hok.ended huart hroom hall⟩)
    | false =>
      obtain ⟨hstay, hnum, hwin⟩ := sendData_refused now hroom hmore huart
      constructor
      · intro hsends
        refine ⟨fun ht => absurd (huart.symm.trans ht) (by simp), fun _ _ _ => ?_⟩
        have hback := (hsends.refused huart).1
        rw [hnum] at hback
        by_contra hrel
        have hunrel : ¬ hciH5IsReliablePacket e.nextPkt.hciType.code = true := hrel
        rw [if_neg hunrel] at hback
        omega
      · intro hok
        refine ⟨fun hout => absurd hstay hout, fun _ => ⟨?_, hwin⟩⟩
        have hrel : hciH5IsReliablePacket e.nextPkt.hciType.code = true :=
          hok.reliable huart hroom hmore
        rw [hnum, if_pos hrel]
        omega

/-! ### What changes the sender -/

/-- What happens to the sender but for the calls of `HCI_H5_SendData`. -/
inductive SenderStep : Sender → Sender → Prop where
  /-- Nothing. -/
  | stay (v : Sender) : SenderStep v v
  /-- An acknowledgement that is not the one waited for. -/
  | ack {n : ℕ} (hn : n < 8) (v : Sender) : SenderStep v { v with rxAck := n }
  /-- An acknowledgement of everything sent. -/
  | release {n : ℕ} (hn : n < 8) (v : Sender) : SenderStep v
      { v with hciTxFifo := v.hciTxFifo.release v.txSlidWinSize, rxAck := n, txSlidWinSize := 0,
               released := v.released + v.txSlidWinSize }
  /-- A reset, to the window `w`. -/
  | reset (w : ℕ) (v : Sender) : SenderStep v ⟨v.hciTxFifo.reset, 0, 0, 0, w, 0, 0⟩
  /-- A packet is queued. -/
  | queue (p : TxPkt) {v : Sender} (hroom : v.hciTxFifo.count < v.hciTxFifo.num) :
      SenderStep v { v with hciTxFifo := v.hciTxFifo.push p }

theorem SenderStep.window {v v' : Sender} (h : SenderStep v v') (hv : v.Window) : v'.Window := by
  cases h with
  | stay => exact hv
  | ack hn => exact { hv with rxAck := hn }
  | release hn =>
    have hun := hv.unacked
    refine ⟨hv.wptr, Nat.mod_lt _ (by simp), hv.txSeq, hn, Nat.zero_le _, ?_⟩
    simp only
    omega
  | reset w =>
    refine ⟨Nat.two_pow_pos 8, Nat.two_pow_pos 8, Nat.zero_lt_succ _, Nat.zero_lt_succ _,
      Nat.zero_le _, Nat.zero_le _⟩
  | queue p => exact { hv with wptr := Nat.mod_lt _ (by simp) }

theorem SenderStep.queued {v v' : Sender} (h : SenderStep v v') (hv : v.Queued) : v'.Queued := by
  cases h with
  | stay => exact hv
  | ack => exact hv
  | release => exact Nat.zero_le _
  | reset => exact Nat.zero_le _
  | queue p hroom =>
    have hle : v.txSlidWinSize ≤ v.hciTxFifo.count := hv
    simp only [Sender.Queued, RingBuffer.count_push _ p hroom]
    omega

/-- The packet of a data packet does not concern the sender. -/
theorem sender_receiveSeq (head : HciH5Head) (pPacket : Mem) (now : UInt32) (e : H5) :
    (e.receiveSeq head pPacket now).sender = e.sender := by
  rw [receiveSeq_eq]
  split_ifs
  · rw [sendPureAck_eq]
    rfl
  · rfl
  · rfl

/-- The link messages do not concern it either, but for a reset. -/
theorem senderStep_decodeLinkPdu (e : H5) (pPacket : Mem) (now : UInt32) :
    SenderStep e.sender (e.hciH5DecodeLinkPdu pPacket now).sender := by
  have hsend : ∀ (msg : ℕ) (rest : List UInt8) (d : H5),
      (d.sendLink msg rest).sender = d.sender := by
    intro msg rest d
    rw [sendLink_eq]
    rfl
  unfold hciH5DecodeLinkPdu
  cases e.linkState with
  | idle =>
    simp only [hciH5SendSyncRsp, hciH5SendConfig, hciH5SendSync]
    split_ifs <;> rw [hsend] <;> exact .stay _
  | init =>
    simp only [hciH5SendSyncRsp, hciH5SendConfigRsp]
    split_ifs
    · rw [hsend]
      exact .stay _
    · rw [hsend]
      exact .stay _
    · exact .reset _ _
    · exact .stay _
  | active =>
    simp only [hciH5SendSyncRsp, hciH5SendConfigRsp]
    split_ifs
    · rw [hsend]
      exact .stay _
    · rw [hsend]
      exact .reset _ _
    · exact .stay _

theorem senderStep_reSendCheck {n : ℕ} (hn : n < 8) (now : UInt32) (e : H5) :
    SenderStep e.sender (H5.hciH5ReSendCheck now { e with rxAck := n }).sender := by
  unfold hciH5ReSendCheck
  split
  · exact .release hn e.sender
  · exact .ack hn e.sender

theorem senderStep_receiveAck {head : HciH5Head} (hn : head.ackNum < 8) (now : UInt32) (e : H5) :
    SenderStep e.sender (e.receiveAck head now).sender := by
  unfold receiveAck
  split
  · exact .release hn e.sender
  · exact .stay e.sender

/-- **What a packet does to the sender.** -/
theorem senderStep_pakcetHandler (e : H5) (pPacket : Mem) (len : ℕ) (now : UInt32) :
    SenderStep e.sender (e.hciH5PakcetHandler pPacket len now).sender := by
  have hn : (hciH5UnpackHeader pPacket).ackNum < 8 := (fits_unpackHeader pPacket).ackNum
  rcases pakcetHandler_cases e pPacket len now with heq | ⟨hwf, hack, hstate⟩ | ⟨hwf, hlink⟩ | hdata
  · rw [heq]
    exact .stay _
  · rw [pakcetHandler_of_ack hwf hack hstate]
    exact senderStep_reSendCheck hn now e
  · rw [pakcetHandler_of_link hwf hlink]
    exact senderStep_decodeLinkPdu e pPacket now
  · rw [pakcetHandler_of_takesData hdata]
    split
    · have hack := senderStep_receiveAck hn now
        (H5.receiveSeq (hciH5UnpackHeader pPacket) pPacket now { e with owed := true })
      rw [sender_receiveSeq] at hack
      exact hack
    · exact .stay e.sender

/-! ### The calls of the main loop -/

/-- The state in which a round of the main loop calls `HCI_H5_SendData`, if it does. -/
def pollCall (now : UInt32) (e : H5) : Option H5 :=
  if e.linkState = .active then
    if e.resendTick ≠ 0 then
      if clockTimeExceed now e.resendTick (h5ResendTo * 1000) then
        some { e with resendTick := 0, txSeq := e.rxAck, txSlidWinSize := 0 }
      else none
    else if e.config.slidWinSize ≤ e.txSlidWinSize then
      if e.txTick ≠ 0 ∧ clockTimeExceed now e.txTick (h5ResendTo * 1000) then
        some { e with txTick := 0, txSeq := e.rxAck, txSlidWinSize := 0 }
      else none
    else some e
  else none

/-- **A round of the main loop** does to the sender what its call of `HCI_H5_SendData` does. -/
theorem sender_poll (now : UInt32) (e : H5) : (e.hciH5Poll now).sender =
    match e.pollCall now with
    | some d => (d.hciH5SendData now).sender
    | none => e.sender := by
  have hack : ∀ d : H5, (d.pollAck now).sender = d.sender := by
    intro d
    unfold pollAck
    split_ifs
    · rw [sendPureAck_eq]
      rfl
    · rfl
  by_cases hactive : e.linkState = .active
  · have hpoll : e.hciH5Poll now = (e.pollData now).pollAck now := by
      unfold hciH5Poll
      rw [hactive]
    rw [hpoll, hack, pollCall, if_pos hactive, pollData]
    split_ifs <;> rfl
  · rw [pollCall, if_neg hactive]
    unfold hciH5Poll
    cases hstate : e.linkState with
    | idle =>
      simp only [hciH5SendSync, sendLink_eq]
      split <;> rfl
    | init =>
      simp only [hciH5SendConfig, sendLink_eq]
      split <;> rfl
    | active => exact absurd hstate hactive

/-- A call is made in a state that is in order as well. -/
theorem pollCall_sender {now : UInt32} {d : H5} (hd : d ∈ e.pollCall now)
    (h : e.sender.Window) : d.sender.Window ∧ (e.sender.Queued → d.sender.Queued) := by
  have hagain : ∀ txTick resendTick : UInt32, Sender.Window (H5.sender { e with
      txTick := txTick, resendTick := resendTick, txSeq := e.rxAck, txSlidWinSize := 0 }) :=
    fun _ _ => { h with txSeq := h.rxAck, inFlight := Nat.zero_le _ }
  unfold pollCall at hd
  split_ifs at hd
  · obtain rfl := Option.some.inj hd
    exact ⟨hagain e.txTick 0, fun _ => Nat.zero_le _⟩
  · exact absurd hd (Option.not_mem_none d)
  · obtain rfl := Option.some.inj hd
    exact ⟨hagain 0 e.resendTick, fun _ => Nat.zero_le _⟩
  · exact absurd hd (Option.not_mem_none d)
  · obtain rfl := Option.some.inj hd
    exact ⟨h, id⟩
  · exact absurd hd (Option.not_mem_none d)

/-- A call keeps the window. -/
theorem window_sendData (h : e.sender.Window) (now : UInt32) :
    (e.hciH5SendData now).sender.Window := by
  have hseq : e.txSeq < 8 := h.txSeq
  have hun : e.sent ≤ e.released + e.config.slidWinSize := h.unacked
  rcases sendData_cases now e with ⟨-, heq⟩ | ⟨hroom, -, heq⟩
  · rw [heq]
    exact h
  · rw [heq, hciH5Send_eq]
    split
    · refine ⟨h.wptr, h.rptr, ?_, h.rxAck, hroom, ?_⟩
      · simp only [sender, dataSent]
        split_ifs <;> omega
      · simp only [sender, dataSent]
        omega
    · refine ⟨h.wptr, h.rptr, Nat.mod_lt _ (by simp), h.rxAck, ?_, hun⟩
      simp only [sender, dataNotSent]
      omega

/-- A call that meets its condition leaves what is in flight queued. -/
theorem queued_sendData (h : e.sender.Window) (hq : e.sender.Queued) (hok : SendOk e)
    (now : UInt32) : (e.hciH5SendData now).sender.Queued := by
  have hend := wptr_eq_iff h hq
  have hle : e.txSlidWinSize ≤ e.hciTxFifo.count := hq
  rcases sendData_cases now e with ⟨-, heq⟩ | ⟨hroom, hmore, heq⟩
  · rw [heq]
    exact hq
  · rw [heq, hciH5Send_eq]
    cases huart : e.isUartTxDone with
    | true =>
      have hlt : e.txSlidWinSize < e.hciTxFifo.count := by
        refine lt_of_le_of_ne hle fun hall => ?_
        exact hmore (hend.mpr ⟨hall, hok.ended huart hroom hall⟩)
      exact hlt
    | false => exact hle

/-! ### Runs -/

/-- The calls of `HCI_H5_SendData` that an event makes do what they may. -/
def CallsSend (e : H5) : Event → Prop
  | .poll now => ∀ d ∈ e.pollCall now, SendsQueued now d
  | _ => True

/-- They meet their condition. -/
def CallsOk (e : H5) : Event → Prop
  | .poll now => ∀ d ∈ e.pollCall now, SendOk d
  | _ => True

instance (e : H5) (ev : Event) : Decidable (CallsOk e ev) :=
  match ev with
  | .poll now => inferInstanceAs (Decidable (∀ d ∈ e.pollCall now, SendOk d))
  | .rx _ _ _ | .txDone | .queue _ | .handle => inferInstanceAs (Decidable True)

/-- What is no round of the main loop. -/
theorem senderStep_event {ev : Event} (hpoll : ∀ now, ev ≠ .poll now) :
    SenderStep e.sender (event e ev).sender := by
  cases ev with
  | rx pPacket len now => exact senderStep_pakcetHandler e pPacket len now
  | poll now => exact absurd rfl (hpoll now)
  | txDone => exact .stay _
  | queue p =>
    simp only [event, H5.queue]
    split_ifs with hroom
    · exact .queue p hroom
    · exact .stay _
  | handle =>
    simp only [event, hciRxHandler]
    split_ifs
    · exact .stay _
    · exact .stay _

/-- **One event keeps the window.** -/
theorem window_event (h : e.sender.Window) (ev : Event) : (event e ev).sender.Window := by
  by_cases hpoll : ∃ now, ev = .poll now
  · obtain ⟨now, rfl⟩ := hpoll
    rw [event, sender_poll]
    cases hcall : e.pollCall now with
    | none => exact h
    | some d => exact window_sendData (pollCall_sender hcall h).1 now
  · exact (senderStep_event fun now hev => hpoll ⟨now, hev⟩).window h

/-- **No more than a window of packets is ever unacknowledged.** -/
theorem window_run (h : e.sender.Window) (evs : List Event) :
    (evs.foldl event e).sender.Window := by
  induction evs generalizing e with
  | nil => exact h
  | cons ev evs ih => exact ih (window_event h ev)

/-- An event whose calls meet their condition leaves what is in flight queued. -/
theorem queued_event (h : e.sender.Window) (hq : e.sender.Queued) {ev : Event}
    (hok : CallsOk e ev) : (event e ev).sender.Queued := by
  by_cases hpoll : ∃ now, ev = .poll now
  · obtain ⟨now, rfl⟩ := hpoll
    rw [event, sender_poll]
    cases hcall : e.pollCall now with
    | none => exact hq
    | some d =>
      obtain ⟨hwin, hqueued⟩ := pollCall_sender hcall h
      exact queued_sendData hwin (hqueued hq) (hok d hcall) now
  · exact (senderStep_event fun now hev => hpoll ⟨now, hev⟩).queued hq

/-- The calls of an event. -/
theorem callsSend_iff (h : e.sender.Window) (hq : e.sender.Queued) (ev : Event) :
    CallsSend e ev ↔ CallsOk e ev := by
  cases ev with
  | poll now =>
    refine forall₂_congr fun d hd => ?_
    obtain ⟨hwin, hqueued⟩ := pollCall_sender hd h
    exact sendsQueued_iff hwin (hqueued hq) now
  | rx | txDone | queue | handle => exact Iff.rfl

/-- The calls of a run from a state in which what is in flight is queued. -/
theorem callsSend_run_iff (h : e.sender.Window) (hq : e.sender.Queued) (evs : List Event) :
    Run.Along event CallsSend e evs ↔ Run.Along event CallsOk e evs := by
  have hiff : ∀ d ev, d.sender.Window ∧ d.sender.Queued → (CallsSend d ev ↔ CallsOk d ev) := by
    rintro d ev ⟨hwin, hqueued⟩
    exact callsSend_iff hwin hqueued ev
  have hkeep : ∀ d ev, d.sender.Window ∧ d.sender.Queued → CallsOk d ev →
      (event d ev).sender.Window ∧ (event d ev).sender.Queued := by
    rintro d ev ⟨hwin, hqueued⟩ hok
    exact ⟨window_event hwin ev, queued_event hwin hqueued hok⟩
  exact Run.Along.iff_along hiff hkeep ⟨h, hq⟩ evs

section Start

variable (hciH5Config : HciH5Config) (rx : RingBuffer RxPkt) (tx : RingBuffer TxPkt) (size : ℕ)
  (buf : Mem) (now : UInt32)

/-- The sender at the start, whatever the counters of the FIFO. -/
theorem sender_init (hwptr : tx.wptr < 2 ^ 8) (hrptr : tx.rptr < 2 ^ 8) :
    (hciH5Init hciH5Config rx tx size buf now).sender.Window ∧
      (hciH5Init hciH5Config rx tx size buf now).sender.Queued :=
  ⟨⟨hwptr, hrptr, Nat.zero_lt_succ _, Nat.zero_lt_succ _, Nat.zero_le _, Nat.zero_le _⟩,
    Nat.zero_le _⟩

/-- **The sender of H5**: in every run from the start, whatever the counters of the FIFO, no more
than a window of packets is unacknowledged; and all calls of `HCI_H5_SendData` in it do what they
may exactly when they all meet their condition. -/
theorem sender_iff (hwptr : tx.wptr < 2 ^ 8) (hrptr : tx.rptr < 2 ^ 8) (evs : List Event) :
    (evs.foldl event (hciH5Init hciH5Config rx tx size buf now)).sender.Window ∧
      (Run.Along event CallsSend (hciH5Init hciH5Config rx tx size buf now) evs ↔
        Run.Along event CallsOk (hciH5Init hciH5Config rx tx size buf now) evs) := by
  obtain ⟨hwin, hqueued⟩ := sender_init hciH5Config rx tx size buf now hwptr hrptr
  exact ⟨window_run hwin evs, callsSend_run_iff hwin hqueued evs⟩

end Start

/-! ### After 256 packets -/

/-- An event of no bytes. -/
def emptyEvent : TxPkt := ⟨.event, [], TxPkt.fits_nil⟩

/-- An endpoint with a window of two, as it is before anything has happened. -/
def wideEndpoint : H5 :=
  hciH5Init ⟨2, 0, 0, 0⟩ ⟨8, eight_dvd, fun _ => ⟨0, []⟩, 0, 0⟩
    ⟨8, eight_dvd, fun _ => emptyEvent, 0, 0⟩ 64 (fun _ => 0) 0

/-- A packet of the peer about the link. -/
def linkPacket (msg : ℕ) (rest : List UInt8) : Mem :=
  buffer (hciH5PackHeader ⟨0, 0, 0, 0, hciH5PktTypeLinkCtrl, 2 + rest.length⟩ ++ linkMsg msg rest)
    fun _ => 0

/-- A pure acknowledgement of the peer. -/
def ackPacket (n : ℕ) : Mem :=
  buffer (hciH5PackHeader ⟨0, n, 0, 0, hciH5PktTypeAck, 0⟩) fun _ => 0

/-- The link becomes active, with a window of two. -/
def linkUp : List Event :=
  [.rx (linkPacket hciH5MsgSyncRsp []) 6 0, .rx (linkPacket hciH5MsgConfigRsp [2]) 7 0, .txDone]

/-- An event is queued, and sent. -/
def sendOne : List Event := [.queue emptyEvent, .poll 0, .txDone]

/-- The first `n` packets are queued, sent and acknowledged one by one. -/
def acked : ℕ → List Event
  | 0 => []
  | n + 1 => acked n ++ (sendOne ++ [.rx (ackPacket ((n + 1) % 8)) 4 0])

/-- An active endpoint with `w` packets in flight, `k` acknowledged and no other queued. -/
structure InFlight (w k : ℕ) (e : H5) : Prop where
  /-- The link state. -/
  active : e.linkState = .active
  /-- The window. -/
  window : e.config.slidWinSize = 2
  /-- The UART is free. -/
  uart : e.isUartTxDone = true
  /-- No packet has to be sent again. -/
  resendTick : e.resendTick = 0
  /-- The write counter. -/
  wptr : e.hciTxFifo.wptr = (k + w) % 2 ^ 8
  /-- The read counter. -/
  rptr : e.hciTxFifo.rptr = k
  /-- What is in flight. -/
  inFlight : e.txSlidWinSize = w
  /-- The next number. -/
  txSeq : e.txSeq = (k + w) % 8

instance (w k : ℕ) (e : H5) : Decidable (InFlight w k e) :=
  decidable_of_iff (_ ∧ _ ∧ _ ∧ _ ∧ _ ∧ _ ∧ _ ∧ _)
    ⟨fun h => ⟨h.1, h.2.1, h.2.2.1, h.2.2.2.1, h.2.2.2.2.1, h.2.2.2.2.2.1, h.2.2.2.2.2.2.1,
      h.2.2.2.2.2.2.2⟩, fun h => ⟨h.active, h.window, h.uart, h.resendTick, h.wptr, h.rptr,
      h.inFlight, h.txSeq⟩⟩

theorem InFlight.sendOne {k : ℕ} (hk : k < 2 ^ 8) (h : InFlight 0 k e) :
    InFlight 1 k (sendOne.foldl event e) := by
  obtain ⟨hactive, hwindow, huart, hresend, hwptr, hrptr, hwin, hseq⟩ := h
  have hcount : e.hciTxFifo.count < e.hciTxFifo.num := by
    have hpos := e.hciTxFifo.num_pos
    simp only [RingBuffer.count, hwptr, hrptr]
    omega
  have hqueue : event e (.queue emptyEvent) =
      { e with hciTxFifo := e.hciTxFifo.push emptyEvent, queued := e.queued ++ [emptyEvent] } :=
    if_pos hcount
  rw [H5.sendOne, List.foldl_cons, hqueue]
  generalize hd : ({ e with hciTxFifo := e.hciTxFifo.push emptyEvent,
                            queued := e.queued ++ [emptyEvent] } : H5) = d
  have hdata : d.hciH5Poll 0 = (d.hciH5SendData 0).pollAck 0 := by
    subst hd
    unfold hciH5Poll
    simp only [hactive]
    rw [pollData, if_neg (not_not.mpr hresend), if_neg (by simp only [hwin, hwindow]; omega)]
  have hmore : d.hciTxFifo.wptr ≠ d.hciTxFifo.rptr + d.txSlidWinSize := by
    subst hd
    simp only [RingBuffer.push_wptr, RingBuffer.push_rptr, hwptr, hrptr, hwin]
    omega
  have hnext : d.nextPkt = emptyEvent := by
    subst hd
    simp only [nextPkt, RingBuffer.get, RingBuffer.push, hwptr, hrptr, hwin, Nat.add_zero]
    rw [Nat.mod_eq_of_lt hk, Function.update_self]
  have hack : ∀ c : H5, c.config.slidWinSize = 2 → c.pollAck 0 = c := by
    intro c hc
    rw [pollAck, if_neg]
    rintro ⟨hone, -⟩
    omega
  rcases sendData_cases 0 d with ⟨hnothing, -⟩ | ⟨-, -, heq⟩
  · subst hd
    cases hnothing with
    | inl hfull =>
      simp only [hwin, hwindow] at hfull
      omega
    | inr hempty =>
      exact absurd hempty hmore
  · have hconfig : (d.hciH5SendData 0).config.slidWinSize = 2 := by
      rw [(kept_sendData 0 d).config, ← hd]
      exact hwindow
    have hfree : d.isUartTxDone = true := by
      rw [← hd]
      exact huart
    rw [List.foldl_cons, event, hdata, hack _ hconfig, heq, if_pos hfree, hnext, hciH5Send_eq]
    subst hd
    refine ⟨hactive, hwindow, rfl, hresend, ?_, hrptr, ?_, ?_⟩
    · simp [dataSent, event, uartTxDone, hwptr]
    · simp [dataSent, event, uartTxDone, hwin]
    · have hrel : hciH5IsReliablePacket emptyEvent.hciType.code = true := by decide
      simp only [List.foldl_cons, List.foldl_nil, event, uartTxDone, dataSent, hrel, if_true, hseq]
      omega

theorem InFlight.acked {k : ℕ} (hk : k + 1 < 2 ^ 8) (h : InFlight 1 k e) :
    InFlight 0 (k + 1) (event e (.rx (ackPacket ((k + 1) % 8)) 4 0)) := by
  obtain ⟨hactive, hwindow, huart, hresend, hwptr, hrptr, hwin, hseq⟩ := h
  have hlt : (k + 1) % 8 < 8 := Nat.mod_lt _ (by simp)
  have hpacket : bytes (ackPacket ((k + 1) % 8)) 4 =
      hciH5PackHeader ⟨0, (k + 1) % 8, 0, 0, hciH5PktTypeAck, 0⟩ := bytes_buffer _ _
  have hhead : hciH5UnpackHeader (ackPacket ((k + 1) % 8)) =
      ⟨0, (k + 1) % 8, 0, 0, hciH5PktTypeAck, 0⟩ :=
    hciH5UnpackHeader_packHeader ⟨Nat.zero_lt_succ _, hlt, Nat.zero_lt_succ _, Nat.zero_lt_succ _,
      Nat.zero_lt_succ _⟩ hpacket
  have hwf : WellFormed (ackPacket ((k + 1) % 8)) 4 := by
    refine ⟨hciH5IsCheckSumValid_packHeader hpacket, ?_⟩
    rw [hhead]
    rfl
  rw [event, pakcetHandler_of_ack hwf (by rw [hhead]) hactive, hhead, hciH5ReSendCheck,
    if_pos hseq.symm]
  refine ⟨hactive, hwindow, huart, rfl, hwptr, ?_, rfl, hseq⟩
  simp only [releaseSent, RingBuffer.release_rptr, hrptr, hwin]
  omega

/-- The endpoint after `n` packets. -/
theorem inFlight_acked {n : ℕ} (hn : n < 2 ^ 8) :
    InFlight 0 n ((linkUp ++ acked n).foldl event wideEndpoint) := by
  induction n with
  | zero =>
    rw [acked, List.append_nil]
    decide
  | succ n ih =>
    have hsent := (ih (by omega)).sendOne (by omega)
    have hacked := hsent.acked hn
    simp only [acked, List.foldl_append] at hacked ⊢
    exact hacked

/-- The link comes up and an event is sent. -/
theorem linkUp_sends : Run.Along event CallsSend wideEndpoint (linkUp ++ sendOne) ∧
    ((linkUp ++ sendOne).foldl event wideEndpoint).sender.Window := by
  obtain ⟨hwin, hiff⟩ := sender_iff ⟨2, 0, 0, 0⟩ ⟨8, by decide, fun _ => ⟨0, []⟩, 0, 0⟩
    ⟨8, by decide, fun _ => emptyEvent, 0, 0⟩ 64 (fun _ => 0) 0 (by decide) (by decide)
    (linkUp ++ sendOne)
  exact ⟨hiff.mpr (by decide), hwin⟩

/-- With the 256th packet in flight the next call sends a slot that holds no queued packet: the
write counter has wrapped around to 0, which is not 255 + 1. -/
theorem InFlight.not_callsSend {d : H5} (h : InFlight 1 255 d) (hwin : d.sender.Window) :
    ¬CallsSend d (.poll 0) := by
  intro hcall
  obtain ⟨hactive, hwindow, huart, hresend, hwptr, hrptr, hone, -⟩ := h
  have hcount : d.hciTxFifo.count = 1 := by
    rw [RingBuffer.count, hwptr, hrptr]
    rfl
  have hpoll : d ∈ d.pollCall 0 := by
    rw [pollCall, if_pos hactive, if_neg (not_not.mpr hresend), if_neg (by omega)]
    rfl
  have hqueued : d.sender.Queued := by
    show d.txSlidWinSize ≤ d.hciTxFifo.count
    rw [hone, hcount]
  have hok := (sendsQueued_iff hwin hqueued 0).mp (hcall d hpoll)
  have hlt := hok.ended huart (by omega) (by omega)
  rw [hrptr, hone] at hlt
  exact absurd hlt (by simp)

/-- **A slot that holds no queued packet is sent** after 255 packets. -/
theorem stale_slot_sent :
    ¬ ∀ (hciH5Config : HciH5Config) (rx : RingBuffer RxPkt) (tx : RingBuffer TxPkt) (size : ℕ)
      (buf : Mem) (now : UInt32), tx.wptr < 2 ^ 8 → tx.rptr < 2 ^ 8 → ∀ evs,
        Run.Along event CallsSend (hciH5Init hciH5Config rx tx size buf now) evs := by
  intro hall
  have hrun : Run.Along event CallsSend wideEndpoint
      ((linkUp ++ acked 255 ++ sendOne) ++ [.poll 0]) :=
    hall ⟨2, 0, 0, 0⟩ ⟨8, by decide, fun _ => ⟨0, []⟩, 0, 0⟩
      ⟨8, by decide, fun _ => emptyEvent, 0, 0⟩ 64 (fun _ => 0) 0 (by decide) (by decide) _
  have hcall := ((Run.along_concat _ _ _).mp hrun).2
  have hinit : wideEndpoint.sender.Window :=
    ⟨by decide, by decide, by decide, by decide, by decide, by decide⟩
  have hwin := window_run hinit (linkUp ++ acked 255 ++ sendOne)
  have hstate : InFlight 1 255 ((linkUp ++ acked 255 ++ sendOne).foldl event wideEndpoint) := by
    rw [List.foldl_append]
    exact (inFlight_acked (by decide)).sendOne (by decide)
  exact hstate.not_callsSend hwin hcall

end TcBle.HciTransport.H5
