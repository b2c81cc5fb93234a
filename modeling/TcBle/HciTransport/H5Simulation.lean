import Mathlib.Data.List.Forall2
import TcBle.Foundation.SlidingWindow
import TcBle.HciTransport.H5Frame

/-!
# An endpoint and the sliding windows

An endpoint is the sender of one sliding window and the receiver of another. `Rel` says
so: the FIFO's counters, the sequence numbers and the window are those of the one, what
is handed over and the expected number are those of the other. An endpoint whose link is
not active yet has sent nothing and handed nothing over.

Each thing an endpoint does is a few steps of the two windows (`Plays`), as long as two
things do not happen: sending again from another packet than the first one not released,
and sending beyond the end of the FIFO.
-/

namespace TcBle.HciTransport

open TcBle.Foundation TcBle.Foundation.SlidingWindow

/-- What a packet is when it is handed over. -/
def TxPkt.handed (p : TxPkt) : Handed := ⟨⟨p.hciType.code, p.payload⟩, true⟩

/-- The packet has a reliable type. -/
def TxPkt.Reliable (p : TxPkt) : Prop := hciH5IsReliablePacket p.hciType.code = true

instance (p : TxPkt) : Decidable p.Reliable := inferInstanceAs (Decidable (_ = _))

namespace H5

/-! ### The relation -/

/-- What the transport of data depends on. -/
structure Transport where
  /-- The link state. -/
  linkState : LinkState
  /-- The negotiated configuration. -/
  config : HciH5Config
  /-- The next sequence number. -/
  txSeq : ℕ
  /-- The expected sequence number. -/
  txAck : ℕ
  /-- Packets sent and not acknowledged. -/
  txSlidWinSize : ℕ
  /-- The TX FIFO. -/
  hciTxFifo : RingBuffer TxPkt
  /-- What was given to the UART. -/
  out : List (List UInt8)
  /-- The packets queued. -/
  queued : List TxPkt
  /-- How many of them are released. -/
  released : ℕ
  /-- What is handed over. -/
  handed : List Handed

/-- The transport of an endpoint. -/
def transport (e : H5) : Transport :=
  ⟨e.linkState, e.config, e.txSeq, e.txAck, e.txSlidWinSize, e.hciTxFifo, e.out, e.queued,
    e.released, e.handed⟩

/-- The sender's part of an active endpoint. -/
structure Sends (v : Transport) (S : State TxPkt) : Prop where
  /-- What is queued. -/
  queued : v.queued = S.queued
  /-- The window. -/
  win : v.txSlidWinSize = S.win
  /-- The next sequence number. -/
  txSeq : v.txSeq = (S.released + S.win) % 8
  /-- The FIFO. -/
  fifo : v.hciTxFifo.Holds S.queued S.released

/-- **An endpoint is the sender of `S` and the receiver of `R`**, windows of size `W`. -/
structure Rel (W : ℕ) (v : Transport) (S R : State TxPkt) : Prop where
  /-- `S` is a state of the sliding window. -/
  reachS : Reachable W S
  /-- So is `R`. -/
  reachR : Reachable W R
  /-- The next sequence number is three bits long. -/
  txSeq : v.txSeq < 8
  /-- The check is on or off. -/
  crc : v.config.dataIntgrtChkType < 2
  /-- The window is the negotiated one. -/
  window : v.linkState = .active → v.config.slidWinSize = W
  /-- What is released. -/
  released : v.released = S.released
  /-- Only reliable packets are queued. -/
  reliable : ∀ p ∈ S.queued, p.Reliable
  /-- Only reliable packets come. -/
  reliableR : ∀ p ∈ R.queued, p.Reliable
  /-- The expected number. -/
  txAck : v.txAck = R.handed.length % 8
  /-- What is handed over. -/
  handed : v.handed = R.handed.map TxPkt.handed
  /-- Before the link is active nothing is sent and nothing handed over. -/
  silent : v.linkState ≠ .active → S.queued = [] ∧ R.handed = []
  /-- When it is active the endpoint sends. -/
  sends : v.linkState = .active → Sends v S

/-! ### What an endpoint says -/

/-- The item is link message `msg`. -/
def Item.IsMsg (msg : ℕ) : Item → Prop
  | .link m _ => m = msg
  | _ => False

/-- Link messages that fit the link state, which goes from `l` to `l'`: `SYNC` is sent by an
idle endpoint, `CONFIG_RSP` by one that is not. -/
structure Spoken (l l' : LinkState) (its : List Item) : Prop where
  /-- An endpoint that is not idle stays so. -/
  mono : l ≠ .idle → l' ≠ .idle
  /-- `SYNC`. -/
  sync : ∀ it ∈ its, it.IsMsg hciH5MsgSync → l = .idle
  /-- `CONFIG_RSP`. -/
  rsp : ∀ it ∈ its, it.IsMsg hciH5MsgConfigRsp → l' ≠ .idle
  /-- No `SYNC` after a `CONFIG_RSP`. -/
  order : its.Pairwise fun a b => a.IsMsg hciH5MsgConfigRsp → ¬ b.IsMsg hciH5MsgSync

theorem Spoken.trans {l₁ l₂ l₃ : LinkState} {is js : List Item} (h : Spoken l₁ l₂ is)
    (h' : Spoken l₂ l₃ js) : Spoken l₁ l₃ (is ++ js) := by
  refine ⟨fun hl => h'.mono (h.mono hl), fun it hit hs => ?_, fun it hit hr => ?_, ?_⟩
  · cases List.mem_append.mp hit with
    | inl hit =>
      exact h.sync it hit hs
    | inr hit =>
      by_contra hl
      exact h.mono hl (h'.sync it hit hs)
  · cases List.mem_append.mp hit with
    | inl hit =>
      exact h'.mono (h.rsp it hit hr)
    | inr hit =>
      exact h'.rsp it hit hr
  · rw [List.pairwise_append]
    exact ⟨h.order, h'.order, fun a ha b hb hr hs => h.rsp a ha hr (h'.sync b hb hs)⟩

theorem spoken_nil (l : LinkState) : Spoken l l [] := by
  constructor <;> simp

/-- One item, of an endpoint that stays in its link state. -/
theorem spoken_singleton {l : LinkState} {it : Item} (hs : it.IsMsg hciH5MsgSync → l = .idle)
    (hr : it.IsMsg hciH5MsgConfigRsp → l ≠ .idle) : Spoken l l [it] := by
  refine ⟨id, ?_, ?_, List.pairwise_singleton _ _⟩
  · simpa using hs
  · simpa using hr

/-! ### The steps -/

/-- **From `v` to `v'`** the endpoint takes the data packets `gd` and the acknowledgements
`ga` from the wire, and gives its own to the UART; the windows go along. `rsp` says that
what it takes is a `CONFIG_RSP`. -/
structure Turn (rsp : Prop) (gd : List (ℕ × TxPkt)) (ga : List ℕ) (v : Transport)
    (S R : State TxPkt)
    (v' : Transport) (S' R' : State TxPkt) : Prop where
  /-- What is given to the UART. -/
  emits : ∃ its ws, v'.out = v.out ++ ws ∧ List.Forall₂ Item.Is its ws ∧
    S'.data = S.data ++ Item.datas its ∧ R'.acks = R.acks ++ Item.acks its ∧
    Spoken v.linkState v'.linkState its
  /-- The acknowledgements taken. -/
  acks : S.acks = ga ++ S'.acks
  /-- The data packets taken. -/
  data : R.data = gd ++ R'.data
  /-- The receiver of `S` is another. -/
  handed : S'.handed = S.handed
  /-- The sender of `R` is another. -/
  queued : R'.queued = R.queued
  /-- The sender of `R` is another. -/
  released : R'.released = R.released
  /-- The sender of `R` is another. -/
  win : R'.win = R.win
  /-- A link becomes active on a `CONFIG_RSP`. -/
  act : v'.linkState = .active → v.linkState = .active ∨ rsp

/-- The windows have a turn that follows the endpoint from `v` to `v'`. -/
def Plays (W : ℕ) (rsp : Prop) (gd : List (ℕ × TxPkt)) (ga : List ℕ) (v : Transport)
    (S R : State TxPkt) (v' : Transport) : Prop :=
  ∃ S' R', Turn rsp gd ga v S R v' S' R' ∧ Rel W v' S' R'

variable {W : ℕ} {rsp : Prop} {gd gd' : List (ℕ × TxPkt)} {ga ga' : List ℕ} {v v' v'' : Transport}
  {S R S' R' S'' R'' : State TxPkt} {e : H5}

theorem Turn.trans (h : Turn rsp gd ga v S R v' S' R')
    (h' : Turn rsp gd' ga' v' S' R' v'' S'' R'') :
    Turn rsp (gd ++ gd') (ga ++ ga') v S R v'' S'' R'' := by
  obtain ⟨its, ws, hout, his, hdata, hacks, hsp⟩ := h.emits
  obtain ⟨its', ws', hout', his', hdata', hacks', hsp'⟩ := h'.emits
  refine ⟨⟨its ++ its', ws ++ ws', ?_, List.rel_append his his', ?_, ?_, hsp.trans hsp'⟩, ?_, ?_,
    h'.handed.trans h.handed, h'.queued.trans h.queued, h'.released.trans h.released,
    h'.win.trans h.win, fun ha => (h'.act ha).elim h.act Or.inr⟩
  · rw [hout', hout, List.append_assoc]
  · rw [hdata', hdata, Item.datas, Item.datas, Item.datas, List.filterMap_append, List.append_assoc]
  · rw [hacks', hacks, Item.acks, Item.acks, Item.acks, List.filterMap_append, List.append_assoc]
  · rw [h.acks, h'.acks, List.append_assoc]
  · rw [h.data, h'.data, List.append_assoc]

/-- Nothing is sent: a turn in which only the windows' own parts change. -/
theorem Turn.quiet (hout : v'.out = v.out) (hlink : v'.linkState = v.linkState)
    (hdata : S'.data = S.data)
    (hRacks : R'.acks = R.acks) (hacks : S.acks = ga ++ S'.acks) (hgd : R.data = gd ++ R'.data)
    (hhanded : S'.handed = S.handed) (hqueued : R'.queued = R.queued)
    (hreleased : R'.released = R.released)
      (hwin : R'.win = R.win) : Turn rsp gd ga v S R v' S' R' := by
  refine ⟨⟨[], [], ?_, .nil, ?_, ?_, hlink ▸ spoken_nil _⟩, hacks, hgd, hhanded, hqueued, hreleased,
    hwin, fun ha => Or.inl (hlink ▸ ha)⟩
  · rw [hout, List.append_nil]
  · rw [hdata]
    exact (List.append_nil _).symm
  · rw [hRacks]
    exact (List.append_nil _).symm

theorem Turn.plays (h : Turn rsp gd ga v S R v' S' R') (h' : Plays W rsp gd' ga' v' S' R' v'') :
    Plays W rsp (gd ++ gd') (ga ++ ga') v S R v'' := by
  obtain ⟨S'', R'', hturn, hrel⟩ := h'
  exact ⟨S'', R'', h.trans hturn, hrel⟩

theorem Rel.stay (h : Rel W v S R) : Plays W rsp [] [] v S R v :=
  ⟨S, R, .quiet rfl rfl rfl rfl rfl rfl rfl rfl rfl rfl, h⟩

namespace Rel

/-- The endpoint's numbers fit the header. -/
theorem numbered (h : Rel W e.transport S R) : Numbered e := by
  refine ⟨h.txSeq, ?_, h.crc⟩
  have hack : e.txAck = R.handed.length % 8 := h.txAck
  rw [hack]
  exact Nat.mod_lt _ (by simp)

/-- The packet that the sender of `S` sends next is the one in its slot. -/
theorem nextPkt (h : Rel W e.transport S R) (hactive : e.linkState = .active)
    (hmore : e.hciTxFifo.wptr ≠ (e.hciTxFifo.rptr + e.txSlidWinSize) % 2 ^ 8) :
    S.queued[S.released + S.win]? = some e.nextPkt := by
  have hs := h.sends hactive
  have hwin : e.txSlidWinSize = S.win := hs.win
  have hfifo : e.hciTxFifo.Holds S.queued S.released := hs.fifo
  rw [hwin, hfifo.wptr, hfifo.rptr, Nat.mod_add_mod] at hmore
  have hlt : S.released + S.win < S.queued.length :=
    lt_of_le_of_ne h.reachS.inv.sent fun heq => hmore (by rw [heq])
  rw [List.getElem?_eq_getElem hlt, H5.nextPkt, hwin, hfifo.get_rptr hlt]
  rfl

/-- What was given to the UART does not matter. -/
theorem setOut (h : Rel W v S R) (o : List (List UInt8)) : Rel W { v with out := o } S R :=
  { h with sends := fun ha => { h.sends ha with } }

/-! ### Sending -/

/-- A link message that fits the link state. -/
theorem sendLink (h : Rel W e.transport S R) {msg : ℕ} {rest : List UInt8} (hmsg : msg < 2 ^ 16)
    (hrest : rest.length ≤ 1) (hsync : msg = hciH5MsgSync → e.linkState = .idle)
    (hrsp : msg = hciH5MsgConfigRsp → e.linkState ≠ .idle) :
    Plays W rsp [] [] e.transport S R (e.sendLink msg rest).transport := by
  rw [sendLink_eq]
  refine ⟨S, R, ⟨?_, rfl, rfl, rfl, rfl, rfl, rfl, Or.inl⟩, h.setOut _⟩
  cases e.isUartTxDone with
  | true =>
    refine ⟨[.link msg rest], _, rfl, .cons ⟨e, h.numbered, hmsg, hrest, rfl⟩ .nil, ?_, ?_,
      spoken_singleton hsync hrsp⟩
    · exact (List.append_nil _).symm
    · exact (List.append_nil _).symm
  | false =>
    exact ⟨[], [], rfl, .nil, (List.append_nil _).symm, (List.append_nil _).symm, spoken_nil _⟩

/-- A pure acknowledgement: one of the number of packets handed over. -/
theorem sendPureAck (h : Rel W e.transport S R) :
    Plays W rsp [] [] e.transport S R e.hciH5SendPureAck.transport := by
  rw [sendPureAck_eq]
  cases e.isUartTxDone with
  | true =>
    refine ⟨S, { R with acks := R.acks ++ [R.handed.length] },
      ⟨⟨[.ack R.handed.length], _, rfl, .cons ⟨e, h.numbered, h.txAck, rfl⟩ .nil, ?_, rfl,
        spoken_singleton False.elim False.elim⟩, rfl, rfl, rfl, rfl, rfl, rfl, Or.inl⟩, ?_⟩
    · exact (List.append_nil _).symm
    · exact { h.setOut _ with reachR := h.reachR.tail .ack }
  | false =>
    exact ⟨S, R, .quiet (List.append_nil _) rfl rfl rfl rfl rfl rfl rfl rfl rfl, h.setOut _⟩

/-- **`HCI_H5_SendData`** is a step of the window, as long as it finds the end of the FIFO. -/
theorem sendData (h : Rel W e.transport S R) (hactive : e.linkState = .active) (now : UInt32)
    (hend : e.hciTxFifo.wptr = (e.hciTxFifo.rptr + e.txSlidWinSize) % 2 ^ 8 →
      e.hciTxFifo.wptr = e.hciTxFifo.rptr + e.txSlidWinSize) :
    Plays W rsp [] [] e.transport S R (e.hciH5SendData now).transport := by
  rcases sendData_cases now e with ⟨-, heq⟩ | ⟨hroom, hmore, heq⟩
  · rw [heq]
    exact h.stay
  have hp := h.nextPkt hactive fun hw => hmore (hend hw)
  have hrel : hciH5IsReliablePacket e.nextPkt.hciType.code = true :=
    h.reliable _ (List.mem_of_getElem? hp)
  have hs := h.sends hactive
  have hwin : e.txSlidWinSize = S.win := hs.win
  have hseq : e.txSeq = (S.released + S.win) % 8 := hs.txSeq
  have hWeq : e.config.slidWinSize = W := h.window hactive
  rw [heq, hciH5Send_eq, hrel]
  cases e.isUartTxDone with
  | true =>
    have hroom' : S.win < W := by omega
    refine ⟨{ S with win := S.win + 1, data := S.data ++ [(S.released + S.win, e.nextPkt)] },
      { R with acks := R.acks ++ [R.handed.length] },
      ⟨⟨[.data (S.released + S.win) e.nextPkt R.handed.length], _, rfl,
        .cons ⟨e, h.numbered, hseq, h.txAck, rfl⟩ .nil, rfl, rfl,
        spoken_singleton False.elim False.elim⟩, rfl, rfl, rfl, rfl, rfl, rfl, Or.inl⟩, ?_⟩
    refine { h with
      reachS := h.reachS.tail (.send _ hroom' hp)
      reachR := h.reachR.tail .ack
      txSeq := Nat.mod_lt _ (by simp)
      sends := fun _ => ⟨hs.queued, ?_, ?_, hs.fifo⟩ }
    · exact congrArg (· + 1) hwin
    · change (e.txSeq + 1) % 8 = (S.released + (S.win + 1)) % 8
      omega
  | false =>
    -- the packet is taken back
    have hback : ((e.txSeq + 1) % 8 + 7) % 8 = e.txSeq := by omega
    refine ⟨S, R, .quiet (List.append_nil _) rfl rfl rfl rfl rfl rfl rfl rfl rfl, ?_⟩
    refine { h with
      txSeq := Nat.mod_lt _ (by simp)
      sends := fun _ => ⟨hs.queued, hs.win, hback.trans hseq, hs.fifo⟩ }

/-- **`HCI_H5_ResendStart`** starts the window again, as long as the last acknowledgement is
that of what is released. -/
theorem resendStart (h : Rel W e.transport S R) (hactive : e.linkState = .active) (now : UInt32)
    (hack : e.rxAck = S.released % 8) :
    Plays W rsp [] [] e.transport S R (e.hciH5ResendStart now).transport := by
  have hs := h.sends hactive
  have hstart :
      Rel W { e with txSeq := e.rxAck, txSlidWinSize := 0 }.transport { S with win := 0 } R :=
    { h with
      reachS := h.reachS.tail .restart
      txSeq := hack ▸ Nat.mod_lt _ (by simp)
      sends := fun _ => ⟨hs.queued, rfl, hack, hs.fifo⟩ }
  have hrptr : e.hciTxFifo.rptr = S.released % 2 ^ 8 := hs.fifo.rptr
  have hquiet : Turn rsp [] [] e.transport S R
      { e with txSeq := e.rxAck, txSlidWinSize := 0 }.transport { S with win := 0 } R :=
    .quiet rfl rfl rfl rfl rfl rfl rfl rfl rfl rfl
  exact hquiet.plays (hstart.sendData hactive now (by simp [hrptr]))

end Rel

/-! ### The main loop -/

/-- `HCI_H5_Poll` of an active link sends again now. -/
def Resends (now : UInt32) (e : H5) : Prop :=
  if e.resendTick ≠ 0 then clockTimeExceed now e.resendTick (h5ResendTo * 1000) = true
  else e.config.slidWinSize ≤ e.txSlidWinSize ∧ e.txTick ≠ 0 ∧
    clockTimeExceed now e.txTick (h5ResendTo * 1000) = true

instance (now : UInt32) (e : H5) : Decidable (e.Resends now) := by
  unfold Resends
  infer_instance

/-- **The condition on a round of the main loop** of an active link. -/
structure PollOk (now : UInt32) (e : H5) : Prop where
  /-- It sends again only when the last acknowledgement stored is the number of the first packet
  not released. -/
  resends : e.Resends now → e.rxAck = (e.txSeq + 8 - e.txSlidWinSize) % 8
  /-- When it sends on, the end of the FIFO is not hidden by a counter that has wrapped around. -/
  ended : e.resendTick = 0 → e.txSlidWinSize < e.config.slidWinSize →
    e.hciTxFifo.wptr = (e.hciTxFifo.rptr + e.txSlidWinSize) % 2 ^ 8 →
      e.hciTxFifo.wptr = e.hciTxFifo.rptr + e.txSlidWinSize

instance (now : UInt32) (e : H5) : Decidable (e.PollOk now) :=
  decidable_of_iff (_ ∧ _) ⟨fun h => ⟨h.1, h.2⟩, fun h => ⟨h.resends, h.ended⟩⟩

namespace Rel

theorem pollData (h : Rel W e.transport S R) (hW : W < 8) (hactive : e.linkState = .active)
    {now : UInt32} (hok : e.PollOk now) :
    Plays W rsp [] [] e.transport S R (e.pollData now).transport := by
  have hs := h.sends hactive
  have hwin : e.txSlidWinSize = S.win := hs.win
  have hseq : e.txSeq = (S.released + S.win) % 8 := hs.txSeq
  have hle := h.reachS.inv.win_le
  have hfirst : e.Resends now → e.rxAck = S.released % 8 := by
    intro hr
    rw [hok.resends hr, hseq, hwin]
    omega
  unfold H5.pollData
  split_ifs with htick hexc hfull hexc
  · have hstart : Rel W { e with resendTick := 0 }.transport S R := h
    exact hstart.resendStart hactive now (hfirst (by rw [Resends, if_pos htick]; exact hexc))
  · exact h.stay
  · have hstart : Rel W { e with txTick := 0 }.transport S R := h
    refine hstart.resendStart hactive now (hfirst ?_)
    rw [Resends, if_neg htick]
    exact ⟨hfull, hexc⟩
  · exact h.stay
  · exact h.sendData hactive now (hok.ended (not_not.mp htick) (not_le.mp hfull))

theorem pollAck (h : Rel W e.transport S R) (now : UInt32) :
    Plays W rsp [] [] e.transport S R (e.pollAck now).transport := by
  unfold H5.pollAck
  split_ifs
  · have htick : Rel W { e with rxTick := 0 }.transport S R := h
    exact htick.sendPureAck
  · exact h.stay

/-- **A round of the main loop.** -/
theorem poll (h : Rel W e.transport S R) (hW : W < 8) {now : UInt32}
    (hok : e.linkState = .active → e.PollOk now) :
    Plays W rsp [] [] e.transport S R (e.hciH5Poll now).transport := by
  unfold hciH5Poll
  cases hstate : e.linkState with
  | idle =>
    simp only
    split_ifs
    · exact h.sendLink (by decide) (by decide) (fun _ => hstate) fun hm => absurd hm (by decide)
    · exact h.stay
  | init =>
    simp only
    split_ifs
    · exact h.sendLink (by decide) (Nat.le_refl _) (fun hm => absurd hm (by decide))
        fun hm => absurd hm (by decide)
    · exact h.stay
  | active =>
    have hdata : Plays W rsp [] [] e.transport S R (e.pollData now).transport :=
      h.pollData hW hstate (hok hstate)
    obtain ⟨S', R', hturn, hrel⟩ := hdata
    exact hturn.plays (hrel.pollAck now)

end Rel

/-! ### Receiving -/

/-- The expected packet is counted and handed over. -/
def accept (head : HciH5Head) (pPacket : Mem) (now : UInt32) (e : H5) : H5 :=
  { e with txAck := (e.txAck + 1) % 8, rxSlidWinSize := (e.rxSlidWinSize + 1) % 2 ^ 8,
           rxTick := now ||| 1 }.hciH5PackHciPdu true head.pktType
           (adv pPacket hciH5HeadLen) head.payloadLen

/-- What `receiveSeq` does: the packet is accepted, and acknowledged when the window is full. -/
theorem receiveSeq_eq (head : HciH5Head) (pPacket : Mem) (now : UInt32) (e : H5) :
    e.receiveSeq head pPacket now =
      if head.seqNum = e.txAck then
        if e.config.slidWinSize ≠ 1 ∧ e.config.slidWinSize ≤ (e.rxSlidWinSize + 1) % 2 ^ 8 then
          { (e.accept head pPacket now).hciH5SendPureAck with rxSlidWinSize := 0 }
        else e.accept head pPacket now
      else e := by
  unfold accept
  unfold receiveSeq countReceived hciH5PackHciPdu
  simp only [sendPureAck_eq]
  split_ifs <;> rfl

theorem receiveSeq_linkState (head : HciH5Head) (pPacket : Mem) (now : UInt32) (e : H5) :
    (e.receiveSeq head pPacket now).linkState = e.linkState := by
  rw [receiveSeq_eq]
  split_ifs
  · exact (kept_sendPureAck _).linkState
  · rfl
  · rfl

namespace Rel

/-- An item that is dropped. -/
theorem drop (h : Rel W v S R) {it : Item} (hacks : S.acks = Item.acks [it] ++ ga)
    (hdata : R.data = Item.datas [it] ++ gd) :
    Plays W rsp (Item.datas [it]) (Item.acks [it]) v S R v := by
  refine ⟨{ S with acks := ga }, { R with data := gd },
    .quiet rfl rfl rfl rfl hacks hdata rfl rfl rfl rfl, ?_⟩
  have hS : Reachable W { S with acks := ga } := by
    cases it with
    | data seq p num => exact h.reachS.tail (.loseAck hacks)
    | ack num => exact h.reachS.tail (.loseAck hacks)
    | link msg rest =>
      rw [← show S.acks = ga from hacks]
      exact h.reachS
  have hR : Reachable W { R with data := gd } := by
    cases it with
    | data seq p num => exact h.reachR.tail (.lose hdata)
    | ack num =>
      rw [← show R.data = gd from hdata]
      exact h.reachR
    | link msg rest =>
      rw [← show R.data = gd from hdata]
      exact h.reachR
  exact { h with
    reachS := hS
    reachR := hR
    sends := fun ha => { h.sends ha with } }

/-- **An acknowledgement that an active endpoint takes**: everything sent is released when its
number is the next one to be sent, and nothing otherwise. -/
theorem takeAck (rsp : Prop) (h : Rel W e.transport S R) (hW : W < 8)
    (hactive : e.linkState = .active) {num : ℕ}
    (hacks : S.acks = num :: ga) :
    if num % 8 = e.txSeq then Plays W rsp [] [num] e.transport S R e.releaseSent.transport
    else Plays W rsp [] [num] e.transport S R e.transport := by
  have hs := h.sends hactive
  have hwin : e.txSlidWinSize = S.win := hs.win
  have hseq : e.txSeq = (S.released + S.win) % 8 := hs.txSeq
  have hrel : e.released = S.released := h.released
  split_ifs with hnum
  · rw [hseq, h.reachS.inv.release_iff hW hacks] at hnum
    have hfifo := hs.fifo.release h.reachS.inv.sent
    refine ⟨{ S with released := S.released + S.win, win := 0, acks := ga }, R,
      .quiet rfl rfl rfl rfl hacks rfl rfl rfl rfl rfl, ?_⟩
    refine { h with
      reachS := h.reachS.tail (.release (hnum ▸ hacks))
      released := ?_
      sends := fun _ => ⟨hs.queued, rfl, hseq, ?_⟩ }
    · exact congrArg₂ (· + ·) hrel hwin
    · change (e.hciTxFifo.release e.txSlidWinSize).Holds S.queued (S.released + S.win)
      rw [hwin]
      exact hfifo
  · exact ⟨{ S with acks := ga }, R, .quiet rfl rfl rfl rfl hacks rfl rfl rfl rfl rfl,
      { h with
        reachS := h.reachS.tail (.loseAck hacks)
        sends := fun ha => { h.sends ha with } }⟩

/-- The acknowledgement in a data packet. -/
theorem receiveAck (h : Rel W e.transport S R) (hW : W < 8) (hactive : e.linkState = .active)
    {num : ℕ}
    (hacks : S.acks = num :: ga) {head : HciH5Head} (hhead : head.ackNum = num % 8) (now : UInt32) :
    Plays W rsp [] [num] e.transport S R (e.receiveAck head now).transport := by
  have htake := takeAck rsp h hW hactive hacks
  unfold H5.receiveAck
  rw [hhead]
  by_cases hnum : num % 8 = e.txSeq
  · rw [if_pos hnum] at htake ⊢
    exact htake
  · rw [if_neg hnum] at htake ⊢
    exact htake

/-- A pure acknowledgement. -/
theorem reSendCheck (h : Rel W e.transport S R) (hW : W < 8) (hactive : e.linkState = .active)
    {num : ℕ}
    (hacks : S.acks = num :: ga) (now : UInt32) : Plays W rsp [] [num] e.transport S R
      ({ e with rxAck := num % 8 }.hciH5ReSendCheck now).transport := by
  have htake := takeAck rsp h hW hactive hacks
  unfold hciH5ReSendCheck
  by_cases hnum : num % 8 = e.txSeq
  · rw [if_pos hnum] at htake ⊢
    exact htake
  · rw [if_neg hnum] at htake ⊢
    exact htake

/-- **The packet of a data packet**: it is handed over when its number is the expected one. -/
theorem receiveSeq (h : Rel W e.transport S R) (hW : W < 8) {seq : ℕ} {p : TxPkt}
    (hdata : R.data = (seq, p) :: gd) {head : HciH5Head} {pPacket : Mem}
    (hhead : head.seqNum = seq % 8)
    (hpkt : (⟨head.pktType, bytes (adv pPacket hciH5HeadLen) head.payloadLen⟩ : RxPkt) =
      ⟨p.hciType.code, p.payload⟩) (hactive : e.linkState = .active) (now : UInt32) :
    Plays W rsp [(seq, p)] [] e.transport S R (e.receiveSeq head pPacket now).transport := by
  have hack : e.txAck = R.handed.length % 8 := h.txAck
  have hhanded : e.handed = R.handed.map TxPkt.handed := h.handed
  rw [receiveSeq_eq, hhead]
  by_cases hseq : seq % 8 = e.txAck
  · rw [if_pos hseq]
    rw [hack, h.reachR.inv.accept_iff hW hdata] at hseq
    have hturn : Turn rsp [(seq, p)] [] e.transport S R (e.accept head pPacket now).transport S
        { R with data := gd, handed := R.handed ++ [p] } :=
      .quiet rfl rfl rfl rfl rfl hdata rfl rfl rfl rfl
    have haccept : Rel W (e.accept head pPacket now).transport S
        { R with data := gd, handed := R.handed ++ [p] } := by
      refine { h with
        reachR := h.reachR.tail (.accept (hseq ▸ hdata))
        txAck := ?_
        handed := ?_
        silent := fun hn => absurd hactive hn
        sends := fun ha => { h.sends ha with } }
      · change (e.txAck + 1) % 8 = (R.handed ++ [p]).length % 8
        rw [hack, List.length_append, List.length_singleton, Nat.mod_add_mod]
      · change e.handed ++ [(⟨⟨head.pktType, _⟩, true⟩ : Handed)] =
          (R.handed ++ [p]).map TxPkt.handed
        rw [hhanded, hpkt, List.map_append]
        rfl
    split_ifs
    · exact hturn.plays haccept.sendPureAck
    · exact ⟨_, _, hturn, haccept⟩
  · rw [if_neg hseq]
    exact ⟨S, { R with data := gd }, .quiet rfl rfl rfl rfl rfl hdata rfl rfl rfl rfl,
      { h with
        reachR := h.reachR.tail (.lose hdata)
        sends := fun ha => { h.sends ha with } }⟩

/-- An idle endpoint goes on to `INIT`. -/
theorem toInit (h : Rel W e.transport S R) (hidle : e.linkState = .idle) :
    Turn rsp [] [] e.transport S R { e with linkState := .init }.transport S R ∧
      Rel W { e with linkState := .init }.transport S R := by
  have hne : e.linkState ≠ .active := by
    rw [hidle]
    decide
  refine ⟨⟨⟨[], [], (List.append_nil _).symm, .nil, (List.append_nil _).symm,
    (List.append_nil _).symm, ?_⟩, rfl, rfl, rfl, rfl, rfl, rfl, fun ha => by cases ha⟩, ?_⟩
  · refine ⟨fun hl => absurd hidle hl, ?_, ?_, .nil⟩ <;> simp
  · exact { h with
      window := fun ha => by cases ha
      silent := fun _ => h.silent hne
      sends := fun ha => by cases ha }

/-- **The link becomes active**: both windows start. -/
theorem activate (h : Rel W e.transport S R) (hinit : e.linkState = .init) {cfg : ℕ} {now : UInt32}
    (hnum : Numbered (e.activate cfg now)) (hwin : (e.activate cfg now).config.slidWinSize = W) :
    Turn True [] [] e.transport S R (e.activate cfg now).transport S R ∧
      Rel W (e.activate cfg now).transport S R := by
  have hne : e.linkState ≠ .active := by
    rw [hinit]
    decide
  obtain ⟨hqueued, hhanded⟩ := h.silent hne
  have hsent := h.reachS.inv.sent
  rw [hqueued, List.length_nil] at hsent
  have hreleased : S.released = 0 := by omega
  have hzero : S.win = 0 := by omega
  refine ⟨⟨⟨[], [], (List.append_nil _).symm, .nil, (List.append_nil _).symm,
    (List.append_nil _).symm, ?_⟩, rfl, rfl, rfl, rfl, rfl, rfl, fun _ => Or.inr trivial⟩, ?_⟩
  · refine ⟨fun _ hl => (by cases hl), ?_, ?_, .nil⟩ <;> simp
  · refine ⟨h.reachS, h.reachR, hnum.txSeq, hnum.crc, fun _ => hwin, hreleased.symm, h.reliable,
      h.reliableR, ?_, ?_, fun hn => absurd rfl hn,
      fun _ => ⟨hqueued.symm, hzero.symm, ?_, ?_⟩⟩
    · rw [hhanded]
      rfl
    · rw [hhanded]
      rfl
    · rw [hreleased, hzero]
      rfl
    · rw [hqueued, hreleased]
      exact RingBuffer.holds_reset _

/-- **A link message** to an endpoint, which is not a `SYNC` to an active one. -/
theorem decodeLinkPdu (h : Rel W e.transport S R) {q : Mem} {now : UInt32}
    (hsync : u16At (adv q hciH5HeadLen) = hciH5MsgSync → e.linkState ≠ .active)
    (hnum : Numbered (e.hciH5DecodeLinkPdu q now))
    (hwin : (e.hciH5DecodeLinkPdu q now).linkState = .active →
      (e.hciH5DecodeLinkPdu q now).config.slidWinSize = W) :
    Plays W (u16At (adv q hciH5HeadLen) = hciH5MsgConfigRsp) [] [] e.transport S R
      (e.hciH5DecodeLinkPdu q now).transport := by
  unfold hciH5DecodeLinkPdu at hnum hwin ⊢
  cases hstate : e.linkState with
  | idle =>
    simp only
    split_ifs
    · exact h.sendLink (by decide) (by decide) (fun _ => hstate) fun hm => absurd hm (by decide)
    · obtain ⟨hturn, hinit⟩ := h.toInit hstate
      exact hturn.plays (hinit.sendLink (by decide) (Nat.le_refl _)
        (fun hm => absurd hm (by decide))
        fun hm => absurd hm (by decide))
    · exact h.sendLink (by decide) (by decide) (fun _ => hstate) fun hm => absurd hm (by decide)
  | init =>
    have hne : e.linkState ≠ .idle := by
      rw [hstate]
      decide
    simp only [hstate] at hnum hwin ⊢
    split_ifs at hnum hwin ⊢ with h₁ h₂ h₃
    · exact h.sendLink (by decide) (by decide) (fun hm => absurd hm (by decide)) fun _ => hne
    · exact h.sendLink (by decide) (Nat.le_refl _) (fun hm => absurd hm (by decide)) fun _ => hne
    · obtain ⟨hturn, hrel⟩ := h.activate hstate hnum (hwin rfl)
      exact ⟨S, R, { hturn with act := fun _ => Or.inr h₃ }, hrel⟩
    · exact h.stay
  | active =>
    have hne : e.linkState ≠ .idle := by
      rw [hstate]
      decide
    simp only
    split_ifs with h₁ h₂
    · exact h.sendLink (by decide) (Nat.le_refl _) (fun hm => absurd hm (by decide)) fun _ => hne
    · exact absurd hstate (hsync h₂)
    · exact h.stay

/-- **A packet arrives.** -/
theorem recv (h : Rel W e.transport S R) (hW : W < 8) {it : Item} {w : List UInt8} (hit : it.Is w)
    (hacks : S.acks = Item.acks [it] ++ ga) (hdata : R.data = Item.datas [it] ++ gd) {now : UInt32}
    (hsync : it.IsMsg hciH5MsgSync → e.linkState ≠ .active)
    (hnum : Numbered (e.hciSlipDecodePacket w now))
    (hwin : (e.hciSlipDecodePacket w now).linkState = .active →
      (e.hciSlipDecodePacket w now).config.slidWinSize = W) :
    Plays W (it.IsMsg hciH5MsgConfigRsp) (Item.datas [it]) (Item.acks [it]) e.transport S R
      (e.hciSlipDecodePacket w now).transport := by
  cases it with
  | data seq p num =>
    have hmem : (seq, p) ∈ R.data := by
      rw [hdata]
      exact List.mem_append_left _ (List.mem_singleton.mpr rfl)
    have hrel := h.reliableR p (List.mem_of_getElem? (h.reachR.inv.content _ hmem))
    obtain ⟨q, heq | ⟨hactive, hseq, hnumq, hpkt, heq⟩⟩ := recv_data hrel hit now e
    · rw [heq]
      exact h.drop hacks hdata
    · rw [heq]
      have hstart : Rel W { e.withBuf q with owed := true }.transport S R := h
      have hplays : Plays W ((Item.data seq p num).IsMsg hciH5MsgConfigRsp) [(seq, p)] []
          e.transport S R _ := hstart.receiveSeq hW hdata hseq hpkt hactive now
      obtain ⟨S', R', hturn, hrel'⟩ := hplays
      have hactive' := (receiveSeq_linkState (hciH5UnpackHeader q) q now
        { e.withBuf q with owed := true }).trans hactive
      have hacks' : S'.acks = num :: ga := hturn.acks.symm.trans hacks
      exact hturn.plays (hrel'.receiveAck hW hactive' hacks' hnumq now)
  | ack num =>
    obtain ⟨q, heq | ⟨hactive, heq⟩⟩ := recv_ack hit now e
    · rw [heq]
      exact h.drop hacks hdata
    · rw [heq]
      have hbuf : Rel W (e.withBuf q).transport S R := h
      exact hbuf.reSendCheck hW hactive hacks now
  | link msg rest =>
    obtain ⟨q, heq | ⟨hmsg, -, heq⟩⟩ := recv_link hit now e
    · rw [heq]
      exact h.drop hacks hdata
    · rw [heq] at hnum hwin ⊢
      have hbuf : Rel W (e.withBuf q).transport S R := h
      have hplays := hbuf.decodeLinkPdu (fun hm => hsync (hmsg ▸ hm)) hnum hwin
      rw [hmsg] at hplays
      exact hplays

/-! ### The controller, and the other endpoint -/

/-- **A packet is queued.** -/
theorem queue (h : Rel W e.transport S R) {p : TxPkt} (hp : p.Reliable) :
    Plays W rsp [] [] e.transport S R (e.queue p).transport := by
  unfold H5.queue
  split_ifs with hroom
  · by_cases hactive : e.linkState = .active
    · have hs := h.sends hactive
      have hfifo : e.hciTxFifo.Holds S.queued S.released := hs.fifo
      refine ⟨{ S with queued := S.queued ++ [p] }, R,
        .quiet rfl rfl rfl rfl rfl rfl rfl rfl rfl rfl, ?_⟩
      refine { h with
        reachS := h.reachS.tail (.push p)
        reliable := fun q hq => ?_
        silent := fun hn => absurd hactive hn
        sends := fun _ => ⟨congrArg (· ++ [p]) hs.queued, hs.win, hs.txSeq, hfifo.push hroom p⟩ }
      cases List.mem_append.mp hq with
      | inl hq =>
        exact h.reliable q hq
      | inr hq =>
        rw [List.mem_singleton.mp hq]
        exact hp
    · exact ⟨S, R, .quiet rfl rfl rfl rfl rfl rfl rfl rfl rfl rfl,
        { h with sends := fun ha => absurd ha hactive }⟩
  · exact h.stay

/-- The other endpoint, which does nothing in a turn. -/
theorem other {u : Transport} (h : Rel W u R S) (hturn : Turn rsp gd ga v S R v' S' R')
    (h' : Rel W v' S' R') : Rel W u R' S' where
  reachS := h'.reachR
  reachR := h'.reachS
  txSeq := h.txSeq
  crc := h.crc
  window := h.window
  released := h.released.trans hturn.released.symm
  reliable := h'.reliableR
  reliableR := h'.reliable
  txAck := by rw [hturn.handed, h.txAck]
  handed := by rw [hturn.handed, h.handed]
  silent hn := by
    rw [hturn.queued, hturn.handed]
    exact h.silent hn
  sends ha := by
    have hs := h.sends ha
    refine ⟨hs.queued.trans hturn.queued.symm, hs.win.trans hturn.win.symm, ?_, ?_⟩
    · rw [hturn.released, hturn.win, hs.txSeq]
    · rw [hturn.released, hturn.queued]
      exact hs.fifo

end Rel

end H5

end TcBle.HciTransport
