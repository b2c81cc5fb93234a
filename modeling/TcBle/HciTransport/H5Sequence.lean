import TcBle.Foundation.Run
import TcBle.HciTransport.H5Step

/-!
# The receive sequence number

The expected sequence number `txAck` of an endpoint is meant to count the reliable
packets it has handed over since its link became active, modulo 8. Here an endpoint
whose link has become active is given any packets at all, well formed or not, between
rounds of its main loop.

## What is proved

* `sequence_iff` — the number is right throughout a run, and moved by nothing but
  reliable packets, exactly when the run takes no unreliable data packet.
* `unreliable_moves_txAck` — an unreliable data packet moves it.
-/

namespace TcBle.HciTransport.H5

open TcBle.Foundation

/-- What happens to one endpoint. -/
inductive Event where
  /-- A decoded packet arrives: `len` bytes at `pPacket`. -/
  | rx (pPacket : Mem) (len : ℕ) (now : UInt32)
  /-- A round of the main loop. -/
  | poll (now : UInt32)
  /-- The UART has sent its packet. -/
  | txDone
  /-- The controller queues a packet. -/
  | queue (p : TxPkt)
  /-- The controller takes a packet. -/
  | handle

/-- One thing happens. -/
def event (e : H5) : Event → H5
  | .rx pPacket len now => e.hciH5PakcetHandler pPacket len now
  | .poll now => e.hciH5Poll now
  | .txDone => e.uartTxDone
  | .queue p => e.queue p
  | .handle => e.hciRxHandler

/-- The number of reliable packets handed over. -/
def accepted (e : H5) : ℕ := e.handed.countP Handed.reliable

/-- The expected sequence number is that of the reliable packets handed over. -/
def SeqOk (e : H5) : Prop := e.txAck = e.accepted % 8

instance (e : H5) : Decidable (SeqOk e) := inferInstanceAs (Decidable (_ = _))

/-- The event is a reliable data packet that is taken and has the expected number. -/
def AcceptsReliable (e : H5) : Event → Prop
  | .rx pPacket len _ => e.TakesData pPacket len ∧ (hciH5UnpackHeader pPacket).reliable ≠ 0 ∧
      (hciH5UnpackHeader pPacket).seqNum = e.txAck
  | _ => False

/-- The event is an unreliable data packet that is taken. -/
def AcceptsUnreliable (e : H5) : Event → Prop
  | .rx pPacket len _ => e.TakesData pPacket len ∧ (hciH5UnpackHeader pPacket).reliable = 0
  | _ => False

/-- The event is a well-formed packet about the link. -/
def IsLink : Event → Prop
  | .rx pPacket len _ => WellFormed pPacket len ∧
      (hciH5UnpackHeader pPacket).pktType = hciH5PktTypeLinkCtrl
  | _ => False

/-- **The run from `e` keeps the sequence number right**: in every state it reaches it is
the number of the reliable packets handed over, and no event but a reliable packet that
is accepted, or a packet about the link, moves it. -/
structure SequenceKept (e : H5) (evs : List Event) : Prop where
  /-- The number is right. -/
  ok : ∀ pre, pre <+: evs → SeqOk (pre.foldl event e)
  /-- Nothing else moves it. -/
  still : ∀ pre ev post, evs = pre ++ ev :: post → ¬ AcceptsReliable (pre.foldl event e) ev →
    ¬ IsLink ev → (event (pre.foldl event e) ev).txAck = (pre.foldl event e).txAck

/-! ### One event -/

variable {e : H5} {ev : Event}

/-- What does not receive keeps the number and what is handed over. -/
theorem event_kept (hrx : ∀ pPacket len now, ev ≠ .rx pPacket len now) :
    (event e ev).txAck = e.txAck ∧ (event e ev).handed = e.handed := by
  cases ev with
  | rx pPacket len now => exact absurd rfl (hrx pPacket len now)
  | poll now => exact ⟨(kept_poll now e).txAck, (kept_poll now e).handed⟩
  | txDone => exact ⟨rfl, rfl⟩
  | queue p =>
    simp only [event, queue]
    split <;> exact ⟨rfl, rfl⟩
  | handle =>
    simp only [event, hciRxHandler]
    split <;> exact ⟨rfl, rfl⟩

/-- A packet about the link keeps the number right: it leaves it alone, or resets it. -/
theorem seqOk_link (h : SeqOk e) (pPacket : Mem) (now : UInt32) :
    SeqOk (e.hciH5DecodeLinkPdu pPacket now) := by
  unfold SeqOk accepted at *
  rcases decodeLinkPdu_cases e pPacket now with hk | ⟨-, hk⟩ | ⟨-, -, hk⟩ | ⟨-, -, hk⟩
  · rw [hk.txAck, hk.handed, h]
  · rw [hk.txAck, hk.handed, h]
  · rw [hk.txAck, hk.handed]
    rfl
  · rw [hk]
    rfl

/-- What a reliable data packet does. -/
theorem rx_reliable {pPacket : Mem} {len : ℕ} (h : e.TakesData pPacket len)
    (hrel : (hciH5UnpackHeader pPacket).reliable ≠ 0) (now : UInt32) :
    let e' := e.hciH5PakcetHandler pPacket len now
    if (hciH5UnpackHeader pPacket).seqNum = e.txAck then
      e'.txAck = (e.txAck + 1) % 8 ∧ e'.handed = e.handed ++ [⟨rxPkt pPacket, true⟩]
    else e'.txAck = e.txAck ∧ e'.handed = e.handed := by
  simp only [pakcetHandler_of_takesData h, if_pos hrel, receiveAck_txAck, receiveAck_handed,
    receiveSeq]
  split_ifs with hseq
  · exact ⟨countReceived_txAck now _, congrArg (· ++ _) (countReceived_handed now _)⟩
  · exact ⟨rfl, rfl⟩

/-- What an unreliable data packet does. -/
theorem rx_unreliable {pPacket : Mem} {len : ℕ} (h : e.TakesData pPacket len)
    (hrel : (hciH5UnpackHeader pPacket).reliable = 0) (now : UInt32) :
    (e.hciH5PakcetHandler pPacket len now).txAck = (e.txAck + 1) % 8 ∧
      (e.hciH5PakcetHandler pPacket len now).handed = e.handed ++ [⟨rxPkt pPacket, false⟩] := by
  rw [pakcetHandler_of_takesData h, if_neg (not_not.mpr hrel)]
  exact ⟨rfl, rfl⟩

/-- An event that is not an accepted reliable packet, an accepted unreliable one, or about
the link, keeps the number and what is handed over. -/
theorem event_still (hrel : ¬ AcceptsReliable e ev) (hunrel : ¬ AcceptsUnreliable e ev)
    (hlink : ¬ IsLink ev) : (event e ev).txAck = e.txAck ∧ (event e ev).handed = e.handed := by
  cases ev with
  | rx pPacket len now =>
    rcases pakcetHandler_cases e pPacket len now with heq | ⟨hwf, hack, hactive⟩ | hl | hdata
    · rw [event, heq]
      exact ⟨rfl, rfl⟩
    · rw [event, pakcetHandler_of_ack hwf hack hactive]
      exact ⟨reSendCheck_txAck now _, reSendCheck_handed now _⟩
    · exact absurd hl hlink
    · have hr : (hciH5UnpackHeader pPacket).reliable ≠ 0 := fun h0 => hunrel ⟨hdata, h0⟩
      have hseq : ¬(hciH5UnpackHeader pPacket).seqNum = e.txAck := fun hs => hrel ⟨hdata, hr, hs⟩
      have hrx := rx_reliable hdata hr now
      rw [if_neg hseq] at hrx
      exact hrx
  | poll now => exact event_kept (by simp)
  | txDone => exact event_kept (by simp)
  | queue p => exact event_kept (by simp)
  | handle => exact event_kept (by simp)

/-- **One event keeps the number right**, unless it is an unreliable packet that is taken. -/
theorem seqOk_event (h : SeqOk e) (hunrel : ¬ AcceptsUnreliable e ev) : SeqOk (event e ev) := by
  by_cases hlink : IsLink ev
  · cases ev with
    | rx pPacket len now =>
      rw [event, pakcetHandler_of_link hlink.1 hlink.2]
      exact seqOk_link h pPacket now
    | poll | txDone | queue | handle => exact absurd hlink id
  · by_cases hrel : AcceptsReliable e ev
    · cases ev with
      | rx pPacket len now =>
        obtain ⟨hdata, hr, hseq⟩ := hrel
        have hrx := rx_reliable hdata hr now
        rw [if_pos hseq] at hrx
        unfold SeqOk accepted at *
        rw [event, hrx.1, hrx.2, h, List.countP_append]
        simp
      | poll | txDone | queue | handle => exact absurd hrel id
    · obtain ⟨hack, hhanded⟩ := event_still hrel hunrel hlink
      unfold SeqOk accepted at *
      rw [hack, hhanded, h]

/-- An unreliable packet that is taken puts the number out. -/
theorem not_seqOk_unreliable (h : SeqOk e) (hunrel : AcceptsUnreliable e ev) :
    ¬ SeqOk (event e ev) := by
  cases ev with
  | rx pPacket len now =>
    obtain ⟨hack, hhanded⟩ := rx_unreliable hunrel.1 hunrel.2 now
    unfold SeqOk accepted at *
    rw [event, hack, hhanded, h, List.countP_append]
    simp
    omega
  | poll | txDone | queue | handle => exact absurd hunrel id

/-! ### Runs -/

/-- The run from `e` takes no unreliable packet. -/
def NoUnreliable (e : H5) (evs : List Event) : Prop :=
  ∀ pre ev post, evs = pre ++ ev :: post → ¬ AcceptsUnreliable (pre.foldl event e) ev

/-- The sequence number is right after a run that takes no unreliable packet. -/
theorem seqOk_run (h : SeqOk e) {evs : List Event} (hno : NoUnreliable e evs) :
    SeqOk (evs.foldl event e) := by
  have halong : Run.Along event (fun d ev => ¬ AcceptsUnreliable d ev) e evs :=
    Run.along_iff.mpr hno
  exact halong.induction (P := fun _ d => SeqOk d) h fun _ _ hd hc => seqOk_event hd hc

/-- **The sequence number of an endpoint whose link has become active is right throughout a
run exactly when the run takes no unreliable data packet.** -/
theorem sequence_iff (cfg : ℕ) (now : UInt32) (e : H5) (evs : List Event) :
    SequenceKept (e.activate cfg now) evs ↔ NoUnreliable (e.activate cfg now) evs := by
  have hinit : SeqOk (e.activate cfg now) := rfl
  constructor
  · intro h pre ev post hevs hunrel
    have hbefore := h.ok pre (hevs ▸ List.prefix_append pre _)
    have hafter := h.ok (pre ++ [ev]) ⟨post, by simp [hevs]⟩
    rw [List.foldl_append] at hafter
    exact not_seqOk_unreliable hbefore hunrel hafter
  · intro h
    refine ⟨fun pre hpre => ?_, fun pre ev post hevs hrel hlink => ?_⟩
    · obtain ⟨post, rfl⟩ := hpre
      refine seqOk_run hinit fun p ev q hpq => h p ev (q ++ post) ?_
      rw [hpq, List.append_assoc]
      rfl
    · exact (event_still hrel (h pre ev post hevs) hlink).1

/-- An SCO packet of no bytes, unreliable. -/
def scoPacket : Mem := buffer (hciH5PackHeader ⟨0, 0, 0, 0, hciH5PktTypeSco, 0⟩) fun _ => 0

/-- An endpoint as it is before anything has happened, with eight slots in each FIFO. -/
def idleEndpoint : H5 :=
  hciH5Init ⟨1, 0, 0, 0⟩ ⟨8, eight_dvd, fun _ => ⟨0, []⟩, 0, 0⟩
    ⟨8, eight_dvd, fun _ => ⟨.event, [], TxPkt.fits_nil⟩, 0, 0⟩ 64 (fun _ => 0) 0

/-- **An unreliable data packet moves the expected sequence number.** -/
theorem unreliable_moves_txAck :
    ¬ ∀ (cfg : ℕ) (now : UInt32) (e : H5) (evs : List Event),
      SequenceKept (e.activate cfg now) evs := by
  intro h
  have hok := (h 1 0 idleEndpoint [.rx scoPacket 4 0]).ok _ (List.prefix_refl _)
  exact absurd hok (by decide)

end TcBle.HciTransport.H5
