import TcBle.HciTransport.H5Stream
import TcBle.HciTransport.H5Transport

/-!
# Two H5 endpoints on a UART line

The whole of the H5 transport: the protocol of `hci_h5.c` and `hci_slip.c` over the receiver of
`hci_tr_h5.c`, on both sides of a serial line. What an endpoint gives to its UART goes over the line
byte by byte. It comes to the other side in chunks of the DMA, of any length, which its main loop
reads when it likes; and the flush timer may end at any time.

## The model

A step is a part of what the main loop does, or an interrupt: `HCI_Tr_H5RxHandler` is `flush` and
then `read` once for each chunk, with interrupts between them. `HCI_Slip_DecodePacket`, which the
receiver calls for each frame, is run on the frames of a chunk when the receiver is done with it: it
leaves the receiver alone. `hung` is set when the loop over a chunk does not end.

## What is proved

* `Follows.next` — the line with its chunks is the two endpoints of `H5Net`, whose wires carry
  packets and may lose one: a chunk brings some packets, and a flush loses one or none.
* `run_delivered` — so what is proved of the packets is so of the bytes: reliable transport and the
  agreement of the configurations, when no payload has more than 120 bytes; and no more packets are
  lost on the way to a side than its receiver is flushed.
-/

namespace TcBle.HciTransport

open TcBle.Foundation TcBle.Foundation.Run

/-- What an endpoint is set up with. -/
structure H5Setup where
  /-- `hciH5Config`. -/
  config : LocalConfig
  /-- The size of the HCI RX slots. -/
  rxBufSize : ℕ
  /-- `pHciRxFifo`. -/
  hciRxFifo : RingBuffer RxPkt
  /-- `pHciTxFifo`. -/
  hciTxFifo : RingBuffer TxPkt
  /-- The SLIP decode buffer. -/
  decodeBuf : Mem
  /-- `h5TrBackupBuf`. -/
  backupBuf : Mem
  /-- `h5TrRxFifo`. -/
  rxFifo : RingBuffer (List UInt8)
  /-- The time of `HCI_H5_Init`. -/
  now : UInt32

/-- The endpoints and the line. -/
structure H5Line where
  /-- The endpoints. -/
  side : Side → H5
  /-- Their receivers. -/
  tr : Side → H5Tr
  /-- The rings of their UARTs. -/
  rx : Side → UartRx
  /-- The bytes on their way from an endpoint. -/
  wire : Side → List UInt8
  /-- The loop over a chunk did not end. -/
  hung : Bool

/-- What happens next. -/
inductive H5LineInput where
  /-- `HCI_H5_Poll`. -/
  | poll (s : Side) (now : UInt32)
  /-- The next `k` bytes have come to `s`, in one chunk. -/
  | rxDone (s : Side) (k : ℕ)
  /-- `HCI_Tr_H5RxHandler` begins. -/
  | flush (s : Side) (now : UInt32)
  /-- It reads a chunk. -/
  | read (s : Side) (now : UInt32)
  /-- The UART of `s` has sent its packet. -/
  | txDone (s : Side)
  /-- The controller of `s` queues a packet. -/
  | queue (s : Side) (p : TxPkt)
  /-- The controller of `s` takes a packet. -/
  | handle (s : Side)

/-- The step that an endpoint makes by itself. -/
def H5LineInput.own : H5LineInput → Option H5Input
  | .poll s now => some (.poll s now)
  | .txDone s => some (.txDone s)
  | .queue s p => some (.queue s p)
  | .handle s => some (.handle s)
  | .rxDone _ _ | .flush _ _ | .read _ _ => none

/-- The receiver of `s` may be flushed. -/
def H5LineInput.flushes (s : Side) : H5LineInput → Bool
  | .flush t _ => t = s
  | _ => false

/-- The step that an endpoint makes by itself, between packets. -/
def H5Input.own : H5Input → Option H5Input
  | .recv _ _ | .lose _ => none
  | i => some i

/-- A packet to `s` is lost. -/
def H5Input.loses (s : Side) : H5Input → Bool
  | .lose t => t = s
  | _ => false

namespace H5Line

/-- Endpoint `s` becomes `e`; what it gave to its UART goes over the line. -/
def set (l : H5Line) (s : Side) (e : H5) : H5Line :=
  { l with
    side := Function.update l.side s { e with out := [] }
    wire := Function.update l.wire s (l.wire s ++ e.out.flatten) }

/-- `HCI_Slip_DecodePacket`. -/
def decode (s : Side) (now : UInt32) (l : H5Line) (w : List UInt8) : H5Line :=
  l.set s ((l.side s).hciSlipDecodePacket w now)

/-- One round of the loop of `HCI_Tr_H5RxHandler` over the chunks. -/
def read (s : Side) (now : UInt32) (l : H5Line) : H5Line :=
  if (l.rx s).rxFifo.wptr = (l.rx s).rxFifo.rptr then l
  else
    let chunk := (l.rx s).rxFifo.get (l.rx s).rxFifo.rptr
    match H5Tr.rxLoop (chunk.length + 1) chunk now { l.tr s with handed := [] } with
    | none => { l with hung := true }
    | some tr =>
      tr.handed.foldl (decode s now)
        { l with
          tr := Function.update l.tr s tr
          rx := Function.update l.rx s (l.rx s).rxHandler }

/-- One thing happens. -/
def step (l : H5Line) : H5LineInput → H5Line
  | .poll s now => l.set s ((l.side s).hciH5Poll now)
  | .rxDone s k =>
    { l with
      rx := Function.update l.rx s
        ((l.rx s).step UartRx.Transport.h5.irq (.rxDone ((l.wire s.peer).take k)))
      wire := Function.update l.wire s.peer ((l.wire s.peer).drop k) }
  | .flush s now => { l with tr := Function.update l.tr s ((l.tr s).flushHandler now) }
  | .read s now => l.read s now
  | .txDone s => l.set s (l.side s).uartTxDone
  | .queue s p => l.set s ((l.side s).queue p)
  | .handle s => l.set s (l.side s).hciRxHandler

/-- A run. -/
def run (l : H5Line) (is : List H5LineInput) : H5Line := is.foldl step l

/-- After `HCI_H5_Init` and `HCI_Tr_H5Init` on both sides. -/
def init (u : Side → H5Setup) : H5Line where
  side s := H5.hciH5Init (u s).config.config (u s).hciRxFifo (u s).hciTxFifo
    (hciSlipDecodeBufSize (u s).rxBufSize) (u s).decodeBuf (u s).now
  tr s := H5Tr.hciTrH5Init (u s).rxBufSize (u s).backupBuf
  rx s := UartRx.init (u s).rxFifo
  wire _ := []
  hung := false

@[simp] theorem set_side_self (l : H5Line) (s : Side) (e : H5) :
    (l.set s e).side s = { e with out := [] } := Function.update_self _ _ _
@[simp] theorem set_side_peer (l : H5Line) (s : Side) (e : H5) :
    (l.set s e).side s.peer = l.side s.peer := Function.update_of_ne s.peer_ne _ _
@[simp] theorem set_wire_self (l : H5Line) (s : Side) (e : H5) :
    (l.set s e).wire s = l.wire s ++ e.out.flatten := Function.update_self _ _ _
@[simp] theorem set_wire_peer (l : H5Line) (s : Side) (e : H5) :
    (l.set s e).wire s.peer = l.wire s.peer := Function.update_of_ne s.peer_ne _ _
@[simp] theorem set_tr (l : H5Line) (s : Side) (e : H5) : (l.set s e).tr = l.tr := rfl
@[simp] theorem set_rx (l : H5Line) (s : Side) (e : H5) : (l.set s e).rx = l.rx := rfl

/-- **The condition on a step**, for payloads of at most `m` bytes: that of the endpoints, and a
chunk is one that fits a slot and leaves another free. -/
def StepOk (u : Side → H5Setup) (m : ℕ) (l : H5Line) : H5LineInput → Prop
  | .poll s now => (l.side s).linkState = .active → (l.side s).PollOk now
  | .queue _ p => p.Reliable ∧ p.payload.length ≤ m
  | .rxDone s k =>
    let chunk := (l.wire s.peer).take k
    chunk ≠ [] ∧ chunk.length + 4 ≤ hciH5TrRxBufSize (u s).rxBufSize ∧ chunk.length < 2 ^ 16 ∧
      (l.rx s).rxFifo.count + 1 < (l.rx s).rxFifo.num
  | _ => True

instance (u : Side → H5Setup) (m : ℕ) (l : H5Line) : ∀ i, Decidable (l.StepOk u m i)
  | .poll s now =>
    inferInstanceAs (Decidable ((l.side s).linkState = .active → (l.side s).PollOk now))
  | .queue _ p => inferInstanceAs (Decidable (p.Reliable ∧ p.payload.length ≤ m))
  | .rxDone _ _ => inferInstanceAs (Decidable (_ ∧ _ ∧ _ ∧ _))
  | .flush _ _ | .read _ _ | .txDone _ | .handle _ => inferInstanceAs (Decidable True)

/-! ### The packets -/

/-- The endpoints alone. -/
def endpoints (l : H5Line) : H5Net := ⟨l.side, fun _ => []⟩

/-- The same endpoints, joined by wires that carry packets. -/
def netInit (u : Side → H5Setup) : H5Net :=
  H5Net.linkInit (fun s => (u s).config) (fun s => (u s).hciRxFifo) (fun s => (u s).hciTxFifo)
    (fun s => hciSlipDecodeBufSize (u s).rxBufSize) (fun s => (u s).decodeBuf) fun s => (u s).now

/-- **The run of the packets `js` stands for that of the line**: the endpoints make the same steps,
and no more packets to a side are lost than its receiver is flushed. -/
structure Carries (is : List H5LineInput) (js : List H5Input) : Prop where
  /-- The steps of the endpoints. -/
  own : js.filterMap H5Input.own = is.filterMap H5LineInput.own
  /-- The packets that are lost. -/
  lost : ∀ s, js.countP (H5Input.loses s) ≤ is.countP (H5LineInput.flushes s)

theorem Carries.append {is is' : List H5LineInput} {js js' : List H5Input} (h : Carries is js)
    (h' : Carries is' js') : Carries (is ++ is') (js ++ js') where
  own := by rw [List.filterMap_append, List.filterMap_append, h.own, h'.own]
  lost s := by
    rw [List.countP_append, List.countP_append]
    exact Nat.add_le_add (h.lost s) (h'.lost s)

/-- **The line follows the packets**: the bytes that are still to be read are those of the packets
on the wire. -/
structure Follows (u : Side → H5Setup) (m : ℕ) (l : H5Line) (n : H5Net) : Prop where
  /-- The endpoints. -/
  side : ∀ s, l.side s = n.side s
  /-- The rings. -/
  ring : ∀ s, (l.rx s).Ok
  /-- The chunks in them. -/
  chunk : ∀ s, ∀ c ∈ (l.rx s).unread, c ≠ [] ∧
    c.length + 4 ≤ hciH5TrRxBufSize (u s).rxBufSize ∧ c.length < 2 ^ 16
  /-- The size of the backup buffers. -/
  bufSize : ∀ s, (l.tr s).bufSize = hciH5TrRxBufSize (u s).rxBufSize
  /-- What is to be read. -/
  stream : ∀ s, ∃ t, (l.tr s).Holding (held t) ∧
    Pending t ((l.rx s).unread.flatten ++ l.wire s.peer) (n.wire s.peer)
  /-- Every loop has ended. -/
  hung : l.hung = false
  /-- The payloads. -/
  queued : ∀ s, ∀ p ∈ (n.side s).queued, p.payload.length ≤ m

/-! ### What is on the wire -/

/-- What an endpoint sends is a packet, not much longer than its payload. -/
theorem txPkt_eq (h5Type : ℕ) {pPacket : List UInt8} (hfits : pPacket.length + 6 < 2 ^ 16)
    (e : H5) : ∃ x, e.txPkt h5Type pPacket = packet x ∧ IsBody x ∧
      (packet x).length ≤ 2 * pPacket.length + 14 := by
  obtain ⟨x, heq, hbody, hlen⟩ :=
    encodePacket_isPacket e.oofEnable (H5.four_le_framed h5Type hfits e)
  refine ⟨x, heq, hbody, ?_⟩
  have hframed : (e.framed h5Type pPacket).length ≤ 4 + pPacket.length + 2 := by
    rw [H5.length_framed h5Type hfits]
    split_ifs <;> omega
  rw [length_packet]
  omega

/-- The packets on a wire, when the payloads queued have at most `m` bytes. -/
theorem packets_of_sim {W m : ℕ} {n : H5Net} {S : Side → SlidingWindow.State TxPkt}
    {items : Side → List H5.Item} (h : H5Net.Sim W n S items)
    (hqueued : ∀ s, ∀ p ∈ (n.side s).queued, p.payload.length ≤ m) (s : Side) :
    ∀ w ∈ n.wire s, (∃ x, w = packet x ∧ IsBody x) ∧ w.length ≤ 2 * max m 3 + 14 := by
  have hone : ∀ {h5Type : ℕ} {pPacket : List UInt8} (e : H5), pPacket.length + 6 < 2 ^ 16 →
      pPacket.length ≤ max m 3 → (∃ x, e.txPkt h5Type pPacket = packet x ∧ IsBody x) ∧
        (e.txPkt h5Type pPacket).length ≤ 2 * max m 3 + 14 := by
    intro h5Type pPacket e hfits hle
    obtain ⟨x, heq, hbody, hlen⟩ := txPkt_eq h5Type hfits e
    exact ⟨⟨x, heq, hbody⟩, by rw [heq]; omega⟩
  intro w hw
  obtain ⟨it, hit, e, -, hsent⟩ : ∃ it ∈ items s, it.Is w := by
    obtain ⟨i, hi, rfl⟩ := List.mem_iff_getElem.mp hw
    have hlen := (h.wire s).length_eq
    exact ⟨(items s)[i], List.getElem_mem _, (h.wire s).get (by omega) hi⟩
  cases it with
  | data seq p num =>
    obtain ⟨-, -, rfl⟩ := hsent
    refine hone e p.fits (le_max_of_le_left (hqueued s p ?_))
    -- a packet on its way was queued, since its link became active
    have hmem : (seq, p) ∈ (S s).data := by
      rw [h.data]
      exact List.mem_filterMap.mpr ⟨_, hit, rfl⟩
    have hcontent := List.mem_of_getElem? ((h.rel s).reachS.inv.content _ hmem)
    by_cases hactive : (n.side s).linkState = .active
    · have hsame : (n.side s).queued = (S s).queued := ((h.rel s).sends hactive).queued
      rw [hsame]
      exact hcontent
    · rw [((h.rel s).silent hactive).1] at hcontent
      exact absurd hcontent List.not_mem_nil
  | ack num =>
    obtain ⟨-, rfl⟩ := hsent
    exact hone e (by decide) (Nat.zero_le _)
  | link msg rest =>
    obtain ⟨-, hrest, rfl⟩ := hsent
    have hlen : (H5.linkMsg msg rest).length = rest.length + 2 := rfl
    exact hone e (by rw [hlen]; omega) (by rw [hlen]; omega)

/-! ### What is queued -/

/-- A packet that is decoded leaves the queue as it is, or empties it. -/
theorem queued_pakcetHandler (q : Mem) (len : ℕ) (now : UInt32) (e : H5) {p : TxPkt}
    (hp : p ∈ (e.hciH5PakcetHandler q len now).queued) : p ∈ e.queued := by
  rcases H5.pakcetHandler_cases e q len now with hkept | ⟨hwf, hack, hactive⟩ | ⟨hwf, hlink⟩ | hdata
  · rwa [hkept] at hp
  · rw [H5.pakcetHandler_of_ack hwf hack hactive] at hp
    unfold H5.hciH5ReSendCheck H5.releaseSent at hp
    split at hp <;> exact hp
  · rw [H5.pakcetHandler_of_link hwf hlink] at hp
    rcases H5.decodeLinkPdu_cases e q now with hkept | ⟨-, hkept⟩ | ⟨-, -, hkept⟩ | ⟨-, -, heq⟩
    · rwa [hkept.queued] at hp
    · rwa [hkept.queued] at hp
    · rw [hkept.queued] at hp
      exact absurd hp List.not_mem_nil
    · rw [heq] at hp
      exact absurd hp List.not_mem_nil
  · rw [H5.pakcetHandler_of_takesData hdata] at hp
    have hack : ∀ e : H5, (e.receiveAck (hciH5UnpackHeader q) now).queued = e.queued := fun e => by
      unfold H5.receiveAck H5.releaseSent
      split <;> rfl
    have hcount : ∀ e : H5, (e.countReceived now).queued = e.queued := fun e => by
      unfold H5.countReceived
      simp only
      split_ifs
      · exact (H5.kept_sendPureAck _).queued
      · rfl
    split_ifs at hp with hrel
    · rw [hack] at hp
      unfold H5.receiveSeq at hp
      split_ifs at hp with hseq
      · simpa only [H5.hciH5PackHciPdu, hcount] using hp
      · exact hp
    · exact hp

theorem queued_decodePacket (w : List UInt8) (now : UInt32) (e : H5) {p : TxPkt}
    (hp : p ∈ (e.hciSlipDecodePacket w now).queued) : p ∈ e.queued := by
  obtain ⟨buf, heq⟩ := H5.slipDecodePacket_eq w now e
  rw [heq] at hp
  cases hdec : slipDecoded e.decodeBufSize w with
  | none =>
    rw [hdec] at hp
    exact hp
  | some f =>
    rw [hdec] at hp
    simp only at hp
    exact queued_pakcetHandler _ _ now (e.withBuf (buffer f buf)) hp

/-! ### One step -/

variable {u : Side → H5Setup} {m : ℕ} {l : H5Line} {n : H5Net}

namespace Follows

/-- **An endpoint makes a step**: what it sends comes after what is on its way. -/
theorem set (h : Follows u m l n) (s : Side) {e : H5}
    (hqueued : ∀ p ∈ e.queued, p.payload.length ≤ m) : Follows u m (l.set s e) (n.set s e) where
  side t := by
    rcases Side.eq_or_eq_peer s t with rfl | rfl
    · rw [H5Net.set_side_self, set_side_self]
    · rw [H5Net.set_side_peer, set_side_peer]
      exact h.side _
  ring := h.ring
  chunk := h.chunk
  bufSize := h.bufSize
  stream t := by
    obtain ⟨st, hhold, hpending⟩ := h.stream t
    refine ⟨st, hhold, ?_⟩
    rcases Side.eq_or_eq_peer s t with rfl | rfl
    · rw [H5Net.set_wire_peer, set_wire_peer, set_rx]
      exact hpending
    · rw [Side.peer_peer] at hpending ⊢
      rw [H5Net.set_wire_self, set_wire_self, set_rx, ← List.append_assoc]
      exact hpending.send e.out
  hung := h.hung
  queued t := by
    rcases Side.eq_or_eq_peer s t with rfl | rfl
    · rw [H5Net.set_side_self]
      exact hqueued
    · rw [H5Net.set_side_peer]
      exact h.queued _

/-- A step of an endpoint alone. -/
theorem setStep (h : Follows u m l n) (s : Side) {f : H5 → H5}
    (hqueued : ∀ p ∈ (f (n.side s)).queued, p.payload.length ≤ m) :
    Follows u m (l.set s (f (l.side s))) (n.set s (f (n.side s))) := by
  rw [h.side s]
  exact h.set s hqueued

/-- The frames of a chunk are decoded one by one. -/
theorem decodeAll (h : Follows u m l n) (s : Side) (now : UInt32) (ws : List (List UInt8)) :
    Follows u m (ws.foldl (decode s now) l)
      (ws.foldl (fun n w => n.set s ((n.side s).hciSlipDecodePacket w now)) n) := by
  induction ws generalizing l n with
  | nil => exact h
  | cons w ws ih =>
    exact ih (h.setStep s (f := fun e => e.hciSlipDecodePacket w now) fun p hp =>
      h.queued s p (queued_decodePacket w now _ hp))

/-- A chunk comes. -/
theorem rxDone (h : Follows u m l n) (s : Side) {k : ℕ} (hok : l.StepOk u m (.rxDone s k)) :
    Follows u m (l.step (.rxDone s k)) n := by
  obtain ⟨hne, hslot, hlen, hcount⟩ := hok
  obtain ⟨hring, hunread⟩ := (h.ring s).unread_rxDone hne hcount
  have hself : ∀ t, t ≠ s → (l.step (.rxDone s k)).rx t = l.rx t := fun t ht =>
    Function.update_of_ne ht _ _
  have hrx : (l.step (.rxDone s k)).rx s =
      (l.rx s).step UartRx.Transport.h5.irq (.rxDone ((l.wire s.peer).take k)) :=
    Function.update_self _ _ _
  refine ⟨h.side, fun t => ?_, fun t => ?_, h.bufSize, fun t => ?_, h.hung, h.queued⟩
  · by_cases ht : t = s
    · rw [ht, hrx]
      exact hring
    · rw [hself t ht]
      exact h.ring t
  · by_cases ht : t = s
    · rw [ht, hrx, hunread]
      intro c hc
      rcases List.mem_append.mp hc with hc | hc
      · exact h.chunk s c hc
      · rw [List.mem_singleton.mp hc]
        exact ⟨hne, hslot, hlen⟩
    · rw [hself t ht]
      exact h.chunk t
  · obtain ⟨st, hhold, hpending⟩ := h.stream t
    refine ⟨st, hhold, ?_⟩
    by_cases ht : t = s
    · subst ht
      have hwire : (l.step (.rxDone t k)).wire t.peer = (l.wire t.peer).drop k :=
        Function.update_self _ _ _
      rw [hrx, hunread, hwire, List.flatten_append, List.flatten_singleton, List.append_assoc,
        List.take_append_drop]
      exact hpending
    · have hpeer : t.peer ≠ s.peer := fun heq => ht (by rw [← t.peer_peer, heq, Side.peer_peer])
      have hwire : (l.step (.rxDone s k)).wire t.peer = l.wire t.peer :=
        Function.update_of_ne hpeer _ _
      rw [hself t ht, hwire]
      exact hpending

/-- The receiver of `s` changes, with what it has read and what it has lost. -/
theorem setTr (h : Follows u m l n) (s : Side) (tr : H5Tr) (rx : UartRx) {ws : List (List UInt8)}
    {t : Option (List UInt8)} (hbuf : tr.bufSize = (l.tr s).bufSize) (hring : rx.Ok)
    (hunread : ∀ c ∈ rx.unread, c ∈ (l.rx s).unread) (hhold : tr.Holding (held t))
    (hpending : Pending t (rx.unread.flatten ++ l.wire s.peer) ws) :
    Follows u m { l with tr := Function.update l.tr s tr, rx := Function.update l.rx s rx }
      (n.setWire s.peer ws) := by
  refine ⟨h.side, fun v => ?_, fun v => ?_, fun v => ?_, fun v => ?_, h.hung, h.queued⟩
  · rcases Side.eq_or_eq_peer s v with rfl | rfl
    · simp only [Function.update_self]
      exact hring
    · simp only [Function.update_of_ne s.peer_ne]
      exact h.ring _
  · rcases Side.eq_or_eq_peer s v with rfl | rfl
    · simp only [Function.update_self]
      exact fun c hc => h.chunk v c (hunread c hc)
    · simp only [Function.update_of_ne s.peer_ne]
      exact h.chunk _
  · rcases Side.eq_or_eq_peer s v with rfl | rfl
    · simp only [Function.update_self]
      exact hbuf.trans (h.bufSize v)
    · simp only [Function.update_of_ne s.peer_ne]
      exact h.bufSize _
  · rcases Side.eq_or_eq_peer s v with rfl | rfl
    · simp only [Function.update_self, H5Net.setWire_wire_self]
      exact ⟨t, hhold, hpending⟩
    · simp only [Function.update_of_ne s.peer_ne, Side.peer_peer, H5Net.setWire_wire_of_peer]
      have := h.stream s.peer
      rwa [Side.peer_peer] at this

/-- **A flush** loses a packet, or nothing. -/
theorem flush (h : Follows u m l n) (s : Side) (now : UInt32) :
    Follows u m (l.step (.flush s now)) n ∨
      Follows u m (l.step (.flush s now)) (n.step (.lose s)) := by
  obtain ⟨t, hhold, hpending⟩ := h.stream s
  have hsame : ∀ tr, ({ l with tr := Function.update l.tr s tr } : H5Line) =
      { l with tr := Function.update l.tr s tr, rx := Function.update l.rx s (l.rx s) } :=
    fun tr => by rw [Function.update_eq_self]
  have hwire : n.setWire s.peer (n.wire s.peer) = n := by
    rw [H5Net.setWire, Function.update_eq_self]
  simp only [step]
  unfold H5Tr.flushHandler
  split_ifs with hexceed
  · rw [hsame]
    have hempty : ({ l.tr s with flushTimer := 0, backupCnt := 0 } : H5Tr).Holding (held none) :=
      ⟨rfl, rfl⟩
    refine hpending.flush.imp (fun hp => ?_) fun hp => ?_
    · have hfollows := h.setTr s { l.tr s with flushTimer := 0, backupCnt := 0 } (l.rx s) rfl
        (h.ring s) (fun _ => id) hempty hp
      rwa [hwire] at hfollows
    · exact h.setTr s { l.tr s with flushTimer := 0, backupCnt := 0 } (l.rx s) rfl
        (h.ring s) (fun _ => id) hempty hp
  · rw [Function.update_eq_self]
    exact .inl h

end Follows

/-- What is decoded of a frame: nothing, when it is too short. -/
def long (w : List UInt8) : Option (List UInt8) := if w.length < 6 then none else some w

/-- A frame that is too short is passed over. -/
theorem foldl_decode (s : Side) (now : UInt32) (ws : List (List UInt8))
    (hout : (l.side s).out = []) :
    ws.foldl (decode s now) l = (ws.filterMap long).foldl (decode s now) l := by
  induction ws generalizing l with
  | nil => rfl
  | cons w ws ih =>
    have hnext : ((l.decode s now w).side s).out = [] := by
      rw [decode, set_side_self]
    rw [List.foldl_cons, ih hnext]
    by_cases hshort : w.length < 6
    · have hquiet : l.decode s now w = l := by
        have hside : ({ l.side s with out := [] } : H5) = l.side s := by rw [← hout]
        rw [decode, H5.hciSlipDecodePacket, if_pos hshort, set, hside, hout, List.flatten_nil,
          List.append_nil, Function.update_eq_self, Function.update_eq_self]
      have hnone : long w = none := if_pos hshort
      rw [List.filterMap_cons_none hnone, hquiet]
    · have hsome : long w = some w := if_neg hshort
      rw [List.filterMap_cons_some hsome]
      rfl

/-- The oldest packets arrive, one after the other. -/
theorem run_recv (s : Side) (now : UInt32) (ws : List (List UInt8)) {ws' : List (List UInt8)}
    (hwire : n.wire s.peer = ws ++ ws') :
    n.run (ws.map fun _ => .recv s now) =
      ws.foldl (fun n w => n.set s ((n.side s).hciSlipDecodePacket w now))
        (n.setWire s.peer ws') := by
  induction ws generalizing n with
  | nil =>
    rw [List.nil_append] at hwire
    rw [← hwire, H5Net.setWire, Function.update_eq_self]
    rfl
  | cons w ws ih =>
    obtain ⟨e, he⟩ : ∃ e, (n.side s).hciSlipDecodePacket w now = e := ⟨_, rfl⟩
    have hstep : n.step (.recv s now) = (n.setWire s.peer (ws ++ ws')).set s e := by
      rw [← he, H5Net.step, hwire]
      rfl
    have hcomm : ((n.setWire s.peer (ws ++ ws')).set s e).setWire s.peer ws' =
        (n.setWire s.peer ws').set s e := by
      simp only [H5Net.setWire, H5Net.set, Function.update_of_ne s.ne_peer]
      rw [Function.update_comm s.ne_peer, Function.update_idem]
    rw [List.map_cons, H5Net.run, List.foldl_cons, hstep]
    refine (ih (by simp)).trans ?_
    rw [hcomm, List.foldl_cons]
    simp only [H5Net.setWire_side, he]

/-- What a step of the line needs of the wires. -/
def WiresFit (u : Side → H5Setup) (n : H5Net) : Prop :=
  ∀ s, ∀ w ∈ n.wire s.peer, (∃ x, w = packet x ∧ IsBody x) ∧ w.length ≤ 2 ^ 8 - 1 ∧
    w.length ≤ hciH5TrRxBufSize (u s).rxBufSize

/-- **A chunk brings the oldest packets**, and the loop over it ends. -/
theorem Follows.read (h : Follows u m l n) (hfit : WiresFit u n) (s : Side)
    (hout : (n.side s).out = []) (now : UInt32) :
    ∃ ws : List (List UInt8),
      Follows u m (l.step (.read s now)) (n.run (ws.map fun _ => .recv s now)) := by
  obtain ⟨t, hhold, hpending⟩ := h.stream s
  simp only [step, H5Line.read]
  split_ifs with hempty
  · exact ⟨[], h⟩
  · obtain ⟨hring, hunread⟩ := (h.ring s).unread_poll hempty
    obtain ⟨hne, hslot, hlen⟩ := h.chunk s _ (by rw [hunread]; exact List.mem_cons_self)
    generalize (l.rx s).rxFifo.get (l.rx s).rxFifo.rptr = chunk at hunread hne hslot hlen
    rw [hunread, List.flatten_cons, List.append_assoc] at hpending
    obtain ⟨ws, hws, hrest⟩ := hpending.read fun w hw => (hfit s w hw).1
    have hbuf := h.bufSize s
    have hshort : t ≠ none → H5Tr.Short (2 ^ 8 - 1) (l.tr s).bufSize t chunk := fun ht => by
      rw [hbuf]
      exact hpending.short ht (hfit s)
    have hclean : ({ l.tr s with handed := [] } : H5Tr).Holding (held t) := { hhold with }
    obtain ⟨tr, hloop, hread⟩ := H5Tr.rxLoop_readAs long (fun w hw => if_pos hw)
      (chunk.length + 1) now hclean hne hlen (show chunk.length ≤ (l.tr s).bufSize by omega)
      (Nat.lt_succ_self _) hshort
    have hframes : tr.handed.filterMap long = (frames t chunk).2 := by
      rw [hread.delivered, List.filterMap_nil, List.nil_append]
      refine (List.filterMap_congr fun w hw => if_neg ?_).trans List.filterMap_some
      obtain ⟨x, rfl, hx⟩ := (hfit s w (hws ▸ List.mem_append_left _ hw)).1
      have := hx.four_le
      rw [length_packet]
      omega
    have hheld : (held (frames t chunk).1).length < 2 ^ 8 :=
      hrest.length_held fun w hw => (hfit s w (hws ▸ List.mem_append_right _ hw)).2.1
    refine ⟨(frames t chunk).2, ?_⟩
    rw [run_recv s now _ hws]
    simp only [hloop]
    rw [foldl_decode s now _ (by rw [h.side s]; exact hout), hframes]
    refine Follows.decodeAll ?_ s now _
    exact h.setTr s tr _ hread.bufSize hring
      (fun c hc => by rw [hunread]; exact List.mem_cons_of_mem _ hc) (hread.holding hheld) hrest

/-- The packets of payloads that are not too long fit the receivers. -/
theorem wiresFit {W : ℕ} {S : Side → SlidingWindow.State TxPkt} {items : Side → List H5.Item}
    (hm : m ≤ 120) (hrx : ∀ s, m ≤ (u s).rxBufSize) (h : H5Net.Sim W n S items)
    (hqueued : ∀ s, ∀ p ∈ (n.side s).queued, p.payload.length ≤ m) : WiresFit u n := by
  intro s w hw
  obtain ⟨hpacket, hlen⟩ := packets_of_sim h hqueued s.peer w hw
  have hroom := hrx s
  refine ⟨hpacket, by omega, hlen.trans ?_⟩
  simp only [hciH5TrRxBufSize, memSizeAlign16, hciH5HeadLen, hciH5CrcLen]
  omega

/-- **One step of the line** is some steps of the packets, of which a flush loses one at most. -/
theorem Follows.next {W : ℕ} {c : Side → LocalConfig} {S : Side → SlidingWindow.State TxPkt}
    {items : Side → List H5.Item} (h : Follows u m l n) (hm : m ≤ 120)
    (hrx : ∀ s, m ≤ (u s).rxBufSize) (hlink : H5Net.Linked c n) (hsim : H5Net.Sim W n S items)
    {i : H5LineInput} (hok : l.StepOk u m i) :
    ∃ js, Along H5Net.step H5Net.StepOk n js ∧ Carries [i] js ∧
      Follows u m (l.step i) (n.run js) := by
  cases i with
  | poll s now =>
    refine ⟨[.poll s now], ⟨?_, trivial⟩, ⟨rfl, fun _ => Nat.le_refl 0⟩,
      h.setStep s (f := fun e => e.hciH5Poll now) fun p hp => ?_⟩
    · rw [H5Net.StepOk, ← h.side s]
      exact hok
    · rw [(H5.kept_poll now _).queued] at hp
      exact h.queued s p hp
  | rxDone s k => exact ⟨[], trivial, ⟨rfl, fun _ => Nat.zero_le _⟩, h.rxDone s hok⟩
  | flush s now =>
    rcases h.flush s now with hsame | hlost
    · exact ⟨[], trivial, ⟨rfl, fun _ => Nat.zero_le _⟩, hsame⟩
    · refine ⟨[.lose s], ⟨trivial, trivial⟩, ⟨rfl, fun t => ?_⟩, hlost⟩
      simp [H5Input.loses, H5LineInput.flushes]
  | read s now =>
    obtain ⟨ws, hread⟩ := h.read (wiresFit hm hrx hsim h.queued) s (hlink.out s) now
    have hrecv : ∀ j ∈ ws.map fun _ => H5Input.recv s now, j = .recv s now := fun j hj => by
      obtain ⟨-, -, rfl⟩ := List.mem_map.mp hj
      rfl
    refine ⟨_, along_iff.mpr fun pre j post hsplit => ?_, ⟨?_, fun t => ?_⟩, hread⟩
    · rw [hrecv j (by rw [hsplit]; simp)]
      exact trivial
    · refine List.filterMap_eq_nil_iff.mpr fun j hj => ?_
      rw [hrecv j hj]
      rfl
    · refine (List.countP_eq_zero.mpr fun j hj => ?_).le.trans (Nat.zero_le _)
      rw [hrecv j hj]
      exact Bool.false_ne_true
  | txDone s =>
    exact ⟨[.txDone s], ⟨trivial, trivial⟩, ⟨rfl, fun _ => Nat.le_refl 0⟩,
      h.setStep s (f := H5.uartTxDone) (h.queued s)⟩
  | queue s p =>
    refine ⟨[.queue s p], ⟨hok.1, trivial⟩, ⟨rfl, fun _ => Nat.le_refl 0⟩,
      h.setStep s (f := H5.queue p) fun q hq => ?_⟩
    unfold H5.queue at hq
    split_ifs at hq
    · rcases List.mem_append.mp hq with hq | hq
      · exact h.queued s q hq
      · rw [List.mem_singleton.mp hq]
        exact hok.2
    · exact h.queued s q hq
  | handle s =>
    refine ⟨[.handle s], ⟨trivial, trivial⟩, ⟨rfl, fun _ => Nat.le_refl 0⟩,
      h.setStep s (f := H5.hciRxHandler) fun p hp => ?_⟩
    unfold H5.hciRxHandler at hp
    split_ifs at hp <;> exact h.queued s p hp

theorem follows_init (u : Side → H5Setup) (m : ℕ) : Follows u m (init u) (netInit u) where
  side _ := rfl
  ring s := UartRx.ok_init (u s).rxFifo
  chunk _ _ hc := absurd hc List.not_mem_nil
  bufSize _ := rfl
  stream _ := ⟨none, ⟨rfl, rfl⟩, .between [] (.inl rfl)⟩
  hung := rfl
  queued _ _ hp := absurd hp List.not_mem_nil

/-- **Every run of the line is a run of the packets**, with the same endpoints. -/
theorem run_follows (u : Side → H5Setup) (hm : m ≤ 120) (hrx : ∀ s, m ≤ (u s).rxBufSize)
    {is : List H5LineInput} (hok : Along step (StepOk u m) (init u) is) :
    ∃ js, Along H5Net.step H5Net.StepOk (netInit u) js ∧ Carries is js ∧
      Follows u m ((init u).run is) ((netInit u).run js) := by
  refine hok.induction (P := fun is l => ∃ js, Along H5Net.step H5Net.StepOk (netInit u) js ∧
    Carries is js ∧ Follows u m l ((netInit u).run js))
    ⟨[], trivial, ⟨rfl, fun _ => Nat.le_refl 0⟩, follows_init u m⟩ ?_
  rintro _ i ⟨js, hjs, hcarries, hfollows⟩ hstep
  obtain ⟨S, items, hsim⟩ := H5Net.sim_run _ _ _ _ _ _ hjs
  obtain ⟨js', hjs', hcarries', hnext⟩ :=
    hfollows.next hm hrx (H5Net.linked_run _ _ _ _ _ _ js) hsim hstep
  refine ⟨js ++ js', (along_append _ _ _).mpr ⟨hjs, hjs'⟩, hcarries.append hcarries', ?_⟩
  rw [H5Net.run, List.foldl_append]
  exact hnext

/-- **Reliable transport over the line**, for payloads of at most 120 bytes and chunks that find a
slot: no loop hangs; what either side has handed over is the start of what the other has queued, and
only that is released; two active sides have the same configuration, within both local ones; and the
endpoints are where the packets themselves bring them, of which each flush loses one at most. -/
theorem run_delivered (u : Side → H5Setup) (hm : m ≤ 120) (hrx : ∀ s, m ≤ (u s).rxBufSize)
    {is : List H5LineInput} (hok : Along step (StepOk u m) (init u) is) :
    ((init u).run is).hung = false ∧
      (∀ s, ((init u).run is).endpoints.Delivered s) ∧
      ((∀ s, (((init u).run is).side s).linkState = .active) →
        (((init u).run is).side .left).config = (((init u).run is).side .right).config ∧
        ∀ s t, (((init u).run is).side s).config.Within (u t).config.config) ∧
      ∃ js, Carries is js ∧ ((init u).run is).side = ((netInit u).run js).side := by
  obtain ⟨js, hjs, hcarries, h⟩ := run_follows u hm hrx hok
  have hside : ((init u).run is).side = ((netInit u).run js).side := funext h.side
  refine ⟨h.hung, fun s => ?_, fun hactive => ?_, js, hcarries, hside⟩
  · obtain ⟨horder, hreleased⟩ := H5Net.delivered_run _ _ _ _ _ _ hjs s
    rw [← netInit] at horder hreleased
    unfold H5Net.accepted at horder hreleased
    rw [← hside] at horder hreleased
    exact ⟨horder, hreleased⟩
  · rw [hside] at hactive ⊢
    exact H5Net.active_agree _ _ _ _ _ _ js hactive

/-! ### A run -/

/-- Slots of 64 bytes. -/
def smallSetup (s : Side) : H5Setup where
  config := H5Net.smallConfig s
  rxBufSize := 64
  hciRxFifo := ⟨8, eight_dvd, fun _ => ⟨0, []⟩, 0, 0⟩
  hciTxFifo := ⟨8, eight_dvd, fun _ => ⟨.event, [], TxPkt.fits_nil⟩, 0, 0⟩
  decodeBuf := fun _ => 0
  backupBuf := fun _ => 0
  rxFifo := ⟨8, eight_dvd, fun _ => [], 0, 0⟩
  now := 0

/-- A chunk comes to `s` and is read, and both UARTs are done. -/
def exchange (s : Side) (k : ℕ) (now : UInt32) : List H5LineInput :=
  [.rxDone s k, .read s now, .txDone s, .txDone s.peer]

/-- The first message is cut and flushed. The link is established by the next ones, some of them cut
as well, and then an event is sent. -/
def smallRun : List H5LineInput :=
  [.poll .left 5000000, .rxDone .right 5, .read .right 5000000, .flush .right 40000000] ++
    exchange .right 20 40000000 ++ [.poll .left 45000000] ++ exchange .right 5 45000000 ++
    exchange .right 20 45000000 ++ exchange .left 20 45000000 ++ exchange .right 20 45000000 ++
    [.poll .right 50000000] ++ exchange .left 20 50000000 ++ exchange .right 7 50000000 ++
    exchange .right 20 50000000 ++ exchange .left 20 50000000 ++ exchange .right 20 50000000 ++
    [.poll .left 60000000] ++ exchange .right 20 60000000 ++ exchange .left 20 60000000 ++
    [.queue .left (H5Net.byteEvent 7), .poll .left 60000000] ++
    exchange .right 4 60000000 ++ exchange .right 20 60000000

theorem run_delivered_small :
    ((init smallSetup).run smallRun).hung = false ∧
      ∀ s, ((init smallSetup).run smallRun).endpoints.Delivered s :=
  have h := run_delivered smallSetup (m := 1) (by decide) (fun _ => show 1 ≤ 64 by decide)
    (show Along step (StepOk smallSetup 1) (init smallSetup) smallRun by decide +kernel)
  ⟨h.1, h.2.1⟩

end H5Line

end TcBle.HciTransport
