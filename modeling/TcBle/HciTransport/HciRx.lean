import TcBle.HciTransport.H5Step
import TcBle.HciTransport.TrH4
import TcBle.Foundation.Run
import Mathlib.Data.List.Forall2

/-!
# The HCI RX FIFO

The transports write packets into the FIFO `bltHci_rxfifo`, `HCI_Tr_H4RxHandler` and
`HCI_H5_PackHciPdu` alike without looking whether there is room, and `HCI_RxHandler` gives
one slot to `blc_hci_handler` each time the main loop comes to it.

## The model

The slots are one piece of memory. What is written and what is delivered is kept beside the
FIFO. An H5 link that is reset empties the FIFO; the two lists then start anew.

## What is proved

* `h4_isRun` and `h5_isRun` — what a chunk does to the FIFO in the H4 transport, and what a SLIP
  packet does in the H5 transport, is a run of it.
* `inOrder_iff` — throughout a run, the FIFO delivers what is written in order, each packet
  once and with its bytes, exactly when every packet is written into a free slot that it fits.
-/

namespace TcBle.HciTransport

open TcBle.Foundation TcBle.Foundation.Run

/-- The FIFO, and what went through it. -/
structure HciRx where
  /-- The size of a slot. -/
  size : ℕ
  /-- The number of slots. -/
  num : ℕ
  /-- It is a power of two that an eight-bit number holds. -/
  num_dvd : num ∣ 128
  /-- The slots. -/
  p : Mem
  /-- The write counter. -/
  wptr : ℕ
  /-- The read counter. -/
  rptr : ℕ
  /-- The packets written. -/
  written : List (List UInt8)
  /-- The slots given to `blc_hci_handler`, as it finds them. -/
  delivered : List (List UInt8)

namespace HciRx

/-- A transport writes a packet. -/
def write (pkt : List UInt8) (s : HciRx) : HciRx :=
  { s with p := memcpy s.p (s.wptr % s.num * s.size) pkt
           wptr := (s.wptr + 1) % 2 ^ 8
           written := s.written ++ [pkt] }

/-- `HCI_RxHandler`. -/
def hciRxHandler (s : HciRx) : HciRx :=
  if s.wptr = s.rptr then s
  else { s with delivered := s.delivered ++ [slot s.p s.size (s.rptr % s.num)]
                rptr := (s.rptr + 1) % 2 ^ 8 }

/-- The part of `HCI_H5_Reset` about the FIFO. -/
def reset (s : HciRx) : HciRx := { s with wptr := 0, rptr := 0, written := [], delivered := [] }

/-- What can happen to the FIFO. -/
inductive Event
  /-- A transport writes a packet. -/
  | write (pkt : List UInt8)
  /-- The main loop delivers a packet. -/
  | handle
  /-- The H5 link is reset. -/
  | reset

/-- A step. -/
def step (s : HciRx) : Event → HciRx
  | .write pkt => s.write pkt
  | .handle => s.hciRxHandler
  | .reset => s.reset

/-- `(u8)(wptr - rptr)`. -/
def count (s : HciRx) : ℕ := (s.wptr + (2 ^ 8 - s.rptr)) % 2 ^ 8

/-- **What the FIFO is for.** -/
structure InOrder (s : HciRx) : Prop where
  /-- The number of packets in the FIFO is at most the number of its slots. -/
  room : s.count ≤ s.num
  /-- They are those that were written and not delivered. -/
  waiting : s.delivered.length + s.count = s.written.length
  /-- The packets delivered are those written, in order, each once and with its bytes. -/
  order : ∀ k (h : k < s.delivered.length), ∃ pkt, s.written[k]? = some pkt ∧
    pkt <+: s.delivered.get ⟨k, h⟩
  /-- Those in the FIFO are in their slots as they were written. -/
  intact : ∀ k (h : k < s.written.length), s.delivered.length ≤ k →
    s.written.get ⟨k, h⟩ <+: slot s.p s.size (k % s.num)

/-- A packet is written into a free slot that it fits. -/
def FindsRoom (s : HciRx) : Event → Prop
  | .write pkt => s.count < s.num ∧ pkt.length ≤ s.size
  | .handle => True
  | .reset => True

/-! ### The transports -/

/-- What the H4 receive handler, which takes the control block from `e` to `e'`, writes: the packets
that it pushes. -/
def h4Writes (e e' : H4Tr) : List Event := (e'.pushed.drop e.pushed.length).map .write

/-- The bytes of a packet that `HCI_H5_PackHciPdu` writes. -/
def h5Bytes (pkt : RxPkt) : List UInt8 := UInt8.ofNat pkt.hciType :: pkt.payload

/-- The FIFO is that of an H5 endpoint. -/
structure OfH5 (e : H5) (s : HciRx) : Prop where
  /-- The number of slots. -/
  num : s.num = e.hciRxFifo.num
  /-- The write counter. -/
  wptr : s.wptr = e.hciRxFifo.wptr
  /-- The read counter. -/
  rptr : s.rptr = e.hciRxFifo.rptr
  /-- What was written. -/
  written : s.written = e.handed.map fun h => h5Bytes h.pkt

variable {e e' : H5} {s : HciRx}

/-- What leaves the RX FIFO of an endpoint alone. -/
theorem OfH5.kept (h : OfH5 e s) (hfifo : e'.hciRxFifo = e.hciRxFifo)
    (hhanded : e'.handed = e.handed) : OfH5 e' s :=
  ⟨by rw [hfifo]; exact h.num, by rw [hfifo]; exact h.wptr, by rw [hfifo]; exact h.rptr,
    by rw [hhanded]; exact h.written⟩

/-- A packet that the endpoint hands over is written. -/
theorem OfH5.write (h : OfH5 e s) {pkt : Handed} (hfifo : e'.hciRxFifo = e.hciRxFifo.push pkt.pkt)
    (hhanded : e'.handed = e.handed ++ [pkt]) : OfH5 e' (s.write (h5Bytes pkt.pkt)) := by
  refine ⟨by rw [hfifo]; exact h.num, ?_, by rw [hfifo]; exact h.rptr, ?_⟩
  · rw [hfifo, RingBuffer.push_wptr, ← h.wptr]
    rfl
  · rw [hhanded, List.map_append, ← h.written]
    rfl

/-- A reset of the link. -/
theorem OfH5.reset (h : OfH5 e s) (hfifo : e'.hciRxFifo = e.hciRxFifo.reset)
    (hhanded : e'.handed = []) :
    OfH5 e' s.reset :=
  ⟨by rw [hfifo]; exact h.num, by rw [hfifo]; rfl, by rw [hfifo]; rfl, by rw [hhanded]; rfl⟩

theorem countReceived_hciRxFifo (now : UInt32) (e : H5) :
    (e.countReceived now).hciRxFifo = e.hciRxFifo := by
  unfold H5.countReceived
  simp only
  split_ifs
  · exact (H5.kept_sendPureAck _).hciRxFifo
  · rfl

/-- What a decoded packet does. -/
theorem packet_isRun (h : OfH5 e s) (pPacket : Mem) (len : ℕ) (now : UInt32) :
    ∃ evs : List Event, evs.length ≤ 1 ∧ OfH5 (e.hciH5PakcetHandler pPacket len now)
    (evs.foldl step s) := by
  have hsame : ∀ {e' : H5}, e'.hciRxFifo = e.hciRxFifo → e'.handed = e.handed →
      ∃ evs : List Event, evs.length ≤ 1 ∧ OfH5 e' (evs.foldl step s) :=
    fun hfifo hhanded => ⟨[], Nat.zero_le 1, h.kept hfifo hhanded⟩
  have hreset : ∀ {e' : H5}, e'.hciRxFifo = e.hciRxFifo.reset → e'.handed = [] →
      ∃ evs : List Event, evs.length ≤ 1 ∧ OfH5 e' (evs.foldl step s) :=
    fun hfifo hhanded => ⟨[.reset], le_refl 1, h.reset hfifo hhanded⟩
  have hwrite : ∀ {e' : H5} (pkt : Handed), e'.hciRxFifo = e.hciRxFifo.push pkt.pkt →
    e'.handed = e.handed ++ [pkt] →
      ∃ evs : List Event, evs.length ≤ 1 ∧ OfH5 e' (evs.foldl step s) :=
    fun pkt hfifo hhanded => ⟨[.write (h5Bytes pkt.pkt)], le_refl 1, h.write hfifo hhanded⟩
  rcases H5.pakcetHandler_cases e pPacket len now with heq | ⟨hwf, hack, hactive⟩ |
    ⟨hwf, hlink⟩ | hdata
  · exact hsame (by rw [heq]) (by rw [heq])
  · rw [H5.pakcetHandler_of_ack hwf hack hactive]
    exact hsame (by unfold H5.hciH5ReSendCheck H5.releaseSent; split <;> rfl) (by simp)
  · rw [H5.pakcetHandler_of_link hwf hlink]
    rcases H5.decodeLinkPdu_cases e pPacket now with hkept | ⟨-, hkept⟩ | ⟨-, -, hkept⟩ |
      ⟨-, -, heq⟩
    · exact hsame hkept.hciRxFifo hkept.handed
    · exact hsame hkept.hciRxFifo hkept.handed
    · exact hreset hkept.hciRxFifo hkept.handed
    · exact hreset (by rw [heq]; rfl) (by rw [heq]; rfl)
  · rw [H5.pakcetHandler_of_takesData hdata]
    split_ifs with hrel
    · have hack : ∀ e' : H5, (e'.receiveAck (hciH5UnpackHeader pPacket) now).hciRxFifo =
        e'.hciRxFifo := by
        intro e'
        unfold H5.receiveAck H5.releaseSent
        split <;> rfl
      unfold H5.receiveSeq
      split_ifs with hseq
      · refine hwrite ⟨H5.rxPkt pPacket, true⟩ ?_ ?_
        · rw [hack]
          simp only [H5.hciH5PackHciPdu, countReceived_hciRxFifo]
          rfl
        · rw [H5.receiveAck_handed]
          simp only [H5.hciH5PackHciPdu, H5.countReceived_handed]
          rfl
      · exact hsame (hack _) (by simp)
    · exact hwrite ⟨H5.rxPkt pPacket, false⟩ rfl rfl

/-- **What a SLIP packet does** to the FIFO of an H5 endpoint: nothing, or a packet is written, or
the FIFO is reset. -/
theorem h5_isRun (h : OfH5 e s) (w : List UInt8) (now : UInt32) :
    ∃ evs : List Event, evs.length ≤ 1 ∧ OfH5 (e.hciSlipDecodePacket w now) (evs.foldl step s) := by
  obtain ⟨buf, hdecode⟩ := H5.slipDecodePacket_eq w now e
  rw [hdecode]
  cases slipDecoded e.decodeBufSize w with
  | none => exact ⟨[], Nat.zero_le 1, h.kept rfl rfl⟩
  | some pkt =>
    have hbuf : OfH5 (e.withBuf (buffer pkt buf)) s := h.kept rfl rfl
    exact packet_isRun hbuf (buffer pkt buf) pkt.length now

/-- The H5 endpoint's own `HCI_RxHandler`. -/
theorem h5_handle (h : OfH5 e s) : OfH5 e.hciRxHandler (s.step .handle) := by
  rw [step, hciRxHandler, H5.hciRxHandler]
  by_cases hempty : e.hciRxFifo.wptr = e.hciRxFifo.rptr
  · rw [if_pos hempty, if_pos (by rw [h.wptr, h.rptr, hempty])]
    exact h
  · rw [if_neg hempty, if_neg (by rw [h.wptr, h.rptr]; exact hempty)]
    exact ⟨h.num, h.wptr, congrArg (fun r => (r + 1) % 2 ^ 8) h.rptr, h.written⟩

/-- `HCI_H5_Poll` leaves the FIFO alone. -/
theorem h5_poll (h : OfH5 e s) (now : UInt32) : OfH5 (e.hciH5Poll now) s :=
  h.kept (H5.kept_poll now e).hciRxFifo (H5.kept_poll now e).handed

theorem backUpPacket_pushed (head : H4Head) (q : Mem) (len : ℕ) (now : UInt32) (e : H4Tr) :
    e.pushed <+: (e.backUpPacket head q len now).1.pushed := by
  unfold H4Tr.backUpPacket
  simp only
  split_ifs
  · exact List.prefix_append _ _
  · exact List.prefix_rfl

theorem backUpHandler_pushed (q : Mem) (len : ℕ) (now : UInt32) (e : H4Tr) :
    e.pushed <+: (e.hciTrH4BackUpHandler q len now).1.pushed := by
  unfold H4Tr.hciTrH4BackUpHandler
  split_ifs
  · exact List.prefix_rfl
  · cases h4Head (e.backUpBuf 0) with
    | none => exact List.prefix_rfl
    | some head =>
      simp only
      split_ifs
      · exact backUpPacket_pushed head q len now e
      · exact backUpPacket_pushed head _ _ now (e.backUp q _)
      · exact List.prefix_rfl

/-- The H4 receive handler only adds to what is pushed. -/
theorem rxLoop_pushed (fuel : ℕ) {q : Mem} {len : ℕ} {now : UInt32} {e e' : H4Tr}
    (h : H4Tr.rxLoop fuel q len now e = some e') : e.pushed <+: e'.pushed := by
  induction fuel generalizing q len e with
  | zero => exact absurd h nofun
  | succ fuel ih =>
    rw [H4Tr.rxLoop] at h
    split_ifs at h with hzero
    · exact Option.some.inj h ▸ List.prefix_rfl
    · simp only at h
      have hfirst : e.pushed <+: (e.backUpFirst q len now).1.pushed := by
        unfold H4Tr.backUpFirst
        split_ifs
        · exact backUpHandler_pushed q len now e
        · exact List.prefix_rfl
      refine hfirst.trans ?_
      generalize (e.backUpFirst q len now).1 = e₁ at h
      generalize adv q (e.backUpFirst q len now).2 = q₁ at h
      generalize subU32 len (e.backUpFirst q len now).2 = len₁ at h
      unfold H4Tr.rxPacket at h
      cases hhead : h4Head (q₁ 0) with
      | some head =>
        rw [hhead] at h
        simp only at h
        split_ifs at h
        · exact Option.some.inj h ▸ backUpHandler_pushed q₁ len₁ now e₁
        · exact (List.prefix_append _ _).trans (ih h)
        · exact Option.some.inj h ▸ backUpHandler_pushed q₁ len₁ now e₁
        · exact ih h
      | none =>
        rw [hhead] at h
        simp only at h
        split_ifs at h
        · exact Option.some.inj h ▸ List.prefix_rfl
        · exact ih h
        · exact Option.some.inj h ▸ List.prefix_rfl
        · exact ih h
        · exact Option.some.inj h ▸ List.prefix_rfl

/-- Writing packets one by one. -/
theorem foldl_write (ps : List (List UInt8)) (s : HciRx) :
    ((ps.map Event.write).foldl step s).written = s.written ++ ps ∧
      ((ps.map Event.write).foldl step s).delivered = s.delivered := by
  induction ps generalizing s with
  | nil => exact ⟨(List.append_nil _).symm, rfl⟩
  | cons p ps ih =>
    obtain ⟨hwritten, hdelivered⟩ := ih (s.write p)
    exact ⟨hwritten.trans (by simp [HciRx.write]), hdelivered⟩

/-- **What a chunk does** to the FIFO in the H4 transport: the packets that are pushed are
written. -/
theorem h4_isRun (fuel : ℕ) {q : Mem} {len : ℕ} {now : UInt32} {e e' : H4Tr} (s : HciRx)
    (h : e.hciTrH4RxHandler fuel q len now = some e') (hs : s.written = e.pushed) :
    ((h4Writes e e').foldl step s).written = e'.pushed ∧
      ((h4Writes e e').foldl step s).delivered = s.delivered := by
  have hflush : (e.flushHandler now).pushed = e.pushed := by
    unfold H4Tr.flushHandler
    split_ifs <;> rfl
  obtain ⟨ps, hps⟩ := rxLoop_pushed fuel h
  rw [hflush] at hps
  obtain ⟨hwritten, hdelivered⟩ := foldl_write ps s
  rw [h4Writes, ← hps, List.drop_left]
  exact ⟨by rw [hwritten, hs], hdelivered⟩

/-! ### Runs -/

/-- The FIFO as a ring of slots. -/
def ring (s : HciRx) : RingBuffer (List UInt8) :=
    ⟨s.num, s.num_dvd, slot s.p s.size, s.wptr, s.rptr⟩

/-- What is written into a slot that it fits, and what was there after it. -/
theorem ring_write (s : HciRx) {pkt : List UInt8} (h : pkt.length ≤ s.size) : (s.write pkt).ring =
    s.ring.push (pkt ++ (slot s.p s.size (s.wptr % s.num)).drop pkt.length) := by
  have hslots : slot (memcpy s.p (s.wptr % s.num * s.size) pkt) s.size =
    Function.update (slot s.p s.size)
      (s.wptr % s.num) (pkt ++ (slot s.p s.size (s.wptr % s.num)).drop pkt.length) := by
    funext i
    by_cases hi : i = s.wptr % s.num
    · rw [hi, Function.update_self]
      exact slot_memcpy_self s.p _ h
    · rw [Function.update_of_ne hi]
      exact slot_memcpy_of_ne s.p h hi
  simp only [ring, HciRx.write, RingBuffer.push, hslots]

/-- **The FIFO holds what is not delivered**: `log` are the slots as they were when a packet had
been written. -/
structure Holds (s : HciRx) (log : List (List UInt8)) : Prop where
  /-- The ring. -/
  ring : s.ring.Holds log s.delivered.length
  /-- What was delivered. -/
  delivered : s.delivered <+: log
  /-- Each starts with its packet. -/
  written : List.Forall₂ (· <+: ·) s.written log

/-- The FIFO holds what is not delivered. -/
def Ok (s : HciRx) : Prop := ∃ log, s.Holds log

variable {log : List (List UInt8)}

theorem Holds.inOrder (h : s.Holds log) : s.InOrder := by
  have hroom := h.ring.room
  have hrel := h.ring.released
  have hcount : s.count = log.length - s.delivered.length := h.ring.count
  have hlen : s.written.length = log.length := h.written.length_eq
  have hget : ∀ k (hk : k < s.written.length), s.written.get ⟨k, hk⟩ <+:
      log.get ⟨k, hlen ▸ hk⟩ := fun k hk =>
    h.written.get hk (hlen ▸ hk)
  have hnum : s.ring.num = s.num := rfl
  refine ⟨by omega, by omega, fun k hk => ?_, fun k hk hle => ?_⟩
  · have hk' : k < s.written.length := by omega
    refine ⟨s.written.get ⟨k, hk'⟩, by simp, ?_⟩
    have := hget k hk'
    obtain ⟨rest, hrest⟩ := h.delivered
    simp only [List.get_eq_getElem, ← hrest, List.getElem_append_left hk] at this ⊢
    exact this
  · have := h.ring.slots k (by omega) hle
    have hslot : slot s.p s.size (k % s.num) = log.get ⟨k, by omega⟩ := this
    rw [hslot]
    exact hget k hk

theorem Holds.next (h : s.Holds log) {i : Event} (hroom : s.FindsRoom i) : (s.step i).Ok := by
  cases i with
  | write pkt =>
    obtain ⟨hfree, hfits⟩ := hroom
    have hpush := h.ring.push hfree (pkt ++ (slot s.p s.size (s.wptr % s.num)).drop pkt.length)
    refine ⟨_, by rw [step, ring_write s hfits]; exact hpush,
      h.delivered.trans (List.prefix_append _ _), ?_⟩
    exact List.rel_append h.written (.cons (List.prefix_append _ _) .nil)
  | handle =>
    by_cases hempty : s.wptr = s.rptr
    · rw [step, hciRxHandler, if_pos hempty]
      exact ⟨log, h⟩
    · obtain ⟨hlt, hget, hrelease⟩ := h.ring.read hempty
      rw [step, hciRxHandler, if_neg hempty]
      have hslot : slot s.p s.size (s.rptr % s.num) = log.get ⟨s.delivered.length, hlt⟩ := hget
      rw [hslot]
      refine ⟨log, ?_, RingBuffer.prefix_concat h.delivered hlt, h.written⟩
      rw [List.length_append, List.length_singleton]
      exact hrelease
  | reset => exact ⟨[], s.ring.holds_reset, List.nil_prefix, .nil⟩

/-- A packet that is written into a full FIFO, or does not fit its slot. -/
theorem Holds.not_inOrder (h : s.Holds log) {i : Event} (hroom : ¬ s.FindsRoom i) :
    ¬ (s.step i).InOrder := by
  cases i with
  | write pkt =>
    intro hin
    have hcount : s.count = log.length - s.delivered.length := h.ring.count
    have hrel := h.ring.released
    have hlen : s.written.length = log.length := h.written.length_eq
    by_cases hfull : s.count < s.num
    · have hbig : ¬pkt.length ≤ s.size := fun hfits => hroom ⟨hfull, hfits⟩
      have hk : s.written.length < (s.write pkt).written.length := by simp [HciRx.write]
      have hpkt := (hin.intact s.written.length hk (by rw [hlen]; exact hrel)).length_le
      rw [length_slot] at hpkt
      simp only [HciRx.step, HciRx.write, List.get_eq_getElem, List.getElem_concat_length] at hpkt
      exact hbig hpkt
    · have hover := hin.room
      have hwaiting := hin.waiting
      simp only [step, HciRx.write, List.length_append, List.length_singleton] at hwaiting hover
      omega
  | handle => exact absurd trivial hroom
  | reset => exact absurd trivial hroom

/-- **The FIFO is in order** throughout a run exactly when every packet is written into a free slot
that it fits. -/
theorem inOrder_iff (s : HciRx) (run : List Event) :
    (∀ pre, pre <+: run → (pre.foldl step s.reset).InOrder) ↔ Along step FindsRoom s.reset run := by
  have hinit : s.reset.Ok := ⟨[], s.ring.holds_reset, List.nil_prefix, .nil⟩
  exact Along.iff_forall_prefix hinit (fun _ (h : Ok _) => h.choose_spec.inOrder)
    (fun _ _ (h : Ok _) hroom => h.choose_spec.next hroom)
    (fun _ _ (h : Ok _) hroom => h.choose_spec.not_inOrder hroom) run

/-- A FIFO of eight slots of 272 bytes, as the examples have. -/
def eightSlots : HciRx := ⟨272, 8, eight_dvd, fun _ => 0, 0, 0, [], []⟩

/-- A chunk of nine commands. -/
def nineCommands : List UInt8 := (List.replicate 9 [hciTrTypeCmd, 3, 0x0C, 0]).flatten

/-- One chunk writes nine packets into eight slots. -/
theorem nineCommands_overrun : ∃ e', (H4Tr.hciTrH4Init fun _ => 0).hciTrH4RxHandler 40
      (buffer nineCommands fun _ => 0) 36 0 = some e' ∧
    ¬ ∀ pre, pre <+: h4Writes (H4Tr.hciTrH4Init fun _ => 0) e' →
      (pre.foldl step eightSlots.reset).InOrder := by
  refine ⟨_, rfl, fun hin => ?_⟩
  have hroom := (hin _ List.prefix_rfl).room
  exact absurd hroom (by decide)

end HciRx

end TcBle.HciTransport
