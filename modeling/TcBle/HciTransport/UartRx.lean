import TcBle.Foundation.RingBuffer
import TcBle.Foundation.Run

/-!
# The UART's receive ring

The DMA puts the chunks of bytes that come in over the UART into the slots of a ring. The
receive interrupt counts the chunk and gives the next slot to the DMA; the receive handler
of the main loop reads the chunks and releases their slots. Both transports work like this,
`hci_tr_h4.c` and `hci_tr_h5.c`; they differ in how they see that the ring is full.

## The model

A slot holds a chunk, whose length is the length of the list. `rxDone` is the DMA finishing
a chunk in the slot it was given, and the interrupt handler; `poll` is the receive handler
reading one chunk. The list of the chunks counted, each with the slot that it was in, and
the list of the chunks read are there to state what the ring is for. The other interrupts of
the two handlers are left out.

## What is proved

* `disciplined_iff` — in a run, the ring keeps its discipline exactly as long as no chunk
  is counted that leaves less than one slot free: when the last slot is taken, the DMA is
  given a slot that is still to be read.
-/

namespace TcBle.HciTransport

open TcBle.Foundation TcBle.Foundation.Run

/-- The receive ring. -/
structure UartRx where
  /-- `pRxFifo`. -/
  rxFifo : RingBuffer (List UInt8)
  /-- The slot at `reg_dma_uart_rx_addr`, which the DMA writes. -/
  rxAddr : ℕ
  /-- The chunks counted, each with its slot. -/
  received : List (ℕ × List UInt8)
  /-- The chunks read. -/
  processed : List (List UInt8)

/-- How a transport sees that its ring is full. -/
abbrev IsFull := RingBuffer (List UInt8) → Bool

/-- The test of `HCI_Tr_H4IRQHandler`: the counters are subtracted as integers. -/
def h4IsFull : IsFull := fun q => decide ((q.num : ℤ) ≤ q.wptr - q.rptr)

/-- The test of `HCI_Tr_H5IRQHandler`: the difference is taken as a `u8`. -/
def h5IsFull : IsFull := fun q => decide (q.num ≤ q.count)

namespace UartRx

/-- The DMA puts a chunk into the slot it was given. -/
def dmaDone (chunk : List UInt8) (s : UartRx) : UartRx :=
  { s with rxFifo := { s.rxFifo with slots := Function.update s.rxFifo.slots s.rxAddr chunk } }

/-- The part of the interrupt handlers about the DMA's receive interrupt. -/
def irqHandler (isFull : IsFull) (s : UartRx) : UartRx :=
  if isFull s.rxFifo then s
  else
    let p := s.rxFifo.get s.rxFifo.wptr
    if p.length ≠ 0 then
      let wptr := (s.rxFifo.wptr + 1) % 2 ^ 8
      { s with
        rxFifo := { s.rxFifo with wptr := wptr }
        rxAddr := wptr % s.rxFifo.num
        received := s.received ++ [(s.rxFifo.wptr % s.rxFifo.num, p)] }
    else s

/-- `HCI_Tr_H4IRQHandler`. -/
def hciTrH4IRQHandler : UartRx → UartRx := irqHandler h4IsFull

/-- `HCI_Tr_H5IRQHandler`. -/
def hciTrH5IRQHandler : UartRx → UartRx := irqHandler h5IsFull

/-- The receive handlers read one chunk. -/
def rxHandler (s : UartRx) : UartRx :=
  if s.rxFifo.wptr = s.rxFifo.rptr then s
  else
    { s with
      rxFifo := s.rxFifo.release 1
      processed := s.processed ++ [s.rxFifo.get s.rxFifo.rptr] }

/-- What can happen. -/
inductive Event
  /-- The DMA is done with a chunk, and the interrupt handler runs. -/
  | rxDone (chunk : List UInt8)
  /-- The main loop reads a chunk. -/
  | poll

/-- A step, with the interrupt handler `irq`. -/
def step (irq : UartRx → UartRx) (s : UartRx) : Event → UartRx
  | .rxDone chunk => irq (s.dmaDone chunk)
  | .poll => s.rxHandler

/-- The transports. -/
inductive Transport
  /-- H4. -/
  | h4
  /-- H5. -/
  | h5

/-- The transport's interrupt handler. -/
def Transport.irq : Transport → UartRx → UartRx
  | .h4 => hciTrH4IRQHandler
  | .h5 => hciTrH5IRQHandler

/-- As the transports initialize it. -/
def init (rxFifo : RingBuffer (List UInt8)) : UartRx where
  rxFifo := rxFifo.reset
  rxAddr := 0
  received := []
  processed := []

/-- **The discipline of the ring.** -/
structure Disciplined (s : UartRx) : Prop where
  /-- The DMA has no slot with a chunk that is still to be read. -/
  free : ∀ c ∈ s.received.drop s.processed.length, c.1 ≠ s.rxAddr
  /-- Those chunks are in their slots as they came. -/
  intact : ∀ c ∈ s.received.drop s.processed.length, s.rxFifo.slots c.1 = c.2
  /-- The chunks read are those counted, in order, each once and with its bytes. -/
  order : s.processed <+: s.received.map Prod.snd
  /-- The handler sees that there is something to read exactly when there is. -/
  waiting : s.rxFifo.wptr = s.rxFifo.rptr ↔ s.processed.length = s.received.length

/-- A chunk that is counted leaves a slot free. -/
def LeavesSlot (s : UartRx) : Event → Prop
  | .rxDone chunk => chunk = [] ∨ s.rxFifo.count + 1 < s.rxFifo.num
  | .poll => True

/-- **What holds as long as chunks leave a slot free.** -/
structure Ok (s : UartRx) : Prop where
  /-- The ring holds the chunks not read. -/
  holds : s.rxFifo.Holds (s.received.map Prod.snd) s.processed.length
  /-- The DMA has the slot after them. -/
  rxAddr : s.rxAddr = s.received.length % s.rxFifo.num
  /-- The slots were given in turn. -/
  slot : ∀ k (h : k < s.received.length), (s.received.get ⟨k, h⟩).1 = k % s.rxFifo.num
  /-- One slot is free. -/
  room : s.received.length < s.processed.length + s.rxFifo.num
  /-- What was read. -/
  order : s.processed <+: s.received.map Prod.snd

variable {s : UartRx}

theorem Ok.disciplined (h : s.Ok) : s.Disciplined := by
  have hroom := h.room
  have hlen : (s.received.map Prod.snd).length = s.received.length := List.length_map _
  have hat : ∀ c ∈ s.received.drop s.processed.length, ∃ k, ∃ hk : k < s.received.length,
      s.processed.length ≤ k ∧ c = s.received.get ⟨k, hk⟩ := by
    intro c hc
    obtain ⟨i, hi, rfl⟩ := List.mem_iff_getElem.mp hc
    rw [List.length_drop] at hi
    exact ⟨s.processed.length + i, by omega, Nat.le_add_right _ _, by simp [List.getElem_drop]⟩
  refine ⟨fun c hc => ?_, fun c hc => ?_, h.order, ?_⟩
  · obtain ⟨k, hk, hle, rfl⟩ := hat c hc
    rw [h.slot k hk, h.rxAddr]
    exact (RingBuffer.slot_ne hk (by omega)).symm
  · obtain ⟨k, hk, hle, rfl⟩ := hat c hc
    rw [h.slot k hk]
    have hslot := h.holds.slots k (by rw [hlen]; exact hk) hle
    rw [RingBuffer.get] at hslot
    rw [hslot]
    simp
  · rw [h.holds.empty_iff, hlen]

/-- Both tests let a chunk through when there is room. -/
theorem isFull_eq_false {isFull : IsFull} (hfull : isFull = h4IsFull ∨ isFull = h5IsFull)
    {q : RingBuffer (List UInt8)}
    {log : List (List UInt8)} {rel : ℕ} (hholds : q.Holds log rel)
      (hroom : log.length < rel + q.num) :
    isFull q = false := by
  have hnum := q.num_le
  have hrel := hholds.released
  rcases hfull with rfl | rfl
  · simp only [h4IsFull, decide_eq_false_iff_not, hholds.wptr, hholds.rptr]
    omega
  · simp only [h5IsFull, decide_eq_false_iff_not, hholds.count]
    omega

/-- The DMA writes where nothing is held. -/
theorem Ok.dmaDone (h : s.Ok) (chunk : List UInt8) : (s.dmaDone chunk).Ok := by
  have hroom := h.room
  refine ⟨⟨h.holds.wptr, h.holds.rptr, h.holds.released, h.holds.room, fun i hi hrel => ?_⟩,
    h.rxAddr, h.slot, h.room, h.order⟩
  have hi' : i < s.received.length := by simpa [UartRx.dmaDone] using hi
  have hrel' : s.processed.length ≤ i := hrel
  refine (Function.update_of_ne ?_ _ _).trans (h.holds.slots i hi hrel)
  rw [h.rxAddr]
  exact (RingBuffer.slot_ne hi' (show s.received.length < i + s.rxFifo.num by omega)).symm

/-- The DMA's slot is the one that the write counter is at. -/
theorem Ok.wptr (h : s.Ok) : s.rxFifo.wptr % s.rxFifo.num = s.received.length % s.rxFifo.num ∧
    (s.rxFifo.wptr + 1) % 2 ^ 8 % s.rxFifo.num = (s.received.length + 1) % s.rxFifo.num := by
  have hwptr := h.holds.wptr
  rw [List.length_map] at hwptr
  rw [hwptr, s.rxFifo.mod_num, Nat.mod_add_mod, s.rxFifo.mod_num]
  exact ⟨rfl, rfl⟩

/-- **A receive interrupt** counts the chunk, as if it had been pushed into the ring. -/
theorem Ok.rxDone {isFull : IsFull} (hfull : isFull = h4IsFull ∨ isFull = h5IsFull) (h : s.Ok)
    {chunk : List UInt8} (hne : chunk ≠ []) : irqHandler isFull (s.dmaDone chunk) =
      ⟨s.rxFifo.push chunk, (s.received.length + 1) % s.rxFifo.num,
        s.received ++ [(s.received.length % s.rxFifo.num, chunk)], s.processed⟩ := by
  obtain ⟨hat, hnext⟩ := h.wptr
  have hroom := h.room
  have hnotFull := isFull_eq_false hfull (h.dmaDone chunk).holds
    (by rw [List.length_map]; exact hroom)
  have hget : (s.dmaDone chunk).rxFifo.get (s.dmaDone chunk).rxFifo.wptr = chunk := by
    simp only [RingBuffer.get, UartRx.dmaDone, h.rxAddr, hat, Function.update_self]
  have hlen : chunk.length ≠ 0 := fun hnil => hne (List.eq_nil_of_length_eq_zero hnil)
  unfold UartRx.irqHandler
  rw [if_neg (by rw [hnotFull]; decide)]
  simp only [hget, if_pos hlen]
  simp only [UartRx.dmaDone, hat, hnext, RingBuffer.push, h.rxAddr]

/-- A step that leaves a slot free. -/
theorem Ok.next {isFull : IsFull} (hfull : isFull = h4IsFull ∨ isFull = h5IsFull) (h : s.Ok)
    {i : Event}
    (hslot : s.LeavesSlot i) : (step (irqHandler isFull) s i).Ok := by
  have hroom := h.room
  have hlen : (s.received.map Prod.snd).length = s.received.length := List.length_map _
  cases i with
  | rxDone chunk =>
    by_cases hne : chunk = []
    · -- nothing has come
      subst hne
      have hquiet : irqHandler isFull (s.dmaDone []) = s.dmaDone [] := by
        have hget : (s.dmaDone []).rxFifo.get (s.dmaDone []).rxFifo.wptr = [] := by
          simp only [RingBuffer.get, UartRx.dmaDone, h.rxAddr, h.wptr.1, Function.update_self]
        unfold UartRx.irqHandler
        simp only [hget, List.length_nil, ne_eq, not_true_eq_false, if_false, ite_self]
      rw [UartRx.step, hquiet]
      exact h.dmaDone []
    · have hcount := hslot.resolve_left hne
      rw [h.holds.count, hlen] at hcount
      rw [UartRx.step, h.rxDone hfull hne]
      have hpush := h.holds.push (by rw [h.holds.count, hlen]; omega) chunk
      refine ⟨?_, ?_, fun k hk => ?_, ?_, ?_⟩
      · simpa using hpush
      · simp
      · simp only [List.length_append, List.length_singleton] at hk
        rcases Nat.lt_succ_iff_lt_or_eq.mp hk with hlt | rfl
        · simpa [List.getElem_append_left hlt] using h.slot k hlt
        · simp
      · simp only [List.length_append, List.length_singleton, RingBuffer.push_num]
        omega
      · exact h.order.trans (by simp)
  | poll =>
    by_cases hempty : s.rxFifo.wptr = s.rxFifo.rptr
    · rw [UartRx.step, UartRx.rxHandler, if_pos hempty]
      exact h
    · obtain ⟨hlt, hget, hrelease⟩ := h.holds.read hempty
      rw [UartRx.step, UartRx.rxHandler, if_neg hempty, hget]
      rw [hlen] at hlt
      refine ⟨?_, h.rxAddr, h.slot, ?_, RingBuffer.prefix_concat h.order _⟩
      · simpa using hrelease
      · simp only [List.length_append, List.length_singleton, RingBuffer.release_num]
        omega

theorem ok_init (rxFifo : RingBuffer (List UInt8)) : (init rxFifo).Ok :=
  ⟨rxFifo.holds_reset, (Nat.zero_mod _).symm, fun k hk => absurd hk (Nat.not_lt_zero k),
    rxFifo.num_pos.trans_eq (Nat.zero_add _).symm, List.nil_prefix⟩

/-- **A chunk that takes the last slot**: the DMA is given a slot that is still to be read. -/
theorem Ok.not_disciplined {isFull : IsFull} (hfull : isFull = h4IsFull ∨ isFull = h5IsFull)
    (h : s.Ok) {i : Event}
    (hslot : ¬ s.LeavesSlot i) : ¬ (step (irqHandler isFull) s i).Disciplined := by
  have hroom := h.room
  have hlen : (s.received.map Prod.snd).length = s.received.length := List.length_map _
  have hrel := h.holds.released
  cases i with
  | poll => exact absurd trivial hslot
  | rxDone chunk =>
    obtain ⟨hne, hcount⟩ := not_or.mp hslot
    rw [h.holds.count, hlen] at hcount
    rw [hlen] at hrel
    rw [UartRx.step, h.rxDone hfull hne]
    intro hdisc
    have hlt : s.processed.length <
      (s.received ++ [(s.received.length % s.rxFifo.num, chunk)]).length := by
      rw [List.length_append, List.length_singleton]
      omega
    have hmem : (s.received ++ [(s.received.length % s.rxFifo.num, chunk)])[s.processed.length] ∈
        (s.received ++ [(s.received.length % s.rxFifo.num, chunk)]).drop s.processed.length := by
      rw [List.drop_eq_getElem_cons hlt]
      exact List.mem_cons_self
    refine hdisc.free _ hmem ?_
    have hturn : (s.received.length + 1) % s.rxFifo.num = s.processed.length % s.rxFifo.num := by
      rw [show s.received.length + 1 = s.processed.length + s.rxFifo.num by omega,
        Nat.add_mod_right]
    simp only [hturn]
    cases Nat.lt_or_eq_of_le hrel with
    | inl hold =>
      rw [List.getElem_append_left hold]
      exact h.slot _ hold
    | inr hnew =>
      simp [hnew]

theorem Transport.irq_eq (tr : Transport) : ∃ isFull, (isFull = h4IsFull ∨ isFull = h5IsFull) ∧
    tr.irq = irqHandler isFull := by
  cases tr with
  | h4 => exact ⟨h4IsFull, Or.inl rfl, rfl⟩
  | h5 => exact ⟨h5IsFull, Or.inr rfl, rfl⟩

/-- **The ring keeps its discipline** throughout a run exactly when every chunk that is counted
leaves a slot free. -/
theorem disciplined_iff (tr : Transport) (rxFifo : RingBuffer (List UInt8)) (run : List Event) :
    (∀ pre, pre <+: run → (pre.foldl (step tr.irq) (init rxFifo)).Disciplined) ↔
      Along (step tr.irq) LeavesSlot (init rxFifo) run := by
  obtain ⟨isFull, hfull, hirq⟩ := tr.irq_eq
  rw [hirq]
  exact Along.iff_forall_prefix (ok_init rxFifo) (fun _ h => h.disciplined)
    (fun _ _ h hslot => h.next hfull hslot)
    (fun _ _ h hslot => h.not_disciplined hfull hslot) run

/-- A ring of four slots. -/
def fourSlots : RingBuffer (List UInt8) := ⟨4, by decide, fun _ => [], 0, 0⟩

/-- Four chunks come before the main loop runs: the DMA is given the slot of the first. -/
theorem fourChunks_overwrite :
    (¬ ∀ pre, pre <+: List.replicate 4 (Event.rxDone [0x55]) →
      (pre.foldl (step Transport.h4.irq) (init fourSlots)).Disciplined) ∧
    ¬ ∀ pre, pre <+: List.replicate 4 (Event.rxDone [0x55]) →
      (pre.foldl (step Transport.h5.irq) (init fourSlots)).Disciplined := by
  constructor
  · intro hdisc
    have hfull := (hdisc _ List.prefix_rfl).free (0, [0x55])
    exact hfull (by decide) (by decide)
  · intro hdisc
    have hfull := (hdisc _ List.prefix_rfl).free (0, [0x55])
    exact hfull (by decide) (by decide)

end UartRx

end TcBle.HciTransport
