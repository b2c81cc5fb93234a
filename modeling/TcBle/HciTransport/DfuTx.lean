import TcBle.HciTransport.Dfu
import TcBle.HciTransport.DfuStep
import TcBle.Foundation.RingBuffer
import TcBle.Foundation.Run

/-!
# The responses of the firmware update in the HCI TX FIFO

`hci_dfu_port.c` pushes its events into `bltHci_txfifo`, and `HCI_TxHandler` of the H4
transport gives them to the UART, one at a time.

## The model

The counters are `u8`; their difference in the test for a full FIFO is an `int`. `uart` is what
the UART's DMA was started with. A slot holds the responses of the firmware update, of at most 9
bytes, behind a length of two bytes.

## What is proved

* `answer_short` — what the handlers of the firmware update send are such responses.
* `boundedQueue_iff` — throughout a run, each step is one of a bounded queue exactly when no
  response is pushed into a full FIFO while the write counter is behind the read counter.
-/

namespace TcBle.HciTransport

open TcBle.Foundation TcBle.Foundation.Run

/-- `UINT16_TO_BSTREAM`. -/
def uint16ToBstream (n : ℕ) : List UInt8 := [UInt8.ofNat n, UInt8.ofNat (n / 2 ^ 8)]

/-- The bytes of an event. -/
def HciEvt.packet : HciEvt → List UInt8
  | .cmdCmpl opcode param =>
    [hciTrTypeEvent, 0x0E, UInt8.ofNat (3 + param.length), 1] ++ uint16ToBstream opcode ++ param
  | .cmdStatus opcode status =>
    [hciTrTypeEvent, 0x0F, 4, status, 1] ++ uint16ToBstream opcode

/-- A response of the firmware update. -/
structure DfuRsp where
  /-- The event. -/
  evt : HciEvt
  /-- It has at most three bytes of return parameters. -/
  short : evt.packet.length ≤ 9

/-- `bltHci_txfifo`, and the UART. -/
structure HciTx where
  /-- The size of a slot. -/
  size : ℕ
  /-- The number of slots. -/
  num : UInt8
  /-- It is a power of two up to 128. -/
  num_dvd : num.toNat ∣ 128
  /-- A slot has room for a response and its length. -/
  room : 11 ≤ size
  /-- The slots. -/
  p : Mem
  /-- The write counter. -/
  wptr : UInt8
  /-- The read counter. -/
  rptr : UInt8
  /-- `isUartTxDone`. -/
  isUartTxDone : Bool
  /-- What the UART was given. -/
  uart : List (List UInt8)

namespace HciTx

/-- `mask`. -/
def mask (s : HciTx) : UInt8 := s.num - 1

/-- Where the slot starts that counter `r` is at. -/
def slotAt (s : HciTx) (r : UInt8) : ℕ := (r &&& s.mask).toNat * s.size

/-- The test for a full FIFO, in `int`. -/
def full (s : HciTx) : Bool := (s.num.toNat : ℤ) ≤ (s.wptr.toNat : ℤ) - (s.rptr.toNat : ℤ)

/-- The part that the two functions share: `len` bytes of an event, behind their length. -/
def pushEvt (len : ℕ) (evt : List UInt8) (s : HciTx) : HciTx :=
  if s.full then s
  else
    { s with p := memcpy s.p (s.slotAt s.wptr) (uint16ToBstream len ++ evt), wptr := s.wptr + 1 }

/-- `Hci_SendCmdCmplEvt`. -/
def hciSendCmdCmplEvt (opcode : ℕ) (param : List UInt8) (s : HciTx) : HciTx :=
  s.pushEvt (1 + hciEvtHeadLen + 3 + param.length)
    ([hciTrTypeEvent, 0x0E, UInt8.ofNat (3 + param.length), 1] ++ uint16ToBstream opcode ++ param)

/-- `Hci_SendCmdStatusEvt`. -/
def hciSendCmdStatusEvt (opcode : ℕ) (status : UInt8) (s : HciTx) : HciTx :=
  s.pushEvt (1 + hciEvtHeadLen + 4)
    ([hciTrTypeEvent, 0x0F, 4, status, 1] ++ uint16ToBstream opcode)

/-- `HCI_TxHandler`. -/
def hciTxHandler (s : HciTx) : HciTx :=
  if s.wptr = s.rptr then s
  else if !s.isUartTxDone then s
  else
    let p := adv s.p (s.slotAt s.rptr)
    let len := u16At p
    { s with uart := s.uart ++ [bytes (adv p 2) len], isUartTxDone := false, rptr := s.rptr + 1 }

/-- What can happen to the FIFO. -/
inductive Event where
  /-- A handler of the firmware update responds. -/
  | respond (r : DfuRsp)
  /-- The main loop calls `HCI_TxHandler`. -/
  | poll
  /-- The UART's DMA is done. -/
  | txDone

/-- An event is sent. -/
def sendEvt (s : HciTx) : HciEvt → HciTx
  | .cmdCmpl opcode param => s.hciSendCmdCmplEvt opcode param
  | .cmdStatus opcode status => s.hciSendCmdStatusEvt opcode status

/-- A step. -/
def step (s : HciTx) : Event → HciTx
  | .respond r => s.sendEvt r.evt
  | .poll => s.hciTxHandler
  | .txDone => { s with isUartTxDone := true }

/-! ### The bounded queue -/

/-- The slots, as a ring. -/
def ring (s : HciTx) : RingBuffer (List UInt8) :=
  ⟨s.num.toNat, s.num_dvd, slot s.p s.size, s.wptr.toNat, s.rptr.toNat⟩

/-- The length in a slot. -/
def lengthIn (sl : List UInt8) : ℕ := (sl.getD 0 0).toNat + (sl.getD 1 0).toNat * 2 ^ 8

/-- The event in a slot. -/
def eventIn (sl : List UInt8) : List UInt8 := (sl.drop 2).take (lengthIn sl)

/-- The events that were pushed and not sent, the oldest first. -/
def outstanding (s : HciTx) : List (List UInt8) := s.ring.waiting.map eventIn

/-- **A step is one of a bounded queue**: an event is added when there is room for it, or else
nothing changes; when the UART is free it is given the oldest event. -/
def Refines (s : HciTx) : Event → Prop
  | .respond r =>
    if s.outstanding.length < s.num.toNat then
      (s.step (.respond r)).outstanding = s.outstanding ++ [r.evt.packet] ∧
        (s.step (.respond r)).uart = s.uart
    else s.step (.respond r) = s
  | .poll =>
    if s.isUartTxDone then
      (s.step .poll).outstanding = s.outstanding.tail ∧
        (s.step .poll).uart = s.uart ++ s.outstanding.head?.toList
    else s.step .poll = s
  | .txDone => (s.step .txDone).outstanding = s.outstanding ∧ (s.step .txDone).uart = s.uart

/-- A state of the FIFO: at most `num` events are outstanding, and each fits its slot. -/
structure Valid (s : HciTx) : Prop where
  /-- There are not more than there are slots. -/
  count : s.outstanding.length ≤ s.num.toNat
  /-- Each is in its slot. -/
  fits : ∀ sl ∈ s.ring.waiting, lengthIn sl + 2 ≤ s.size

/-- A response does not find the FIFO full with the write counter behind the read counter. -/
def InStep (s : HciTx) : Event → Prop
  | .respond _ => ¬(s.outstanding.length = s.num.toNat ∧ s.wptr < s.rptr)
  | .poll | .txDone => True

variable {s : HciTx}

@[simp] theorem length_outstanding (s : HciTx) : s.outstanding.length = s.ring.count := by
  simp [outstanding]

/-- The mask takes a counter modulo the number of slots. -/
theorem slotAt_eq (s : HciTx) (r : UInt8) : s.slotAt r = r.toNat % s.ring.num * s.size := by
  have hpos : 0 < s.num.toNat := s.ring.num_pos
  have hmask : s.mask.toNat = s.ring.num - 1 := UInt8.toNat_sub_of_le _ _ hpos
  rw [slotAt, UInt8.toNat_and, hmask, RingBuffer.and_mask]

/-- The test tells that the FIFO is full, unless the write counter is behind the read counter. -/
theorem full_iff (hv : s.Valid) :
    s.full = true ↔ s.outstanding.length = s.num.toNat ∧ s.rptr ≤ s.wptr := by
  have hw := s.wptr.toNat_lt
  have hr := s.rptr.toNat_lt
  have hpos : 0 < s.num.toNat := s.ring.num_pos
  have hcount := hv.count
  rw [length_outstanding] at hcount ⊢
  simp only [RingBuffer.count, ring] at hcount ⊢
  rw [full, decide_eq_true_iff, UInt8.le_iff_toNat_le]
  omega

/-! ### Steps -/

/-- The length in front of a response is that of its bytes. -/
theorem sendEvt_eq (s : HciTx) (e : HciEvt) : s.sendEvt e = s.pushEvt e.packet.length e.packet := by
  cases e with
  | cmdCmpl opcode param =>
    rw [sendEvt, hciSendCmdCmplEvt, HciEvt.packet]
    congr 1
    simp [uint16ToBstream, hciEvtHeadLen]
    omega
  | cmdStatus opcode status => rfl

/-- The slot that a response is written to, and the others. -/
theorem ring_pushEvt {evt : List UInt8} (hfull : s.full = false) (hlen : evt.length + 2 ≤ s.size) :
    ∃ sl, (s.pushEvt evt.length evt).ring = s.ring.push sl ∧
      uint16ToBstream evt.length ++ evt <+: sl := by
  set data := uint16ToBstream evt.length ++ evt with hdata
  have hfits : data.length ≤ s.size := by
    rw [hdata, List.length_append]
    exact (Nat.add_comm _ _).trans_le hlen
  refine ⟨data ++ (slot s.p s.size (s.wptr.toNat % s.ring.num)).drop data.length, ?_,
    List.prefix_append _ _⟩
  have hslots : slot (memcpy s.p (s.slotAt s.wptr) data) s.size =
      Function.update (slot s.p s.size) (s.wptr.toNat % s.ring.num)
        (data ++ (slot s.p s.size (s.wptr.toNat % s.ring.num)).drop data.length) := by
    rw [slotAt_eq]
    funext i
    by_cases hi : i = s.wptr.toNat % s.ring.num
    · rw [hi, Function.update_self]
      exact slot_memcpy_self s.p _ hfits
    · rw [Function.update_of_ne hi]
      exact slot_memcpy_of_ne s.p hfits hi
  rw [pushEvt, hfull, ← hdata]
  simp only [Bool.false_eq_true, if_false, ring, RingBuffer.push, hslots, UInt8.toNat_add]
  rfl

/-- What is read out of a slot that starts with a length and an event. -/
theorem eventIn_of_prefix {sl evt : List UInt8} (hlen : evt.length < 2 ^ 16)
    (h : uint16ToBstream evt.length ++ evt <+: sl) :
    lengthIn sl = evt.length ∧ eventIn sl = evt := by
  obtain ⟨rest, rfl⟩ := h
  have hlength : lengthIn (uint16ToBstream evt.length ++ evt ++ rest) = evt.length := by
    simp only [lengthIn, uint16ToBstream, List.cons_append, List.nil_append, List.getD_cons_zero,
      List.getD_cons_succ, UInt8.toNat_ofNat']
    omega
  refine ⟨hlength, ?_⟩
  rw [eventIn, hlength]
  simp [uint16ToBstream]

/-- What the UART is given is the event in the slot. -/
theorem bytes_eq_eventIn (q : Mem) {size : ℕ} (h : lengthIn (bytes q size) + 2 ≤ size) :
    bytes (adv q 2) (u16At q) = eventIn (bytes q size) := by
  have hlength : lengthIn (bytes q size) = u16At q := by
    rw [lengthIn, getD_bytes q (by omega), getD_bytes q (by omega)]
    rfl
  rw [hlength] at h
  obtain ⟨n, hn⟩ := Nat.exists_eq_add_of_le h
  rw [eventIn, hlength, hn, show u16At q + 2 + n = 2 + (u16At q + n) by omega, bytes_add,
    List.drop_left' (length_bytes _ _), bytes_add, List.take_left' (length_bytes _ _)]

/-- **A response that is taken.** -/
theorem Valid.taken (hv : s.Valid) (hroom : s.outstanding.length < s.num.toNat) (r : DfuRsp) :
    (s.step (.respond r)).outstanding = s.outstanding ++ [r.evt.packet] ∧
      (s.step (.respond r)).uart = s.uart ∧ (s.step (.respond r)).Valid := by
  have hfull : s.full = false := by
    rw [Bool.eq_false_iff, ne_eq, full_iff hv]
    omega
  have hshort := r.short
  have hlen : r.evt.packet.length + 2 ≤ s.size := by
    have := s.room
    omega
  obtain ⟨sl, hring, hprefix⟩ := ring_pushEvt hfull hlen
  obtain ⟨hlengthIn, heventIn⟩ := eventIn_of_prefix (by omega) hprefix
  rw [step, sendEvt_eq]
  have hcfg : ∀ len evt, (s.pushEvt len evt).size = s.size ∧ (s.pushEvt len evt).num = s.num ∧
      (s.pushEvt len evt).uart = s.uart := by
    intro len evt
    rw [pushEvt]
    split_ifs <;> exact ⟨rfl, rfl, rfl⟩
  obtain ⟨hsize, hnum, huart⟩ := hcfg r.evt.packet.length r.evt.packet
  have hwaiting : (s.pushEvt r.evt.packet.length r.evt.packet).ring.waiting =
      s.ring.waiting ++ [sl] := by
    rw [hring]
    rw [length_outstanding] at hroom
    exact RingBuffer.waiting_push s.wptr.toNat_lt s.rptr.toNat_lt hroom sl
  have hout : (s.pushEvt r.evt.packet.length r.evt.packet).outstanding =
      s.outstanding ++ [r.evt.packet] := by
    rw [outstanding, hwaiting, List.map_append, List.map_singleton, heventIn]
    rfl
  refine ⟨hout, huart, ?_, fun sl' hsl' => ?_⟩
  · rw [hout, hnum, List.length_append]
    exact hroom
  · rw [hwaiting, List.mem_append, List.mem_singleton] at hsl'
    rw [hsize]
    rcases hsl' with hold | rfl
    · exact hv.fits sl' hold
    · rw [hlengthIn]
      exact hlen

/-- **A poll that finds the UART free.** -/
theorem Valid.sent (hv : s.Valid) (hdone : s.isUartTxDone = true) :
    (s.step .poll).outstanding = s.outstanding.tail ∧
      (s.step .poll).uart = s.uart ++ s.outstanding.head?.toList ∧ (s.step .poll).Valid := by
  rw [step, hciTxHandler, hdone]
  by_cases hempty : s.wptr = s.rptr
  · have hnone : s.outstanding = [] := by
      rw [← List.length_eq_zero_iff, length_outstanding]
      simp only [RingBuffer.count, ring, hempty]
      have := s.rptr.toNat_lt
      omega
    rw [if_pos hempty, hnone]
    exact ⟨rfl, by simp, hv⟩
  · have hread := RingBuffer.waiting_read (q := s.ring) s.wptr.toNat_lt s.rptr.toNat_lt
      fun heq => hempty (UInt8.toNat_inj.mp heq)
    have hslot : s.ring.get s.ring.rptr = bytes (adv s.p (s.slotAt s.rptr)) s.size := by
      rw [slotAt_eq]
      rfl
    have hfits := hv.fits (s.ring.get s.ring.rptr) (by rw [hread]; exact List.mem_cons_self)
    have hout : s.outstanding = eventIn (s.ring.get s.ring.rptr) ::
        (s.ring.release 1).waiting.map eventIn := by
      rw [outstanding, hread, List.map_cons]
    have hring : ∀ u d, ({ s with uart := u, isUartTxDone := d, rptr := s.rptr + 1 } : HciTx).ring =
        s.ring.release 1 := by
      intro u d
      simp only [ring, RingBuffer.release, UInt8.toNat_add]
      rfl
    rw [if_neg hempty, if_neg (by simp)]
    refine ⟨?_, ?_, ?_, fun sl hsl => ?_⟩
    · rw [outstanding, hring, hout, List.tail_cons]
    · rw [hslot] at hfits hout
      rw [hout, List.head?_cons, ← bytes_eq_eventIn _ hfits]
      rfl
    · have hcount := hv.count
      rw [hout, List.length_cons] at hcount
      rw [outstanding, hring]
      exact Nat.le_of_succ_le hcount
    · rw [hring] at hsl
      exact hv.fits sl (by rw [hread]; exact List.mem_cons_of_mem _ hsl)

/-- A response that is written though the FIFO is full moves the write counter. -/
theorem not_refines_of_full (h : s.outstanding.length = s.num.toNat) (hfull : s.full = false)
    (r : DfuRsp) : ¬s.Refines (.respond r) := by
  intro hrefines
  rw [Refines, if_neg (by omega), step, sendEvt_eq, pushEvt, hfull] at hrefines
  have hwptr : s.wptr + 1 = s.wptr := congrArg HciTx.wptr hrefines
  rw [← UInt8.toNat_inj, UInt8.toNat_add, show (1 : UInt8).toNat = 1 from rfl] at hwptr
  omega

/-- **A step is one of the queue** exactly when it is in step. -/
theorem Valid.step_iff (hv : s.Valid) (i : Event) : s.Refines i ↔ s.InStep i := by
  cases i with
  | respond r =>
    rw [Refines, InStep]
    have hcount := hv.count
    split_ifs with hroom
    · obtain ⟨hout, huart, -⟩ := hv.taken hroom r
      exact iff_of_true ⟨hout, huart⟩ fun hfull => hroom.ne hfull.1
    · have hfull := full_iff hv
      rw [and_iff_right (by omega)] at hfull
      rw [and_iff_right (by omega), UInt8.not_lt, ← hfull]
      refine ⟨fun hsame => ?_, fun hset => ?_⟩
      · by_contra hset
        refine not_refines_of_full (by omega) (Bool.eq_false_iff.mpr hset) r ?_
        rw [Refines, if_neg hroom]
        exact hsame
      · rw [step, sendEvt_eq, pushEvt, if_pos hset]
  | poll =>
    rw [Refines, InStep]
    split_ifs with hdone
    · obtain ⟨hout, huart, -⟩ := hv.sent hdone
      exact iff_of_true ⟨hout, huart⟩ trivial
    · have hbusy : (!s.isUartTxDone) = true := by simpa using hdone
      rw [step, hciTxHandler, if_pos hbusy, ite_self]
      exact iff_of_true rfl trivial
  | txDone => exact iff_of_true ⟨rfl, rfl⟩ trivial

/-- The step lemma. -/
theorem Valid.next (hv : s.Valid) {i : Event} (h : s.InStep i) : (s.step i).Valid := by
  have hrefines := (hv.step_iff i).mpr h
  cases i with
  | respond r =>
    by_cases hroom : s.outstanding.length < s.num.toNat
    · exact (hv.taken hroom r).2.2
    · rw [Refines, if_neg hroom] at hrefines
      rw [hrefines]
      exact hv
  | poll =>
    by_cases hdone : s.isUartTxDone = true
    · exact (hv.sent hdone).2.2
    · rw [Refines, if_neg hdone] at hrefines
      rw [hrefines]
      exact hv
  | txDone => exact ⟨hv.count, hv.fits⟩

/-! ### Runs -/

/-- **The FIFO is a bounded queue** throughout a run, from any state of its counters, exactly when
no response is pushed while it is full and the write counter is behind the read counter. -/
theorem boundedQueue_iff (s : HciTx) (hv : s.Valid) (run : List Event) :
    Along step Refines s run ↔ Along step InStep s run :=
  Along.iff_along (fun s i (h : Valid s) => h.step_iff i) (fun s _ (h : Valid s) hin => h.next hin)
    hv run

/-- Sixteen slots of 36 bytes, empty, with both counters at `r`. -/
def sixteenSlots (r : UInt8) : HciTx :=
  ⟨36, 16, by decide, by decide, fun _ => 0, r, r, true, []⟩

theorem sixteenSlots_valid (r : UInt8) : (sixteenSlots r).Valid := by
  have hnone : (sixteenSlots r).ring.waiting = [] := by
    rw [← List.length_eq_zero_iff, RingBuffer.length_waiting]
    simp only [RingBuffer.count, ring, sixteenSlots]
    have := r.toNat_lt
    omega
  refine ⟨?_, fun sl hsl => ?_⟩
  · rw [outstanding, hnone]
    exact Nat.zero_le _
  · rw [hnone] at hsl
    exact absurd hsl List.not_mem_nil

theorem respond_counters (h : s.full = false) (r : DfuRsp) :
    (s.step (.respond r)).wptr = s.wptr + 1 ∧ (s.step (.respond r)).rptr = s.rptr ∧
      (s.step (.respond r)).num = s.num := by
  rw [step, sendEvt_eq, pushEvt, if_neg (by simp [h])]
  exact ⟨rfl, rfl, rfl⟩

/-- The response to a piece of the image. -/
def dataOkRsp : DfuRsp := ⟨dataOk, by decide⟩

/-- A response that is pushed when the write counter wraps, and sent. -/
theorem wrapped_refines :
    Along step Refines (sixteenSlots 255)
      [.respond dataOkRsp, .poll, .txDone, .respond dataOkRsp] :=
  (boundedQueue_iff _ (sixteenSlots_valid 255) _).mpr (by
    refine ⟨?_, trivial, trivial, ?_, trivial⟩ <;>
      exact fun hfull => absurd hfull (by rw [length_outstanding]; decide))

/-- The counters after `n` responses, of sixteen that fill the slots. -/
theorem sixteenSlots_counters (n : ℕ) (hn : n ≤ 16) :
    ((List.replicate n (Event.respond dataOkRsp)).foldl step (sixteenSlots 250)).wptr.toNat =
        (250 + n) % 2 ^ 8 ∧
      ((List.replicate n (Event.respond dataOkRsp)).foldl step (sixteenSlots 250)).rptr = 250 ∧
      ((List.replicate n (Event.respond dataOkRsp)).foldl step (sixteenSlots 250)).num = 16 := by
  induction n with
  | zero => exact ⟨rfl, rfl, rfl⟩
  | succ n ih =>
    obtain ⟨hw, hr, hnum⟩ := ih (by omega)
    rw [List.replicate_succ', List.foldl_append]
    generalize (List.replicate n (Event.respond dataOkRsp)).foldl step (sixteenSlots 250) = s at *
    have hfull : s.full = false := by
      rw [full, hw, hr, hnum, decide_eq_false_iff_not, show (16 : UInt8).toNat = 16 from rfl,
        show (250 : UInt8).toNat = 250 from rfl]
      omega
    obtain ⟨hw', hr', hnum'⟩ := respond_counters hfull dataOkRsp
    refine ⟨?_, hr'.trans hr, hnum'.trans hnum⟩
    rw [List.foldl_cons, List.foldl_nil, hw', UInt8.toNat_add, hw, Nat.mod_add_mod]
    rfl

theorem not_refines_of_counters (hw : s.wptr.toNat = 10) (hr : s.rptr = 250) (hn : s.num = 16) :
    ¬s.Refines (.respond dataOkRsp) := by
  refine not_refines_of_full ?_ ?_ dataOkRsp
  · rw [length_outstanding, hn]
    simp only [RingBuffer.count, ring, hw, hr]
    rfl
  · rw [full, hw, hr, hn]
    rfl

/-- **A seventeenth response** is written over the first of sixteen that wait, once the write
counter has wrapped around. -/
theorem seventeenth_taken :
    ¬∀ (s : HciTx) (run : List Event), s.Valid → Along step Refines s run := by
  intro hall
  have hrun := hall (sixteenSlots 250)
    (List.replicate 16 (.respond dataOkRsp) ++ [.respond dataOkRsp]) (sixteenSlots_valid 250)
  rw [along_concat] at hrun
  obtain ⟨hw, hr, hn⟩ := sixteenSlots_counters 16 le_rfl
  generalize (List.replicate 16 (Event.respond dataOkRsp)).foldl step (sixteenSlots 250) = s at *
  exact not_refines_of_counters hw hr hn hrun.2

/-! ### Where the responses come from -/

/-- From `d` to `d'`, one response is sent at most. -/
def Responds (d d' : Dev) : Prop :=
  ∃ rs : List DfuRsp, rs.length ≤ 1 ∧ d'.evts = d.evts ++ rs.map DfuRsp.evt

variable {d d' : Dev}

theorem responds_none (h : d'.evts = d.evts) : Responds d d' := ⟨[], Nat.zero_le 1, by simp [h]⟩

theorem responds_one (e : HciEvt) (hshort : e.packet.length ≤ 9) (h : d'.evts = d.evts ++ [e]) :
    Responds d d' :=
  ⟨[⟨e, hshort⟩], le_refl 1, h⟩

theorem responds_cmplStatus (opcode : ℕ) (err : DfuErr)
    (h : d'.evts = d.evts ++ [.cmdCmpl opcode [err.code]]) : Responds d d' :=
  responds_one _ (by simp [HciEvt.packet, uint16ToBstream]) h

theorem responds_status (opcode : ℕ) (err : DfuErr)
    (h : d'.evts = d.evts ++ [.cmdStatus opcode err.code]) : Responds d d' :=
  responds_one _ (by simp [HciEvt.packet, uint16ToBstream]) h

theorem responds_dfuStart (d : Dev) (fwSize : ℕ) (now : UInt32) :
    Responds d (d.dfuStart fwSize now) :=
  responds_one (.cmdCmpl hciOpcodeVsStartDfu [DfuErr.success.code, UInt8.ofNat dfuMaxPayload, 0])
    (by decide) rfl

theorem responds_startCmd (d : Dev) (q : Mem) (now : UInt32) :
    Responds d (d.dfuStartDfuCmdHandler q now) := by
  unfold Dev.dfuStartDfuCmdHandler
  simp only
  split_ifs
  · exact responds_cmplStatus _ .dfuEnableed rfl
  · exact responds_cmplStatus _ .invalidParam rfl
  · exact responds_dfuStart d _ now
  · exact responds_cmplStatus _ .fwVer rfl
  · exact responds_dfuStart d _ now
  · exact responds_cmplStatus _ .fwVer rfl
  · exact responds_dfuStart d _ now
  · exact responds_cmplStatus _ .invalidParam rfl

theorem responds_endCmd (d : Dev) (q : Mem) (now : UInt32) :
    Responds d (d.dfuEndDfuCmdHandler q now) := by
  unfold Dev.dfuEndDfuCmdHandler
  simp only
  split_ifs
  · exact responds_cmplStatus _ .fwIncomplete rfl
  · exact responds_cmplStatus _ .fwCrc rfl
  · exact responds_cmplStatus _ .success rfl
  · exact responds_cmplStatus _ .success rfl
  · exact responds_cmplStatus _ .invalidParam rfl

theorem responds_fwDataCmd (d : Dev) (q : Mem) (len : ℕ) (now : UInt32) :
    Responds d (d.dfuFwDataCmdHandler q len now) := by
  unfold Dev.dfuFwDataCmdHandler
  simp only
  split_ifs
  · exact responds_none rfl
  · exact responds_status _ .dfuDisabled rfl
  · exact responds_status _ .dataLength rfl
  · exact responds_status _ .fwChecksum rfl
  · exact responds_status _ .success rfl
  · exact responds_status _ .fwIncomplete rfl

theorem dfuEraseNewFwArea_evts (d : Dev) : d.dfuEraseNewFwArea.evts = d.evts := by
  unfold Dev.dfuEraseNewFwArea
  split_ifs
  · rfl
  · rw [Dev.eraseSectors_eq, Dev.flashOps_evts]

theorem responds_step (d : Dev) (i : DfuInput) : Responds d (d.step i) := by
  unfold Dev.step
  split_ifs
  · exact responds_none rfl
  · cases i with
    | hci pkt now =>
      simp only [Dev.dfuHandler, Dev.dfuCmdHandler]
      split_ifs
      · exact responds_startCmd d _ now
      · exact responds_fwDataCmd d _ _ now
      · exact responds_endCmd d _ now
      · exact responds_status _ .cmdDisallowed rfl
      · exact responds_none rfl
      · exact responds_none rfl
    | task idle now =>
      refine responds_none ?_
      simp only [Dev.dfuTaskStart]
      split_ifs <;> simp [Dev.setStatus, Dev.dfuReset, dfuEraseNewFwArea_evts]

/-- **What the firmware update sends** is a response of at most 9 bytes, and at most one for each
input. -/
theorem answer_short (d : Dev) (i : DfuInput) :
    ∃ rs : List DfuRsp, rs.length ≤ 1 ∧ d.answers i = rs.map DfuRsp.evt := by
  obtain ⟨rs, hlen, hevts⟩ := responds_step d i
  exact ⟨rs, hlen, by rw [Dev.answers, hevts, List.drop_left]⟩

end HciTx

end TcBle.HciTransport
