import TcBle.Application.UsbKbRelease
import TcBle.Foundation.CyclicRing

/-!
# The frames of the USB mouse

`application/app/usbmouse.c`: `usbmouse_add_frame` puts the frames of a packet into a buffer of
eight, and `usbmouse_report_frame` gives the oldest of them to the endpoint, which the mouse shares
with the keyboard and its FIFO.

## The model

The endpoint and the FIFO are those of the keyboard. The frames that are copied into the buffer are
recorded in `accepted`. A packet is read as far as its number of frames says, and may have anything
behind its four frames. What the endpoint sends of a report in the boot protocol is left out.

## What is proved

* `Orderly.addFrames` and `Orderly.addFrames_overflow` — frames that leave a slot free are added, and
  those that do not make the buffer look empty.
* `mouseFrames_delivered_iff` — in which runs every frame is delivered exactly once, and in order.
-/

namespace TcBle.Application

open Foundation Foundation.Run

/-- `mouse_data_t`. -/
structure MouseData where
  /-- `btn`. -/
  btn : UInt8
  /-- `x`. -/
  x : UInt8
  /-- `y`. -/
  y : UInt8
  /-- `wheel`. -/
  wheel : UInt8
  deriving DecidableEq

/-- `USB_HID_MOUSE`. -/
def usbHidMouse : UInt8 := 1

/-- `USBMOUSE_BUFF_DATA_NUM`. -/
def usbmouseBuffDataNum : ℕ := 8

/-- The report of a frame. -/
def MouseData.report (d : MouseData) : MouseReport := ⟨usbHidMouse, [d.btn, d.x, d.y, d.wheel]⟩

/-- `rf_packet_mouse_t`. -/
structure RfPacketMouse where
  /-- `pno`. -/
  pno : UInt8
  /-- `data`, and what is behind it. -/
  data : ℕ → MouseData

/-- The state of the USB mouse. -/
structure UsbMouse where
  /-- The endpoint and the FIFO. -/
  usb : UsbKb
  /-- `mouse_dat_buff`. -/
  mouseDatBuff : ℕ → MouseData
  /-- `usbmouse_wptr`. -/
  usbmouseWptr : UInt8
  /-- `usbmouse_rptr`. -/
  usbmouseRptr : UInt8
  /-- `usbmouse_not_released`. -/
  usbmouseNotReleased : Bool
  /-- `usbmouse_data_report_time`. -/
  usbmouseDataReportTime : UInt32
  /-- The frames that were copied into the buffer. -/
  accepted : List MouseData

namespace UsbMouse

/-- The mouse after a start. -/
def boot : UsbMouse where
  usb := .boot
  mouseDatBuff _ := ⟨0, 0, 0, 0⟩
  usbmouseWptr := 0
  usbmouseRptr := 0
  usbmouseNotReleased := false
  usbmouseDataReportTime := 0
  accepted := []

/-- A frame is copied into the buffer. -/
def copyFrame (d : MouseData) (s : UsbMouse) : UsbMouse :=
  { s with
    mouseDatBuff := Function.update s.mouseDatBuff s.usbmouseWptr.toNat d
    usbmouseWptr := (s.usbmouseWptr + 1) &&& 7
    accepted := s.accepted ++ [d] }

/-- The loop of `usbmouse_add_frame`: `n` frames from the one with number `i` on. -/
def addFrames (data : ℕ → MouseData) : ℕ → ℕ → UsbMouse → UsbMouse
  | 0, _, s => s
  | n + 1, i, s =>
    let s := s.copyFrame (data i)
    if s.usbmouseWptr = s.usbmouseRptr then s else addFrames data n (i + 1) s

/-- `usbmouse_add_frame`. -/
def usbmouseAddFrame (packetMouse : RfPacketMouse) (s : UsbMouse) : UsbMouse :=
  s.addFrames packetMouse.data packetMouse.pno.toNat 0

/-- `usbmouse_report_frame`. -/
def usbmouseReportFrame (read : Bool) (now : UInt32) (s : UsbMouse) : UsbMouse :=
  if s.usbmouseWptr ≠ s.usbmouseRptr then
    let data := s.mouseDatBuff s.usbmouseRptr.toNat
    let (usb, ret) := s.usb.usbmouseHidReport read data.report
    let s := { s with usb := usb }
    let s := if ret then { s with usbmouseRptr := (s.usbmouseRptr + 1) &&& 7 } else s
    if data = ⟨0, 0, 0, 0⟩ && ret then { s with usbmouseNotReleased := false }
    else { s with usbmouseNotReleased := true, usbmouseDataReportTime := now }
  else s

/-- What happens to the mouse. -/
inductive Event
  /-- `usbmouse_add_frame` is called. -/
  | addFrame (packetMouse : RfPacketMouse)
  /-- `usbmouse_report_frame` is called. -/
  | reportFrame (read : Bool) (now : UInt32)
  /-- `usb_hid_report_fifo_proc` is called. -/
  | fifoProc (reads : Reads)

/-- One event. -/
def step (s : UsbMouse) : Event → UsbMouse
  | .addFrame packetMouse => s.usbmouseAddFrame packetMouse
  | .reportFrame read now => s.usbmouseReportFrame read now
  | .fifoProc reads => { s with usb := s.usb.usbHidReportFifoProc reads }

/-! ### Where the frames are -/

/-- The frames in the buffer, the oldest first. -/
def pending (s : UsbMouse) : List MouseData :=
  (List.range ((s.usbmouseWptr - s.usbmouseRptr) &&& 7).toNat).map fun k =>
    s.mouseDatBuff ((s.usbmouseRptr.toNat + k) % usbmouseBuffDataNum)

/-- The report of the mouse that is in a slot. -/
def mouse? : UsbReport → Option MouseReport
  | .kb _ => none
  | .mouse r => some r

/-- The reports that were sent, that the FIFO holds, and that the buffer holds. -/
def delivery (s : UsbMouse) : List MouseReport :=
  s.usb.hostMouse ++ s.usb.fifo.filterMap mouse? ++ s.pending.map MouseData.report

/-- Every frame that was accepted is in exactly one of these places, in order. -/
def ExactlyOnce (s : UsbMouse) : Prop := s.delivery = s.accepted.map MouseData.report

/-- The packet leaves a slot of the buffer free. -/
def PacketFits (s : UsbMouse) (packetMouse : RfPacketMouse) : Prop :=
  s.pending.length + packetMouse.pno.toNat < usbmouseBuffDataNum

/-- The event does not find the endpoint busy with a frame in the buffer, and does not fill the
buffer. -/
def Roomy (s : UsbMouse) : Event → Prop
  | .addFrame packetMouse => s.PacketFits packetMouse
  | .reportFrame read _ => s.pending ≠ [] → s.usb.mouseBusy = true → read = true
  | .fifoProc _ => True

/-- The buffer holds the frames, and the FIFO nothing. -/
structure Orderly (s : UsbMouse) (frames : List MouseData) : Prop where
  /-- The buffer. -/
  ring : CyclicRing.Holds usbmouseBuffDataNum usbmouseBuffDataNum s.mouseDatBuff
    s.usbmouseWptr.toNat s.usbmouseRptr.toNat frames
  /-- A slot of the buffer is free. -/
  room : frames.length < usbmouseBuffDataNum
  /-- The FIFO. -/
  fifo : s.usb.usbFfRptr = s.usb.usbFfWptr
  /-- What is not in the buffer was sent. -/
  sent : s.usb.hostMouse ++ frames.map MouseData.report = s.accepted.map MouseData.report

variable {s : UsbMouse} {frames : List MouseData}

/-- A pointer that moves on. -/
theorem toNat_next (w : UInt8) : ((w + 1) &&& 7).toNat = (w.toNat + 1) % usbmouseBuffDataNum := by
  rw [UsbKb.and_seven, UInt8.toNat_add, UInt8.toNat_one, usbmouseBuffDataNum]
  omega

/-- What the pointers tell of the buffer. -/
theorem pending_eq
    (h : CyclicRing.Holds usbmouseBuffDataNum usbmouseBuffDataNum s.mouseDatBuff
      s.usbmouseWptr.toNat s.usbmouseRptr.toNat frames) (hroom : frames.length < usbmouseBuffDataNum) :
    s.pending = frames := by
  have hcount := h.count hroom
  have hr := h.rptr_lt
  have hw := h.wptr_lt
  have huse : ((s.usbmouseWptr - s.usbmouseRptr) &&& 7).toNat = frames.length := by
    rw [← hcount, UsbKb.and_seven, UInt8.toNat_sub]
    rw [usbmouseBuffDataNum] at hr hw ⊢
    omega
  rw [pending, huse]
  refine List.ext_getElem (by simp) fun k hk hk' => ?_
  rw [List.getElem_map, List.getElem_range]
  exact h.slots k hk'

theorem Orderly.pending (h : Orderly s frames) : s.pending = frames := pending_eq h.ring h.room

theorem Orderly.exactlyOnce (h : Orderly s frames) : s.ExactlyOnce := by
  rw [ExactlyOnce, delivery, h.pending, UsbKb.fifo_eq_nil h.fifo, List.filterMap_nil,
    List.append_nil]
  exact h.sent

theorem orderly_boot : Orderly boot [] :=
  ⟨CyclicRing.holds_nil (by decide), by decide, rfl, rfl⟩

/-! ### Packets -/

/-- Copying a frame that leaves a slot free. -/
theorem Orderly.copyFrame (h : Orderly s frames) (hroom : frames.length + 1 < usbmouseBuffDataNum)
    (d : MouseData) : Orderly (s.copyFrame d) (frames ++ [d]) where
  ring := by
    have hpush := h.ring.push dvd_rfl h.room d
    rw [Nat.mod_eq_of_lt h.ring.wptr_lt, ← toNat_next] at hpush
    exact hpush
  room := by rwa [List.length_append]
  fifo := h.fifo
  sent := by
    show s.usb.hostMouse ++ _ = (s.accepted ++ [d]).map _
    rw [List.map_append, List.map_append, ← List.append_assoc, h.sent]

/-- The buffer does not look empty then. -/
theorem Orderly.wptr_ne (h : Orderly s frames) (hne : frames ≠ []) :
    s.usbmouseWptr ≠ s.usbmouseRptr := fun heq =>
  hne ((h.ring.eq_nil_iff h.room).mp (congrArg UInt8.toNat heq))

/-- **Frames that leave a slot free** are added. -/
theorem Orderly.addFrames (data : ℕ → MouseData) (n : ℕ) :
    ∀ {s : UsbMouse} {frames : List MouseData} (i : ℕ), Orderly s frames →
      frames.length + n < usbmouseBuffDataNum →
        Orderly (s.addFrames data n i) (frames ++ (List.range n).map fun k => data (i + k)) := by
  induction n with
  | zero =>
    intro s frames i h _
    rw [List.range_zero, List.map_nil, List.append_nil]
    exact h
  | succ n ih =>
    intro s frames i h hroom
    have hcopy := h.copyFrame (by omega) (data i)
    have hlen : (frames ++ [data i]).length + n < usbmouseBuffDataNum := by
      rw [List.length_append, List.length_singleton]
      omega
    have hrest := ih (i + 1) hcopy hlen
    rw [UsbMouse.addFrames, if_neg (hcopy.wptr_ne (by simp))]
    rw [List.append_assoc] at hrest
    simpa [List.range_succ_eq_map, Function.comp_def, Nat.add_assoc, Nat.add_comm 1] using hrest

/-- **Frames that leave no slot free** make the buffer look empty. -/
theorem Orderly.addFrames_overflow (data : ℕ → MouseData) (n : ℕ) :
    ∀ {s : UsbMouse} {frames : List MouseData} (i : ℕ), Orderly s frames →
      usbmouseBuffDataNum ≤ frames.length + n →
        (s.addFrames data n i).usbmouseWptr = (s.addFrames data n i).usbmouseRptr ∧
          (s.addFrames data n i).usb = s.usb ∧
          s.accepted.length < (s.addFrames data n i).accepted.length := by
  induction n with
  | zero =>
    intro s frames i h hfull
    exact absurd h.room (not_lt.mpr hfull)
  | succ n ih =>
    intro s frames i h hfull
    have hone : (s.copyFrame (data i)).accepted.length = s.accepted.length + 1 := by
      rw [UsbMouse.copyFrame, List.length_append, List.length_singleton]
    rw [UsbMouse.addFrames]
    by_cases hroom : frames.length + 1 < usbmouseBuffDataNum
    case pos =>
      have hcopy := h.copyFrame hroom (data i)
      rw [if_neg (hcopy.wptr_ne (by simp))]
      have hfull' : usbmouseBuffDataNum ≤ (frames ++ [data i]).length + n := by
        rw [List.length_append, List.length_singleton]
        omega
      obtain ⟨hptr, husb, hlen⟩ := ih (i + 1) hcopy hfull'
      exact ⟨hptr, husb, by omega⟩
    case neg =>
      -- the frame takes the last slot, and the pointers meet
      have hmeet : (s.copyFrame (data i)).usbmouseWptr = (s.copyFrame (data i)).usbmouseRptr := by
        have hr := h.ring.rptr_lt
        have hw := h.ring.wptr
        have hroom' := h.room
        rw [← UInt8.toNat_inj]
        show ((s.usbmouseWptr + 1) &&& 7).toNat = s.usbmouseRptr.toNat
        rw [toNat_next, hw]
        rw [usbmouseBuffDataNum] at hr hroom hroom' ⊢
        omega
      rw [if_pos hmeet]
      exact ⟨hmeet, rfl, by omega⟩

/-- A buffer that looks empty has lost what was in it. -/
theorem not_exactlyOnce_of_meet {t : UsbMouse} (h : Orderly s frames) (husb : t.usb = s.usb)
    (hmeet : t.usbmouseWptr = t.usbmouseRptr) (hlen : s.accepted.length < t.accepted.length) :
    ¬ t.ExactlyOnce := by
  intro honce
  have hnone : t.pending = [] := by rw [UsbMouse.pending, hmeet]; simp
  have hfifo : s.usb.fifo = [] := UsbKb.fifo_eq_nil h.fifo
  have hsent := congrArg List.length h.sent
  have hall := congrArg List.length honce
  rw [delivery, hnone, husb, hfifo] at hall
  simp only [List.length_append, List.length_map, List.filterMap_nil, List.map_nil,
    List.length_nil] at hsent hall
  omega

/-! ### Polls -/

/-- A poll of an empty buffer. -/
theorem reportFrame_nil (h : Orderly s []) (read : Bool) (now : UInt32) :
    s.usbmouseReportFrame read now = s := by
  have hptr := (h.ring.eq_nil_iff h.room).mpr rfl
  rw [usbmouseReportFrame, if_neg (not_not.mpr (UInt8.toNat_inj.mp hptr))]

/-- The oldest frame. -/
theorem Orderly.oldest {d : MouseData} (h : Orderly s (d :: frames)) :
    s.mouseDatBuff s.usbmouseRptr.toNat = d := by
  have hslot := h.ring.slots 0 (Nat.zero_lt_succ _)
  rwa [Nat.add_zero, Nat.mod_eq_of_lt h.ring.rptr_lt] at hslot

/-- **A poll** that the endpoint takes. -/
theorem Orderly.reportFrame {d : MouseData} (h : Orderly s (d :: frames)) {read : Bool}
    (hfree : s.usb.mouseBusy = true → read = true) (now : UInt32) :
    Orderly (s.usbmouseReportFrame read now) frames := by
  have hbusy : ¬ (s.usb.mouseBusy && !read) = true := by
    cases hb : s.usb.mouseBusy <;> simp_all
  have hdrop := h.ring.drop dvd_rfl (Nat.le_add_left 1 frames.length)
  rw [← toNat_next] at hdrop
  have hroom : frames.length < usbmouseBuffDataNum := (Nat.lt_succ_self _).trans h.room
  have hsent := h.sent
  rw [List.map_cons, List.append_cons] at hsent
  have hreport : s.usb.usbmouseHidReport read d.report = ({ s.usb with
      mouseBusy := true, hostMouse := s.usb.hostMouse ++ [d.report] }, true) := by
    rw [UsbKb.usbmouseHidReport, if_neg hbusy]
  rw [usbmouseReportFrame, if_pos (h.wptr_ne (List.cons_ne_nil _ _))]
  simp only [h.oldest, hreport, if_true, Bool.and_true]
  split <;> exact ⟨hdrop, hroom, h.fifo, hsent⟩

/-- **A poll** that finds the endpoint busy sends the frame to the FIFO, and keeps it. -/
theorem Orderly.reportFrame_busy {d : MouseData} (h : Orderly s (d :: frames)) {read : Bool}
    (hbusy : (s.usb.mouseBusy && !read) = true) (now : UInt32) :
    ¬ (s.usbmouseReportFrame read now).ExactlyOnce := by
  have hcount : s.usb.ring.count ≤ usbFifoNum := by
    have hzero : s.usb.ring.count = 0 := by
      simp only [UsbKb.ring, RingBuffer.count, h.fifo]
      have := s.usb.usbFfWptr.toNat_lt
      omega
    omega
  obtain ⟨_, _, _, heq, hfifo, -⟩ := UsbKb.usbFifoPush_spec hcount (.mouse d.report)
  have hhost : (s.usb.usbFifoPush (.mouse d.report)).hostMouse = s.usb.hostMouse := by rw [heq]
  have hreport : s.usb.usbmouseHidReport read d.report =
      (s.usb.usbFifoPush (.mouse d.report), false) := by
    rw [UsbKb.usbmouseHidReport, if_pos hbusy]
  have hkeep : s.usbmouseReportFrame read now = { s with
      usb := s.usb.usbFifoPush (.mouse d.report), usbmouseNotReleased := true
      usbmouseDataReportTime := now } := by
    rw [usbmouseReportFrame, if_pos (h.wptr_ne (List.cons_ne_nil _ _))]
    simp only [h.oldest, hreport, Bool.false_eq_true, if_false, Bool.and_false]
  intro honce
  have hpending : (s.usbmouseReportFrame read now).pending = d :: frames := by
    rw [hkeep]
    exact pending_eq h.ring h.room
  have hall := congrArg List.length honce
  have hsent := congrArg List.length h.sent
  rw [delivery, hpending, hkeep, hhost, hfifo] at hall
  have hqueued : ([UsbReport.mouse d.report]).filterMap mouse? = [d.report] := rfl
  simp only [List.length_append, List.length_map, List.length_cons, List.length_nil,
    List.filterMap_append, hqueued] at hall hsent
  omega

/-! ### Whole runs -/

/-- **An event** that finds room keeps every frame in its place. -/
theorem Orderly.step (h : Orderly s frames) {e : Event} (hroomy : Roomy s e) :
    ∃ frames', Orderly (s.step e) frames' := by
  cases e with
  | addFrame p =>
    rw [Roomy, PacketFits, h.pending] at hroomy
    exact ⟨_, h.addFrames p.data p.pno.toNat 0 hroomy⟩
  | reportFrame read now =>
    rw [Roomy, h.pending] at hroomy
    cases frames with
    | nil => exact ⟨[], by rw [UsbMouse.step, reportFrame_nil h]; exact h⟩
    | cons d frames => exact ⟨frames, h.reportFrame (hroomy (List.cons_ne_nil _ _)) now⟩
  | fifoProc reads =>
    refine ⟨frames, ?_⟩
    rw [UsbMouse.step, UsbKb.usbHidReportFifoProc, if_pos h.fifo]
    exact h

/-- **An event** that finds no room loses frames, or repeats one. -/
theorem Orderly.step_not (h : Orderly s frames) {e : Event} (hroomy : ¬ Roomy s e) :
    ¬ (s.step e).ExactlyOnce := by
  cases e with
  | addFrame p =>
    rw [Roomy, PacketFits, h.pending] at hroomy
    obtain ⟨hmeet, husb, hlen⟩ := h.addFrames_overflow p.data p.pno.toNat 0 (not_lt.mp hroomy)
    exact not_exactlyOnce_of_meet h husb hmeet hlen
  | reportFrame read now =>
    rw [Roomy, h.pending] at hroomy
    push Not at hroomy
    obtain ⟨hne, hbusy, hread⟩ := hroomy
    cases frames with
    | nil => exact absurd rfl hne
    | cons d frames => exact h.reportFrame_busy (by rw [hbusy]; simpa using hread) now
  | fifoProc reads => exact absurd trivial hroomy

/-- The frames are in the buffer, or sent. -/
def Sound (s : UsbMouse) : Prop := ∃ frames, Orderly s frames

/-- **Exactly once**: in a run every frame that was accepted is sent or waits, once and in order,
exactly if no poll finds the endpoint busy with a frame in the buffer, and no packet fills it. -/
theorem mouseFrames_delivered_iff (run : List Event) :
    (∀ pre, pre <+: run → (pre.foldl UsbMouse.step boot).ExactlyOnce) ↔
      Along UsbMouse.step Roomy boot run := by
  have hboot : Sound boot := ⟨[], orderly_boot⟩
  refine Along.iff_forall_prefix hboot (fun s h => ?_) (fun s e h hroomy => ?_)
    (fun s e h hroomy => ?_) run
  · obtain ⟨frames, h⟩ := h
    exact h.exactlyOnce
  · obtain ⟨frames, h⟩ := h
    exact h.step hroomy
  · obtain ⟨frames, h⟩ := h
    exact h.step_not hroomy

/-- Two frames in a packet, of which the second finds the endpoint still busy. -/
def busyRun : List Event :=
  [.addFrame ⟨2, fun i => ⟨0, UInt8.ofNat (i + 1), 0, 0⟩⟩, .reportFrame false 0,
    .reportFrame false 1, .fifoProc ⟨true, true, true⟩, .reportFrame true 2]

/-- The second of two frames is sent twice, though the buffer is never full. -/
theorem mouseFrame_sent_twice :
    ¬ ∀ run, Along UsbMouse.step (fun s e => ∀ p, e = .addFrame p → s.PacketFits p) boot run →
      ∀ pre, pre <+: run → (pre.foldl UsbMouse.step boot).ExactlyOnce := by
  intro hall
  have hfits : Along UsbMouse.step (fun s e => ∀ p, e = .addFrame p → s.PacketFits p) boot
      busyRun := by
    refine ⟨fun p hp => ?_, ?_, ?_, ?_, ?_, trivial⟩
    · cases hp
      rw [PacketFits, orderly_boot.pending]
      decide
    all_goals
      intro p hp
      cases hp
  have honce := hall busyRun hfits busyRun List.prefix_rfl
  have hsent : (busyRun.foldl UsbMouse.step boot).delivery.length = 3 := by decide
  have haccepted : (busyRun.foldl UsbMouse.step boot).accepted.length = 2 := by decide
  rw [honce, List.length_map, haccepted] at hsent
  cases hsent

end UsbMouse

end TcBle.Application
