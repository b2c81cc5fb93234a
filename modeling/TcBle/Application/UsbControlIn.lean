import Mathlib.Data.List.TakeDrop
import Mathlib.Order.Nat
import TcBle.Application.UsbControl
import TcBle.Foundation.Run

/-!
# Transfers from the USB device

What a request is to be answered with is stated apart, in `answer`: a descriptor, a report, or nothing
where the request is not supported. The host reads the packets of a transfer until it has as many
bytes as it asked for, or a packet is short.

## What is proved

* `packets_of_answer` — the packets of a transfer are what it is to be answered with, cut.
* `setup_iff` and `data_iff` — when a setup is answered right, and when the next packet is.
* `usbTransfers_right_iff` — in which runs every transfer is answered right.
-/

namespace TcBle.Application

open TcBle.Foundation.Run

/-- What happens at the control endpoint. -/
inductive UsbEvent
  /-- A setup request. -/
  | setup (request : UsbRequest) (r : UsbRead)
  /-- A packet of the data stage was sent, or has come. -/
  | data (r : UsbRead)
  /-- The status stage. -/
  | status
  /-- A reset of the bus. -/
  | reset

/-- `usb_handle_irq`, for one of its interrupts. -/
def UsbControl.step (desc : UsbDesc) (s : UsbControl) : UsbEvent → UsbControl
  | .setup request r => s.usbHandleCtlEpSetup desc request r
  | .data r => s.usbHandleCtlEpData desc r
  | .status => s
  | .reset => { s with usbMouseReportProto := 1 }

/-! ### What is to be answered -/

/-- The request reads from the device. -/
def UsbRequest.IsIn (q : UsbRequest) : Prop := 0x80 ≤ q.requestType

/-- The request is for a descriptor. -/
def UsbRequest.IsDesc (q : UsbRequest) : Prop :=
  (q.requestType = 0x80 ∨ q.requestType = 0x81) ∧ q.request = reqGetDescriptor

instance (q : UsbRequest) : Decidable q.IsIn := inferInstanceAs (Decidable (_ ≤ _))

instance (q : UsbRequest) : Decidable q.IsDesc := inferInstanceAs (Decidable (_ ∧ _))

/-- A descriptor of the device. -/
def deviceAnswer (desc : UsbDesc) (q : UsbRequest) : Option UsbDescBytes :=
  if highByte q.value = dtypeDevice then some desc.device
  else if highByte q.value = dtypeConfiguration then some desc.configuration
  else if highByte q.value = dtypeString then
    if lowByte q.value = 0 then some desc.language
    else if lowByte q.value = 1 then some desc.vendor
    else if lowByte q.value = 2 then some desc.product
    else if lowByte q.value = 3 then some desc.serial
    else none
  else none

/-- A descriptor of an interface. -/
def intfAnswer (desc : UsbDesc) (q : UsbRequest) : Option UsbDescBytes :=
  if highByte q.value = hidDtypeHid then
    if lowByte q.index = usbIntfKeyboard then some desc.keyboard
    else if lowByte q.index = usbIntfMouse then some desc.mouse
    else none
  else if highByte q.value = hidDtypeReport then
    if lowByte q.index = usbIntfKeyboard then some desc.keyboardReport
    else if lowByte q.index = usbIntfMouse then some desc.mouseReport
    else none
  else none

/-- A report, or a setting of an audio unit. -/
def classAnswer (s : UsbControl) (q : UsbRequest) : Option (List UInt8) :=
  if q.request = 0 then some [0x00]
  else if q.request = hidReqGetReport then if q.value = 0x0305 then some s.customBytes else none
  else if q.request = hidReqGetIdle then some [s.gRate]
  else if q.request = hidReqGetProtocol then some [s.usbMouseReportProto]
  else if highByte q.index = usbSpeakerFeatureUnitId then
    UsbControl.usbaudHandleGetCmd speakerVolume s.speakerSetting q.request (highByte q.value)
  else if highByte q.index = usbMicFeatureUnitId then
    UsbControl.usbaudHandleGetCmd micVolume s.micSetting q.request (highByte q.value)
  else none

/-- What a request that is not for a descriptor is to be answered with. -/
def directAnswer (s : UsbControl) (q : UsbRequest) : Option (List UInt8) :=
  if q.requestType = 0x81 then
    if q.request = reqGetInterface then some [s.usbAltIntf (lowByte q.index &&& 7).toNat] else none
  else if q.requestType = 0xA1 then classAnswer s q
  else if q.requestType = 0xA2 then
    if highByte q.value = audioEpcontrolSamplingFreq ∧ q.request = audioReqGetCurrent then
      some micSampleRate
    else none
  else none

/-- What a request for a descriptor is to be answered with. -/
def descAnswer (desc : UsbDesc) (q : UsbRequest) : Option UsbDescBytes :=
  if q.requestType = 0x80 then deviceAnswer desc q else intfAnswer desc q

/-- What a request is to be answered with, `none` if it is not supported. -/
def answer (desc : UsbDesc) (s : UsbControl) (q : UsbRequest) : Option (List UInt8) :=
  if q.IsDesc then (descAnswer desc q).map Subtype.val else directAnswer s q

/-- The packet with number `k` of an answer to a request for `wLength` bytes. -/
def packetOf (a : List UInt8) (wLength k : ℕ) : List UInt8 := ((a.take wLength).drop (8 * k)).take 8

/-- A transfer from the device. -/
structure UsbTransfer where
  /-- What it is to be answered with. -/
  answer : Option (List UInt8)
  /-- How many bytes are asked for. -/
  wLength : ℕ
  /-- How many packets there were. -/
  packets : ℕ

/-- The host reads one more packet: it has not got all it asked for, and no short packet. -/
def UsbTransfer.Wanted (t : UsbTransfer) (a : List UInt8) : Prop :=
  8 * t.packets < t.wLength ∧ 8 * t.packets ≤ a.length

/-- The device, and the transfer from it. -/
structure UsbBus where
  /-- The device. -/
  dev : UsbControl
  /-- The transfer of the last setup, if it reads from the device. -/
  transfer : Option UsbTransfer

/-- One event on the bus. -/
def UsbBus.step (desc : UsbDesc) (b : UsbBus) (e : UsbEvent) : UsbBus where
  dev := b.dev.step desc e
  transfer :=
    match e with
    | .setup q _ => if q.IsIn then some ⟨answer desc b.dev q, q.length.toNat, 1⟩ else none
    | .data _ => b.transfer.map fun t => { t with packets := t.packets + 1 }
    | .status | .reset => b.transfer

/-- **What is asked of an event**: a setup that is not supported is stalled; any other one, and every
interrupt of the data stage that the host wants a packet of, gets the next packet of its answer. -/
def AnsweredRight (desc : UsbDesc) (b : UsbBus) : UsbEvent → Prop
  | .setup q r =>
    q.IsIn →
      match answer desc b.dev q with
      | none => (b.dev.step desc (.setup q r)).stalled = true
      | some a =>
        (b.dev.step desc (.setup q r)).stalled = false ∧
          (q.length ≠ 0 →
            (b.dev.step desc (.setup q r)).packet = packetOf a q.length.toNat 0)
  | .data r =>
    ∀ t ∈ b.transfer, ∀ a ∈ t.answer, t.Wanted a →
      (b.dev.step desc (.data r)).stalled = false ∧
        (b.dev.step desc (.data r)).packet = packetOf a t.wLength t.packets
  | .status => True
  | .reset => True

/-! ### When it is so -/

/-- The request is not one of those that are acknowledged though they are not supported. -/
structure Discerned (q : UsbRequest) : Prop where
  /-- Of the device, only descriptors are asked for. -/
  device : q.requestType = 0x80 → q.request = reqGetDescriptor
  /-- Of an interface, its setting, a report descriptor, or the HID descriptor of the keyboard or of
  the mouse. -/
  intf : q.requestType = 0x81 → q.request = reqGetInterface ∨ q.request = reqGetDescriptor ∧
    (highByte q.value = hidDtypeReport ∨ highByte q.value = hidDtypeHid ∧
      (lowByte q.index = usbIntfKeyboard ∨ lowByte q.index = usbIntfMouse))
  /-- The only report is the custom one. -/
  report : q.requestType = 0xA1 → q.request = hidReqGetReport → q.value = 0x0305
  /-- Of an endpoint, its sample rate. -/
  endp : q.requestType = 0xA2 →
    highByte q.value = audioEpcontrolSamplingFreq ∧ q.request = audioReqGetCurrent

/-- The request is for the custom report. -/
def CustomReport (q : UsbRequest) : Prop :=
  q.requestType = 0xA1 ∧ q.request = hidReqGetReport ∧ q.value = 0x0305

/-- The event is none of those that are answered wrong: a setup that is acknowledged though it is not
supported, one for less of a report than there is, or the second packet of a custom report. -/
def Benign (desc : UsbDesc) (b : UsbBus) : UsbEvent → Prop
  | .setup q _ =>
    q.IsIn → Discerned q ∧
      (¬ q.IsDesc → q.length ≠ 0 → ∀ a ∈ answer desc b.dev q, a.length ≤ q.length.toNat)
  | .data _ =>
    ∀ t ∈ b.transfer, CustomReport b.dev.controlRequest → t.packets = 1 → t.wLength ≤ 8
  | .status => True
  | .reset => True

/-! ### The packets of an answer -/

/-- **The packets** of an answer are the first bytes of it, as many as are asked for, cut. -/
theorem packets_of_answer (a : List UInt8) (wLength n : ℕ) :
    (List.range n).flatMap (packetOf a wLength) = (a.take wLength).take (8 * n) := by
  induction n with
  | zero => simp
  | succ n ih =>
    rw [List.range_succ, List.flatMap_append, ih, List.flatMap_singleton, packetOf, Nat.mul_succ,
      List.take_add]

/-- A packet has eight bytes at most. -/
theorem length_packetOf (a : List UInt8) (wLength k : ℕ) : (packetOf a wLength k).length ≤ 8 := by
  rw [packetOf, List.length_take]
  exact Nat.min_le_left _ _

namespace UsbControl

variable {s : UsbControl}

/-- `usb_send_response` gives the next packet of what there is to send. -/
theorem usbSendResponse_spec (hlen : s.gResponseLen.toNat ≤ s.gResponse.length) :
    s.usbSendResponse.packet = (s.gResponse.take s.gResponseLen.toNat).take 8 ∧
      s.usbSendResponse.gResponse.take s.usbSendResponse.gResponseLen.toNat =
        (s.gResponse.take s.gResponseLen.toNat).drop 8 ∧
      s.usbSendResponse.gResponseLen.toNat ≤ s.usbSendResponse.gResponse.length := by
  have hn : (if s.gResponseLen < 8 then s.gResponseLen else 8).toNat = min s.gResponseLen.toNat 8 := by
    split
    case isTrue h =>
      rw [UInt16.lt_iff_toNat_lt] at h
      exact (Nat.min_eq_left h.le).symm
    case isFalse h =>
      rw [UInt16.lt_iff_toNat_lt, not_lt] at h
      exact (Nat.min_eq_right h).symm
  have hle : (if s.gResponseLen < 8 then s.gResponseLen else 8) ≤ s.gResponseLen := by
    rw [UInt16.le_iff_toNat_le, hn]
    exact Nat.min_le_left _ _
  simp only [usbSendResponse, resetPtr, UInt16.toNat_sub_of_le _ _ hle, hn, List.length_drop]
  refine ⟨?_, ?_, ?_⟩
  · rw [List.take_take, Nat.min_comm]
  · rw [List.drop_take]
    obtain hlt | hle := Nat.lt_or_ge s.gResponseLen.toNat 8
    · rw [Nat.min_eq_left hlt.le, Nat.sub_self, Nat.sub_eq_zero_of_le hlt.le, List.take_zero,
        List.take_zero]
    · rw [Nat.min_eq_right hle]
  · omega

/-- A response of a descriptor, limited to what is asked for. -/
theorem limit_respond (d : UsbDescBytes) :
    (s.respond d).limit.gResponse = d.1 ∧
      (s.respond d).limit.gResponseLen.toNat = min d.1.length s.controlRequest.length.toNat := by
  have hlen : (UInt16.ofNat d.1.length).toNat = d.1.length := UInt16.toNat_ofNat_of_lt' d.2
  have hlt : s.controlRequest.length < (s.respond d).gResponseLen ↔
      s.controlRequest.length.toNat < d.1.length := by
    rw [UInt16.lt_iff_toNat_lt, respond, hlen]
  rw [limit]
  split
  case isTrue h => exact ⟨rfl, (Nat.min_eq_right (hlt.mp h).le).symm⟩
  case isFalse h =>
    refine ⟨rfl, hlen.trans (Nat.min_eq_left ?_).symm⟩
    exact not_lt.mp (mt hlt.mpr h)

/-- What limiting leaves as it is. -/
theorem limit_frame : s.limit.gStall = s.gStall ∧ s.limit.controlRequest = s.controlRequest := by
  rw [limit]
  split <;> exact ⟨rfl, rfl⟩

/-- The requests for a descriptor, with what they are to be answered with in place. -/
structure Prepared (s : UsbControl) (wLength : ℕ) (d : Option UsbDescBytes) : Prop where
  /-- It is stalled exactly if there is no answer. -/
  stalls : s.gStall = d.isNone
  /-- The response is the answer. -/
  response : ∀ a ∈ d, s.gResponse = a.1
  /-- As much of it as is asked for. -/
  length : ∀ a ∈ d, s.gResponseLen.toNat = min a.1.length wLength

theorem prepared_respond (hstall : s.gStall = false) (d : UsbDescBytes) :
    Prepared (s.respond d).limit s.controlRequest.length.toNat (some d) where
  stalls := limit_frame.1.trans hstall
  response a ha := by
    cases ha
    exact (limit_respond d).1
  length a ha := by
    cases ha
    exact (limit_respond d).2

theorem prepared_stall : Prepared s.stall.limit s.controlRequest.length.toNat none where
  stalls := limit_frame.1
  response a ha := by cases ha
  length a ha := by cases ha

/-- **A descriptor of the device** is prepared, or stalled. -/
theorem usbPrepareDescData_prepared (desc : UsbDesc) (hstall : s.gStall = false) :
    Prepared (s.usbPrepareDescData desc) s.controlRequest.length.toNat
      (deviceAnswer desc s.controlRequest) := by
  rw [usbPrepareDescData, deviceAnswer]
  split_ifs
  all_goals first
    | exact prepared_respond hstall _
    | exact prepared_stall

/-- **A descriptor of an interface** is prepared, or stalled, if the request is discerned. -/
theorem usbHandleStdIntfReq_prepared (desc : UsbDesc) (hstall : s.gStall = false)
    (hkind : highByte s.controlRequest.value = hidDtypeReport ∨
      highByte s.controlRequest.value = hidDtypeHid ∧
        (lowByte s.controlRequest.index = usbIntfKeyboard ∨
          lowByte s.controlRequest.index = usbIntfMouse)) :
    Prepared (s.usbHandleStdIntfReq desc) s.controlRequest.length.toNat
      (intfAnswer desc s.controlRequest) := by
  have hne : hidDtypeReport ≠ hidDtypeHid := by decide
  have hintf : usbIntfMouse ≠ usbIntfKeyboard := by decide
  rw [usbHandleStdIntfReq, intfAnswer]
  obtain hreport | ⟨hhid, hkeyboard | hmouse⟩ := hkind
  · rw [hreport, if_neg hne, if_neg hne, if_pos rfl, if_pos rfl]
    split_ifs
    · exact prepared_respond hstall _
    · exact prepared_respond hstall _
    · exact prepared_stall
  · rw [hhid, if_pos rfl, if_pos rfl, hkeyboard, if_neg hintf.symm, if_pos rfl, if_pos rfl]
    exact prepared_respond hstall _
  · rw [hhid, if_pos rfl, if_pos rfl, hmouse, if_pos rfl, if_neg hintf, if_neg hintf]
    exact prepared_respond hstall _

/-- Any other descriptor of an interface is not supported, and not stalled. -/
theorem usbHandleStdIntfReq_other (desc : UsbDesc)
    (hkind : ¬ (highByte s.controlRequest.value = hidDtypeReport ∨
      highByte s.controlRequest.value = hidDtypeHid ∧
        (lowByte s.controlRequest.index = usbIntfKeyboard ∨
          lowByte s.controlRequest.index = usbIntfMouse))) :
    (s.usbHandleStdIntfReq desc).gStall = s.gStall ∧ intfAnswer desc s.controlRequest = none := by
  obtain ⟨hreport, hhid⟩ := not_or.mp hkind
  rw [usbHandleStdIntfReq, intfAnswer]
  by_cases hh : highByte s.controlRequest.value = hidDtypeHid
  · obtain ⟨hkeyboard, hmouse⟩ := not_or.mp (not_and.mp hhid hh)
    rw [if_pos hh, if_pos hh, if_neg hkeyboard, if_neg hmouse, if_neg hkeyboard, if_neg hmouse]
    exact ⟨limit_frame.1, rfl⟩
  · rw [if_neg hh, if_neg hh, if_neg hreport, if_neg hreport]
    exact ⟨limit_frame.1, rfl⟩

theorem controlRequest_send (s : UsbControl) :
    s.usbSendResponse.controlRequest = s.controlRequest := by
  rw [usbSendResponse]
  rfl

theorem gStall_send (s : UsbControl) : s.usbSendResponse.gStall = s.gStall := by
  rw [usbSendResponse]
  rfl

/-- What there is to send is an answer from a packet on. -/
structure Rest (s : UsbControl) (a : List UInt8) (wLength k : ℕ) : Prop where
  /-- The bytes. -/
  bytes : s.gResponse.take s.gResponseLen.toNat = (a.take wLength).drop (8 * k)
  /-- There are so many. -/
  length : s.gResponseLen.toNat ≤ s.gResponse.length

theorem Rest.stalled {a : List UInt8} {wLength k : ℕ} (h : Rest s a wLength k) (b : Bool) :
    Rest { s with stalled := b } a wLength k :=
  ⟨h.bytes, h.length⟩

/-- **A packet** of a response. -/
theorem Rest.send {a : List UInt8} {wLength k : ℕ} (h : Rest s a wLength k) :
    s.usbSendResponse.packet = packetOf a wLength k ∧ Rest s.usbSendResponse a wLength (k + 1) := by
  obtain ⟨hpacket, hbytes, hlength⟩ := usbSendResponse_spec h.length
  rw [h.bytes] at hpacket hbytes
  rw [List.drop_drop] at hbytes
  exact ⟨hpacket, hbytes, hlength⟩

/-- What is prepared is the whole answer. -/
theorem Prepared.rest {wLength : ℕ} {d : Option UsbDescBytes} {a : UsbDescBytes}
    (h : Prepared s wLength d) (ha : a ∈ d) : Rest s a.1 wLength 0 where
  bytes := by
    rw [h.response a ha, h.length a ha, Nat.mul_zero, List.drop_zero, Nat.min_comm]
    exact List.take_eq_take_min.symm
  length := by
    rw [h.response a ha, h.length a ha]
    exact Nat.min_le_left _ _

/-! ### Setups -/

/-- The state in which a setup is handled. -/
def received (s : UsbControl) (q : UsbRequest) : UsbControl :=
  { s with controlRequest := q, gStall := false, packet := [] }

variable {q : UsbRequest} {desc : UsbDesc} {r : UsbRead}

theorem setup_device (htype : q.requestType = 0x80) :
    s.usbHandleCtlEpSetup desc q r =
      let s' := if q.request = reqGetDescriptor then
        ((s.received q).usbPrepareDescData desc).usbSendResponse else s.received q
      { s' with stalled := s'.gStall } := by
  rw [usbHandleCtlEpSetup, usbHandleRequest]
  dsimp only [resetPtr]
  rw [if_pos htype, if_neg Bool.false_ne_true]
  rfl

theorem setup_intf (htype : q.requestType = 0x81) :
    s.usbHandleCtlEpSetup desc q r =
      let s' := if q.request = reqGetDescriptor then
          ((s.received q).usbHandleStdIntfReq desc).usbSendResponse
        else if q.request = reqGetInterface then (s.received q).usbHandleGetIntf
        else s.received q
      { s' with stalled := s'.gStall } := by
  rw [usbHandleCtlEpSetup, usbHandleRequest]
  dsimp only [resetPtr]
  rw [if_neg (by rw [htype]; decide), if_pos htype, if_neg Bool.false_ne_true]
  rfl

/-- The first packet of what is prepared, with the answer of the endpoint. -/
theorem Prepared.setup {wLength : ℕ} {d : Option UsbDescBytes} (h : Prepared s wLength d) :
    ({ s.usbSendResponse with stalled := s.usbSendResponse.gStall } : UsbControl).stalled =
        d.isNone ∧
      ∀ a ∈ d, s.usbSendResponse.packet = packetOf a.1 wLength 0 ∧
        Rest s.usbSendResponse a.1 wLength 1 :=
  ⟨h.stalls, fun _ ha => (h.rest ha).send⟩

variable (s desc r) in
/-- **A descriptor** that is discerned is answered, or stalled. -/
theorem setup_desc (hdesc : q.IsDesc) (hdisc : Discerned q) :
    (s.usbHandleCtlEpSetup desc q r).stalled = (descAnswer desc q).isNone ∧
      ∀ a ∈ descAnswer desc q,
        (s.usbHandleCtlEpSetup desc q r).packet = packetOf a.1 q.length.toNat 0 ∧
          Rest (s.usbHandleCtlEpSetup desc q r) a.1 q.length.toNat 1 := by
  obtain ⟨htype | htype, hrequest⟩ := hdesc
  · have hprepared : Prepared ((s.received q).usbPrepareDescData desc) q.length.toNat
        (deviceAnswer desc q) := usbPrepareDescData_prepared desc rfl
    obtain ⟨hstalled, hanswer⟩ := hprepared.setup
    rw [setup_device htype, if_pos hrequest, descAnswer, if_pos htype]
    refine ⟨hstalled, fun a ha => ?_⟩
    obtain ⟨hpacket, hrest⟩ := hanswer a ha
    exact ⟨hpacket, hrest.stalled _⟩
  · have hne : q.request ≠ reqGetInterface := by rw [hrequest]; decide
    obtain ⟨-, hkind⟩ := (hdisc.intf htype).resolve_left hne
    have hprepared : Prepared ((s.received q).usbHandleStdIntfReq desc) q.length.toNat
        (intfAnswer desc q) := usbHandleStdIntfReq_prepared desc rfl hkind
    obtain ⟨hstalled, hanswer⟩ := hprepared.setup
    rw [setup_intf htype, if_pos hrequest, descAnswer, if_neg (by rw [htype]; decide)]
    refine ⟨hstalled, fun a ha => ?_⟩
    obtain ⟨hpacket, hrest⟩ := hanswer a ha
    exact ⟨hpacket, hrest.stalled _⟩

variable (s desc r) in
/-- A descriptor that is not discerned is not supported, and acknowledged. -/
theorem setup_desc_other (hdesc : q.IsDesc) (hdisc : ¬ Discerned q) :
    (s.usbHandleCtlEpSetup desc q r).stalled = false ∧ descAnswer desc q = none := by
  obtain ⟨htype | htype, hrequest⟩ := hdesc
  · refine absurd ⟨fun _ => hrequest, fun h => ?_, fun h => ?_, fun h => ?_⟩ hdisc <;>
      exact absurd (htype.symm.trans h) (by simp)
  · have hkind : ¬ (highByte q.value = hidDtypeReport ∨ highByte q.value = hidDtypeHid ∧
        (lowByte q.index = usbIntfKeyboard ∨ lowByte q.index = usbIntfMouse)) := by
      intro hkind
      refine hdisc ⟨fun _ => hrequest, fun _ => .inr ⟨hrequest, hkind⟩, fun h => ?_, fun h => ?_⟩ <;>
        exact absurd (htype.symm.trans h) (by simp)
    obtain ⟨hstall, hnone⟩ := usbHandleStdIntfReq_other (s := s.received q) desc hkind
    rw [setup_intf htype, if_pos hrequest, descAnswer, if_neg (by rw [htype]; decide)]
    dsimp only
    rw [gStall_send, hstall]
    exact ⟨rfl, hnone⟩

/-- How a setup that is not for a descriptor comes out: with all of its answer, or stalled if it is
discerned. -/
structure Direct (s' s : UsbControl) (q : UsbRequest) : Prop where
  /-- With its answer, of which only the custom report has eight bytes. -/
  answered : ∀ a ∈ directAnswer s q, s'.stalled = false ∧ s'.packet = a ∧ a.length ≤ 8 ∧
    (a.length = 8 ↔ CustomReport q)
  /-- Without one. -/
  stalls : directAnswer s q = none → (s'.stalled = true ↔ Discerned q)

theorem Direct.of_some {s' : UsbControl} {a : List UInt8} (ha : directAnswer s q = some a)
    (h : s'.stalled = false ∧ s'.packet = a ∧ a.length ≤ 8 ∧ (a.length = 8 ↔ CustomReport q)) :
    Direct s' s q where
  answered a' ha' := by
    rw [ha] at ha'
    obtain rfl := Option.some.inj ha'
    exact h
  stalls hnone := by
    rw [ha] at hnone
    cases hnone

theorem Direct.of_none {s' : UsbControl} (hnone : directAnswer s q = none)
    (h : s'.stalled = true ↔ Discerned q) : Direct s' s q where
  answered a ha := by
    rw [hnone] at ha
    cases ha
  stalls _ := h

theorem direct_device (htype : q.requestType = 0x80) (hrequest : q.request ≠ reqGetDescriptor) :
    Direct (s.usbHandleCtlEpSetup desc q r) s q := by
  have hnone : directAnswer s q = none := by
    rw [directAnswer, htype]
    rfl
  rw [setup_device htype, if_neg hrequest]
  refine Direct.of_none hnone ?_
  exact iff_of_false Bool.false_ne_true fun hdisc => hrequest (hdisc.device htype)

theorem direct_intf (htype : q.requestType = 0x81) (hrequest : q.request ≠ reqGetDescriptor) :
    Direct (s.usbHandleCtlEpSetup desc q r) s q := by
  rw [setup_intf htype, if_neg hrequest]
  by_cases hget : q.request = reqGetInterface
  · have hsome : directAnswer s q = some [s.usbAltIntf (lowByte q.index &&& 7).toNat] := by
      rw [directAnswer, if_pos htype, if_pos hget]
    rw [if_pos hget]
    refine Direct.of_some hsome ⟨rfl, rfl, show 1 ≤ 8 by decide, ?_⟩
    refine iff_of_false (show 1 ≠ 8 by decide) fun hcustom => ?_
    exact absurd (htype.symm.trans hcustom.1) (by simp)
  · have hnone : directAnswer s q = none := by
      rw [directAnswer, if_pos htype, if_neg hget]
    rw [if_neg hget]
    refine Direct.of_none hnone (iff_of_false Bool.false_ne_true fun hdisc => ?_)
    obtain hget' | ⟨hdesc, -⟩ := hdisc.intf htype
    · exact hget hget'
    · exact hrequest hdesc

/-- A setup of one of the other kinds. -/
theorem setup_handle {handle : UsbControl → UsbControl}
    (h : (s.received q).usbHandleRequest desc false r = handle (s.received q)) :
    s.usbHandleCtlEpSetup desc q r =
      { handle (s.received q) with stalled := (handle (s.received q)).gStall } := by
  rw [← h]
  rfl

theorem direct_endp (htype : q.requestType = 0xA2) :
    Direct (s.usbHandleCtlEpSetup desc q r) s q := by
  have hsetup : s.usbHandleCtlEpSetup desc q r =
      { (s.received q).usbHandleInClassEndpReq with
        stalled := (s.received q).usbHandleInClassEndpReq.gStall } := by
    refine setup_handle ?_
    have htype' : (s.received q).controlRequest.requestType = 0xA2 := htype
    rw [usbHandleRequest, htype']
    rfl
  have hanswer : directAnswer s q =
      if highByte q.value = audioEpcontrolSamplingFreq ∧ q.request = audioReqGetCurrent then
        some micSampleRate else none := by
    rw [directAnswer, htype]
    rfl
  rw [hsetup]
  by_cases hfreq : highByte q.value = audioEpcontrolSamplingFreq ∧ q.request = audioReqGetCurrent
  · have hdo : (s.received q).usbHandleInClassEndpReq = (s.received q).write micSampleRate := by
      rw [usbHandleInClassEndpReq]
      exact (if_pos hfreq.1).trans (if_pos hfreq.2)
    rw [if_pos hfreq] at hanswer
    rw [hdo]
    refine Direct.of_some hanswer ⟨rfl, rfl, by decide, iff_of_false (by decide) fun hcustom => ?_⟩
    exact absurd (htype.symm.trans hcustom.1) (by simp)
  · have hdo : (s.received q).usbHandleInClassEndpReq = s.received q := by
      rw [usbHandleInClassEndpReq]
      by_cases hval : highByte q.value = audioEpcontrolSamplingFreq
      · exact (if_pos hval).trans (if_neg fun hreq => hfreq ⟨hval, hreq⟩)
      · exact if_neg hval
    rw [if_neg hfreq] at hanswer
    rw [hdo]
    refine Direct.of_none hanswer ?_
    exact iff_of_false Bool.false_ne_true fun hdisc => hfreq (hdisc.endp htype)

/-- What the audio units answer is short. -/
theorem length_usbaudHandleGetCmd {range : VolumeRange} {set : AudioSetting} {req type : UInt8}
    {a : List UInt8} (h : a ∈ usbaudHandleGetCmd range set req type) : a.length ≤ 2 := by
  rw [usbaudHandleGetCmd] at h
  split_ifs at h <;> cases h <;> simp [u16Bytes]

/-- What a class request writes: its answer, and none for a report that is not the custom one. -/
theorem usbHandleInClassIntfReq_eq (hstall : s.gStall = false) :
    s.usbHandleInClassIntfReq =
      match classAnswer s s.controlRequest with
      | some a => s.write a
      | none => if s.controlRequest.request = hidReqGetReport then s else s.stall := by
  have hdone : ∀ a, s.inClassReport = s.write a → s.usbHandleInClassIntfReq = s.write a := by
    intro a ha
    rw [usbHandleInClassIntfReq, ha]
    exact if_neg (by rw [write, hstall]; exact Bool.false_ne_true)
  by_cases hzero : s.controlRequest.request = 0
  · rw [hdone [0x00] (if_pos hzero), classAnswer, if_pos hzero]
  by_cases hreport : s.controlRequest.request = hidReqGetReport
  · by_cases hvalue : s.controlRequest.value = 0x0305
    · rw [classAnswer, if_neg hzero, if_pos hreport, if_pos hvalue]
      refine hdone s.customBytes ?_
      rw [inClassReport, if_neg hzero, if_pos hreport, if_pos hvalue]
    · have hnone : s.inClassReport = s := by
        rw [inClassReport, if_neg hzero, if_pos hreport, if_neg hvalue]
      rw [classAnswer, if_neg hzero, if_pos hreport, if_neg hvalue, usbHandleInClassIntfReq, hnone,
        hstall, if_neg Bool.false_ne_true]
      exact (if_pos hreport).symm
  by_cases hidle : s.controlRequest.request = hidReqGetIdle
  · rw [classAnswer, if_neg hzero, if_neg hreport, if_pos hidle]
    refine hdone [s.gRate] ?_
    rw [inClassReport, if_neg hzero, if_neg hreport, if_pos hidle]
  by_cases hproto : s.controlRequest.request = hidReqGetProtocol
  · rw [classAnswer, if_neg hzero, if_neg hreport, if_neg hidle, if_pos hproto]
    refine hdone [s.usbMouseReportProto] ?_
    rw [inClassReport, if_neg hzero, if_neg hreport, if_neg hidle, if_pos hproto]
  -- the request is one for an audio unit, if any
  have hstalled : s.inClassReport = s.stall := by
    rw [inClassReport, if_neg hzero, if_neg hreport, if_neg hidle, if_neg hproto]
  have hback : ({ s.stall with gStall := false } : UsbControl) = s := by rw [stall, ← hstall]
  have haudio : s.usbHandleInClassIntfReq = s.inClassAudio := by
    rw [usbHandleInClassIntfReq, hstalled]
    exact (if_pos rfl).trans (congrArg inClassAudio hback)
  rw [haudio, inClassAudio, classAnswer, if_neg hzero, if_neg hreport, if_neg hidle, if_neg hproto,
    if_neg hreport]
  split_ifs <;> rfl

theorem length_customBytes : s.customBytes.length = 8 := by
  rw [customBytes]
  split <;> rfl

/-- A class request is answered with eight bytes at most, and with eight only by the custom report. -/
theorem length_classAnswer {a : List UInt8} (h : a ∈ classAnswer s q) :
    a.length ≤ 8 ∧ (a.length = 8 ↔ q.request = hidReqGetReport ∧ q.value = 0x0305) := by
  have hshort : ∀ n, a.length ≤ n → n < 8 → ¬ (q.request = hidReqGetReport ∧ q.value = 0x0305) →
      a.length ≤ 8 ∧ (a.length = 8 ↔ q.request = hidReqGetReport ∧ q.value = 0x0305) :=
    fun n hn h8 hnot => ⟨by omega, iff_of_false (by omega) hnot⟩
  rw [classAnswer] at h
  split_ifs at h with hzero hreport hvalue hidle hproto hspeaker hmic
  · cases h
    exact hshort 1 le_rfl (by decide) fun hc => absurd (hzero.symm.trans hc.1) (by decide)
  · cases h
    exact ⟨length_customBytes.le, iff_of_true length_customBytes ⟨hreport, hvalue⟩⟩
  · cases h
  · cases h
    exact hshort 1 le_rfl (by simp) fun hc => hreport hc.1
  · cases h
    exact hshort 1 le_rfl (by simp) fun hc => hreport hc.1
  · exact hshort 2 (length_usbaudHandleGetCmd h) (by simp) fun hc => hreport hc.1
  · exact hshort 2 (length_usbaudHandleGetCmd h) (by simp) fun hc => hreport hc.1
  · cases h

theorem direct_class (htype : q.requestType = 0xA1) :
    Direct (s.usbHandleCtlEpSetup desc q r) s q := by
  have hsetup : s.usbHandleCtlEpSetup desc q r =
      { (s.received q).usbHandleInClassIntfReq with
        stalled := (s.received q).usbHandleInClassIntfReq.gStall } := by
    refine setup_handle ?_
    have htype' : (s.received q).controlRequest.requestType = 0xA1 := htype
    rw [usbHandleRequest, htype']
    rfl
  have hanswer : directAnswer s q = classAnswer (s.received q) q := by
    rw [directAnswer, htype]
    rfl
  have heq := usbHandleInClassIntfReq_eq (s := s.received q) rfl
  have hq : (s.received q).controlRequest = q := rfl
  rw [hq] at heq
  rw [hsetup, heq]
  cases hclass : classAnswer (s.received q) q with
  | some a =>
    obtain ⟨hlen, hcustom⟩ := length_classAnswer hclass
    refine Direct.of_some (hanswer.trans hclass) ⟨rfl, rfl, hlen, ?_⟩
    exact hcustom.trans ⟨fun hc => ⟨htype, hc⟩, fun hc => hc.2⟩
  | none =>
    refine Direct.of_none (hanswer.trans hclass) ?_
    by_cases hreport : q.request = hidReqGetReport
    · have hvalue : q.value ≠ 0x0305 := by
        intro hvalue
        rw [classAnswer, if_neg (by rw [hreport]; decide), if_pos hreport, if_pos hvalue] at hclass
        cases hclass
      dsimp only
      rw [if_pos hreport]
      exact iff_of_false Bool.false_ne_true fun hdisc => hvalue (hdisc.report htype hreport)
    · dsimp only
      rw [if_neg hreport]
      refine iff_of_true rfl ⟨fun h => ?_, fun h => ?_, fun _ h => absurd h hreport, fun h => ?_⟩ <;>
        exact absurd (htype.symm.trans h) (by simp)

theorem direct_other (hin : q.IsIn) (h₀ : q.requestType ≠ 0x80) (h₁ : q.requestType ≠ 0x81)
    (h₂ : q.requestType ≠ 0xA1) (h₃ : q.requestType ≠ 0xA2) :
    Direct (s.usbHandleCtlEpSetup desc q r) s q := by
  have hlow : ∀ v : UInt8, v < 0x80 → q.requestType ≠ v := by
    rintro v hv rfl
    exact UInt8.not_le.mpr hv hin
  have hsetup : s.usbHandleCtlEpSetup desc q r =
      { (s.received q).stall with stalled := (s.received q).stall.gStall } := by
    refine setup_handle ?_
    have hreq : (s.received q).controlRequest = q := rfl
    rw [usbHandleRequest, hreq, if_neg h₀, if_neg h₁, if_neg (hlow 0x21 (by simp)),
      if_neg (hlow 0x22 (by simp)),
      if_neg h₂, if_neg h₃, if_neg (hlow 0x01 (by simp))]
    rfl
  have hnone : directAnswer s q = none := by
    rw [directAnswer, if_neg h₁, if_neg h₂, if_neg h₃]
  rw [hsetup]
  refine Direct.of_none hnone (iff_of_true rfl ?_)
  exact ⟨fun h => absurd h h₀, fun h => absurd h h₁, fun h => absurd h h₂, fun h => absurd h h₃⟩

variable (s desc r) in
/-- **A setup that is not for a descriptor** is answered with all of its answer, or stalled if it is
discerned. -/
theorem setup_direct (hin : q.IsIn) (hdesc : ¬ q.IsDesc) :
    Direct (s.usbHandleCtlEpSetup desc q r) s q := by
  by_cases h₀ : q.requestType = 0x80
  · exact direct_device h₀ fun h => hdesc ⟨.inl h₀, h⟩
  by_cases h₁ : q.requestType = 0x81
  · exact direct_intf h₁ fun h => hdesc ⟨.inr h₁, h⟩
  by_cases h₂ : q.requestType = 0xA1
  · exact direct_class h₂
  by_cases h₃ : q.requestType = 0xA2
  · exact direct_endp h₃
  exact direct_other hin h₀ h₁ h₂ h₃

/-! ### The data stage -/

variable (s desc r) in
/-- The next packet of a descriptor. -/
theorem data_desc (hdesc : s.controlRequest.IsDesc) {a : List UInt8} {wLength k : ℕ}
    (h : Rest s a wLength k) :
    (s.usbHandleCtlEpData desc r).stalled = false ∧
      (s.usbHandleCtlEpData desc r).packet = packetOf a wLength k ∧
      Rest (s.usbHandleCtlEpData desc r) a wLength (k + 1) := by
  have hrest : Rest ({ s with gStall := false, packet := [] } : UsbControl) a wLength k :=
    ⟨h.bytes, h.length⟩
  obtain ⟨hpacket, hbytes, hlength⟩ := hrest.send
  have hdata : s.usbHandleCtlEpData desc r =
      { ({ s with gStall := false, packet := [] } : UsbControl).usbSendResponse with
        stalled := false } := by
    rw [usbHandleCtlEpData, usbHandleRequest]
    obtain ⟨htype | htype, hrequest⟩ := hdesc
    · dsimp only [resetPtr]
      rw [htype, hrequest]
      rfl
    · dsimp only [resetPtr]
      rw [htype, hrequest]
      rfl
  rw [hdata]
  exact ⟨rfl, hpacket, hbytes, hlength⟩

/-- The data stage of a class request. -/
theorem data_class (htype : s.controlRequest.requestType = 0xA1) :
    s.usbHandleCtlEpData desc r =
      let s' := ({ s with gStall := false, packet := [] } : UsbControl).usbHandleInClassIntfReq
      { s' with stalled := s'.gStall } := by
  rw [usbHandleCtlEpData, usbHandleRequest]
  dsimp only [resetPtr]
  rw [htype]
  rfl

/-- The custom report is written again. -/
theorem data_custom (hcustom : CustomReport s.controlRequest) :
    (s.usbHandleCtlEpData desc r).packet = s.customBytes := by
  obtain ⟨htype, hrequest, hvalue⟩ := hcustom
  rw [data_class htype, usbHandleInClassIntfReq_eq rfl, classAnswer,
    if_neg (by rw [hrequest]; decide), if_pos hrequest, if_pos hvalue]
  rfl

/-! ### What stays -/

theorem controlRequest_prepare :
    (s.usbPrepareDescData desc).controlRequest = s.controlRequest := by
  rw [usbPrepareDescData]
  refine limit_frame.2.trans ?_
  split_ifs <;> rfl

theorem controlRequest_stdIntf :
    (s.usbHandleStdIntfReq desc).controlRequest = s.controlRequest := by
  rw [usbHandleStdIntfReq]
  refine limit_frame.2.trans ?_
  split_ifs <;> rfl

theorem controlRequest_inClass (hstall : s.gStall = false) :
    s.usbHandleInClassIntfReq.controlRequest = s.controlRequest := by
  rw [usbHandleInClassIntfReq_eq hstall]
  split
  · rfl
  · split <;> rfl

/-- **The request** stays while it is handled. -/
theorem controlRequest_handle (hin : s.controlRequest.IsIn) (hstall : s.gStall = false)
    (dataRequest : Bool) :
    (s.usbHandleRequest desc dataRequest r).controlRequest = s.controlRequest := by
  have hlow : ∀ v : UInt8, v < 0x80 → s.controlRequest.requestType ≠ v := by
    intro v hv heq
    rw [UsbRequest.IsIn, heq] at hin
    exact UInt8.not_le.mpr hv hin
  rw [usbHandleRequest, if_neg (hlow 0x21 (by simp)), if_neg (hlow 0x22 (by simp)),
    if_neg (hlow 0x01 (by simp))]
  split_ifs
  · rfl
  · exact (controlRequest_send _).trans (controlRequest_prepare (s := s.resetPtr))
  · rfl
  · rfl
  · exact (controlRequest_send _).trans (controlRequest_stdIntf (s := s.resetPtr))
  · rfl
  · rfl
  · exact controlRequest_inClass (s := s.resetPtr) hstall
  · rw [usbHandleInClassEndpReq]
    split_ifs <;> rfl
  · rfl

theorem controlRequest_setup (hin : q.IsIn) :
    (s.usbHandleCtlEpSetup desc q r).controlRequest = q :=
  controlRequest_handle (s := { s with controlRequest := q, gStall := false }) hin rfl false

theorem controlRequest_data (hin : s.controlRequest.IsIn) :
    (s.usbHandleCtlEpData desc r).controlRequest = s.controlRequest :=
  controlRequest_handle (s := { s with gStall := false }) hin rfl true

end UsbControl

/-! ### Whole runs -/

open UsbControl

variable {desc : UsbDesc} {b : UsbBus}

/-- The transfer is that of the request, and what the device is still to send is the rest of its
answer. -/
structure UsbBus.Tracks (b : UsbBus) (t : UsbTransfer) : Prop where
  /-- The request reads from the device. -/
  isIn : b.dev.controlRequest.IsIn
  /-- The first packet was sent. -/
  begun : 1 ≤ t.packets
  /-- A descriptor is sent from where the packets are. -/
  desc : b.dev.controlRequest.IsDesc → ∀ a ∈ t.answer, b.dev.Rest a t.wLength t.packets
  /-- Anything else is short. -/
  direct : ¬ b.dev.controlRequest.IsDesc → ∀ a ∈ t.answer,
    a.length ≤ 8 ∧ (a.length = 8 ↔ CustomReport b.dev.controlRequest)
  /-- There is a custom report. -/
  custom : CustomReport b.dev.controlRequest → t.answer ≠ none

/-- The state of the bus is in order. -/
def UsbBus.Sound (b : UsbBus) : Prop := ∀ t ∈ b.transfer, b.Tracks t

/-- What a request for a descriptor is answered with. -/
theorem answer_desc {s : UsbControl} {q : UsbRequest} (hdesc : q.IsDesc) :
    answer desc s q = (descAnswer desc q).map Subtype.val := if_pos hdesc

theorem answer_direct {s : UsbControl} {q : UsbRequest} (hdesc : ¬ q.IsDesc) :
    answer desc s q = directAnswer s q := if_neg hdesc

/-- The custom report has an answer. -/
theorem answer_custom {s : UsbControl} {q : UsbRequest} (hcustom : CustomReport q) :
    answer desc s q = some s.customBytes := by
  obtain ⟨htype, hrequest, hvalue⟩ := hcustom
  have hdesc : ¬ q.IsDesc := by
    rintro ⟨htype' | htype', -⟩ <;> exact absurd (htype.symm.trans htype') (by simp)
  rw [answer_direct hdesc, directAnswer, if_neg (by rw [htype]; decide), if_pos htype, classAnswer,
    if_neg (by rw [hrequest]; decide), if_pos hrequest, if_pos hvalue]

/-- What has an answer is discerned. -/
theorem discerned_of_directAnswer {s : UsbControl} {q : UsbRequest} {a : List UInt8}
    (h : a ∈ directAnswer s q) : Discerned q := by
  rw [directAnswer] at h
  split_ifs at h with h₁ hget h₂ h₃ hfreq
  · refine ⟨fun h => ?_, fun _ => .inl hget, fun h => ?_, fun h => ?_⟩ <;>
      exact absurd (h₁.symm.trans h) (by simp)
  · cases h
  · refine ⟨fun h => ?_, fun h => ?_, fun _ hreport => ?_, fun h => ?_⟩
    case refine_3 =>
      by_contra hvalue
      rw [classAnswer, if_neg (by rw [hreport]; decide), if_pos hreport, if_neg hvalue] at h
      cases h
    all_goals exact absurd (h₂.symm.trans ‹_›) (by simp)
  · refine ⟨fun h => ?_, fun h => ?_, fun h => ?_, fun _ => hfreq⟩ <;>
      exact absurd (h₃.symm.trans h) (by simp)
  · cases h
  · cases h

/-- A short answer is its first packet exactly if as much is asked for. -/
theorem packetOf_zero_eq_iff {a : List UInt8} {n : ℕ} (h : a.length ≤ 8) :
    a = packetOf a n 0 ↔ a.length ≤ n := by
  have hpacket : packetOf a n 0 = a.take n := by
    rw [packetOf, Nat.mul_zero, List.drop_zero, List.take_of_length_le]
    rw [List.length_take]
    exact (Nat.min_le_right _ _).trans h
  rw [hpacket, eq_comm, List.take_eq_self_iff]

/-- **A setup** is answered right exactly if it is benign. -/
theorem setup_iff (q : UsbRequest) (r : UsbRead) :
    AnsweredRight desc b (.setup q r) ↔ Benign desc b (.setup q r) := by
  refine forall_congr' fun hin => ?_
  show (match answer desc b.dev q with
    | none => (b.dev.usbHandleCtlEpSetup desc q r).stalled = true
    | some a => (b.dev.usbHandleCtlEpSetup desc q r).stalled = false ∧ (q.length ≠ 0 →
        (b.dev.usbHandleCtlEpSetup desc q r).packet = packetOf a q.length.toNat 0)) ↔ _
  by_cases hdesc : q.IsDesc
  case pos =>
    rw [answer_desc hdesc]
    by_cases hdisc : Discerned q
    · refine iff_of_true ?_ ⟨hdisc, fun h => absurd hdesc h⟩
      obtain ⟨hstalled, hanswer⟩ := setup_desc b.dev desc r hdesc hdisc
      cases h : descAnswer desc q with
      | none =>
        rw [h] at hstalled
        exact hstalled
      | some a =>
        rw [h] at hstalled
        exact ⟨hstalled, fun _ => (hanswer a h).1⟩
    · obtain ⟨hstalled, hnone⟩ := setup_desc_other b.dev desc r hdesc hdisc
      refine iff_of_false ?_ fun h => hdisc h.1
      rw [hnone, hstalled]
      exact Bool.false_ne_true
  case neg =>
    have hdirect := setup_direct b.dev desc r hin hdesc
    rw [answer_direct hdesc]
    cases h : directAnswer b.dev q with
    | none =>
      refine (hdirect.stalls h).trans ⟨fun hdisc => ⟨hdisc, fun _ _ a ha => ?_⟩, fun h => h.1⟩
      cases ha
    | some a =>
      obtain ⟨hstalled, hpacket, hlen, -⟩ := hdirect.answered a h
      have hdisc := discerned_of_directAnswer h
      dsimp only
      rw [hpacket, packetOf_zero_eq_iff hlen]
      refine ⟨fun hright => ⟨hdisc, fun _ hne a' ha' => ?_⟩, fun hbenign =>
        ⟨hstalled, fun hne => hbenign.2 hdesc hne a rfl⟩⟩
      cases ha'
      exact hright.2 hne

/-- **The data stage** is answered right exactly if it is benign. -/
theorem data_iff (h : b.Sound) (r : UsbRead) :
    AnsweredRight desc b (.data r) ↔ Benign desc b (.data r) := by
  refine forall₂_congr fun t ht => ?_
  have htracks := h t ht
  show (∀ a ∈ t.answer, t.Wanted a → (b.dev.usbHandleCtlEpData desc r).stalled = false ∧
    (b.dev.usbHandleCtlEpData desc r).packet = packetOf a t.wLength t.packets) ↔ _
  by_cases hdesc : b.dev.controlRequest.IsDesc
  case pos =>
    refine iff_of_true (fun a ha _ => ?_) fun hcustom => ?_
    · obtain ⟨hstalled, hpacket, -⟩ := data_desc b.dev desc r hdesc
        (htracks.desc hdesc a ha)
      exact ⟨hstalled, hpacket⟩
    · obtain htype | htype := hdesc.1 <;> exact absurd (htype.symm.trans hcustom.1) (by simp)
  case neg =>
    have hone : ∀ a ∈ t.answer, t.Wanted a →
        CustomReport b.dev.controlRequest ∧ t.packets = 1 ∧ 8 < t.wLength := by
      intro a ha hwanted
      obtain ⟨hlen, hcustom⟩ := htracks.direct hdesc a ha
      obtain ⟨hless, hle⟩ := hwanted
      have hbegun := htracks.begun
      have hpackets : t.packets = 1 := by omega
      rw [hpackets] at hless hle
      exact ⟨hcustom.mp (by omega), hpackets, hless⟩
    constructor
    · intro hright hcustom hpackets
      by_contra hmore
      obtain ⟨a, ha⟩ := Option.ne_none_iff_exists'.mp (htracks.custom hcustom)
      have hlen := (htracks.direct hdesc a ha).2.mpr hcustom
      have hwanted : t.Wanted a := ⟨by omega, by omega⟩
      have hpacket := (hright a ha hwanted).2
      have hlen' := congrArg List.length hpacket
      rw [data_custom hcustom, length_customBytes, packetOf, hpackets] at hlen'
      simp only [List.length_take, List.length_drop] at hlen'
      omega
    · intro hbenign a ha hwanted
      obtain ⟨hcustom, hpackets, hmore⟩ := hone a ha hwanted
      exact absurd (hbenign hcustom hpackets) (not_le.mpr hmore)

/-- **An event** that is benign keeps the state in order. -/
theorem sound_step (h : b.Sound) {e : UsbEvent} (hbenign : Benign desc b e) :
    (b.step desc e).Sound := by
  cases e with
  | setup q r =>
    intro t ht
    by_cases hin : q.IsIn
    case neg =>
      rw [UsbBus.step] at ht
      dsimp only at ht
      rw [if_neg hin] at ht
      cases ht
    case pos =>
      obtain ⟨hdisc, -⟩ := hbenign hin
      rw [UsbBus.step] at ht
      dsimp only at ht
      rw [if_pos hin] at ht
      obtain rfl := Option.some.inj ht
      have hreq : (b.step desc (.setup q r)).dev.controlRequest = q := controlRequest_setup hin
      refine ⟨by rwa [hreq], le_rfl, fun hdesc a ha => ?_, fun hdesc a ha => ?_, fun hcustom => ?_⟩
      case refine_1 =>
        rw [hreq] at hdesc
        rw [answer_desc hdesc] at ha
        obtain ⟨d, hd, rfl⟩ := Option.map_eq_some_iff.mp ha
        exact ((setup_desc b.dev desc r hdesc hdisc).2 d hd).2
      case refine_2 =>
        rw [hreq] at hdesc ⊢
        rw [answer_direct hdesc] at ha
        exact ((setup_direct b.dev desc r hin hdesc).answered a ha).2.2
      case refine_3 =>
        rw [hreq] at hcustom
        show answer desc b.dev q ≠ none
        rw [answer_custom hcustom]
        exact Option.some_ne_none _
  | data r =>
    intro t ht
    obtain ⟨t, ht', rfl⟩ := Option.map_eq_some_iff.mp ht
    have htracks := h t ht'
    have hreq : (b.step desc (.data r)).dev.controlRequest = b.dev.controlRequest :=
      controlRequest_data htracks.isIn
    refine ⟨by rw [hreq]; exact htracks.isIn, Nat.le_add_left 1 _, fun hdesc a ha => ?_,
      fun hdesc a ha => ?_, fun hcustom => ?_⟩
    · rw [hreq] at hdesc
      exact (data_desc b.dev desc r hdesc (htracks.desc hdesc a ha)).2.2
    · rw [hreq] at hdesc ⊢
      exact htracks.direct hdesc a ha
    · rw [hreq] at hcustom
      exact htracks.custom hcustom
  | status => exact h
  | reset =>
    intro t ht
    have htracks := h t ht
    exact ⟨htracks.isIn, htracks.begun, fun hdesc a ha =>
      ⟨(htracks.desc hdesc a ha).bytes, (htracks.desc hdesc a ha).length⟩, htracks.direct,
      htracks.custom⟩

/-- **Transfers from the device** are all answered right, in a run from any state in which none is
begun, exactly if every event of it is benign. -/
theorem usbTransfers_right_iff (desc : UsbDesc) (dev : UsbControl) (run : List UsbEvent) :
    Along (UsbBus.step desc) (AnsweredRight desc) ⟨dev, none⟩ run ↔
      Along (UsbBus.step desc) (Benign desc) ⟨dev, none⟩ run := by
  have hstart : (⟨dev, none⟩ : UsbBus).Sound := by
    intro t ht
    cases ht
  refine Along.iff_along (fun b e (h : b.Sound) => ?_)
    (fun b e (h : b.Sound) hbenign => sound_step h hbenign) hstart run
  cases e with
  | setup q r => exact setup_iff q r
  | data r => exact data_iff h r
  | status => exact Iff.rfl
  | reset => exact Iff.rfl

/-- Some descriptors: that of the device has 18 bytes. -/
def someDesc : UsbDesc :=
  let none : UsbDescBytes := ⟨[], by decide⟩
  { device := ⟨[18, 1, 0x10, 1, 0, 0, 0, 8, 0x8A, 0x24, 1, 2, 3, 4, 1, 2, 3, 1], by decide⟩
    configuration := none, language := none, vendor := none, product := none, serial := none
    mouse := none, keyboard := none, mouseReport := none, keyboardReport := none }

/-- The descriptor of the device, and then the HID descriptor of the printer, which has none. -/
def leftoverRun : List UsbEvent :=
  [.setup ⟨0x80, 6, 0x0100, 0, 18⟩ ⟨[], 0, 0⟩, .setup ⟨0x81, 6, 0x2100, 0, 9⟩ ⟨[], 0, 0⟩]

/-- The HID descriptor of the printer is answered with the next bytes of that of the device. -/
theorem usbTransfer_leftover :
    ¬ ∀ (desc : UsbDesc) (dev : UsbControl) (run : List UsbEvent),
      Along (UsbBus.step desc) (AnsweredRight desc) ⟨dev, none⟩ run := by
  intro hall
  obtain ⟨-, hlast, -⟩ := hall someDesc .boot leftoverRun
  have hstalled : (((⟨.boot, none⟩ : UsbBus).step someDesc
      (.setup ⟨0x80, 6, 0x0100, 0, 18⟩ ⟨[], 0, 0⟩)).dev.step someDesc
        (.setup ⟨0x81, 6, 0x2100, 0, 9⟩ ⟨[], 0, 0⟩)).stalled = true := hlast (by decide)
  revert hstalled
  decide

example : ((leftoverRun.foldl (UsbBus.step someDesc) ⟨.boot, none⟩).dev.packet,
    (leftoverRun.foldl (UsbBus.step someDesc) ⟨.boot, none⟩).dev.stalled) =
      ([0x8A, 0x24, 1, 2, 3, 4, 1, 2], false) := by decide

end TcBle.Application
