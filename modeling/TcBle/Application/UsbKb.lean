import TcBle.Foundation.RingBuffer

/-!
# The USB keyboard

`application/app/usbkb.c`, with `usbmouse_hid_report` of `usbmouse.c`: reports go to their endpoint,
or into one FIFO of four reports while the endpoint is busy.

## The model

An endpoint is busy from the report it was given until the host reads it. The host may do so at any
time; what matters is whether it has when the endpoint is asked, so each event says for each
question whether the host has read the endpoint before it. What the endpoints were given is
recorded. The bytes of a slot of `usb_fifo` are kept as a report, `usbkb_not_released` as its three
bits, and `released` says that the last report passed to the keyboard had no key in it.
-/

namespace TcBle.Application

open Foundation

/-- `KB_RETURN_KEY_MAX` and `KEYBOARD_REPORT_KEY_MAX`. -/
def keyboardReportKeyMax : ℕ := 6

/-- `USB_FIFO_NUM`. -/
def usbFifoNum : ℕ := 4

/-- `MEDIA_REPORT_DATA_LEN` and `MOUSE_REPORT_DATA_LEN`. -/
def mediaReportDataLen : ℕ := 4

/-- `USB_KEYBOARD_RELEASE_TIMEOUT`, in microseconds. -/
def usbKeyboardReleaseTimeout : UInt32 := 450000

/-- `USB_HID_KB_MEDIA`. -/
def usbHidKbMedia : UInt8 := 3

/-- `USB_HID_KB_SYS`. -/
def usbHidKbSys : UInt8 := 4

/-- `VK_EXT_START`, which is `VK_SYS_START`. -/
def vkExtStart : UInt8 := 0xA0

/-- `VK_SYS_END`, which is `VK_MEDIA_START`. -/
def vkSysEnd : UInt8 := 0xA3

/-- `VK_EXT_END`, which is `VK_MEDIA_END`. -/
def vkExtEnd : UInt8 := 0xB5

/-- `vk_sys_map`. -/
def vkSysMap : List UInt8 := [0x01, 0x02, 0x04]

/-- `vk_media_map`. -/
def vkMediaMap : List (UInt8 × UInt8) :=
  [(0x21, 0x02), (0x23, 0x02), (0x24, 0x02), (0x25, 0x02), (0x26, 0x02), (0x27, 0x02),
    (0x2A, 0x02), (0x83, 0x01), (0x8A, 0x01), (0x92, 0x01), (0x94, 0x01), (0xB5, 0x00),
    (0xB6, 0x00), (0xB7, 0x00), (0xCD, 0x00), (0xE2, 0x00), (0xE9, 0x00), (0xEA, 0x00)]

/-- `kb_data_t`. -/
structure KbData where
  /-- `cnt`. -/
  cnt : UInt8
  /-- `ctrl_key`. -/
  ctrlKey : UInt8
  /-- `keycode`. -/
  keycode : Vector UInt8 6
  deriving DecidableEq

/-- A report of the keyboard endpoint: the modifiers and the keys. -/
structure KbReport where
  /-- `ctrl_key`. -/
  ctrlKey : UInt8
  /-- `keycode`. -/
  keycode : Vector UInt8 6
  deriving DecidableEq

/-- No key is pressed. -/
def KbReport.zero : KbReport := ⟨0, #v[0, 0, 0, 0, 0, 0]⟩

/-- A report of the mouse endpoint. -/
structure MouseReport where
  /-- `report_id`. -/
  reportId : UInt8
  /-- `data`. -/
  data : List UInt8
  deriving DecidableEq

/-- A slot of `usb_fifo`. -/
inductive UsbReport
  /-- `DAT_TYPE_KB`. -/
  | kb (r : KbReport)
  /-- `DAT_TYPE_MOUSE`. -/
  | mouse (r : MouseReport)
  deriving DecidableEq

/-- The report of the keyboard endpoint that is in a slot. -/
def UsbReport.kb? : UsbReport → Option KbReport
  | kb r => some r
  | mouse _ => none

/-- The bits of `usbkb_not_released`. -/
structure NotReleased where
  /-- `KB_NORMAL_RELEASE_MASK`. -/
  normal : Bool
  /-- `KB_SYS_RELEASE_MASK`. -/
  sys : Bool
  /-- `KB_MEDIA_RELEASE_MASK`. -/
  media : Bool
  deriving DecidableEq

/-- `usbkb_not_released` is not zero. -/
def NotReleased.any (m : NotReleased) : Bool := m.normal || m.sys || m.media

/-- The state of the USB keyboard, and of its two endpoints. -/
structure UsbKb where
  /-- `usb_fifo`. -/
  usbFifo : ℕ → UsbReport
  /-- `usb_ff_rptr`. -/
  usbFfRptr : UInt8
  /-- `usb_ff_wptr`. -/
  usbFfWptr : UInt8
  /-- `usbkb_not_released`. -/
  usbkbNotReleased : NotReleased
  /-- `usbkb_data_report_time`. -/
  usbkbDataReportTime : UInt32
  /-- `last_data`. -/
  lastData : KbData
  /-- `USB_EDP_KEYBOARD_IN` is busy. -/
  keyboardBusy : Bool
  /-- `USB_EDP_MOUSE` is busy. -/
  mouseBusy : Bool
  /-- What `USB_EDP_KEYBOARD_IN` was given for the host. -/
  host : List KbReport
  /-- What `USB_EDP_MOUSE` was given for the host. -/
  hostMouse : List MouseReport
  /-- The last report had no key in it. -/
  released : Bool

/-- Which endpoints the host has read when they are asked. -/
structure Reads where
  /-- The keyboard endpoint. -/
  keyboard : Bool
  /-- The mouse endpoint, at the report of a system key. -/
  sys : Bool
  /-- The mouse endpoint, at any other report. -/
  mouse : Bool
  deriving DecidableEq

/-- `usbkb_separate_key_types`: the normal keys, and the last of the others, or `VK_EXT_END`. -/
def usbkbSeparateKeyTypes (keys : List UInt8) : List UInt8 × UInt8 :=
  keys.foldl (fun (normal, ext) key =>
    if key ≥ vkExtStart && key < vkExtEnd then (normal, key) else (normal ++ [key], ext))
    ([], vkExtEnd)

/-- The normal keys in a report. -/
def normalKeycode (keys : List UInt8) : Vector UInt8 6 := .ofFn fun i => keys.getD i 0

/-- `kb_is_data_same`. -/
def kbIsDataSame (a b : KbData) : Bool :=
  a.cnt = b.cnt && a.ctrlKey = b.ctrlKey &&
    a.keycode.toList.take a.cnt.toNat = b.keycode.toList.take a.cnt.toNat

/-- A report has a key in it. -/
def KbData.pressed (data : KbData) : Bool := data.cnt > 0 || data.ctrlKey ≠ 0

/-- The keys of a report, by their types. -/
def KbData.keys (data : KbData) : List UInt8 × UInt8 :=
  if data.cnt > 0 then usbkbSeparateKeyTypes (data.keycode.toList.take data.cnt.toNat)
  else ([], vkExtEnd)

namespace UsbKb

/-- The keyboard after a start. -/
def boot : UsbKb where
  usbFifo _ := .kb .zero
  usbFfRptr := 0
  usbFfWptr := 0
  usbkbNotReleased := ⟨false, false, false⟩
  usbkbDataReportTime := 0
  lastData := ⟨0, 0, #v[0, 0, 0, 0, 0, 0]⟩
  keyboardBusy := false
  mouseBusy := false
  host := []
  hostMouse := []
  released := true

/-- A report goes into the FIFO; one too many, and the oldest is overlapped. -/
def usbFifoPush (x : UsbReport) (s : UsbKb) : UsbKb :=
  let s := { s with
    usbFifo := Function.update s.usbFifo (s.usbFfWptr &&& 3).toNat x
    usbFfWptr := s.usbFfWptr + 1 }
  let fifoUse := (s.usbFfWptr - s.usbFfRptr) &&& 7
  if fifoUse.toNat > usbFifoNum then { s with usbFfRptr := s.usbFfRptr + 1 } else s

/-- `usbkb_hid_report_normal`, and what it returns. -/
def usbkbHidReportNormal (read : Bool) (r : KbReport) (s : UsbKb) : UsbKb × Bool :=
  if s.keyboardBusy && !read then (s.usbFifoPush (.kb r), false)
  else ({ s with keyboardBusy := true, host := s.host ++ [r] }, true)

/-- `usbmouse_hid_report`, and what it returns. -/
def usbmouseHidReport (read : Bool) (r : MouseReport) (s : UsbKb) : UsbKb × Bool :=
  if s.mouseBusy && !read then (s.usbFifoPush (.mouse r), false)
  else ({ s with mouseBusy := true, hostMouse := s.hostMouse ++ [r] }, true)

/-- `usbkb_release_normal_key`. -/
def usbkbReleaseNormalKey (read : Bool) (s : UsbKb) : UsbKb :=
  if s.usbkbNotReleased.normal then
    let (s, sent) := s.usbkbHidReportNormal read .zero
    if sent then { s with usbkbNotReleased := { s.usbkbNotReleased with normal := false } } else s
  else s

/-- `usbkb_release_sys_key`. -/
def usbkbReleaseSysKey (read : Bool) (s : UsbKb) : UsbKb :=
  if s.usbkbNotReleased.sys then
    let (s, sent) := s.usbmouseHidReport read ⟨usbHidKbSys, [0]⟩
    if sent then { s with usbkbNotReleased := { s.usbkbNotReleased with sys := false } } else s
  else s

/-- `usbkb_release_media_key`. -/
def usbkbReleaseMediaKey (read : Bool) (s : UsbKb) : UsbKb :=
  if s.usbkbNotReleased.media then
    let (s, sent) := s.usbmouseHidReport read ⟨usbHidKbMedia, List.replicate mediaReportDataLen 0⟩
    if sent then { s with usbkbNotReleased := { s.usbkbNotReleased with media := false } } else s
  else s

/-- `usbkb_release_keys`. -/
def usbkbReleaseKeys (reads : Reads) (s : UsbKb) : UsbKb :=
  ((s.usbkbReleaseSysKey reads.sys).usbkbReleaseNormalKey reads.keyboard).usbkbReleaseMediaKey
    reads.mouse

/-- `usbkb_release_check`. -/
def usbkbReleaseCheck (reads : Reads) (now : UInt32) (s : UsbKb) : UsbKb :=
  if s.usbkbNotReleased.any && now - s.usbkbDataReportTime > usbKeyboardReleaseTimeout * 16 then
    s.usbkbReleaseKeys reads
  else s

/-- `usbkb_report_normal_key`. -/
def usbkbReportNormalKey (read : Bool) (ctrlKey : UInt8) (keys : List UInt8) (s : UsbKb) : UsbKb :=
  if keys ≠ [] || ctrlKey ≠ 0 then
    let (s, sent) := s.usbkbHidReportNormal read ⟨ctrlKey, normalKeycode keys⟩
    if sent then { s with usbkbNotReleased := { s.usbkbNotReleased with normal := true } } else s
  else s.usbkbReleaseNormalKey read

/-- `usbkb_report_sys_key`. -/
def usbkbReportSysKey (read : Bool) (extKey : UInt8) (s : UsbKb) : UsbKb :=
  if extKey ≥ vkExtStart && extKey < vkSysEnd then
    let (s, sent) :=
      s.usbmouseHidReport read ⟨usbHidKbSys, [vkSysMap.getD (extKey - vkExtStart).toNat 0]⟩
    if sent then { s with usbkbNotReleased := { s.usbkbNotReleased with sys := true } } else s
  else s.usbkbReleaseSysKey read

/-- `usbkb_report_media_key`. -/
def usbkbReportMediaKey (read : Bool) (extKey : UInt8) (s : UsbKb) : UsbKb :=
  if extKey ≥ vkSysEnd && extKey < vkExtEnd then
    let val := vkMediaMap.getD (extKey - vkSysEnd).toNat (0, 0)
    let (s, sent) := s.usbmouseHidReport read ⟨usbHidKbMedia, [val.1, val.2, 0, 0]⟩
    if sent then { s with usbkbNotReleased := { s.usbkbNotReleased with media := true } } else s
  else s.usbkbReleaseMediaKey read

/-- `usbkb_report_consumer_key`. -/
def usbkbReportConsumerKey (read : Bool) (now : UInt32) (consumerKey : UInt16) (s : UsbKb) :
    UsbKb :=
  let s :=
    if consumerKey ≠ 0 then
      let (s, sent) := s.usbmouseHidReport read
        ⟨usbHidKbMedia, [consumerKey.toUInt8, (consumerKey >>> 8).toUInt8, 0, 0]⟩
      if sent then { s with usbkbNotReleased := { s.usbkbNotReleased with media := true } } else s
    else s.usbkbReleaseMediaKey read
  { s with usbkbDataReportTime := now }

/-- `usbkb_hid_report`. -/
def usbkbHidReport (reads : Reads) (now : UInt32) (data : KbData) (s : UsbKb) : UsbKb :=
  if data.cnt.toNat > keyboardReportKeyMax then s
  else
    let s := { s with released := !data.pressed }
    let same := kbIsDataSame s.lastData data
    if data.pressed && same && s.usbkbNotReleased.any then { s with usbkbDataReportTime := now }
    else
      let s := if data.pressed && !same then { s with lastData := data } else s
      let s := s.usbkbReportNormalKey reads.keyboard data.ctrlKey data.keys.1
      let s := s.usbkbReportSysKey reads.sys data.keys.2
      let s := s.usbkbReportMediaKey reads.mouse data.keys.2
      { s with usbkbDataReportTime := now }

/-- `usb_hid_report_fifo_proc`. -/
def usbHidReportFifoProc (reads : Reads) (s : UsbKb) : UsbKb :=
  if s.usbFfRptr = s.usbFfWptr then s
  else
    match s.usbFifo (s.usbFfRptr &&& 3).toNat with
    | .kb r =>
      if s.keyboardBusy && !reads.keyboard then s
      else
        let s := (s.usbkbHidReportNormal reads.keyboard r).1
        { s with usbFfRptr := s.usbFfRptr + 1 }
    | .mouse r =>
      if s.mouseBusy && !reads.mouse then s
      else
        let s := (s.usbmouseHidReport reads.mouse r).1
        { s with usbFfRptr := s.usbFfRptr + 1 }

/-- What happens to the keyboard. -/
inductive Event
  /-- A report is passed to `usbkb_hid_report`. -/
  | report (reads : Reads) (now : UInt32) (data : KbData)
  /-- A key is passed to `usbkb_report_consumer_key`. -/
  | consumerKey (reads : Reads) (now : UInt32) (key : UInt16)
  /-- The mouse reports. -/
  | mouse (reads : Reads) (r : MouseReport)
  /-- `usbkb_release_check` is called. -/
  | releaseCheck (reads : Reads) (now : UInt32)
  /-- `usb_hid_report_fifo_proc` is called. -/
  | fifoProc (reads : Reads)

/-- One event. -/
def step (s : UsbKb) : Event → UsbKb
  | .report reads now data => s.usbkbHidReport reads now data
  | .consumerKey reads now key => s.usbkbReportConsumerKey reads.mouse now key
  | .mouse reads r => (s.usbmouseHidReport reads.mouse r).1
  | .releaseCheck reads now => s.usbkbReleaseCheck reads now
  | .fifoProc reads => s.usbHidReportFifoProc reads

/-! ### The FIFO as a queue -/

/-- `usb_fifo`, as a ring. -/
def ring (s : UsbKb) : RingBuffer UsbReport :=
  ⟨usbFifoNum, by decide, s.usbFifo, s.usbFfWptr.toNat, s.usbFfRptr.toNat⟩

/-- The reports in the FIFO, the oldest first. -/
def fifo (s : UsbKb) : List UsbReport := s.ring.waiting

/-- The reports of the keyboard endpoint among some reports. -/
def kbReports (l : List UsbReport) : List KbReport := l.filterMap UsbReport.kb?

end UsbKb

end TcBle.Application
