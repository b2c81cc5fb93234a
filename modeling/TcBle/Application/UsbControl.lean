import Mathlib.Algebra.Ring.Nat
import Mathlib.Tactic.Common

/-!
# The USB control endpoint

`application/usbstd/usb.c`: the interrupts of the control endpoint and what they are answered with,
with the requests of the audio units, `application/app/usbaud.c`.

## The model

The configuration is that of the dongle: a printer, audio with a microphone, a keyboard and a mouse,
custom reports with the access to registers, and no descriptors of a custom id or operating system.
The descriptors are tables, given by their bytes.

`g_response` is kept as the bytes from where it points on. The endpoint holds the bytes that were
written to it since its pointer was reset, and is answered with them or stalled. What is read from the
endpoint comes with the interrupt, and so does what is read from a register; what is written to one
is left out, as are the steps of the volumes. An interface number above the last one reads and writes
behind `usb_alt_intf`, which is taken to be memory of its own.
-/

namespace TcBle.Application

/-- A descriptor, or a report descriptor. -/
abbrev UsbDescBytes := {bytes : List UInt8 // bytes.length < 2 ^ 16}

/-- The descriptors. -/
structure UsbDesc where
  /-- `usbdesc_get_device`. -/
  device : UsbDescBytes
  /-- `usbdesc_get_configuration`. -/
  configuration : UsbDescBytes
  /-- `usbdesc_get_language`. -/
  language : UsbDescBytes
  /-- `usbdesc_get_vendor`. -/
  vendor : UsbDescBytes
  /-- `usbdesc_get_product`. -/
  product : UsbDescBytes
  /-- `usbdesc_get_serial`. -/
  serial : UsbDescBytes
  /-- `usbdesc_get_mouse`. -/
  mouse : UsbDescBytes
  /-- `usbdesc_get_keyboard`. -/
  keyboard : UsbDescBytes
  /-- `usbmouse_get_report_desc`. -/
  mouseReport : UsbDescBytes
  /-- `usbkb_get_report_desc`. -/
  keyboardReport : UsbDescBytes

/-- `USB_Request_Hdr_t`. -/
structure UsbRequest where
  /-- `RequestType`. -/
  requestType : UInt8
  /-- `Request`. -/
  request : UInt8
  /-- `Value`. -/
  value : UInt16
  /-- `Index`. -/
  index : UInt16
  /-- `Length`. -/
  length : UInt16
  deriving DecidableEq

/-- The low byte. -/
def lowByte (v : UInt16) : UInt8 := v.toUInt8

/-- The high byte. -/
def highByte (v : UInt16) : UInt8 := (v >>> 8).toUInt8

/-- `DTYPE_Device`. -/
def dtypeDevice : UInt8 := 1

/-- `DTYPE_Configuration`. -/
def dtypeConfiguration : UInt8 := 2

/-- `DTYPE_String`. -/
def dtypeString : UInt8 := 3

/-- `HID_DTYPE_HID`. -/
def hidDtypeHid : UInt8 := 0x21

/-- `HID_DTYPE_Report`. -/
def hidDtypeReport : UInt8 := 0x22

/-- `USB_INTF_KEYBOARD`. -/
def usbIntfKeyboard : UInt8 := 3

/-- `USB_INTF_MOUSE`. -/
def usbIntfMouse : UInt8 := 4

/-- `REQ_GetDescriptor`. -/
def reqGetDescriptor : UInt8 := 6

/-- `REQ_GetInterface`. -/
def reqGetInterface : UInt8 := 10

/-- `REQ_SetInterface`. -/
def reqSetInterface : UInt8 := 11

/-- `HID_REQ_GetReport`. -/
def hidReqGetReport : UInt8 := 1

/-- `HID_REQ_GetIdle`. -/
def hidReqGetIdle : UInt8 := 2

/-- `HID_REQ_GetProtocol`. -/
def hidReqGetProtocol : UInt8 := 3

/-- `HID_REQ_SetReport`. -/
def hidReqSetReport : UInt8 := 9

/-- `HID_REQ_SetIdle`. -/
def hidReqSetIdle : UInt8 := 10

/-- `HID_REQ_SetProtocol`. -/
def hidReqSetProtocol : UInt8 := 11

/-- `HID_REPORT_ITEM_Feature`. -/
def hidReportItemFeature : UInt8 := 2

/-- `HID_REPORT_CUSTOM`. -/
def hidReportCustom : UInt8 := 3

/-- `USB_SPEAKER_FEATURE_UNIT_ID`. -/
def usbSpeakerFeatureUnitId : UInt8 := 2

/-- `USB_MIC_FEATURE_UNIT_ID`. -/
def usbMicFeatureUnitId : UInt8 := 5

/-- `AUDIO_FEATURE_MUTE`. -/
def audioFeatureMute : UInt8 := 1

/-- `AUDIO_FEATURE_VOLUME`. -/
def audioFeatureVolume : UInt8 := 2

/-- `AUDIO_EPCONTROL_SamplingFreq`. -/
def audioEpcontrolSamplingFreq : UInt8 := 1

/-- `AUDIO_REQ_GetCurrent`. -/
def audioReqGetCurrent : UInt8 := 0x81

/-- `AUDIO_REQ_GetMinimum`. -/
def audioReqGetMinimum : UInt8 := 0x82

/-- `AUDIO_REQ_GetMaximum`. -/
def audioReqGetMaximum : UInt8 := 0x83

/-- `AUDIO_REQ_GetResolution`. -/
def audioReqGetResolution : UInt8 := 0x84

/-- The bytes of `MIC_SAMPLE_RATE`, which is 16000. -/
def micSampleRate : List UInt8 := [0x80, 0x3E, 0x00]

/-- The two bytes that `usbhw_write_ctrl_ep_u16` writes. -/
def u16Bytes (v : UInt16) : List UInt8 := [lowByte v, highByte v]

/-- `mic_setting` or `speaker_setting`. -/
structure AudioSetting where
  /-- `vol_cur`. -/
  volCur : UInt16
  /-- `mute`. -/
  mute : UInt8

/-- The limits of a volume. -/
structure VolumeRange where
  /-- `MIC_VOL_MIN` or `SPEAKER_VOL_MIN`. -/
  volMin : UInt16
  /-- `MIC_VOL_MAX` or `SPEAKER_VOL_MAX`. -/
  volMax : UInt16
  /-- `MIC_VOL_RES` or `SPEAKER_VOL_RES`. -/
  volRes : UInt16

/-- The limits of the microphone. -/
def micVolume : VolumeRange := ⟨0x0000, 0x1e00, 0x0180⟩

/-- The limits of the speaker. -/
def speakerVolume : VolumeRange := ⟨0xa000, 0x0300, 0x0180⟩

/-- The state of the control endpoint and of what it is asked for. -/
structure UsbControl where
  /-- `control_request`. -/
  controlRequest : UsbRequest
  /-- The bytes from `g_response` on. -/
  gResponse : List UInt8
  /-- `g_response_len`. -/
  gResponseLen : UInt16
  /-- `g_stall`. -/
  gStall : Bool
  /-- `usb_mouse_report_proto`. -/
  usbMouseReportProto : UInt8
  /-- `g_rate`. -/
  gRate : UInt8
  /-- `usb_alt_intf`. -/
  usbAltIntf : ℕ → UInt8
  /-- `host_keyboard_status`. -/
  hostKeyboardStatus : UInt8
  /-- `host_cmd`. -/
  hostCmd : List UInt8
  /-- `host_cmd_pairing_ok`. -/
  hostCmdPairingOk : UInt8
  /-- `custom_reg_cmd`. -/
  customRegCmd : Bool
  /-- `custom_read_dat`. -/
  customReadDat : UInt32
  /-- `mic_setting`. -/
  micSetting : AudioSetting
  /-- `speaker_setting`. -/
  speakerSetting : AudioSetting
  /-- The bytes that were written to the endpoint. -/
  packet : List UInt8
  /-- The endpoint is stalled. -/
  stalled : Bool

/-- What is read from the hardware in an interrupt. -/
structure UsbRead where
  /-- The bytes of the endpoint. -/
  ep : List UInt8
  /-- The word of the core registers. -/
  regWord : UInt32
  /-- The analog register. -/
  analog : UInt8

/-- The byte with a number that is read from the endpoint. -/
def UsbRead.byte (r : UsbRead) (i : ℕ) : UInt8 := r.ep.getD i 0

/-- `usbhw_read_ctrl_ep_u16`, at the start of the endpoint. -/
def UsbRead.u16 (r : UsbRead) : UInt16 := (r.byte 1).toUInt16 <<< 8 ||| (r.byte 0).toUInt16

namespace UsbControl

/-- The state after a start. -/
def boot : UsbControl where
  controlRequest := ⟨0, 0, 0, 0, 0⟩
  gResponse := []
  gResponseLen := 0
  gStall := false
  usbMouseReportProto := 0
  gRate := 0
  usbAltIntf _ := 0
  hostKeyboardStatus := 0
  hostCmd := List.replicate 8 0
  hostCmdPairingOk := 0
  customRegCmd := false
  customReadDat := 0
  micSetting := ⟨0x1800, 0⟩
  speakerSetting := ⟨0, 0⟩
  packet := []
  stalled := false

/-- `usbhw_reset_ctrl_ep_ptr`. -/
def resetPtr (s : UsbControl) : UsbControl := { s with packet := [] }

/-- `usbhw_write_ctrl_ep_data`, for some bytes. -/
def write (bytes : List UInt8) (s : UsbControl) : UsbControl :=
  { s with packet := s.packet ++ bytes }

/-- `g_response` and `g_response_len` are set to a descriptor. -/
def respond (d : UsbDescBytes) (s : UsbControl) : UsbControl :=
  { s with gResponse := d.1, gResponseLen := UInt16.ofNat d.1.length }

/-- `g_stall = 1`. -/
def stall (s : UsbControl) : UsbControl := { s with gStall := true }

/-- `g_response_len` is not above what is asked for. -/
def limit (s : UsbControl) : UsbControl :=
  if s.controlRequest.length < s.gResponseLen then { s with gResponseLen := s.controlRequest.length }
  else s

/-- `usb_send_response`. -/
def usbSendResponse (s : UsbControl) : UsbControl :=
  let n := if s.gResponseLen < 8 then s.gResponseLen else 8
  let s := { s with gResponseLen := s.gResponseLen - n }
  let s := s.resetPtr
  { s with packet := s.gResponse.take n.toNat, gResponse := s.gResponse.drop n.toNat }

/-- `usb_prepare_desc_data`. -/
def usbPrepareDescData (desc : UsbDesc) (s : UsbControl) : UsbControl :=
  let valueL := lowByte s.controlRequest.value
  let valueH := highByte s.controlRequest.value
  let s := { s with gResponse := [], gResponseLen := 0 }
  let s :=
    if valueH = dtypeDevice then s.respond desc.device
    else if valueH = dtypeConfiguration then s.respond desc.configuration
    else if valueH = dtypeString then
      if valueL = 0 then s.respond desc.language
      else if valueL = 1 then s.respond desc.vendor
      else if valueL = 2 then s.respond desc.product
      else if valueL = 3 then s.respond desc.serial
      else s.stall
    else s.stall
  s.limit

/-- `usb_handle_std_intf_req`. -/
def usbHandleStdIntfReq (desc : UsbDesc) (s : UsbControl) : UsbControl :=
  let valueH := highByte s.controlRequest.value
  let indexL := lowByte s.controlRequest.index
  let s :=
    if valueH = hidDtypeHid then
      let s := if indexL = usbIntfMouse then s.respond desc.mouse else s
      if indexL = usbIntfKeyboard then s.respond desc.keyboard else s
    else if valueH = hidDtypeReport then
      if indexL = usbIntfKeyboard then s.respond desc.keyboardReport
      else if indexL = usbIntfMouse then s.respond desc.mouseReport
      else s.stall
    -- a physical descriptor, and any other one
    else s
  s.limit

/-- `usbaud_handle_get_mic_cmd` and `usbaud_handle_get_speaker_cmd`: what is written, or `none` where
they fail. -/
def usbaudHandleGetCmd (range : VolumeRange) (a : AudioSetting) (req type : UInt8) :
    Option (List UInt8) :=
  if type = audioFeatureMute then some [a.mute]
  else if type = audioFeatureVolume then
    if req = audioReqGetCurrent then some (u16Bytes a.volCur)
    else if req = audioReqGetMinimum then some (u16Bytes range.volMin)
    else if req = audioReqGetMaximum then some (u16Bytes range.volMax)
    else if req = audioReqGetResolution then some (u16Bytes range.volRes)
    else none
  else none

/-- `usbaud_handle_set_mic_cmd` and `usbaud_handle_set_speaker_cmd`. -/
def usbaudHandleSetCmd (r : UsbRead) (type : UInt8) (a : AudioSetting) : AudioSetting :=
  if type = audioFeatureMute then { a with mute := r.byte 0 }
  else if type = audioFeatureVolume then { a with volCur := r.u16 }
  else a

/-- A custom report with a command for the registers. -/
def customReport (r : UsbRead) (s : UsbControl) : UsbControl :=
  let s := { s with
    hostCmd := (List.range 8).map r.byte
    customRegCmd := (r.byte 1 &&& 0xf0) = 0xc0 }
  if s.customRegCmd then
    let s := { s with hostCmd := s.hostCmd.set 0 0 }
    let len := r.byte 1 &&& 3
    if r.byte 1 &&& 0x0c = 0 then
      if len = 0 then { s with customReadDat := r.regWord } else s
    else if len = 0 then { s with customReadDat := r.analog.toUInt32 } else s
  else s

/-- `usb_handle_out_class_intf_req`. -/
def usbHandleOutClassIntfReq (dataRequest : Bool) (r : UsbRead) (s : UsbControl) : UsbControl :=
  let property := s.controlRequest.request
  let valueL := lowByte s.controlRequest.value
  let valueH := highByte s.controlRequest.value
  let entity := highByte s.controlRequest.index
  let s :=
    if property = hidReqSetReport then
      -- `HID_REPORT_ITEM_In` and `HID_REPORT_ITEM_Out`
      if valueH < hidReportItemFeature then s
      else if valueH = hidReportItemFeature then
        if dataRequest then { s with hostKeyboardStatus := r.byte 0 } else s
      else if valueH = hidReportCustom then if dataRequest then s.customReport r else s
      else s.stall
    else if property = hidReqSetIdle then { s with gRate := valueH }
    else if property = hidReqSetProtocol then { s with usbMouseReportProto := valueL }
    else s.stall
  if s.gStall then
    let s := { s with gStall := false }
    if entity = usbSpeakerFeatureUnitId then
      { s with speakerSetting := usbaudHandleSetCmd r valueH s.speakerSetting }
    else if entity = usbMicFeatureUnitId then
      { s with micSetting := usbaudHandleSetCmd r valueH s.micSetting }
    else s.stall
  else s

/-- The custom report. -/
def customBytes (s : UsbControl) : List UInt8 :=
  if s.customRegCmd then
    [s.customReadDat.toUInt8, (s.customReadDat >>> 8).toUInt8, (s.customReadDat >>> 16).toUInt8,
      (s.customReadDat >>> 24).toUInt8, 0x10, 0x20, 0x40, 0x80]
  else
    [0x04, 0x58, 0x00, if s.hostCmdPairingOk ≠ 0 then 0xa1 else 0x00, 0x00, 0x00, 0x08, 0x00]

/-- The reports, in `usb_handle_in_class_intf_req`. -/
def inClassReport (s : UsbControl) : UsbControl :=
  let property := s.controlRequest.request
  if property = 0 then s.write [0x00]
  else if property = hidReqGetReport then
    if s.controlRequest.value = 0x0305 then s.write s.customBytes else s
  else if property = hidReqGetIdle then s.write [s.gRate]
  else if property = hidReqGetProtocol then s.write [s.usbMouseReportProto]
  else s.stall

/-- What an audio unit writes, or a stall. -/
def writeOrStall (bytes : Option (List UInt8)) (s : UsbControl) : UsbControl :=
  match bytes with
  | some bytes => s.write bytes
  | none => s.stall

/-- The audio units, in `usb_handle_in_class_intf_req`. -/
def inClassAudio (s : UsbControl) : UsbControl :=
  let property := s.controlRequest.request
  let valueH := highByte s.controlRequest.value
  let entity := highByte s.controlRequest.index
  if entity = usbSpeakerFeatureUnitId then
    s.writeOrStall (usbaudHandleGetCmd speakerVolume s.speakerSetting property valueH)
  else if entity = usbMicFeatureUnitId then
    s.writeOrStall (usbaudHandleGetCmd micVolume s.micSetting property valueH)
  else s.stall

/-- `usb_handle_in_class_intf_req`. -/
def usbHandleInClassIntfReq (s : UsbControl) : UsbControl :=
  let s := s.inClassReport
  if s.gStall then
    let s := { s with gStall := false }
    s.inClassAudio
  else s

/-- `usb_handle_in_class_endp_req`. -/
def usbHandleInClassEndpReq (s : UsbControl) : UsbControl :=
  if highByte s.controlRequest.value = audioEpcontrolSamplingFreq then
    if s.controlRequest.request = audioReqGetCurrent then s.write micSampleRate else s
  else s

/-- `usb_handle_set_intf`. -/
def usbHandleSetIntf (s : UsbControl) : UsbControl :=
  { s with
    usbAltIntf := Function.update s.usbAltIntf (lowByte s.controlRequest.index &&& 7).toNat
      (lowByte s.controlRequest.value) }

/-- `usb_handle_get_intf`. -/
def usbHandleGetIntf (s : UsbControl) : UsbControl :=
  s.write [s.usbAltIntf (lowByte s.controlRequest.index &&& 7).toNat]

/-- `usb_handle_request`. -/
def usbHandleRequest (desc : UsbDesc) (dataRequest : Bool) (r : UsbRead) (s : UsbControl) :
    UsbControl :=
  let requestType := s.controlRequest.requestType
  let request := s.controlRequest.request
  let s := s.resetPtr
  -- from the device, standard, for the device
  if requestType = 0x80 then
    if request = reqGetDescriptor then
      let s := if dataRequest then s else s.usbPrepareDescData desc
      s.usbSendResponse
    else s
  -- from the device, standard, for an interface
  else if requestType = 0x81 then
    if request = reqGetDescriptor then
      let s := if dataRequest then s else s.usbHandleStdIntfReq desc
      s.usbSendResponse
    else if request = reqGetInterface then s.usbHandleGetIntf
    else s
  -- to the device, of a class, for an interface
  else if requestType = 0x21 then s.usbHandleOutClassIntfReq dataRequest r
  -- to the device, of a class, for an endpoint: nothing is done
  else if requestType = 0x22 then s
  -- from the device, of a class, for an interface
  else if requestType = 0xA1 then s.usbHandleInClassIntfReq
  -- from the device, of a class, for an endpoint
  else if requestType = 0xA2 then s.usbHandleInClassEndpReq
  -- to the device, standard, for an interface
  else if requestType = 0x01 then
    if request = reqSetInterface then s.usbHandleSetIntf else s
  else s.stall

/-- `usb_handle_ctl_ep_setup`. -/
def usbHandleCtlEpSetup (desc : UsbDesc) (controlRequest : UsbRequest) (r : UsbRead)
    (s : UsbControl) : UsbControl :=
  let s := { s with controlRequest := controlRequest, gStall := false }
  let s := s.usbHandleRequest desc false r
  { s with stalled := s.gStall }

/-- `usb_handle_ctl_ep_data`. -/
def usbHandleCtlEpData (desc : UsbDesc) (r : UsbRead) (s : UsbControl) : UsbControl :=
  let s := { s with gStall := false }
  let s := s.usbHandleRequest desc true r
  { s with stalled := s.gStall }

end UsbControl

end TcBle.Application
