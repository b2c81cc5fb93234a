import Mathlib
import TcBle.Vendor.AppLed
import TcBle.Vendor.AppVendorImage
import TcBle.Vendor.ImageStorage

/-!
# The control point of the electronic shelf label

`app_esl_handleControlPointCmds` of `eslp_esl_demo/app_esl.c` with all its commands, and the main loop
that later executes what they asked for.

## The model

A command is the memory it is parsed from, so its indices are whatever bytes came. The tables are
the memory from their start on, longer than the tables are; every access to an entry is recorded in
`touched`. Buffers on the stack hold anything when a round of the loop begins. The sizes of commands
and responses are given by the library, as are the random numbers. The connection, the timer that
ends it and what is drawn are left out.
-/

namespace TcBle.Vendor

open TcBle.Foundation.Run TcBle.HciTransport

/-! ### The tables -/

/-- `ESLS_LEDS_SUPPORTED`. -/
def ESLS_LEDS_SUPPORTED : ℕ := 3

/-- `ESLS_DISPLAYS_SUPPORTED`. -/
def ESLS_DISPLAYS_SUPPORTED : ℕ := 1

/-- `APP_DISPLAY_MAX_DISPLAYS`. -/
def APP_DISPLAY_MAX_DISPLAYS : ℕ := 4

/-- `APP_VENDOR_IMAGE_SIZE`. -/
def APP_VENDOR_IMAGE_SIZE : ℕ := 4736

/-- The tables that are indexed by LEDs, displays and images. -/
inductive EslTable where
  /-- `ledControlData`. -/
  | ledControlData
  /-- `displayControlData`. -/
  | displayControlData
  /-- `leds`. -/
  | leds
  /-- `ledInformation`. -/
  | ledInformation
  /-- `displays`. -/
  | displays
  /-- The `entries` of the image storage, and `image_data`. -/
  | images
  deriving DecidableEq

/-- What the application is built with and has registered. -/
structure EslConfig where
  /-- The image storage. -/
  images : ImageConfig
  /-- `app_vendor_image_idx`. -/
  vendorImageIdx : UInt8
  /-- `image_size` of the displays that are active. -/
  displays : ℕ → Option UInt16
  /-- The LEDs with `APP_LED_TYPE_SRGB`. -/
  srgb : ℕ → Bool
  /-- `SYSTEM_TIMER_TICK_1US`. -/
  tick1us : UInt32

/-- How many entries the table has. -/
def EslConfig.size (cfg : EslConfig) : EslTable → ℕ
  | .ledControlData => ESLS_LEDS_SUPPORTED
  | .displayControlData => ESLS_DISPLAYS_SUPPORTED
  | .leds => APP_LED_MAX_LEDS
  | .ledInformation => ESLS_LEDS_SUPPORTED
  | .displays => APP_DISPLAY_MAX_DISPLAYS
  | .images => cfg.images.maxImages

/-- The sizes that the library gives to commands and responses. -/
structure EslTlv where
  /-- `blc_esl_getCommandSize`, by the opcode. -/
  commandSize : UInt8 → ℕ
  /-- `blc_esl_getResponseSize`, by the opcode. -/
  responseSize : UInt8 → ℕ
  /-- A response has the parameters that the length nibble of its opcode says. -/
  responseSize_eq : ∀ opcode, responseSize opcode = 1 + responseParameters opcode

/-- The state of the label. -/
structure EslLabel where
  /-- `currentTime`. -/
  currentTime : CurrentTime
  /-- Whether `state` is `BLC_ESLS_STATE_SYNCHRONIZED`. -/
  synchronized : Bool
  /-- `pendingUnassociate`. -/
  pendingUnassociate : Bool
  /-- `ledControlData`, and the memory after it. -/
  ledControlData : ℕ → LedControlData
  /-- `displayControlData`, and the memory after it. -/
  displayControlData : ℕ → DisplayControl
  /-- `leds`. -/
  leds : Leds
  /-- The image storage. -/
  storage : ImageStorage
  /-- The arrays of the vendor image. -/
  vendor : VendorStore
  /-- `counter` of the first sensor. -/
  counter : UInt32
  /-- What `generateRandomNum` will give. -/
  random : Mem
  /-- The entries that were accessed. -/
  touched : List (EslTable × ℕ)

/-- `blc_eslss_ControlPointCommandOpcode_t`, as far as the `switch` has it. -/
inductive EslOpcode where
  /-- `PING`. -/
  | ping
  /-- `VENDOR_0` to `VENDOR_F`. -/
  | vendor
  /-- `SERVICE_RESET`. -/
  | serviceReset
  /-- `UNASSOCIATE_FROM_AP`. -/
  | unassociateFromAp
  /-- `FACTORY_RESET`. -/
  | factoryReset
  /-- `UPDATE_COMPLETE`. -/
  | updateComplete
  /-- `READ_SENSOR_DATA`. -/
  | readSensorData
  /-- `DISPLAY_IMAGE`. -/
  | displayImage
  /-- `DISPLAY_TIMED_IMAGE`. -/
  | displayTimedImage
  /-- `LED_CONTROL`. -/
  | ledControl
  /-- `LED_TIMED_CONTROL`. -/
  | ledTimedControl
  /-- No case. -/
  | other
  deriving DecidableEq

/-- The enumerator of a value. -/
def EslOpcode.ofByte (opcode : UInt8) : EslOpcode :=
  if opcode &&& 0x0F = 0x0F then .vendor
  else
    match opcode.toNat with
    | 0x00 => .ping
    | 0x01 => .unassociateFromAp
    | 0x02 => .serviceReset
    | 0x03 => .factoryReset
    | 0x04 => .updateComplete
    | 0x10 => .readSensorData
    | 0x20 => .displayImage
    | 0x60 => .displayTimedImage
    | 0xB0 => .ledControl
    | 0xF0 => .ledTimedControl
    | _ => .other

/-- One round of the loop over the commands: the command, and what the round finds on the stack and
the clock. -/
structure EslRound where
  /-- The memory at `command`. -/
  command : Mem
  /-- `rsp`, before it is written. -/
  rsp : Mem
  /-- `val`, before it is written. -/
  val : Mem
  /-- The first reading of the clock by `app_led_command_apply`, -/
  onOffTime : UInt32
  /-- and the second. -/
  repeatTime : UInt32

namespace EslRound

variable (c : EslRound)

/-- `opcode`. -/
def opcode : UInt8 := c.command 0

/-- `eslId`. -/
def eslId : UInt8 := c.command 1

/-- `sensorId`. -/
def sensorId : UInt8 := c.command 2

/-- `displayId`. -/
def displayId : UInt8 := c.command 2

/-- `imageId`. -/
def imageId : UInt8 := c.command 3

/-- `absoluteTime` of `blc_eslss_controlPointCommandDisplayTimedImage_t`. -/
def displayTime : UInt32 := UInt32.ofNat (u32At (adv c.command 4))

/-- `ledId`. -/
def ledId : UInt8 := c.command 2

/-- The fields of an LED command. -/
def fields : LedFields where
  colorRed := BitVec.ofNat 2 (c.command 3).toNat
  colorGreen := BitVec.ofNat 2 ((c.command 3).toNat / 2 ^ 2)
  colorBlue := BitVec.ofNat 2 ((c.command 3).toNat / 2 ^ 4)
  brightness := BitVec.ofNat 2 ((c.command 3).toNat / 2 ^ 6)
  flashingPattern := #v[c.command 4, c.command 5, c.command 6, c.command 7, c.command 8,
    c.command 9, c.command 10]
  repeatType := BitVec.ofNat 1 (u16At (adv c.command 11))
  repeatDuration := BitVec.ofNat 15 (u16At (adv c.command 11) / 2)

/-- `absoluteTime` of `blc_eslss_controlPointCommandLedTimedControl_t`. -/
def ledTime : UInt32 := UInt32.ofNat (u32At (adv c.command 13))

/-- `blc_eslss_controlPointCommandVendorSpecific_t`. -/
def vendorCommand : VendorCommand := ⟨c.opcode, c.eslId, adv c.command 2⟩

end EslRound

/-- What the `switch` comes to: the label, the bytes written to `rsp`, and `rspLen`. -/
structure EslAnswer where
  /-- The label. -/
  label : EslLabel
  /-- What is written to `rsp`, from its first byte on. -/
  written : List UInt8
  /-- `rspLen`. -/
  rspLen : ℕ

/-- No response. -/
def EslLabel.silent (s : EslLabel) : EslAnswer := ⟨s, [], 0⟩

/-- `written`, of `rspLen` bytes, unless the command is for all labels. -/
def EslLabel.answer (s : EslLabel) (eslId : UInt8) (written : List UInt8) (rspLen : ℕ) :
    EslAnswer :=
  if eslId ≠ eslIdBroadcast then ⟨s, written, rspLen⟩ else s.silent

namespace EslLabel

/-- The entries are accessed. -/
def touch (s : EslLabel) (entries : List (EslTable × ℕ)) : EslLabel :=
  { s with touched := s.touched ++ entries }

/-- What a function accesses that checks the index. -/
def checked (t : EslTable) (size : ℕ) (i : UInt8) : List (EslTable × ℕ) :=
  if i.toNat < size then [(t, i.toNat)] else []

/-! ### The LEDs -/

/-- `app_led_is_active`, without its access. -/
def ledIsActive (s : EslLabel) (i : ℕ) : Bool :=
  if h : i < APP_LED_MAX_LEDS then (s.leds ⟨i, h⟩).inUse && (s.leds ⟨i, h⟩).commandActive
  else false

/-- `app_led_get_num_leds`. -/
def numLeds (s : EslLabel) : ℕ := ((List.finRange APP_LED_MAX_LEDS).filter (s.leds · |>.inUse)).length

/-- What `app_led_get_num_leds` accesses. -/
def allLeds : List (EslTable × ℕ) := (List.range APP_LED_MAX_LEDS).map (.leds, ·)

/-- `app_esl_leds_fill_led_information`. -/
def fillLedInformation (s : EslLabel) : EslLabel :=
  s.touch (allLeds ++ (List.range (min s.numLeds ESLS_LEDS_SUPPORTED)).flatMap fun i =>
    [(.leds, i), (.ledInformation, i)])

variable (cfg : EslConfig)

/-- Whether `app_led_get_info` says that the LED has `APP_LED_TYPE_SRGB`. -/
def ledIsSrgb (s : EslLabel) (ledId : UInt8) : Bool :=
  if h : ledId.toNat < APP_LED_MAX_LEDS then
    (s.leds ⟨ledId.toNat, h⟩).inUse && cfg.srgb ledId.toNat
  else false

/-- `app_led_command_apply`, and the update of the information on the LEDs after it. -/
def ledCommandApply (s : EslLabel) (ledId : UInt8) (command : AppLedCommand)
    (onOffTime repeatTime : UInt32) : EslLabel :=
  let s := { s with leds := (s.leds.commandApply ledId command onOffTime repeatTime).1 }
  let s := s.touch (checked .leds APP_LED_MAX_LEDS ledId ++ checked .leds APP_LED_MAX_LEDS ledId)
  if s.ledIsSrgb cfg ledId then s.fillLedInformation.touch allLeds else s

/-! ### Displays and images -/

/-- What `app_image_storage_get_image_length` accesses. -/
def imageEntry (s : EslLabel) (imageIdx : ℕ) : List (EslTable × ℕ) :=
  if (s.storage.getImageLength imageIdx).isSome then [(.images, imageIdx)] else []

/-- `imageLength`, of the vendor image or a stored one. -/
def imageLength (s : EslLabel) (imageId : UInt8) : ℕ :=
  if imageId = cfg.vendorImageIdx then APP_VENDOR_IMAGE_SIZE
  else (s.storage.getImageLength imageId.toNat).getD 0

end EslLabel

/-- `app_display_get_info`, of the size of an image. -/
def EslConfig.displayImageSize (cfg : EslConfig) (displayId : UInt8) : Option UInt16 :=
  if displayId.toNat < APP_DISPLAY_MAX_DISPLAYS then cfg.displays displayId.toNat else none

/-- `expectedImageLength`. -/
def EslConfig.expectedImageLength (cfg : EslConfig) (displayId : UInt8) : ℕ :=
  ((cfg.displayImageSize displayId).getD 0).toNat

/-! ### The commands -/

/-- `BLC_ESLSS_ERROR_CODE_IMAGE_NOT_AVAILABLE`. -/
def BLC_ESLSS_ERROR_CODE_IMAGE_NOT_AVAILABLE : UInt8 := 0x05

/-- `BLC_ESLSS_ERROR_CODE_CAPACITY_LIMIT`. -/
def BLC_ESLSS_ERROR_CODE_CAPACITY_LIMIT : UInt8 := 0x07

/-- `BLC_ESLSS_ERROR_CODE_QUEUE_FULL`. -/
def BLC_ESLSS_ERROR_CODE_QUEUE_FULL : UInt8 := 0x0B

/-- `BLC_ESLSS_ERROR_CODE_IMPLAUSIBLE_ABSOLUTE_TIME`. -/
def BLC_ESLSS_ERROR_CODE_IMPLAUSIBLE_ABSOLUTE_TIME : UInt8 := 0x0C

/-- `blc_eslss_controlPointResponseError_t`. -/
def errorRsp (error : UInt8) : List UInt8 := [BLC_ESLSS_CONTROL_POINT_RESPONSE_OPCODE_ERROR, error]

/-- `blc_eslss_controlPointResponseLedState_t`. -/
def ledStateRsp (ledId : UInt8) : List UInt8 := [0x01, ledId]

/-- `blc_eslss_controlPointResponseDisplayState_t`. -/
def displayStateRsp (displayId imageId : UInt8) : List UInt8 := [0x11, displayId, imageId]

/-- `BLC_ESLSS_SENSOR_VALUE_OPCODE`, as it is stored in the `u8`. -/
def sensorValueOpcode (length : UInt8) : UInt8 := UInt8.ofNat (0x0E ||| (length.toNat <<< 4))

namespace EslLabel

variable (cfg : EslConfig) (lib : EslTlv) (s : EslLabel) (c : EslRound)

/-- The entries that `updateBasicState` accesses. -/
def stateEntries : List (EslTable × ℕ) :=
  ((List.range ESLS_LEDS_SUPPORTED).flatMap fun i => [(.leds, i), (.ledControlData, i)]) ++
    (List.range ESLS_DISPLAYS_SUPPORTED).map (.displayControlData, ·)

/-- The byte of the flags that `updateBasicState` sets, its other bits as they were in `rsp`. -/
def basicStateFlags : UInt8 :=
  let leds := List.range ESLS_LEDS_SUPPORTED
  let displays := List.range ESLS_DISPLAYS_SUPPORTED
  (c.rsp 1 &&& 0xE0) ||| (if s.synchronized then 0x02 else 0) |||
    (if leds.any fun i => s.ledIsActive i then 0x04 else 0) |||
    (if leds.any fun i => (s.ledControlData i).pendingUpdate then 0x08 else 0) |||
    (if displays.any fun i => (s.displayControlData i).pendingUpdate then 0x10 else 0)

/-- `blc_eslss_controlPointResponseBasicState_t`: its five bits of a `u16` share the two bytes with
the opcode. -/
def basicStateRsp : List UInt8 := [0x10, s.basicStateFlags c]

/-- `PING` and `SERVICE_RESET`. -/
def ping : EslAnswer :=
  if c.eslId ≠ eslIdBroadcast then ⟨s.touch stateEntries, s.basicStateRsp c, 2⟩ else s.silent

/-- `UNASSOCIATE_FROM_AP`, which is answered to a broadcast, too. -/
def unassociate : EslAnswer :=
  ⟨{ s.touch stateEntries with pendingUnassociate := true }, s.basicStateRsp c, 2⟩

/-- `FACTORY_RESET`. -/
def factoryReset : EslAnswer := { s with pendingUnassociate := true }.silent

/-- The vendor-specific commands. The size of the response is that of the opcode in `rsp`. -/
def vendorSpecific : EslAnswer :=
  let r := handleVendorSpecific s.vendor c.vendorCommand
  let written := r.2.getD []
  ⟨{ s with vendor := r.1 }, written,
    if c.eslId ≠ eslIdBroadcast then lib.responseSize (memcpy c.rsp 0 written 0) else 0⟩

/-- `app_sensor_read`: the label, the length, and `val`. The two sensors are a counter and random
bytes. -/
def sensorRead (sensorId length : UInt8) (val : Mem) : EslLabel × UInt8 × Mem :=
  if sensorId = 0 then
    let buf := [s.counter.toUInt8, (s.counter >>> 8).toUInt8, (s.counter >>> 16).toUInt8,
      (s.counter >>> 24).toUInt8]
    let length := if length < 4 then length else 4
    ({ s with counter := s.counter + 1 }, length, memcpy val 0 (buf.take length.toNat))
  else if sensorId = 1 then
    let randomLen := UInt8.ofNat ((s.random 0).toNat % (length.toNat + 1))
    ({ s with random := adv s.random (1 + randomLen.toNat) }, randomLen,
      memcpy val 0 (bytes (adv s.random 1) randomLen.toNat))
  else (s, length, val)

/-- `READ_SENSOR_DATA`. -/
def readSensorData : EslAnswer :=
  if c.eslId ≠ eslIdBroadcast then
    let r := s.sensorRead c.sensorId 15 c.val
    let opcode := sensorValueOpcode r.2.1
    ⟨r.1, opcode :: c.sensorId :: bytes r.2.2 r.2.1.toNat, lib.responseSize opcode⟩
  else s.silent

/-- What both display commands access before they compare the lengths. -/
def lengthEntries : List (EslTable × ℕ) :=
  s.imageEntry c.imageId.toNat ++ checked .displays APP_DISPLAY_MAX_DISPLAYS c.displayId

/-- `DISPLAY_IMAGE`. -/
def displayImage : EslAnswer :=
  let s' := s.touch (s.lengthEntries c)
  if s.imageLength cfg c.imageId ≠ cfg.expectedImageLength c.displayId then
    s'.answer c.eslId (errorRsp BLC_ESLSS_ERROR_CODE_IMAGE_NOT_AVAILABLE) (lib.responseSize 0x00)
  else
    let i := c.displayId.toNat
    let d := { s.displayControlData i with
      active := true, newImage := true, imageIdx := c.imageId }
    { s'.touch [(.displayControlData, i)] with
        displayControlData := Function.update s.displayControlData i d }.answer c.eslId
      (displayStateRsp c.displayId c.imageId) (lib.responseSize 0x11)

/-- `DISPLAY_TIMED_IMAGE`. -/
def displayTimedImage : EslAnswer :=
  let s' := s.touch (s.lengthEntries c)
  if s.imageLength cfg c.imageId ≠ cfg.expectedImageLength c.displayId then
    s'.answer c.eslId (errorRsp BLC_ESLSS_ERROR_CODE_IMAGE_NOT_AVAILABLE) (lib.responseSize 0x00)
  else
    let i := c.displayId.toNat
    let d := s.displayControlData i
    let s' := s'.touch [(.displayControlData, i)]
    if d.pendingUpdate && c.displayTime = 0 then
      { s' with
        displayControlData :=
          Function.update s.displayControlData i { d with pendingUpdate := true } }.answer c.eslId
        (displayStateRsp c.displayId c.imageId) (lib.responseSize 0x11)
    else if d.pendingUpdate && c.displayTime ≠ d.pendingUpdateAbsoluteTime then
      s'.answer c.eslId (errorRsp BLC_ESLSS_ERROR_CODE_QUEUE_FULL) (lib.responseSize 0x00)
    else if !s.currentTime.checkTimedCommand c.displayTime then
      s'.answer c.eslId (errorRsp BLC_ESLSS_ERROR_CODE_IMPLAUSIBLE_ABSOLUTE_TIME)
        (lib.responseSize 0x00)
    else
      let d := { d with
        pendingUpdate := true, pendingUpdateImageIdx := c.imageId
        pendingUpdateAbsoluteTime := c.displayTime }
      { s' with displayControlData := Function.update s.displayControlData i d }.answer c.eslId
        (displayStateRsp c.displayId c.imageId) (lib.responseSize 0x11)

/-- `LED_CONTROL`. -/
def ledControl : EslAnswer :=
  (s.ledCommandApply cfg c.ledId c.fields.appLedCommand c.onOffTime c.repeatTime).answer c.eslId
    (ledStateRsp c.ledId) 2

/-- `LED_TIMED_CONTROL`. -/
def ledTimedControl : EslAnswer :=
  let i := c.ledId.toNat
  let d := s.ledControlData i
  let s' := s.touch [(.ledControlData, i)]
  if d.pendingUpdate && c.ledTime = 0 then
    { s' with
      ledControlData :=
        Function.update s.ledControlData i { d with pendingUpdate := false } }.answer c.eslId
      (ledStateRsp c.ledId) 2
  else if d.pendingUpdate && c.ledTime ≠ d.scheduledCommandTime then
    s'.answer c.eslId (errorRsp BLC_ESLSS_ERROR_CODE_QUEUE_FULL) (lib.responseSize 0x00)
  else if !s.currentTime.checkTimedCommand c.ledTime then
    -- answered to a broadcast, too
    ⟨s', errorRsp BLC_ESLSS_ERROR_CODE_IMPLAUSIBLE_ABSOLUTE_TIME, lib.responseSize 0x00⟩
  else
    { s' with
      ledControlData := Function.update s.ledControlData i
        ⟨true, c.ledTime, c.fields.appLedCommand⟩ }.answer c.eslId
      (ledStateRsp c.ledId) (lib.responseSize 0x01)

/-- The `switch` over the opcode. -/
def command : EslAnswer :=
  match EslOpcode.ofByte c.opcode with
  | .ping => s.ping c
  | .vendor => s.vendorSpecific lib c
  | .serviceReset => s.ping c
  | .unassociateFromAp => s.unassociate c
  | .factoryReset => s.factoryReset
  | .updateComplete => s.silent
  | .readSensorData => s.readSensorData lib c
  | .displayImage => s.displayImage cfg lib c
  | .displayTimedImage => s.displayTimedImage cfg lib c
  | .ledControl => s.ledControl cfg c
  | .ledTimedControl => s.ledTimedControl lib c
  | .other => s.silent

end EslLabel

/-! ### The demo -/

/-- The library with sizes by the length nibble alone. -/
def EslTlv.nibble : EslTlv where
  commandSize opcode := 1 + responseParameters opcode
  responseSize opcode := 1 + responseParameters opcode
  responseSize_eq _ := rfl

/-- What the demo is built with: an image before the vendor image, a display and three LEDs, the
last of them an RGB one. -/
def EslConfig.demo : EslConfig where
  images := ⟨1, 4736, fun i => BitVec.ofNat 48 (0x100 + i), by decide, by decide⟩
  vendorImageIdx := 1
  displays i := if i = 0 then some 4736 else none
  srgb i := i = 2
  tick1us := 16

/-- The label of the demo after a start. -/
def EslLabel.boot : EslLabel where
  currentTime := ⟨false, 0, 0⟩
  synchronized := false
  pendingUnassociate := false
  ledControlData _ := ⟨false, 0, ⟨0, 0, 0, 0, .replicate 5 0, 0, 0, 0, 0⟩⟩
  displayControlData _ := ⟨false, false, false, 0, 0, 0⟩
  leds i := ⟨i.val < 3, false, ⟨0, 0, 0, 0, .replicate 5 0, 0, 0, 0, 0⟩, 0, 0, 0, [], []⟩
  storage := ImageStorage.boot EslConfig.demo.images (fun _ => 0) fun _ => 0
  vendor _ _ := 0
  counter := 0
  random _ := 0
  touched := []

/-! ### A packet -/

/-- The responses of a packet so far, and the label. -/
structure EslResponses where
  /-- The label. -/
  label : EslLabel
  /-- `rspLeft`. -/
  rspLeft : UInt8
  /-- `rspIndex`. -/
  rspIndex : UInt8
  /-- `rspBuf`, and the memory after it. -/
  rspBuf : Mem
  /-- `response - rspBuf`. -/
  used : ℕ

/-- The response does not fit next to the shortest ones for the commands to come. -/
def EslResponses.Full (r : EslResponses) (rspLen : ℕ) : Prop :=
  UInt32.ofNat maxEslPayloadSize - UInt32.ofNat r.used <
    UInt32.ofNat (rspLen + r.rspLeft.toNat * cmdRspMinLength)

instance (r : EslResponses) (rspLen : ℕ) : Decidable (r.Full rspLen) :=
  inferInstanceAs (Decidable (_ < _))

namespace EslResponses

variable (cfg : EslConfig) (lib : EslTlv)

/-- What is done with a response in `rsp`. -/
def add (r : EslResponses) (rsp : Mem) (rspLen : ℕ) : EslResponses :=
  let r := { r with rspLeft := r.rspLeft - 1, rspIndex := r.rspIndex + 1 }
  let full : Bool := r.Full rspLen
  let rsp := if full then memcpy rsp 0 (errorRsp BLC_ESLSS_ERROR_CODE_CAPACITY_LIMIT) else rsp
  let rspLen := if full then lib.responseSize 0x00 else rspLen
  { r with rspBuf := memcpy r.rspBuf r.used (bytes rsp rspLen), used := r.used + rspLen }

/-- One round of the loop over the commands. -/
def round (r : EslResponses) (c : EslRound) : EslResponses :=
  let a := r.label.command cfg lib c
  let r := { r with label := a.label }
  if a.rspLen ≠ 0 then r.add lib (memcpy c.rsp 0 a.written) a.rspLen else r

end EslResponses

/-- What a round finds on the stack and the clock. -/
structure EslLocals where
  /-- `rsp`. -/
  rsp : Mem
  /-- `val`. -/
  val : Mem
  /-- The readings of the clock. -/
  onOffTime : UInt32
  /-- The second of them. -/
  repeatTime : UInt32

/-- `blc_eslp_esl_controlPointCommant_t`, and what its handling finds. -/
structure EslPacket where
  /-- `numCmds`. -/
  numCmds : UInt8
  /-- The memory at `cmds`. -/
  cmds : Mem
  /-- `rspBuf`, before it is written. -/
  rspBuf : Mem
  /-- What each round finds. -/
  locals : ℕ → EslLocals

/-- The pointers to `n` commands, one after the other. -/
def EslTlv.commands (lib : EslTlv) : ℕ → Mem → List Mem
  | 0, _ => []
  | n + 1, p => p :: lib.commands n (adv p (lib.commandSize (p 0)))

namespace EslPacket

variable (cfg : EslConfig) (lib : EslTlv) (p : EslPacket)

/-- The rounds of the loop over the commands. -/
def rounds : List EslRound :=
  (lib.commands p.numCmds.toNat p.cmds).zipIdx.map fun ⟨command, i⟩ =>
    ⟨command, (p.locals i).rsp, (p.locals i).val, (p.locals i).onOffTime, (p.locals i).repeatTime⟩

/-- The first loop: the responses to come. -/
def rspLeft : UInt8 :=
  (p.rounds lib).foldl
    (fun rspLeft c => if c.eslId ≠ eslIdBroadcast then rspLeft + 1 else rspLeft) 0

/-- More responses are to come than fit. -/
def Refused : Prop := maxEslPayloadSize < (p.rspLeft lib).toNat * cmdRspMinLength

instance : Decidable (p.Refused lib) := inferInstanceAs (Decidable (_ < _))

/-- Before the second loop. -/
def start (s : EslLabel) : EslResponses := ⟨s, p.rspLeft lib, 0, p.rspBuf, 0⟩

/-- `app_esl_handleControlPointCmds`, with what `blc_eslp_esl_controlPointResponse` gets. -/
def handle (s : EslLabel) : EslLabel × Option (UInt8 × Mem) :=
  if p.Refused lib then (s, none)
  else
    let r := (p.rounds lib).foldl (EslResponses.round cfg lib) (p.start lib s)
    (r.label, if r.rspIndex ≠ 0 then some (r.rspIndex, r.rspBuf) else none)

end EslPacket

/-! ### The main loop -/

/-- What a pass of the main loop finds. -/
structure EslPass where
  /-- The clock when `currentTimeLoop` asks whether a millisecond has passed, -/
  seen : UInt32
  /-- and when it updates the time. -/
  tick : UInt32
  /-- The readings of the clock by `app_led_command_apply`. -/
  applied : ℕ → UInt32 × UInt32
  /-- What `is_busy` of the displays returns. -/
  busy : ℕ → Bool
  /-- What `get_buffer` of the displays returns. -/
  hasBuffer : ℕ → Bool
  /-- The readings of the clock by `app_led_loop`. -/
  ledClock : Fin APP_LED_MAX_LEDS → LedClock

namespace EslLabel

variable (cfg : EslConfig) (pass : EslPass)

/-- The round of `currentTimeLoop` for an LED. -/
def currentTimeLed (prev : UInt32) (s : EslLabel) (i : ℕ) : EslLabel :=
  let d := s.ledControlData i
  let s := s.touch [(.ledControlData, i)]
  if d.pendingUpdate && currentTimeExpired prev s.currentTime.timer d.scheduledCommandTime then
    let s := s.ledCommandApply cfg (UInt8.ofNat i) d.scheduledCommand (pass.applied i).1
      (pass.applied i).2
    { s with
      ledControlData := Function.update s.ledControlData i { d with pendingUpdate := false } }
  else s

/-- The round of `currentTimeLoop` for a display. -/
def currentTimeDisplay (prev : UInt32) (s : EslLabel) (i : ℕ) : EslLabel :=
  let d := s.displayControlData i
  let s := s.touch [(.displayControlData, i)]
  if d.pendingUpdate && currentTimeExpired prev s.currentTime.timer d.pendingUpdateAbsoluteTime then
    let d := { d with
      newImage := true, active := true, imageIdx := d.pendingUpdateImageIdx
      pendingUpdate := false }
    { s with displayControlData := Function.update s.displayControlData i d }
  else s

/-- `currentTimeLoop`. -/
def currentTimeLoop (s : EslLabel) : EslLabel :=
  if s.currentTime.active && exceeds cfg.tick1us pass.seen s.currentTime.lastTick 1000 then
    let prev := s.currentTime.timer
    let timer := prev + (pass.tick - s.currentTime.lastTick) / (cfg.tick1us * 1000)
    let s := { s with currentTime := ⟨s.currentTime.active, timer, pass.tick⟩ }
    let s := (List.range ESLS_LEDS_SUPPORTED).foldl (currentTimeLed cfg pass prev) s
    (List.range ESLS_DISPLAYS_SUPPORTED).foldl (currentTimeDisplay prev) s
  else s

/-- What `app_image_storage_get_image_data` accesses, for the bytes from the first one on. -/
def imageDataEntries (s : EslLabel) (imageIdx : ℕ) : List (EslTable × ℕ) :=
  s.imageEntry imageIdx ++
    if 0 < (s.storage.getImageLength imageIdx).getD 0 then [(.images, imageIdx)] else []

/-- What `displayControlDataLoop` accesses to draw an image. -/
def drawEntries (s : EslLabel) (i : ℕ) (imageIdx : UInt8) : List (EslTable × ℕ) :=
  let display := checked .displays APP_DISPLAY_MAX_DISPLAYS (UInt8.ofNat i)
  if (cfg.displayImageSize (UInt8.ofNat i)).isSome && pass.hasBuffer i then
    if imageIdx = cfg.vendorImageIdx then
      display ++ display ++
        if APP_VENDOR_IMAGE_SIZE = cfg.expectedImageLength (UInt8.ofNat i) then display else []
    else display ++ display ++ s.imageDataEntries imageIdx.toNat ++ display
  else display

/-- `displayControlDataLoop`. -/
def displayControlDataLoop (s : EslLabel) (i : ℕ) : EslLabel :=
  let d := s.displayControlData i
  let s := s.touch [(.displayControlData, i)]
  if d.newImage then
    let s := s.touch (checked .displays APP_DISPLAY_MAX_DISPLAYS (UInt8.ofNat i))
    if (cfg.displayImageSize (UInt8.ofNat i)).isSome && pass.busy i then s
    else
      { s.touch (s.drawEntries cfg pass i d.imageIdx) with
        displayControlData := Function.update s.displayControlData i { d with newImage := false } }
  else s

/-- `app_esl_loop`. -/
def loop (s : EslLabel) : EslLabel :=
  let s := s.currentTimeLoop cfg pass
  let s := (List.range ESLS_DISPLAYS_SUPPORTED).foldl (displayControlDataLoop cfg pass) s
  -- `app_led_loop` and `app_display_loop`
  { s with leds := s.leds.loop cfg.tick1us pass.ledClock }.touch
    (allLeds ++ (List.range APP_DISPLAY_MAX_DISPLAYS).map (EslTable.displays, ·))

end EslLabel

/-- What happens to a label. -/
inductive EslEvent where
  /-- The access point says what time it is. -/
  | currentAbsoluteTime (time tick : UInt32)
  /-- `ESL_EVT_ESLP_ESL_STATE`. -/
  | state (synchronized : Bool)
  /-- A packet. -/
  | controlPointCmd (p : EslPacket)
  /-- A request to the object transfer service. -/
  | ots (r : OtsRequest)
  /-- A pass of the main loop. -/
  | loop (pass : EslPass)

/-- One event. -/
def EslLabel.step (cfg : EslConfig) (lib : EslTlv) (s : EslLabel) : EslEvent → EslLabel
  | .currentAbsoluteTime time tick => { s with currentTime := ⟨true, time, tick⟩ }
  | .state synchronized => { s with synchronized := synchronized }
  | .controlPointCmd p => (p.handle cfg lib s).1
  | .ots r => { s with storage := s.storage.step cfg.images r }
  | .loop pass => s.loop cfg pass

end TcBle.Vendor
