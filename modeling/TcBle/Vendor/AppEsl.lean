import Mathlib.Algebra.Ring.Nat
import Mathlib.Logic.Function.Basic
import Mathlib.Tactic.Common

/-!
# The electronic shelf label

`eslp_esl_demo/app_esl.c`: the LED and display commands of the control point, each at once or for
an absolute time, and the loop that executes the timed ones.

## The model

A label has `n` LEDs and `m` displays, so an index of a command is valid by its type. Commands come
in packets; the other commands of the control point touch none of this and are left out. What
`app_led_command_apply` was called with, the images that were requested of a display and those that
were then fetched for it, and the responses are recorded. The length of a stored image is what the
storage says when a packet comes, `0` where there is none; it is taken to be there still when it is
fetched. `tick` is the result of `clock_time` at a step, and `busy` of `app_display_is_busy`.
-/

namespace TcBle.Vendor

/-- `app_led_command_t`. -/
structure AppLedCommand where
  /-- `settings.colorRed`. -/
  colorRed : BitVec 2
  /-- `settings.colorGreen`. -/
  colorGreen : BitVec 2
  /-- `settings.colorBlue`. -/
  colorBlue : BitVec 2
  /-- `settings.brightness`. -/
  brightness : BitVec 2
  /-- `pattern`. -/
  pattern : Vector UInt8 5
  /-- `bit_off_period`. -/
  bitOffPeriod : UInt8
  /-- `bit_on_period`. -/
  bitOnPeriod : UInt8
  /-- `repeat_type`. -/
  repeatType : BitVec 1
  /-- `repeat_duration`. -/
  repeatDuration : BitVec 15
  deriving DecidableEq

/-- `ledControlData_t`. -/
structure LedControlData where
  /-- `pendingUpdate`. -/
  pendingUpdate : Bool
  /-- `scheduledCommandTime`. -/
  scheduledCommandTime : UInt32
  /-- `scheduledCommand`. -/
  scheduledCommand : AppLedCommand
  deriving DecidableEq

/-- `displayControl_t`. -/
structure DisplayControl where
  /-- `active`. -/
  active : Bool
  /-- `pendingUpdate`. -/
  pendingUpdate : Bool
  /-- `newImage`. -/
  newImage : Bool
  /-- `imageIdx`. -/
  imageIdx : UInt8
  /-- `pendingUpdateImageIdx`. -/
  pendingUpdateImageIdx : UInt8
  /-- `pendingUpdateAbsoluteTime`. -/
  pendingUpdateAbsoluteTime : UInt32
  deriving DecidableEq

/-- `currentTime_t`. -/
structure CurrentTime where
  /-- `active`. -/
  active : Bool
  /-- `timer`, in milliseconds. -/
  timer : UInt32
  /-- `lastTick`. -/
  lastTick : UInt32
  deriving DecidableEq

/-- The fields of an LED command that say what the LED is to do. -/
structure LedFields where
  /-- `colorRed`. -/
  colorRed : BitVec 2
  /-- `colorGreen`. -/
  colorGreen : BitVec 2
  /-- `colorBlue`. -/
  colorBlue : BitVec 2
  /-- `brightness`. -/
  brightness : BitVec 2
  /-- `flashingPattern`. -/
  flashingPattern : Vector UInt8 7
  /-- `repeatType`. -/
  repeatType : BitVec 1
  /-- `repeatDuration`. -/
  repeatDuration : BitVec 15
  deriving DecidableEq

/-- The LED command that both LED handlers fill in. -/
def LedFields.appLedCommand (f : LedFields) : AppLedCommand where
  colorRed := f.colorRed
  colorGreen := f.colorGreen
  colorBlue := f.colorBlue
  brightness := f.brightness
  pattern := #v[f.flashingPattern[0], f.flashingPattern[1], f.flashingPattern[2],
    f.flashingPattern[3], f.flashingPattern[4]]
  bitOffPeriod := f.flashingPattern[5]
  bitOnPeriod := f.flashingPattern[6]
  repeatType := f.repeatType
  repeatDuration := f.repeatDuration

/-- The LED and display commands of the control point. -/
inductive EslCommand (n m : ℕ)
  /-- `DISPLAY_IMAGE`. -/
  | displayImage (eslId : UInt8) (displayId : Fin m) (imageId : UInt8)
  /-- `DISPLAY_TIMED_IMAGE`. -/
  | displayTimedImage (eslId : UInt8) (displayId : Fin m) (imageId : UInt8) (absoluteTime : UInt32)
  /-- `LED_CONTROL`. -/
  | ledControl (eslId : UInt8) (ledId : Fin n) (fields : LedFields)
  /-- `LED_TIMED_CONTROL`. -/
  | ledTimedControl (eslId : UInt8) (ledId : Fin n) (fields : LedFields) (absoluteTime : UInt32)
  deriving DecidableEq

/-- The error codes of `blc_eslss_errorCode_t` that are answered here. -/
inductive EslErrorCode
  /-- `IMAGE_NOT_AVAILABLE`. -/
  | imageNotAvailable
  /-- `CAPACITY_LIMIT`. -/
  | capacityLimit
  /-- `QUEUE_FULL`. -/
  | queueFull
  /-- `IMPLAUSIBLE_ABSOLUTE_TIME`. -/
  | implausibleAbsoluteTime
  deriving DecidableEq

/-- The responses of the control point that are answered here. -/
inductive EslResponse (n m : ℕ)
  /-- `blc_eslss_controlPointResponseError_t`. -/
  | error (error : EslErrorCode)
  /-- `blc_eslss_controlPointResponseLedState_t`. -/
  | ledState (ledId : Fin n)
  /-- `blc_eslss_controlPointResponseDisplayState_t`. -/
  | displayState (displayId : Fin m) (imageId : UInt8)
  deriving DecidableEq

variable {n m : ℕ}

/-- `BLC_ESLS_ESL_ID_BROADCAST`. -/
def eslIdBroadcast : UInt8 := 0xFF

/-- `MAX_ESL_PAYLOAD_SIZE`. -/
def maxEslPayloadSize : ℕ := 48

/-- `BLC_ESLS_CMD_RSP_MIN_LENGTH`. -/
def cmdRspMinLength : ℕ := 2

/-- `IMPLAUSIBLE_TIME_OFFSET_MS`. -/
def implausibleTimeOffsetMs : UInt32 := 48 * 24 * 60 * 60 * 100

namespace EslCommand

/-- `hdr.eslId`. -/
def eslId : EslCommand n m → UInt8
  | displayImage eslId .. | displayTimedImage eslId .. | ledControl eslId .. |
    ledTimedControl eslId .. => eslId

/-- `blc_esl_getCommandSize`. -/
def size : EslCommand n m → ℕ
  | displayImage .. => 4
  | displayTimedImage .. => 8
  | ledControl .. => 13
  | ledTimedControl .. => 17

end EslCommand

/-- `blc_esl_getResponseSize`. -/
def EslResponse.size : EslResponse n m → ℕ
  | error _ => 2
  | ledState _ => 2
  | displayState .. => 3

/-- `blc_eslp_esl_controlPointCommant_t`: the commands of one payload. -/
structure EslCommands (n m : ℕ) where
  /-- `cmds`. -/
  cmds : List (EslCommand n m)
  /-- They fit into a payload. -/
  fits : (cmds.map EslCommand.size).sum ≤ maxEslPayloadSize

/-- The board. -/
structure EslBoard (m : ℕ) where
  /-- `SYSTEM_TIMER_TICK_1US`, which is `sys_tick_per_us`. -/
  tick1us : UInt32
  /-- A millisecond is some ticks. -/
  tick1ms_ne_zero : tick1us * 1000 ≠ 0
  /-- The image size that `app_display_get_info` gives. -/
  imageSize : Fin m → UInt16

/-- The state of the label. -/
structure AppEsl (n m : ℕ) where
  /-- `currentTime`. -/
  currentTime : CurrentTime
  /-- `ledControlData`. -/
  ledControlData : Fin n → LedControlData
  /-- `displayControlData`. -/
  displayControlData : Fin m → DisplayControl
  /-- What `app_led_command_apply` was called with, for each LED. -/
  applied : Fin n → List AppLedCommand
  /-- The images that were requested of each display. -/
  requested : Fin m → List UInt8
  /-- The images that were fetched for it. -/
  fetched : Fin m → List UInt8
  /-- What `blc_eslp_esl_controlPointResponse` was called with. -/
  sent : List (List (EslResponse n m))

namespace AppEsl

/-- The label after a start. -/
def boot : AppEsl n m where
  currentTime := ⟨false, 0, 0⟩
  ledControlData _ := ⟨false, 0, ⟨0, 0, 0, 0, #v[0, 0, 0, 0, 0], 0, 0, 0, 0⟩⟩
  displayControlData _ := ⟨false, false, false, 0, 0, 0⟩
  applied _ := []
  requested _ := []
  fetched _ := []
  sent := []

end AppEsl

/-- `currentTimeCheckTimedCommand`. -/
def CurrentTime.checkTimedCommand (c : CurrentTime) (time : UInt32) : Bool :=
  if !c.active then false
  else if c.timer ≤ time then time - c.timer ≤ implausibleTimeOffsetMs
  else 0xFFFFFFFF - c.timer + time ≠ 0

/-- `currentTimeExpired`. -/
def currentTimeExpired (prev next expirationTime : UInt32) : Bool :=
  if next > prev then expirationTime > prev && expirationTime ≤ next
  else expirationTime ≤ next || expirationTime > prev

/-- A response, unless the command is for all labels. -/
def answer (eslId : UInt8) (rsp : EslResponse n m) : Option (EslResponse n m) :=
  if eslId ≠ eslIdBroadcast then some rsp else none

namespace AppEsl

variable (b : EslBoard m) (imageLength : UInt8 → UInt32)

/-- `DISPLAY_IMAGE`. -/
def displayImage (eslId : UInt8) (displayId : Fin m) (imageId : UInt8) (s : AppEsl n m) :
    AppEsl n m × Option (EslResponse n m) :=
  if imageLength imageId ≠ (b.imageSize displayId).toUInt32 then
    (s, answer eslId (.error .imageNotAvailable))
  else
    let d := { s.displayControlData displayId with
      active := true, newImage := true, imageIdx := imageId }
    ({ s with
        displayControlData := Function.update s.displayControlData displayId d
        requested := Function.update s.requested displayId (s.requested displayId ++ [imageId]) },
      answer eslId (.displayState displayId imageId))

/-- `DISPLAY_TIMED_IMAGE`. -/
def displayTimedImage (eslId : UInt8) (displayId : Fin m) (imageId : UInt8) (absoluteTime : UInt32)
    (s : AppEsl n m) : AppEsl n m × Option (EslResponse n m) :=
  let d := s.displayControlData displayId
  if imageLength imageId ≠ (b.imageSize displayId).toUInt32 then
    (s, answer eslId (.error .imageNotAvailable))
  else if d.pendingUpdate && absoluteTime = 0 then
    ({ s with
        displayControlData :=
          Function.update s.displayControlData displayId { d with pendingUpdate := true } },
      answer eslId (.displayState displayId imageId))
  else if d.pendingUpdate && absoluteTime ≠ d.pendingUpdateAbsoluteTime then
    (s, answer eslId (.error .queueFull))
  else if !s.currentTime.checkTimedCommand absoluteTime then
    (s, answer eslId (.error .implausibleAbsoluteTime))
  else
    let d := { d with
      pendingUpdate := true, pendingUpdateImageIdx := imageId
      pendingUpdateAbsoluteTime := absoluteTime }
    ({ s with displayControlData := Function.update s.displayControlData displayId d },
      answer eslId (.displayState displayId imageId))

/-- `LED_CONTROL`. -/
def ledControl (eslId : UInt8) (ledId : Fin n) (fields : LedFields) (s : AppEsl n m) :
    AppEsl n m × Option (EslResponse n m) :=
  ({ s with
      applied := Function.update s.applied ledId (s.applied ledId ++ [fields.appLedCommand]) },
    answer eslId (.ledState ledId))

/-- `LED_TIMED_CONTROL`. -/
def ledTimedControl (eslId : UInt8) (ledId : Fin n) (fields : LedFields) (absoluteTime : UInt32)
    (s : AppEsl n m) : AppEsl n m × Option (EslResponse n m) :=
  let d := s.ledControlData ledId
  if d.pendingUpdate && absoluteTime = 0 then
    ({ s with
        ledControlData :=
          Function.update s.ledControlData ledId { d with pendingUpdate := false } },
      answer eslId (.ledState ledId))
  else if d.pendingUpdate && absoluteTime ≠ d.scheduledCommandTime then
    (s, answer eslId (.error .queueFull))
  else if !s.currentTime.checkTimedCommand absoluteTime then
    -- answered to a broadcast, too
    (s, some (.error .implausibleAbsoluteTime))
  else
    let d : LedControlData := ⟨true, absoluteTime, fields.appLedCommand⟩
    ({ s with ledControlData := Function.update s.ledControlData ledId d },
      answer eslId (.ledState ledId))

/-- The `switch` over the command. -/
def command (s : AppEsl n m) : EslCommand n m → AppEsl n m × Option (EslResponse n m)
  | .displayImage eslId displayId imageId => s.displayImage b imageLength eslId displayId imageId
  | .displayTimedImage eslId displayId imageId absoluteTime =>
    s.displayTimedImage b imageLength eslId displayId imageId absoluteTime
  | .ledControl eslId ledId fields => s.ledControl eslId ledId fields
  | .ledTimedControl eslId ledId fields absoluteTime =>
    s.ledTimedControl eslId ledId fields absoluteTime

/-- The responses of a packet so far: `rspIndex` is their number. -/
structure RspBuf (n m : ℕ) where
  /-- `rspLeft`. -/
  rspLeft : UInt8
  /-- The responses in `rspBuf`. -/
  rsps : List (EslResponse n m)

/-- `response - rspBuf`. -/
def RspBuf.used (r : RspBuf n m) : ℕ := (r.rsps.map EslResponse.size).sum

/-- What is done with the response to a command. -/
def RspBuf.add (r : RspBuf n m) : Option (EslResponse n m) → RspBuf n m
  | none => r
  | some rsp =>
    let rspLeft := r.rspLeft - 1
    if UInt32.ofNat (rsp.size + rspLeft.toNat * cmdRspMinLength) >
        UInt32.ofNat maxEslPayloadSize - UInt32.ofNat r.used then
      ⟨rspLeft, r.rsps ++ [.error .capacityLimit]⟩
    else ⟨rspLeft, r.rsps ++ [rsp]⟩

/-- One round of the loop over the commands. -/
def round (p : AppEsl n m × RspBuf n m) (c : EslCommand n m) : AppEsl n m × RspBuf n m :=
  let (s, rsp) := p.1.command b imageLength c
  (s, p.2.add rsp)

/-- The first loop of `app_esl_handleControlPointCmds`: the responses to come. -/
def rspLeft (cmds : List (EslCommand n m)) : UInt8 :=
  cmds.foldl (fun rspLeft c => if c.eslId ≠ eslIdBroadcast then rspLeft + 1 else rspLeft) 0

/-- `app_esl_handleControlPointCmds`. -/
def handleControlPointCmds (cmds : List (EslCommand n m)) (s : AppEsl n m) : AppEsl n m :=
  if (rspLeft cmds).toNat * cmdRspMinLength > maxEslPayloadSize then s
  else
    let (s, r) := cmds.foldl (round b imageLength) (s, ⟨rspLeft cmds, []⟩)
    if r.rsps ≠ [] then { s with sent := s.sent ++ [r.rsps] } else s

/-- `currentTimeLoop`. -/
def currentTimeLoop (tick : UInt32) (s : AppEsl n m) : AppEsl n m :=
  if s.currentTime.active && tick - s.currentTime.lastTick > 1000 * b.tick1us then
    let prev := s.currentTime.timer
    let timer := prev + (tick - s.currentTime.lastTick) / (b.tick1us * 1000)
    let ledExpired i := (s.ledControlData i).pendingUpdate &&
      currentTimeExpired prev timer (s.ledControlData i).scheduledCommandTime
    let displayExpired j := (s.displayControlData j).pendingUpdate &&
      currentTimeExpired prev timer (s.displayControlData j).pendingUpdateAbsoluteTime
    { s with
      currentTime := ⟨s.currentTime.active, timer, tick⟩
      -- a round of the two loops touches its own entry only
      ledControlData := fun i =>
        if ledExpired i then { s.ledControlData i with pendingUpdate := false }
        else s.ledControlData i
      applied := fun i =>
        if ledExpired i then s.applied i ++ [(s.ledControlData i).scheduledCommand]
        else s.applied i
      displayControlData := fun j =>
        if displayExpired j then
          { s.displayControlData j with
            newImage := true, active := true, pendingUpdate := false
            imageIdx := (s.displayControlData j).pendingUpdateImageIdx }
        else s.displayControlData j
      requested := fun j =>
        if displayExpired j then s.requested j ++ [(s.displayControlData j).pendingUpdateImageIdx]
        else s.requested j }
  else s

/-- `displayControlDataLoop`, for all displays. -/
def displayControlDataLoop (busy : Fin m → Bool) (s : AppEsl n m) : AppEsl n m :=
  { s with
    displayControlData := fun j =>
      if (s.displayControlData j).newImage && !busy j then
        { s.displayControlData j with newImage := false }
      else s.displayControlData j
    fetched := fun j =>
      if (s.displayControlData j).newImage && !busy j then
        s.fetched j ++ [(s.displayControlData j).imageIdx]
      else s.fetched j }

/-- `app_esl_loop`. -/
def loop (tick : UInt32) (busy : Fin m → Bool) (s : AppEsl n m) : AppEsl n m :=
  (s.currentTimeLoop b tick).displayControlDataLoop busy

/-- `ESL_EVT_ESLP_ESL_CURRENT_ABSOLUTE_TIME`. -/
def currentAbsoluteTime (time tick : UInt32) (s : AppEsl n m) : AppEsl n m :=
  { s with currentTime := ⟨true, time, tick⟩ }

/-- What happens to a label. -/
inductive Event (n m : ℕ)
  /-- The access point says what time it is. -/
  | currentAbsoluteTime (time tick : UInt32)
  /-- A packet. -/
  | controlPointCmd (imageLength : UInt8 → UInt32) (packet : EslCommands n m)
  /-- A pass of the main loop. -/
  | loop (tick : UInt32) (busy : Fin m → Bool)

/-- One event. -/
def step (s : AppEsl n m) : Event n m → AppEsl n m
  | .currentAbsoluteTime time tick => s.currentAbsoluteTime time tick
  | .controlPointCmd imageLength packet => s.handleControlPointCmds b imageLength packet.cmds
  | .loop tick busy => s.loop b tick busy

end AppEsl

end TcBle.Vendor
