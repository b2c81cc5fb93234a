import TcBle.Vendor.BltLed
import TcBle.Vendor.IrLearn
import TcBle.Vendor.Nec

/-!
# The infrared sender of the remote control

`vendor/ble_remote/rc_ir.c`, and what of `app_ui.c` and `app.c` uses it: a key that is pressed in
the infrared mode sends an NEC code and then repeats, until it is released.

## The model

The hardware plays the words of `T_dmaData_buf` on the infrared line, one after the other, reading
each from the buffer when its turn comes; a word is a number of periods of the carrier, with or
without carrier, and fetching it takes no time. The line is recorded, one sample for each period,
and the system tick counts 421 to a period. Resetting the hardware takes 20 us of a period of 26 us,
and the line is low for that period.

The main thread and the interrupts take turns in any order. `irq_handler` calls `rc_ir_irq_prc` at
every interrupt, whatever raised it, so the mask of the interrupt is left out. The main thread can
be interrupted between any two statements of `ir_nec_send`, except where it disables interrupts;
`proc_keyboard` before that and `ir_send_release` are single steps. What `kb_scan_key` finds is
given; the device may sleep when `app_process_power_management` lets it, and then loses what is not
retained. The core is not the TC321X; learning codes is not in the build.
-/

namespace TcBle.Vendor

open TcBle.Foundation TcBle.Foundation.Pulses TcBle.HciTransport

/-! ### The waveforms -/

/-- `CLOCK_SYS_CLOCK_1US`. -/
def clockSysClock1Us : ℕ := 32

/-- `PWM_CARRIER_CYCLE_TICK`: periods of 38 kHz, at 32 MHz. -/
def pwmCarrierCycleTick : ℕ := 32000000 / 38000

/-- The waveform of a time in microseconds, as `rc_ir_init` computes each. -/
def waveform (carrierEn : Bool) (us : ℕ) : UInt16 :=
  pwmConfigDmaFifoWaveform carrierEn (UInt16.ofNat (us * clockSysClock1Us / pwmCarrierCycleTick))

/-- `waveform_start_bit_1st` and `waveform_start_bit_2nd`. -/
def waveformStartBit : List UInt16 := [waveform true 9000, waveform false 4500]
/-- `waveform_stop_bit_1st` and `waveform_stop_bit_2nd`. -/
def waveformStopBit : List UInt16 := [waveform true 560, waveform false 500]
/-- `waveform_logic_0_1st` and `waveform_logic_0_2nd`. -/
def waveformLogic0 : List UInt16 := [waveform true 560, waveform false 560]
/-- `waveform_logic_1_1st` and `waveform_logic_1_2nd`. -/
def waveformLogic1 : List UInt16 := [waveform true 560, waveform false 1690]
/-- `waveform_repeat_1st` to `waveform_repeat_4th`. -/
def waveformRepeat : List UInt16 :=
  [waveform true 9000, waveform false 2250, waveform true 560, waveform false 99190]

/-- `waveform_wait_to_repeat`, when the sending began at the tick `start`. -/
def waveformWaitToRepeat (now start : UInt32) : UInt16 :=
  let tick2RepeatSysClockTimer16M := UInt32.ofNat (110 * systemTimerTick1Ms) - (now - start)
  let tick2RepeatSysTimer := (tick2RepeatSysClockTimer16M * UInt32.ofNat clockSysClock1Us) >>> 4
  pwmConfigDmaFifoWaveform false (tick2RepeatSysTimer / UInt32.ofNat pwmCarrierCycleTick).toUInt16

/-- `data`, in `ir_nec_send`. -/
def necData (addr1 addr2 cmd : UInt8) : UInt32 :=
  (~~~cmd.toUInt32) <<< 24 ||| cmd.toUInt32 <<< 16 ||| addr2.toUInt32 <<< 8 ||| addr1.toUInt32

/-- The words that `ir_nec_send` puts into the buffer. -/
def necWords (addr1 addr2 cmd : UInt8) : List UInt16 :=
  let data := necData addr1 addr2 cmd
  waveformStartBit ++
    (List.range 32).flatMap (fun i =>
      if data &&& (1 <<< UInt32.ofNat i) ≠ 0 then waveformLogic1 else waveformLogic0) ++
    waveformStopBit

/-! ### The sender -/

/-- `is_sending`. -/
inductive Sending where
  /-- `IR_SENDING_NONE`. -/
  | none
  /-- `IR_SENDING_DATA`. -/
  | data
  /-- `IR_SENDING_REPEAT`. -/
  | again
  deriving DecidableEq

/-- Where the hardware is. -/
structure IrDma where
  /-- The next word. -/
  next : ℕ
  /-- The level of the word that is played. -/
  level : Bool
  /-- The periods of it that are left. -/
  rest : ℕ

/-- `ir_send_ctrl`, `T_dmaData_buf`, and the hardware. -/
structure RcIr where
  /-- `last_cmd`. -/
  lastCmd : UInt8
  /-- `is_sending`. -/
  isSending : Sending
  /-- `repeat_enable`. -/
  repeatEnable : Bool
  /-- `sending_start_time`. -/
  sendingStartTime : UInt32
  /-- The first `data_num` words of `data`. -/
  data : List UInt16
  /-- `dma_len`. -/
  dmaLen : ℕ
  /-- `FLD_IRQ_PWM0_IR_DMA_FIFO_DONE` is set in `reg_pwm_irq_sta`. -/
  irqSta : Bool
  /-- What is played. -/
  dma : Option IrDma
  /-- The levels of the line so far. -/
  line : List Bool

/-- The pulse that a word stands for. -/
def wordPulse (w : UInt16) : Pulse := (w.toNat.testBit 15, w.toNat % 2 ^ 14)

/-- One statement of `ir_nec_send`, from `data_num = 0` on. -/
inductive SendStep where
  /-- `data_num = 0`. -/
  | dataNum
  /-- `data[data_num ++] = w`. -/
  | put (w : UInt16)
  /-- `dma_len = data_num * 2`. -/
  | dmaLen
  /-- `repeat_enable = 1`. -/
  | repeatEnable
  /-- `reg_pwm_irq_sta = FLD_IRQ_PWM0_IR_DMA_FIFO_DONE`. -/
  | clearIrq
  /-- `is_sending = IR_SENDING_DATA`. -/
  | isSending
  /-- `sending_start_time = clock_time()`. -/
  | startTime
  /-- `pwm_start_dma_ir_sending()`. -/
  | start
  deriving DecidableEq

/-- The statements of `ir_nec_send` before the last. -/
def necSteps (addr1 addr2 cmd : UInt8) : List SendStep :=
  .dataNum :: (necWords addr1 addr2 cmd).map .put ++
    [.dmaLen, .repeatEnable, .clearIrq, .isSending, .startTime]

namespace RcIr

/-- `clock_time()`, when the device started at the tick `boot`. -/
def now (boot : ℕ) (s : RcIr) : UInt32 := clockTime (boot + 421 * s.line.length)

/-- The line is low for some periods. -/
def low (s : RcIr) (n : ℕ) : RcIr := { s with line := s.line ++ List.replicate n false }

/-- `pwm_start_dma_ir_sending`. -/
def pwmStart (s : RcIr) : RcIr := { s with dma := some ⟨0, false, 0⟩ }

/-- `pwm_stop_dma_ir_sending`. -/
def pwmStop (s : RcIr) : RcIr := { s with dma := none }.low 1

/-- The hardware goes on: a period of the carrier, or the next word. -/
def pwm (s : RcIr) : RcIr :=
  match s.dma with
  | none => s.low 1
  | some d =>
    if d.rest ≠ 0 then
      { s with line := s.line ++ [d.level], dma := some { d with rest := d.rest - 1 } }
    else match (s.data.take (s.dmaLen / 2))[d.next]? with
      | some w => { s with dma := some ⟨d.next + 1, (wordPulse w).1, (wordPulse w).2⟩ }
      | none => { s with dma := none, irqSta := true }

/-- One statement of `ir_nec_send`. -/
def exec (boot : ℕ) (s : RcIr) : SendStep → RcIr
  | .dataNum => { s with data := [] }
  | .put w => { s with data := s.data ++ [w] }
  | .dmaLen => { s with dmaLen := s.data.length * 2 }
  | .repeatEnable => { s with repeatEnable := true }
  | .clearIrq => { s with irqSta := false }
  | .isSending => { s with isSending := .data }
  | .startTime => { s with sendingStartTime := s.now boot }
  | .start => s.pwmStart

/-- `ir_is_sending`: what it leaves; it returns `is_sending`. -/
def irIsSending (boot : ℕ) (s : RcIr) : RcIr :=
  if s.isSending ≠ .none ∧ clockTimeExceed (s.now boot) s.sendingStartTime (300 * 1000) then
    { s with isSending := .none }.pwmStop
  else s

/-- `ir_send_release`. -/
def irSendRelease (s : RcIr) : RcIr :=
  let s := { s with lastCmd := 0xff }
  let s := if s.isSending ≠ .none then s.pwmStop else s
  { s with isSending := .none, irqSta := false }

/-- Five repeats. -/
def fiveRepeats : List UInt16 := (List.replicate 5 waveformRepeat).flatten

/-- `rc_ir_irq_prc`. -/
def rcIrIrqPrc (boot : ℕ) (s : RcIr) : RcIr :=
  if s.irqSta then
    let s := { s with irqSta := false }
    if s.repeatEnable then
      match s.isSending with
      | .data =>
        let data := waveformWaitToRepeat (s.now boot) s.sendingStartTime :: fiveRepeats
        { s with isSending := .again, data := data, dmaLen := data.length * 2 }.pwmStart
      | .again => { s with data := fiveRepeats, dmaLen := fiveRepeats.length * 2 }.pwmStart
      | .none => s
    else s.irSendRelease
  else s

/-- `rc_ir_init`. The waveforms are those above from then on. -/
def rcIrInit (s : RcIr) : RcIr := { s with irqSta := false, lastCmd := 0xff }

/-- The sender when the device has started: nothing of it is retained in deep sleep. -/
def started (line : List Bool) : RcIr := ⟨0, .none, false, 0, [], 0, false, none, line⟩

/-- What is left of what is played. -/
def left (s : RcIr) : List Bool :=
  match s.dma with
  | none => []
  | some d =>
    List.replicate d.rest d.level ++
      samples (((s.data.take (s.dmaLen / 2)).drop d.next).map wordPulse)

end RcIr

/-! ### The remote control -/

/-- `key_type`. -/
inductive KeyType where
  | idleKey | consumerKey | keyboardKey | irKey | pairUnpairKey
  deriving DecidableEq

/-- `user_key_mode`. -/
inductive KeyMode where
  /-- `KEY_MODE_BLE`. -/
  | ble
  /-- `KEY_MODE_IR`. -/
  | ir
  deriving DecidableEq

/-- `kb_event`, of what the remote control uses. -/
structure RemoteKeys where
  /-- `cnt`. -/
  cnt : ℕ
  /-- `keycode[0]`. -/
  keycode0 : UInt8

/-- `VOICE`. -/
def keyVoice : UInt8 := 0xc0
/-- `KEY_MODE_SWITCH`. -/
def keyModeSwitch : UInt8 := 0xc1

/-- `kb_map_ble`. -/
def kbMapBle : List UInt8 :=
  [0, 0, 0, 0, 0, 0xc0, 0, 0, 0xf0, 0xf1, 0x1f, 0, 0, 0x20, 0x1e,
    0x22, 0, 0, 0x23, 0x21, 0x25, 0, 0, 0x26, 0x24, 0x27, 0, 0, 0, 0]

/-- `kb_map_ir`. -/
def kbMapIr : List UInt8 :=
  [0, 0, 0, 0, 0, 0, 0, 0, 0, 0, 2, 0, 0, 3, 1,
    5, 0, 0, 6, 4, 8, 0, 0, 9, 7, 0, 0, 0, 0, 0]

/-- The remote control, as far as it uses the sender. -/
structure Remote where
  /-- The sender. -/
  ir : RcIr
  /-- What the main thread has to do of `ir_nec_send`. -/
  todo : List SendStep
  /-- `ir_hw_initialed`. -/
  irHwInitialed : Bool
  /-- `ir_not_released`. -/
  irNotReleased : Bool
  /-- `user_key_mode`, and `IR_MODE_DEEP_FLG` of `USED_DEEP_ANA_REG`. -/
  userKeyMode : KeyMode
  /-- `key_type`. -/
  keyType : KeyType
  /-- `key_not_released`. -/
  keyNotReleased : Bool
  /-- `keyScanTick`. -/
  keyScanTick : UInt32
  /-- The codes that `ir_nec_send` began to send, so far. -/
  codes : List Nec.Message

namespace Remote

/-- `ir_nec_send`, up to where it begins to write to the buffer. -/
def irNecSend (boot : ℕ) (s : Remote) (addr1 addr2 cmd : UInt8) : Remote :=
  if s.ir.lastCmd ≠ cmd then
    -- `ir_sending_check`
    let ir := s.ir.irIsSending boot
    if ir.isSending ≠ .none then { s with ir := ir }
    else { s with
      ir := { ir with lastCmd := cmd }
      todo := necSteps addr1 addr2 cmd ++ [.start]
      codes := s.codes ++ [.code addr1 addr2 cmd] }
  else s

/-- The first lines of `ir_dispatch`. -/
def irInit (s : Remote) : Remote :=
  if s.irHwInitialed then s else { s with irHwInitialed := true, ir := s.ir.rcIrInit }

/-- `ir_dispatch`, for `TYPE_IR_SEND`. -/
def irDispatchSend (boot : ℕ) (s : Remote) (syscode ircode : UInt8) : Remote :=
  s.irInit.irNecSend boot syscode (~~~syscode) ircode

/-- `ir_dispatch`, for `TYPE_IR_RELEASE`. -/
def irDispatchRelease (s : Remote) : Remote :=
  { s.irInit with ir := s.irInit.ir.irSendRelease }

/-- `key_change_proc`. -/
def keyChangeProc (boot : ℕ) (s : Remote) (keys : RemoteKeys) : Remote :=
  let key0 := keys.keycode0
  let s := { s with keyNotReleased := true }
  if keys.cnt = 2 then s
  else if keys.cnt = 1 then
    if key0 = keyModeSwitch then
      { s with userKeyMode := match s.userKeyMode with | .ble => .ir | .ir => .ble }
    else if key0 = keyVoice then s
    else match s.userKeyMode with
      | .ble =>
        { s with
          keyType := if 0xf0 ≤ kbMapBle.getD key0.toNat 0 then .consumerKey else .keyboardKey }
      | .ir =>
        let s := { s with keyType := .irKey }
        if s.irNotReleased then s
        else { s.irDispatchSend boot 0x88 (kbMapIr.getD key0.toNat 0) with irNotReleased := true }
  else
    let s := { s with keyNotReleased := false }
    if s.keyType = .irKey ∧ s.irNotReleased then
      { s with irNotReleased := false }.irDispatchRelease
    else s

/-- `proc_keyboard`, when `kb_scan_key` finds this change of the keys. -/
def procKeyboard (boot : ℕ) (s : Remote) (detKey : Option RemoteKeys) : Remote :=
  if clockTimeExceed (s.ir.now boot) s.keyScanTick (10 * 1000) then
    let s := { s with keyScanTick := s.ir.now boot }
    match detKey with
    | none => s
    | some keys => s.keyChangeProc boot keys
  else s

/-- `app_process_power_management` may leave sleep enabled, and the main thread gets there. -/
def MaySleep (s : Remote) : Prop :=
  s.todo = [] ∧ s.keyNotReleased = false ∧ s.ir.isSending = .none

instance (s : Remote) : Decidable s.MaySleep := by unfold MaySleep; infer_instance

/-- Deep sleep, in which the line is low for some periods, and what is left after it. -/
def deepRetn (s : Remote) (n : ℕ) : Remote :=
  { s with ir := RcIr.started (s.ir.low n).line, irHwInitialed := false }

/-- A remote control that was just switched on. -/
def init : Remote :=
  ⟨RcIr.started [], [], false, false, .ble, .idleKey, false, 0, []⟩

end Remote

/-- What happens to a remote control. -/
inductive RemoteEvent where
  /-- The hardware goes on. -/
  | pwm
  /-- An interrupt. -/
  | irq
  /-- The main thread goes on with `ir_nec_send`. -/
  | loop
  /-- The main loop gets to `proc_keyboard`. -/
  | scan (detKey : Option RemoteKeys)
  /-- The device sleeps. -/
  | sleep (n : ℕ)

/-- One step of the remote control. -/
def Remote.step (boot : ℕ) (s : Remote) : RemoteEvent → Remote
  | .pwm => { s with ir := s.ir.pwm }
  | .irq => { s with ir := s.ir.rcIrIrqPrc boot }
  | .loop =>
    match s.todo with
    | [] => s
    | x :: todo => { s with ir := s.ir.exec boot x, todo := todo }
  | .scan detKey => if s.todo = [] then s.procKeyboard boot detKey else s
  | .sleep n => if s.MaySleep then s.deepRetn n else s

end TcBle.Vendor
