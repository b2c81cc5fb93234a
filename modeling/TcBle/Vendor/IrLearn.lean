import Mathlib.Logic.Function.Iterate
import TcBle.Foundation.LoggedArray
import TcBle.HciTransport.Common

/-!
# Learning from a remote

`vendor/ble_remote/rc_ir_learn.c`: the edges that a remote sends interrupt, `ir_record` builds the
lengths of the bursts and gaps from them, and the main loop decides with `ir_learn_detect` when
the signal is over, copies what was learned and sends it.

## The model

The parameters are those of `USER_DEFINE`. The three arrays of `MAX_SECTION_NUMBER` entries record
where they are accessed; what is written behind one is kept apart from all else.

An interrupt comes as a whole, but between any two accesses of `ir_learn_detect` to what it shares
with the interrupt: `IrLearn.detectStep` is the next of these. Starting, copying and sending are
steps of the main loop outside of it. The pins, the PWM and the enabling of the interrupt are left out.

## What is proved

* `IrLearn.exists_detectStep` — without an interrupt the steps are `ir_learn_detect`.
-/

namespace TcBle.Vendor

open TcBle.Foundation TcBle.HciTransport

/-- `MAX_SECTION_NUMBER`. -/
def maxSectionNumber : ℕ := 100

/-- `IR_LEARN_MIN_FREQUENCY`. -/
def irLearnMinFrequency : ℕ := 30000

/-- `IR_LEARN_INTERVAL_THRESHOLD`. -/
def irLearnIntervalThreshold : UInt32 := UInt32.ofNat (16000000 / irLearnMinFrequency * 2)

/-- `IR_LEARN_END_THRESHOLD`. -/
def irLearnEndThreshold : UInt32 := UInt32.ofNat (30 * 16000)

/-- `IR_LEARN_OVERTIME_THRESHOLD`. -/
def irLearnOvertimeThreshold : ℕ := 10000000

/-- `IR_CARR_CHECK_CNT`. -/
def irCarrCheckCnt : ℕ := 10

/-- `CARR_AND_NO_CARR_MIN_NUMBER`. -/
def carrAndNoCarrMinNumber : ℕ := 15

/-- `ir_learn_states`. -/
inductive IrLearnState where
  /-- `IR_LEARN_DISABLE`. -/
  | disable
  /-- `IR_LEARN_WAIT_KEY`. -/
  | waitKey
  /-- `IR_LEARN_KEY`. -/
  | key
  /-- `IR_LEARN_BEGIN`. -/
  | begin
  /-- `IR_LEARN_SAMPLE_END`. -/
  | sampleEnd
  /-- `IR_LEARN_SUCCESS`. -/
  | success
  /-- `IR_LEARN_FAIL_FIRST_INTERVAL_TOO_LONG`. -/
  | failFirstIntervalTooLong
  /-- `IR_LEARN_FAIL_TWO_LONG_NO_CARRIER`. -/
  | failTwoLongNoCarrier
  /-- `IR_LEARN_FAIL_WAIT_OVER_TIME`. -/
  | failWaitOverTime
  /-- `IR_LEARN_FAIL_WAVE_NUM_TOO_FEW`. -/
  | failWaveNumTooFew
  /-- `IR_LEARN_FAIL_FLASH_FULL`. -/
  | failFlashFull
  /-- `IR_LEARN_FAIL`. -/
  | fail
  deriving DecidableEq

/-- `ir_learn_ctrl_t`. -/
structure IrLearnCtrl where
  /-- `last_trigger_tm_point`. -/
  lastTriggerTmPoint : UInt32
  /-- `curr_trigger_tm_point`. -/
  currTriggerTmPoint : UInt32
  /-- `time_interval`. -/
  timeInterval : UInt32
  /-- `carr_first_interval`. -/
  carrFirstInterval : UInt32
  /-- `carr_switch_start_tm_point`. -/
  carrSwitchStartTmPoint : UInt32
  /-- `carr_check_cnt`, which stops at `IR_CARR_CHECK_CNT`. -/
  carrCheckCnt : ℕ
  /-- `carr_or_not`. -/
  carrOrNot : Bool
  /-- `ir_learn_state`. -/
  irLearnState : IrLearnState
  /-- `ir_learn_tick`. -/
  irLearnTick : UInt32
  /-- `carr_cycle_interval`. -/
  carrCycleInterval : UInt32
  /-- `ir_enter_irq_cnt`. -/
  irEnterIrqCnt : UInt16
  /-- `wave_series_cnt`, which stops at `MAX_SECTION_NUMBER`. -/
  waveSeriesCnt : ℕ
  /-- `wave_series_buf`. -/
  waveSeriesBuf : LoggedArray UInt32

namespace IrLearnCtrl

/-- Before the first start. -/
def off : IrLearnCtrl :=
  { lastTriggerTmPoint := 0, currTriggerTmPoint := 0, timeInterval := 0, carrFirstInterval := 0
    carrSwitchStartTmPoint := 0, carrCheckCnt := 0, carrOrNot := false, irLearnState := .disable
    irLearnTick := 0, carrCycleInterval := 0, irEnterIrqCnt := 0, waveSeriesCnt := 0
    waveSeriesBuf := ⟨fun _ => 0, []⟩ }

/-- `ir_learn_start`. -/
def irLearnStart (c : IrLearnCtrl) (now : UInt32) : IrLearnCtrl :=
  { lastTriggerTmPoint := 0, currTriggerTmPoint := 0, timeInterval := 0, carrFirstInterval := 0
    carrSwitchStartTmPoint := 0, carrCheckCnt := 0, carrOrNot := false, irLearnState := .waitKey
    irLearnTick := now, carrCycleInterval := 0, irEnterIrqCnt := 0, waveSeriesCnt := 0
    waveSeriesBuf := { c.waveSeriesBuf with get := fun _ => 0 } }

/-- `ir_record`, the carrier: the longest of the first intervals. -/
def checkCarrier (c : IrLearnCtrl) : IrLearnCtrl :=
  if c.carrCheckCnt < irCarrCheckCnt then
    { c with
      carrCycleInterval :=
        if c.carrCycleInterval < c.timeInterval then c.timeInterval else c.carrCycleInterval
      carrCheckCnt := c.carrCheckCnt + 1 }
  else c

/-- `ir_record`, behind the branches of the third and any later interrupt. -/
def recordEnd (c : IrLearnCtrl) : IrLearnCtrl :=
  let c := c.checkCarrier
  let c := if maxSectionNumber ≤ c.waveSeriesCnt then { c with irLearnState := .failFlashFull } else c
  { c with lastTriggerTmPoint := c.currTriggerTmPoint }

theorem recordEnd_eq (c : IrLearnCtrl) :
    c.recordEnd =
      { c with
        carrCycleInterval :=
          if c.carrCheckCnt < irCarrCheckCnt ∧ c.carrCycleInterval < c.timeInterval then
            c.timeInterval
          else c.carrCycleInterval
        carrCheckCnt :=
          if c.carrCheckCnt < irCarrCheckCnt then c.carrCheckCnt + 1 else c.carrCheckCnt
        irLearnState :=
          if maxSectionNumber ≤ c.waveSeriesCnt then .failFlashFull else c.irLearnState
        lastTriggerTmPoint := c.currTriggerTmPoint } := by
  by_cases hcheck : c.carrCheckCnt < irCarrCheckCnt <;>
    by_cases hfull : maxSectionNumber ≤ c.waveSeriesCnt <;>
    simp [recordEnd, checkCarrier, hcheck, hfull]

@[simp] theorem recordEnd_waveSeriesCnt (c : IrLearnCtrl) :
    c.recordEnd.waveSeriesCnt = c.waveSeriesCnt := by rw [recordEnd_eq]

@[simp] theorem recordEnd_waveSeriesBuf (c : IrLearnCtrl) :
    c.recordEnd.waveSeriesBuf = c.waveSeriesBuf := by rw [recordEnd_eq]

@[simp] theorem recordEnd_irEnterIrqCnt (c : IrLearnCtrl) :
    c.recordEnd.irEnterIrqCnt = c.irEnterIrqCnt := by rw [recordEnd_eq]

@[simp] theorem recordEnd_carrFirstInterval (c : IrLearnCtrl) :
    c.recordEnd.carrFirstInterval = c.carrFirstInterval := by rw [recordEnd_eq]

@[simp] theorem recordEnd_carrOrNot (c : IrLearnCtrl) :
    c.recordEnd.carrOrNot = c.carrOrNot := by rw [recordEnd_eq]

@[simp] theorem recordEnd_carrSwitchStartTmPoint (c : IrLearnCtrl) :
    c.recordEnd.carrSwitchStartTmPoint = c.carrSwitchStartTmPoint := by rw [recordEnd_eq]

@[simp] theorem recordEnd_lastTriggerTmPoint (c : IrLearnCtrl) :
    c.recordEnd.lastTriggerTmPoint = c.currTriggerTmPoint := by rw [recordEnd_eq]

theorem recordEnd_irLearnState (c : IrLearnCtrl) :
    c.recordEnd.irLearnState =
      if maxSectionNumber ≤ c.waveSeriesCnt then .failFlashFull else c.irLearnState := by
  rw [recordEnd_eq]

theorem recordEnd_carrCheckCnt (c : IrLearnCtrl) :
    c.recordEnd.carrCheckCnt =
      if c.carrCheckCnt < irCarrCheckCnt then c.carrCheckCnt + 1 else c.carrCheckCnt := by
  rw [recordEnd_eq]

/-- Once the carrier is chosen it stays. -/
theorem recordEnd_carrCycleInterval_of_checked {c : IrLearnCtrl}
    (h : c.carrCheckCnt = irCarrCheckCnt) :
    c.recordEnd.carrCycleInterval = c.carrCycleInterval := by
  rw [recordEnd_eq]
  exact if_neg fun hlt => Nat.lt_irrefl _ (h ▸ hlt.1)

/-- The carrier is the longer of two while it is chosen. -/
theorem recordEnd_carrCycleInterval (c : IrLearnCtrl) :
    c.recordEnd.carrCycleInterval.toNat =
      if c.carrCheckCnt < irCarrCheckCnt then max c.carrCycleInterval.toNat c.timeInterval.toNat
      else c.carrCycleInterval.toNat := by
  rw [recordEnd_eq]
  by_cases hcheck : c.carrCheckCnt < irCarrCheckCnt
  · by_cases hlt : c.carrCycleInterval < c.timeInterval
    · simp only [hcheck, hlt, and_self, if_true]
      exact (Nat.max_eq_right (Nat.le_of_lt (UInt32.lt_iff_toNat_lt.mp hlt))).symm
    · simp only [hcheck, hlt, and_false, if_true, if_false]
      exact (Nat.max_eq_left (Nat.le_of_not_lt (mt UInt32.lt_iff_toNat_lt.mpr hlt))).symm
  · simp only [hcheck, false_and, if_false]

/-- `ir_record`, an interval of a carrier. -/
def recordCarrier (c : IrLearnCtrl) : IrLearnCtrl :=
  let c := if c.carrOrNot then c
    else { c with waveSeriesCnt := c.waveSeriesCnt + 1, carrOrNot := true }
  { c with waveSeriesBuf :=
      c.waveSeriesBuf.set c.waveSeriesCnt (c.currTriggerTmPoint - c.carrSwitchStartTmPoint) }

/-- The section that an interval of a carrier belongs to. -/
def carrierSection (c : IrLearnCtrl) : ℕ :=
  if c.carrOrNot then c.waveSeriesCnt else c.waveSeriesCnt + 1

theorem recordCarrier_eq (c : IrLearnCtrl) :
    c.recordCarrier =
      { c with
        waveSeriesCnt := c.carrierSection, carrOrNot := true
        waveSeriesBuf := c.waveSeriesBuf.set c.carrierSection
          (c.currTriggerTmPoint - c.carrSwitchStartTmPoint) } := by
  cases hc : c.carrOrNot <;> simp [recordCarrier, carrierSection, hc]

/-- `ir_record`, the interval behind a carrier. -/
def recordGap (c : IrLearnCtrl) (tm : UInt32) : IrLearnCtrl :=
  let c := { c with
    carrOrNot := false, carrSwitchStartTmPoint := tm
    waveSeriesBuf := c.waveSeriesBuf.set c.waveSeriesCnt
      (c.waveSeriesBuf.get c.waveSeriesCnt + c.carrFirstInterval) }
  let c := { c with waveSeriesCnt := c.waveSeriesCnt + 1 }
  { c with waveSeriesBuf :=
      c.waveSeriesBuf.set c.waveSeriesCnt (c.timeInterval - c.carrFirstInterval / 3) }

theorem recordGap_eq (c : IrLearnCtrl) (tm : UInt32) :
    c.recordGap tm =
      { c with
        carrOrNot := false, carrSwitchStartTmPoint := tm, waveSeriesCnt := c.waveSeriesCnt + 1
        waveSeriesBuf :=
          (c.waveSeriesBuf.set c.waveSeriesCnt
            (c.waveSeriesBuf.get c.waveSeriesCnt + c.carrFirstInterval)).set
            (c.waveSeriesCnt + 1 : ℕ) (c.timeInterval - c.carrFirstInterval / 3) } := rfl

/-- `ir_record`, the third and any later interrupt. -/
def recordOther (c : IrLearnCtrl) (tm : UInt32) : IrLearnCtrl :=
  if c.timeInterval < irLearnIntervalThreshold then c.recordCarrier.recordEnd
  else if irLearnIntervalThreshold < c.timeInterval ∧ c.timeInterval < irLearnEndThreshold then
    if c.carrOrNot then (c.recordGap tm).recordEnd
    else { c with irLearnState := .failTwoLongNoCarrier }
  else if irLearnEndThreshold < c.timeInterval then
    { c with irLearnState := .sampleEnd }.recordEnd
  else c.recordEnd

/-- `ir_record`, what every interrupt begins with. -/
def recordBegin (c : IrLearnCtrl) (tm : UInt32) : IrLearnCtrl :=
  { c with
    irEnterIrqCnt := c.irEnterIrqCnt + 1, currTriggerTmPoint := tm
    timeInterval := tm - c.lastTriggerTmPoint }

/-- `ir_record`. -/
def irRecord (c : IrLearnCtrl) (tm : UInt32) : IrLearnCtrl :=
  let c := c.recordBegin tm
  if c.irEnterIrqCnt = 1 then
    { c with irLearnTick := tm, irLearnState := .begin, lastTriggerTmPoint := c.currTriggerTmPoint }
  else if c.irEnterIrqCnt = 2 then
    if irLearnIntervalThreshold < c.timeInterval then
      { c with irLearnState := .failFirstIntervalTooLong }
    else
      { c with
        carrOrNot := true, carrFirstInterval := c.timeInterval
        carrSwitchStartTmPoint := c.lastTriggerTmPoint
        lastTriggerTmPoint := c.currTriggerTmPoint }
  else c.recordOther tm

/-- The interval up to an edge. -/
def intervalTo (c : IrLearnCtrl) (tm : UInt32) : UInt32 := tm - c.lastTriggerTmPoint

/-- An interrupt that is counted as the third or a later one. -/
def Later (c : IrLearnCtrl) : Prop := c.irEnterIrqCnt + 1 ≠ 1 ∧ c.irEnterIrqCnt + 1 ≠ 2

instance (c : IrLearnCtrl) : Decidable c.Later := inferInstanceAs (Decidable (_ ∧ _))

/-- What an interval can be. -/
theorem irInterval_kinds (i : UInt32) :
    i < irLearnIntervalThreshold ∨ (irLearnIntervalThreshold < i ∧ i < irLearnEndThreshold) ∨
      irLearnEndThreshold < i ∨ i = irLearnIntervalThreshold ∨ i = irLearnEndThreshold := by
  by_cases hthr : i = irLearnIntervalThreshold
  · exact .inr (.inr (.inr (.inl hthr)))
  by_cases hend : i = irLearnEndThreshold
  · exact .inr (.inr (.inr (.inr hend)))
  obtain hlt | hgt := UInt32.lt_or_lt_of_ne hthr
  · exact .inl hlt
  obtain hlt | hlt := UInt32.lt_or_lt_of_ne hend
  · exact .inr (.inl ⟨hgt, hlt⟩)
  · exact .inr (.inr (.inl hlt))

section Record

variable {c : IrLearnCtrl} {tm : UInt32}

theorem irRecord_first (h : c.irEnterIrqCnt + 1 = 1) :
    c.irRecord tm =
      { c.recordBegin tm with
        irLearnTick := tm, irLearnState := .begin, lastTriggerTmPoint := tm } := if_pos h

theorem irRecord_second (h : c.irEnterIrqCnt + 1 = 2) :
    c.irRecord tm =
      if irLearnIntervalThreshold < c.intervalTo tm then
        { c.recordBegin tm with irLearnState := .failFirstIntervalTooLong }
      else
        { c.recordBegin tm with
          carrOrNot := true, carrFirstInterval := c.intervalTo tm
          carrSwitchStartTmPoint := c.lastTriggerTmPoint, lastTriggerTmPoint := tm } := by
  have hne : ¬ (c.recordBegin tm).irEnterIrqCnt = 1 := by
    rw [show (c.recordBegin tm).irEnterIrqCnt = 2 from h]
    decide
  exact (if_neg hne).trans (if_pos h)

theorem irRecord_later (h : c.Later) : c.irRecord tm = (c.recordBegin tm).recordOther tm :=
  (if_neg h.1).trans (if_neg h.2)

theorem irRecord_carrier (h : c.Later) (hi : c.intervalTo tm < irLearnIntervalThreshold) :
    c.irRecord tm = (c.recordBegin tm).recordCarrier.recordEnd :=
  (irRecord_later h).trans (if_pos hi)

theorem irRecord_gap (h : c.Later) (hi : irLearnIntervalThreshold < c.intervalTo tm)
    (hend : c.intervalTo tm < irLearnEndThreshold) :
    c.irRecord tm =
      if c.carrOrNot then ((c.recordBegin tm).recordGap tm).recordEnd
      else { c.recordBegin tm with irLearnState := .failTwoLongNoCarrier } :=
  (irRecord_later h).trans ((if_neg (UInt32.lt_asymm hi)).trans (if_pos ⟨hi, hend⟩))

theorem irRecord_end (h : c.Later) (hi : irLearnEndThreshold < c.intervalTo tm) :
    c.irRecord tm = { c.recordBegin tm with irLearnState := .sampleEnd }.recordEnd := by
  have hthr : ¬ c.intervalTo tm < irLearnIntervalThreshold :=
    UInt32.lt_asymm (UInt32.lt_trans (by decide) hi)
  have hgap : ¬ (irLearnIntervalThreshold < c.intervalTo tm ∧
      c.intervalTo tm < irLearnEndThreshold) := fun hgap => UInt32.lt_asymm hi hgap.2
  exact (irRecord_later h).trans ((if_neg hthr).trans ((if_neg hgap).trans (if_pos hi)))

theorem irRecord_threshold (h : c.Later) (hi : c.intervalTo tm = irLearnIntervalThreshold ∨
    c.intervalTo tm = irLearnEndThreshold) : c.irRecord tm = (c.recordBegin tm).recordEnd := by
  rw [irRecord_later h]
  have hinterval : (c.recordBegin tm).timeInterval = c.intervalTo tm := rfl
  obtain hi | hi := hi <;> rw [recordOther, hinterval, hi] <;> rfl

end Record

/-- The states in which an edge is recorded. -/
def Admits (c : IrLearnCtrl) : Prop := c.irLearnState = .waitKey ∨ c.irLearnState = .begin

instance (c : IrLearnCtrl) : Decidable c.Admits := inferInstanceAs (Decidable (_ ∨ _))

/-- `ir_learn_irq_handler`, for an edge. -/
def irLearnIrqHandler (c : IrLearnCtrl) (tm : UInt32) : IrLearnCtrl :=
  if c.Admits then c.irRecord tm else c

/-- `ir_learn_detect`, the addition of the last carrier. -/
def addLastCarrier (c : IrLearnCtrl) : IrLearnCtrl :=
  let i : ℤ := c.waveSeriesCnt - 1
  { c with waveSeriesBuf :=
      c.waveSeriesBuf.set i (c.waveSeriesBuf.get i.toNat + c.carrCycleInterval) }

/-- `ir_learn_detect`. -/
def irLearnDetect (c : IrLearnCtrl) (now : UInt32) : IrLearnCtrl :=
  if c.irLearnState = .waitKey ∧ clockTimeExceed now c.irLearnTick irLearnOvertimeThreshold then
    { c with irLearnState := .failWaitOverTime }
  else if (c.irLearnState = .begin ∧
        clockTimeExceed now c.currTriggerTmPoint (irLearnEndThreshold.toNat / 16)) ∨
      c.irLearnState = .sampleEnd then
    if carrAndNoCarrMinNumber < c.waveSeriesCnt then
      { c with irLearnState := .success }.addLastCarrier
    else { c with irLearnState := .failWaveNumTooFew }
  else c

end IrLearnCtrl

/-- `ir_learn_send_t`. -/
structure IrLearnSend where
  /-- `ir_learn_carrier_cycle`. -/
  irLearnCarrierCycle : UInt32
  /-- `ir_learn_wave_num`. -/
  irLearnWaveNum : ℕ
  /-- `ir_lenrn_send_buf`. -/
  irLenrnSendBuf : LoggedArray UInt32

/-- `ir_send_dma_data_t`. -/
structure IrSendDmaData where
  /-- `dma_len`. -/
  dmaLen : ℕ
  /-- `data`. -/
  data : LoggedArray UInt16
  /-- `data_num`. -/
  dataNum : ℕ

/-- `pwm_config_dma_fifo_waveform`, of normal pulses. -/
def pwmConfigDmaFifoWaveform (carrierEn : Bool) (pulseNum : UInt16) : UInt16 :=
  (if carrierEn then (1 : UInt16) <<< 15 else 0) ||| (pulseNum &&& 0x3fff)

/-- Where the main loop is in `ir_learn_detect`: what it does next. -/
inductive DetectPc where
  /-- It is not in it. -/
  | idle
  /-- Waiting for a key, it looks whether that takes too long. -/
  | waitTick
  /-- It gives up. -/
  | overTime
  /-- It looks whether edges came. -/
  | beginState
  /-- Edges came, and it looks whether the last one is long ago. -/
  | beginTick
  /-- It looks whether a late edge came. -/
  | endState
  /-- The signal is over, and it counts the sections. -/
  | waveNum
  /-- It sets `IR_LEARN_SUCCESS`. -/
  | success
  /-- It adds the last carrier. -/
  | lastCarrier
  /-- It sets `IR_LEARN_FAIL_WAVE_NUM_TOO_FEW`. -/
  | tooFew
  deriving DecidableEq

/-- The learner and what it is used by. -/
structure IrLearn where
  /-- `g_ir_learn_ctrl`. -/
  ctrl : IrLearnCtrl
  /-- Where the main loop is. -/
  pc : DetectPc
  /-- `ir_learn_result`. -/
  irLearnResult : IrLearnSend
  /-- `ir_send_dma_data`. -/
  irSendDmaData : IrSendDmaData

/-- What happens. -/
inductive IrEvent where
  /-- An edge interrupts. -/
  | edge (tm : UInt32)
  /-- The main loop starts to learn. -/
  | start (now : UInt32)
  /-- The main loop goes on with `ir_learn_detect`, or calls it. -/
  | detect (now : UInt32)
  /-- The main loop copies a successful result. -/
  | copyResult
  /-- The main loop sends what it copied; `ir_sending_check` says whether a send is under way. -/
  | send (sending : Bool)
  deriving DecidableEq

namespace IrLearn

/-- The next step of `ir_learn_detect`. -/
def detectStep (s : IrLearn) (now : UInt32) : IrLearn :=
  let c := s.ctrl
  match s.pc with
  | .idle => { s with pc := if c.irLearnState = .waitKey then .waitTick else .beginState }
  | .waitTick =>
    { s with pc :=
        if clockTimeExceed now c.irLearnTick irLearnOvertimeThreshold then .overTime
        else .beginState }
  | .overTime => { s with ctrl := { c with irLearnState := .failWaitOverTime }, pc := .idle }
  | .beginState => { s with pc := if c.irLearnState = .begin then .beginTick else .endState }
  | .beginTick =>
    { s with pc :=
        if clockTimeExceed now c.currTriggerTmPoint (irLearnEndThreshold.toNat / 16) then .waveNum
        else .endState }
  | .endState => { s with pc := if c.irLearnState = .sampleEnd then .waveNum else .idle }
  | .waveNum =>
    { s with pc := if carrAndNoCarrMinNumber < c.waveSeriesCnt then .success else .tooFew }
  | .success => { s with ctrl := { c with irLearnState := .success }, pc := .lastCarrier }
  | .lastCarrier => { s with ctrl := c.addLastCarrier, pc := .idle }
  | .tooFew => { s with ctrl := { c with irLearnState := .failWaveNumTooFew }, pc := .idle }

/-- `ir_learn_copy_result`, one entry. -/
def copyEntry (s : IrLearn) (i : ℕ) : IrLearn :=
  { s with
    ctrl.waveSeriesBuf := s.ctrl.waveSeriesBuf.touch i
    irLearnResult.irLenrnSendBuf :=
      s.irLearnResult.irLenrnSendBuf.set i (s.ctrl.waveSeriesBuf.get i) }

/-- `ir_learn_copy_result`. -/
def irLearnCopyResult (s : IrLearn) : IrLearn :=
  (List.range (s.ctrl.waveSeriesCnt + 1)).foldl copyEntry
    { s with
      irLearnResult.irLearnCarrierCycle := s.ctrl.carrCycleInterval
      irLearnResult.irLearnWaveNum := s.ctrl.waveSeriesCnt }

/-- `ir_learn_send`, one entry. -/
def sendEntry (s : IrLearn) (i : ℕ) : IrLearn :=
  let isCarrier := decide (i % 2 = 0)
  let pulses := s.irLearnResult.irLenrnSendBuf.get i / s.irLearnResult.irLearnCarrierCycle
  { s with
    irLearnResult.irLenrnSendBuf := s.irLearnResult.irLenrnSendBuf.touch i
    irSendDmaData.data := s.irSendDmaData.data.set s.irSendDmaData.dataNum
      (pwmConfigDmaFifoWaveform isCarrier pulses.toUInt16)
    irSendDmaData.dataNum := s.irSendDmaData.dataNum + 1 }

/-- `ir_learn_send`. -/
def irLearnSend (s : IrLearn) (sending : Bool) : IrLearn :=
  if sending then s
  else
    let s := (List.range (s.irLearnResult.irLearnWaveNum + 1)).foldl sendEntry
      { s with irSendDmaData.dataNum := 0 }
    { s with irSendDmaData.dmaLen := s.irSendDmaData.dataNum * 2 }

/-- One step. What the main loop does it does outside of `ir_learn_detect`. -/
def step (s : IrLearn) : IrEvent → IrLearn
  | .edge tm => { s with ctrl := s.ctrl.irLearnIrqHandler tm }
  | .detect now => s.detectStep now
  | .start now => if s.pc = .idle then { s with ctrl := s.ctrl.irLearnStart now } else s
  | .copyResult =>
    if s.pc = .idle ∧ s.ctrl.irLearnState = .success then s.irLearnCopyResult else s
  | .send sending => if s.pc = .idle then s.irLearnSend sending else s

/-- **Uninterrupted**, the steps of `ir_learn_detect` come back with what it computes. -/
theorem exists_detectStep (s : IrLearn) (hpc : s.pc = .idle) (now : UInt32) :
    ∃ n, 0 < n ∧ (fun t => t.detectStep now)^[n] s =
      { s with ctrl := s.ctrl.irLearnDetect now } := by
  obtain ⟨c, pc, r, d⟩ := s
  obtain rfl : pc = .idle := hpc
  by_cases hwait : c.irLearnState = .waitKey
  · by_cases htick : clockTimeExceed now c.irLearnTick irLearnOvertimeThreshold = true
    · exact ⟨3, by omega, by simp [detectStep, IrLearnCtrl.irLearnDetect, hwait, htick]⟩
    · exact ⟨4, by omega, by simp [detectStep, IrLearnCtrl.irLearnDetect, hwait, htick]⟩
  by_cases hbegin : c.irLearnState = .begin
  · by_cases hlate : clockTimeExceed now c.currTriggerTmPoint (irLearnEndThreshold.toNat / 16) = true
    · by_cases hfew : carrAndNoCarrMinNumber < c.waveSeriesCnt
      · exact ⟨6, by omega, by
          simp [detectStep, IrLearnCtrl.irLearnDetect, hbegin, hlate, hfew]⟩
      · exact ⟨5, by omega, by
          simp [detectStep, IrLearnCtrl.irLearnDetect, hbegin, hlate, hfew]⟩
    · exact ⟨4, by omega, by simp [detectStep, IrLearnCtrl.irLearnDetect, hbegin, hlate]⟩
  by_cases hend : c.irLearnState = .sampleEnd
  · by_cases hfew : carrAndNoCarrMinNumber < c.waveSeriesCnt
    · exact ⟨6, by omega, by simp [detectStep, IrLearnCtrl.irLearnDetect, hend, hfew]⟩
    · exact ⟨5, by omega, by simp [detectStep, IrLearnCtrl.irLearnDetect, hend, hfew]⟩
  · exact ⟨3, by omega, by simp [detectStep, IrLearnCtrl.irLearnDetect, hwait, hbegin, hend]⟩

end IrLearn

end TcBle.Vendor
