import TcBle.Foundation.Run
import TcBle.Vendor.IrLearn

/-!
# The arrays of the learner

Where `ir_record`, `ir_learn_detect`, `ir_learn_copy_result` and `ir_learn_send` access the three arrays
of `MAX_SECTION_NUMBER` entries.

`ir_record` checks the number of the sections behind the write to the section that it opens, so that
the section behind the last one is written before the learner gives up.

## What is proved

* `irLearn_inBounds_iff` — the arrays are kept to exactly if no edge opens that section.
-/

namespace TcBle.Vendor

open TcBle.Foundation TcBle.Foundation.Run

namespace IrLearnCtrl

variable {c : IrLearnCtrl} {tm : UInt32}

/-- What an edge opens a section with: an interval of a carrier behind a gap, or the other way. -/
def OpensSection (c : IrLearnCtrl) (tm : UInt32) : Prop :=
  c.Later ∧
    if c.intervalTo tm < irLearnIntervalThreshold then c.carrOrNot = false
    else irLearnIntervalThreshold < c.intervalTo tm ∧ c.intervalTo tm < irLearnEndThreshold ∧
      c.carrOrNot = true

instance (c : IrLearnCtrl) (tm : UInt32) : Decidable (c.OpensSection tm) :=
  inferInstanceAs (Decidable (_ ∧ _))

/-- A late edge opens no section. -/
theorem OpensSection.not_end (h : c.OpensSection tm) : ¬ irLearnEndThreshold < c.intervalTo tm := by
  intro hend
  have hcases := h.2
  split at hcases
  case isTrue hcarrier => exact UInt32.lt_asymm (UInt32.lt_trans (by decide) hend) hcarrier
  case isFalse => exact UInt32.lt_asymm hend hcases.2.1

/-- Neither does one at a threshold. -/
theorem OpensSection.not_threshold (h : c.OpensSection tm) :
    ¬ (c.intervalTo tm = irLearnIntervalThreshold ∨ c.intervalTo tm = irLearnEndThreshold) := by
  have hcases := h.2
  rintro (hthr | hend)
  · rw [hthr, if_neg (UInt32.lt_irrefl _)] at hcases
    exact UInt32.lt_irrefl _ hcases.1
  · rw [hend, if_neg (by decide)] at hcases
    exact UInt32.lt_irrefl _ hcases.2.1

/-- The section in hand, and the entries that were accessed, are in the array. -/
structure Kept (c : IrLearnCtrl) : Prop where
  /-- The section. -/
  cnt : c.waveSeriesCnt < maxSectionNumber
  /-- What was accessed. -/
  buf : c.waveSeriesBuf.InBounds maxSectionNumber

/-! ### `ir_record` -/

/-- What an edge does to the sections: it opens one, whose entry it then writes, or none. -/
theorem irRecord_sections (h : c.Kept) (tm : UInt32) :
    (c.irRecord tm).waveSeriesCnt = c.waveSeriesCnt + (if c.OpensSection tm then 1 else 0) ∧
      ((c.irRecord tm).waveSeriesBuf.InBounds maxSectionNumber ↔
        (c.irRecord tm).waveSeriesCnt < maxSectionNumber) := by
  have hsame : ∀ {c' : IrLearnCtrl}, ¬ c.OpensSection tm → c'.waveSeriesCnt = c.waveSeriesCnt →
      c'.waveSeriesBuf = c.waveSeriesBuf →
        c'.waveSeriesCnt = c.waveSeriesCnt + (if c.OpensSection tm then 1 else 0) ∧
          (c'.waveSeriesBuf.InBounds maxSectionNumber ↔ c'.waveSeriesCnt < maxSectionNumber) := by
    intro c' hopens hcnt hbuf
    rw [if_neg hopens, hcnt, hbuf]
    exact ⟨rfl, iff_of_true h.buf h.cnt⟩
  by_cases hfirst : c.irEnterIrqCnt + 1 = 1
  · rw [irRecord_first hfirst]
    exact hsame (fun hopens => hopens.1.1 hfirst) rfl rfl
  by_cases hsecond : c.irEnterIrqCnt + 1 = 2
  · rw [irRecord_second hsecond]
    split <;> exact hsame (fun hopens => hopens.1.2 hsecond) rfl rfl
  have hlater : c.Later := ⟨hfirst, hsecond⟩
  obtain hcarrier | ⟨hgap, hend⟩ | hend | hthr := irInterval_kinds (c.intervalTo tm)
  · have hopens : c.OpensSection tm ↔ c.carrOrNot = false := by
      rw [OpensSection, if_pos hcarrier, and_iff_right hlater]
    rw [irRecord_carrier hlater hcarrier, recordEnd_waveSeriesCnt, recordEnd_waveSeriesBuf]
    cases hc : c.carrOrNot with
    | true =>
      rw [if_neg (by simp [hopens, hc])]
      simpa [recordCarrier, recordBegin, hc] using LoggedArray.inBounds_set_natCast h.buf _ _
    | false =>
      rw [if_pos (hopens.mpr hc)]
      simpa [recordCarrier, recordBegin, hc] using
        LoggedArray.inBounds_set_natCast h.buf (c.waveSeriesCnt + 1) _
  · have hopens : c.OpensSection tm ↔ c.carrOrNot = true := by
      rw [OpensSection, if_neg (UInt32.lt_asymm hgap), and_iff_right hlater, and_iff_right hgap,
        and_iff_right hend]
    rw [irRecord_gap hlater hgap hend]
    cases hc : c.carrOrNot with
    | true =>
      rw [if_pos rfl, recordEnd_waveSeriesCnt, recordEnd_waveSeriesBuf, if_pos (hopens.mpr hc)]
      have hclosed := (LoggedArray.inBounds_set_natCast h.buf c.waveSeriesCnt
        (c.waveSeriesBuf.get c.waveSeriesCnt + c.carrFirstInterval)).mpr h.cnt
      exact ⟨rfl, LoggedArray.inBounds_set_natCast hclosed (c.waveSeriesCnt + 1) _⟩
    | false => exact hsame (by simp [hopens, hc]) rfl rfl
  · rw [irRecord_end hlater hend]
    refine hsame (fun hopens => ?_) (recordEnd_waveSeriesCnt _) (recordEnd_waveSeriesBuf _)
    exact hopens.not_end hend
  · rw [irRecord_threshold hlater hthr]
    refine hsame (fun hopens => ?_) (recordEnd_waveSeriesCnt _) (recordEnd_waveSeriesBuf _)
    exact hopens.not_threshold hthr

/-- The edge finds the last section of the array in hand, and opens one behind it. -/
def Overflows (c : IrLearnCtrl) (tm : UInt32) : Prop :=
  c.Admits ∧ c.OpensSection tm ∧ c.waveSeriesCnt + 1 = maxSectionNumber

/-- An edge that opens no section behind the array. -/
theorem Kept.irLearnIrqHandler (h : c.Kept) (htm : ¬ c.Overflows tm) :
    (c.irLearnIrqHandler tm).Kept ∧ c.waveSeriesCnt ≤ (c.irLearnIrqHandler tm).waveSeriesCnt := by
  rw [IrLearnCtrl.irLearnIrqHandler]
  split
  case isFalse => exact ⟨h, le_rfl⟩
  case isTrue hadmits =>
    obtain ⟨hcnt, hbuf⟩ := irRecord_sections h tm
    have hlt : (c.irRecord tm).waveSeriesCnt < maxSectionNumber := by
      have := h.cnt
      rw [hcnt]
      split
      case isTrue hopens => exact lt_of_le_of_ne this fun heq => htm ⟨hadmits, hopens, heq⟩
      case isFalse => simpa using this
    exact ⟨⟨hlt, hbuf.mpr hlt⟩, by rw [hcnt]; omega⟩

/-- One that does. -/
theorem not_inBounds_of_overflows (h : c.Kept) (htm : c.Overflows tm) :
    ¬ (c.irLearnIrqHandler tm).waveSeriesBuf.InBounds maxSectionNumber := by
  obtain ⟨hadmits, hopens, hfull⟩ := htm
  obtain ⟨hcnt, hbuf⟩ := irRecord_sections h tm
  rw [IrLearnCtrl.irLearnIrqHandler, if_pos hadmits, hbuf, hcnt, if_pos hopens, hfull]
  exact lt_irrefl _

/-- The last carrier goes to the section before the one in hand. -/
theorem Kept.addLastCarrier (h : c.Kept) (hcnt : 0 < c.waveSeriesCnt) : c.addLastCarrier.Kept := by
  refine ⟨h.cnt, LoggedArray.inBounds_set.mpr ⟨h.buf, ?_, ?_⟩⟩
  · omega
  · have := h.cnt
    omega

end IrLearnCtrl

namespace IrLearn

/-- Switched on. -/
def boot : IrLearn where
  ctrl := .off
  pc := .idle
  irLearnResult := ⟨0, 0, ⟨fun _ => 0, []⟩⟩
  irSendDmaData := ⟨0, ⟨fun _ => 0, []⟩, 0⟩

/-- Every access was to an entry of its array. -/
structure InBounds (s : IrLearn) : Prop where
  /-- `wave_series_buf`. -/
  wave : s.ctrl.waveSeriesBuf.InBounds maxSectionNumber
  /-- `ir_lenrn_send_buf`. -/
  send : s.irLearnResult.irLenrnSendBuf.InBounds maxSectionNumber
  /-- `data`. -/
  dma : s.irSendDmaData.data.InBounds maxSectionNumber

/-- What the steps keep. -/
structure Ok (s : IrLearn) : Prop where
  /-- The learner. -/
  ctrl : s.ctrl.Kept
  /-- What was copied. -/
  wavesNum : s.irLearnResult.irLearnWaveNum < maxSectionNumber
  /-- `ir_lenrn_send_buf`. -/
  send : s.irLearnResult.irLenrnSendBuf.InBounds maxSectionNumber
  /-- `data`. -/
  dma : s.irSendDmaData.data.InBounds maxSectionNumber
  /-- Behind the count of the sections there are some. -/
  counted : s.pc = .success ∨ s.pc = .lastCarrier → 0 < s.ctrl.waveSeriesCnt

variable {s : IrLearn}

theorem Ok.inBounds (h : s.Ok) : s.InBounds := ⟨h.ctrl.buf, h.send, h.dma⟩

/-- The main loop goes on, and may set the state of the learner. -/
theorem Ok.goto (h : s.Ok) (st : IrLearnState) {pc : DetectPc}
    (hpc : pc = .success ∨ pc = .lastCarrier → 0 < s.ctrl.waveSeriesCnt) :
    { s with ctrl := { s.ctrl with irLearnState := st }, pc := pc : IrLearn }.Ok :=
  ⟨⟨h.ctrl.cnt, h.ctrl.buf⟩, h.wavesNum, h.send, h.dma, hpc⟩

/-! ### The steps -/

theorem Ok.detectStep (h : s.Ok) (now : UInt32) : (s.detectStep now).Ok := by
  rw [IrLearn.detectStep]
  cases hpc : s.pc with
  | idle => exact h.goto s.ctrl.irLearnState (by split <;> simp)
  | waitTick => exact h.goto s.ctrl.irLearnState (by split <;> simp)
  | overTime => exact h.goto .failWaitOverTime (by simp)
  | beginState => exact h.goto s.ctrl.irLearnState (by split <;> simp)
  | beginTick => exact h.goto s.ctrl.irLearnState (by split <;> simp)
  | endState => exact h.goto s.ctrl.irLearnState (by split <;> simp)
  | waveNum =>
    refine h.goto s.ctrl.irLearnState ?_
    split
    case isTrue hcnt => exact fun _ => Nat.zero_lt_of_lt hcnt
    case isFalse => simp
  | success => exact h.goto .success fun _ => h.counted (.inl hpc)
  | lastCarrier =>
    exact ⟨h.ctrl.addLastCarrier (h.counted (.inr hpc)), h.wavesNum, h.send, h.dma, by simp⟩
  | tooFew => exact h.goto .failWaveNumTooFew (by simp)

theorem Ok.copyEntry (h : s.Ok) {i : ℕ} (hi : i < maxSectionNumber) : (s.copyEntry i).Ok := by
  have hbound : (0 : ℤ) ≤ i ∧ (i : ℤ) < maxSectionNumber := ⟨by omega, by exact_mod_cast hi⟩
  exact ⟨⟨h.ctrl.cnt, LoggedArray.inBounds_touch.mpr ⟨h.ctrl.buf, hbound⟩⟩, h.wavesNum,
    LoggedArray.inBounds_set.mpr ⟨h.send, hbound⟩, h.dma, h.counted⟩

/-- What is copied are the sections, which are in the array with the one in hand. -/
theorem Ok.irLearnCopyResult (h : s.Ok) : s.irLearnCopyResult.Ok := by
  refine List.foldlRecOn _ _ ⟨h.ctrl, h.ctrl.cnt, h.send, h.dma, h.counted⟩ fun t ht i hi => ?_
  refine ht.copyEntry ?_
  have hcnt := h.ctrl.cnt
  have := List.mem_range.mp hi
  omega

theorem Ok.sendEntry (h : s.Ok) {i : ℕ} (hi : i < maxSectionNumber)
    (hdata : s.irSendDmaData.dataNum < maxSectionNumber) : (s.sendEntry i).Ok :=
  ⟨h.ctrl, h.wavesNum,
    LoggedArray.inBounds_touch.mpr ⟨h.send, by omega, by exact_mod_cast hi⟩,
    LoggedArray.inBounds_set.mpr ⟨h.dma, by omega, by exact_mod_cast hdata⟩, h.counted⟩

/-- The entries are sent to as many. -/
theorem Ok.foldl_sendEntry (h : s.Ok) (hdata : s.irSendDmaData.dataNum = 0) {n : ℕ}
    (hn : n ≤ maxSectionNumber) :
    ((List.range n).foldl IrLearn.sendEntry s).Ok ∧
      ((List.range n).foldl IrLearn.sendEntry s).irSendDmaData.dataNum = n := by
  induction n with
  | zero => exact ⟨h, hdata⟩
  | succ n ih =>
    obtain ⟨hok, hnum⟩ := ih (Nat.le_of_succ_le hn)
    rw [List.range_succ, List.foldl_append]
    exact ⟨hok.sendEntry hn (by rw [hnum]; exact hn), congrArg (· + 1) hnum⟩

theorem Ok.irLearnSend (h : s.Ok) (sending : Bool) : (s.irLearnSend sending).Ok := by
  rw [IrLearn.irLearnSend]
  split
  · exact h
  · have hstart : { s with irSendDmaData.dataNum := 0 : IrLearn }.Ok :=
      ⟨h.ctrl, h.wavesNum, h.send, h.dma, h.counted⟩
    obtain ⟨hok, -⟩ := hstart.foldl_sendEntry rfl (Nat.succ_le_of_lt h.wavesNum)
    exact ⟨hok.ctrl, hok.wavesNum, hok.send, hok.dma, hok.counted⟩

/-- An edge does not open a section behind the array. -/
def Fits (s : IrLearn) : IrEvent → Prop
  | .edge tm => ¬ s.ctrl.Overflows tm
  | _ => True

theorem Ok.step (h : s.Ok) {e : IrEvent} (he : s.Fits e) : (s.step e).Ok := by
  cases e with
  | edge tm =>
    obtain ⟨hkept, hcnt⟩ := h.ctrl.irLearnIrqHandler he
    exact ⟨hkept, h.wavesNum, h.send, h.dma, fun hpc => lt_of_lt_of_le (h.counted hpc) hcnt⟩
  | start now =>
    rw [IrLearn.step]
    split
    case isTrue hidle =>
      exact ⟨⟨Nat.zero_lt_of_lt h.ctrl.cnt, h.ctrl.buf⟩, h.wavesNum, h.send, h.dma, by simp [hidle]⟩
    case isFalse => exact h
  | detect now => exact h.detectStep now
  | copyResult =>
    rw [IrLearn.step]
    split
    · exact h.irLearnCopyResult
    · exact h
  | send sending =>
    rw [IrLearn.step]
    split
    · exact h.irLearnSend sending
    · exact h

theorem boot_ok : boot.Ok where
  ctrl := ⟨by decide, by decide⟩
  wavesNum := by decide
  send := by decide
  dma := by decide
  counted := by decide

/-- **Which runs keep to the arrays**: exactly those in which no edge opens a section behind the
last one. -/
theorem irLearn_inBounds_iff (run : List IrEvent) :
    (∀ pre, pre <+: run → (pre.foldl step boot).InBounds) ↔ Along step Fits boot run := by
  refine Along.iff_forall_prefix boot_ok (fun s h => h.inBounds) (fun s e h he => h.step he)
    (fun s e h he hbounds => ?_) run
  cases e with
  | edge tm =>
    exact IrLearnCtrl.not_inBounds_of_overflows h.ctrl (not_not.mp he) hbounds.wave
  | start now => exact he trivial
  | detect now => exact he trivial
  | copyResult => exact he trivial
  | send sending => exact he trivial

/-- The edges of so many bursts of two edges each. -/
def shortBursts : ℕ → List IrEvent
  | 0 => []
  | n + 1 => shortBursts n ++
    [.edge (UInt32.ofNat (10000 * n + 10000)), .edge (UInt32.ofNat (10000 * n + 10500))]

/-- A remote that sends 51 bursts writes behind the array. -/
theorem irLearn_out_of_bounds :
    ¬ ((IrEvent.start 0 :: shortBursts 51).foldl step boot).InBounds := fun h => by
  have hbuf := h.wave
  revert hbuf
  decide +kernel

end IrLearn

end TcBle.Vendor
