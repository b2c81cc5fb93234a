import Mathlib.Data.List.Forall2
import Mathlib.Order.MinMax
import TcBle.Foundation.Bursts
import TcBle.Vendor.IrLearn

/-!
# What the learner learns

What `ir_record` makes of a signal, against the bursts and gaps that the signal consists of.

The carrier cycle is the longest of the second to the eleventh interval, whatever these are, where
the comment in the source asks for the shortest: behind a short first burst it is a gap. The last
carrier is added to the entry before the section in hand, and a last burst of a single edge is no
section.

## What is proved

* `Recorded.irRecord` — what one edge keeps.
* `exists_recorded` — what a signal leaves, with or without an edge that ends it.
* `irLearn_result_iff` — from which signals the right thing is learned.
-/

namespace TcBle.Vendor

open TcBle.Foundation TcBle.Foundation.Bursts

/-- What `ir_learn_ctrl` sees, where nothing interrupts `ir_learn_detect`. -/
inductive IrLearnInput where
  /-- An edge interrupts. -/
  | edge (tm : UInt32)
  /-- The main loop calls `ir_learn_detect`. -/
  | detect (now : UInt32)
  deriving DecidableEq

/-- The edges of a run. -/
def edges (run : List IrLearnInput) : List UInt32 :=
  run.filterMap fun
    | .edge tm => some tm
    | .detect _ => none

/-- The intervals up to some edges from a first one. -/
def intervalsFrom : UInt32 → List UInt32 → List ℕ
  | _, [] => []
  | last, tm :: tms => (tm - last).toNat :: intervalsFrom tm tms

/-- The intervals between edges. -/
def intervals : List UInt32 → List ℕ
  | [] => []
  | tm :: tms => intervalsFrom tm tms

/-- The intervals up to the first one that ends the signal. -/
def beforeEnd (is : List ℕ) : List ℕ := is.takeWhile (· < irLearnEndThreshold.toNat)

/-- The intervals of the signal. -/
def signal (tms : List UInt32) : List ℕ := beforeEnd (intervals tms)

/-- How many edges the signal has, with the one that ends it. -/
def heard (tms : List UInt32) : ℕ := min tms.length ((signal tms).length + 2)

/-- An interval of a carrier. -/
abbrev IrShort (i : ℕ) : Prop := i < irLearnIntervalThreshold.toNat

/-- The intervals that the carrier is chosen from. -/
def carrierChoice (is : List ℕ) : List ℕ := (is.take (irCarrCheckCnt + 1)).tail

/-- **What is to be learned**: an interval of a burst, and the bursts and gaps up to that. -/
structure Learned (is : List ℕ) (c : IrLearnCtrl) : Prop where
  /-- The carrier. -/
  carrier : ∃ i ∈ is, IrShort i ∧ c.carrCycleInterval.toNat = i
  /-- The sections. -/
  sections : List.Forall₂
    (fun r s => r ≤ s + c.carrCycleInterval.toNat ∧ s ≤ r + c.carrCycleInterval.toNat)
    ((List.range (c.waveSeriesCnt + 1)).map fun j => (c.waveSeriesBuf.get j).toNat)
    (sections IrShort is)

/-- **When it is learned**: the first burst is at least as long as the choice of the carrier, one of
the intervals behind the first one is as long as that, and the last burst has two edges. -/
structure Learnable (is : List ℕ) : Prop where
  /-- The first burst. -/
  first : ∀ i ∈ is.take (irCarrCheckCnt + 1), IrShort i
  /-- The first interval. -/
  longest : ∃ i ∈ carrierChoice is, is.headD 0 ≤ i
  /-- The last burst. -/
  last : ∀ i ∈ is.getLast?, IrShort i

/-! ### Lists of intervals -/

theorem carrierChoice_concat {is : List ℕ} (hne : is ≠ []) (i : ℕ) :
    carrierChoice (is ++ [i]) =
      if is.length - 1 < irCarrCheckCnt then carrierChoice is ++ [i] else carrierChoice is := by
  obtain ⟨j, js, rfl⟩ := List.exists_cons_of_ne_nil hne
  simp only [carrierChoice, List.cons_append, List.take_succ_cons, List.tail_cons,
    List.length_cons, Nat.add_sub_cancel]
  split
  case isTrue hlt =>
    rw [List.take_of_length_le (by simpa using Nat.succ_le_of_lt hlt), List.take_of_length_le hlt.le]
  case isFalse hge => rw [List.take_append_of_le_length (by omega)]

/-- The burst in hand takes no longer than its intervals can. -/
theorem hand_split_le (is : List ℕ) :
    (split IrShort is).hand ≤ irLearnIntervalThreshold.toNat * is.length := by
  induction is using List.reverseRecOn with
  | nil => exact le_rfl
  | append_singleton is i ih =>
    rw [split_concat, List.length_append, List.length_singleton, Nat.mul_succ]
    by_cases hi : IrShort i
    · rw [Split.push_of_short hi]
      exact Nat.add_le_add ih (le_of_lt hi)
    · rw [Split.push_of_long hi]
      exact Nat.zero_le _

/-- The first entries of an array, against a list. -/
theorem forall₂_map_range {R : ℕ → ℕ → Prop} {n : ℕ} {f : ℕ → ℕ} {l : List ℕ} :
    List.Forall₂ R ((List.range n).map f) l ↔
      n = l.length ∧ ∀ j v, l[j]? = some v → R (f j) v := by
  rw [List.forall₂_iff_get]
  simp only [List.length_map, List.length_range, List.get_eq_getElem, List.getElem_map,
    List.getElem_range]
  refine and_congr_right fun hn => ⟨fun h j v hv => ?_, fun h j _ hj => ?_⟩
  · obtain ⟨hj, rfl⟩ := List.getElem?_eq_some_iff.mp hv
    exact h j (hn ▸ hj) hj
  · exact h j _ (List.getElem?_eq_getElem hj)

/-- An interval, and what it is when it is in a range. -/
theorem irInterval_cases {i : UInt32}
    (h : i.toNat ≠ irLearnIntervalThreshold.toNat ∧ i.toNat ≠ irLearnEndThreshold.toNat) :
    i < irLearnIntervalThreshold ∨ (irLearnIntervalThreshold < i ∧ i < irLearnEndThreshold) ∨
      irLearnEndThreshold < i := by
  obtain hi | hi | hi | hi | hi := IrLearnCtrl.irInterval_kinds i
  · exact .inl hi
  · exact .inr (.inl hi)
  · exact .inr (.inr hi)
  · exact absurd (congrArg UInt32.toNat hi) h.1
  · exact absurd (congrArg UInt32.toNat hi) h.2

namespace IrLearnCtrl

/-- What `ir_learn_ctrl` is after an input. -/
def onInput (c : IrLearnCtrl) : IrLearnInput → IrLearnCtrl
  | .edge tm => c.irLearnIrqHandler tm
  | .detect now => c.irLearnDetect now

/-! ### The sections -/

/-- What the entry of a section is that is over: a burst with the first interval, or a gap without a
third of it. -/
def Closed (first j r v : ℕ) : Prop :=
  if j % 2 = 0 then r = v + first
  else IrShort first ∧ irLearnIntervalThreshold.toNat < v ∧ v < irLearnEndThreshold.toNat ∧
    r + first / 3 = v

/-- The sections, but the burst in hand. -/
structure Sectioned (s : Split ℕ) (c : IrLearnCtrl) : Prop where
  /-- Where the burst in hand began. -/
  start : c.carrSwitchStartTmPoint = c.lastTriggerTmPoint - UInt32.ofNat s.hand
  /-- In a burst. -/
  burst : c.carrOrNot = true → c.waveSeriesCnt = s.closed.length
  /-- Behind a gap. -/
  gap : c.carrOrNot = false → c.waveSeriesCnt + 1 = s.closed.length ∧ s.hand = 0
  /-- The entries. -/
  closed : ∀ j v, s.closed[j]? = some v →
    Closed c.carrFirstInterval.toNat j (c.waveSeriesBuf.get j).toNat v

/-- What some intervals of a signal leave. -/
structure Recorded (is : List ℕ) (c : IrLearnCtrl) : Prop where
  /-- It goes on. -/
  state : c.irLearnState = .begin
  /-- The edges. -/
  irq : c.irEnterIrqCnt = UInt16.ofNat (is.length + 1)
  /-- The first interval. -/
  first : ∀ i ∈ is.head?, IrShort i ∧ c.carrFirstInterval.toNat = i
  /-- How many intervals the carrier was chosen from. -/
  check : c.carrCheckCnt = min (is.length - 1) irCarrCheckCnt
  /-- The carrier is the longest of them. -/
  cycle_le : ∀ i ∈ carrierChoice is, i ≤ c.carrCycleInterval.toNat
  /-- It is one of them. -/
  cycle_mem : c.carrCycleInterval.toNat ∈ 0 :: carrierChoice is
  /-- The sections are no more than the intervals behind the first. -/
  cnt : c.waveSeriesCnt ≤ is.length - 1
  /-- Whether a burst is in hand. -/
  carr : ∀ i ∈ is.getLast?, (c.carrOrNot = true ↔ IrShort i)
  /-- The sections. -/
  sections : is ≠ [] → (∀ i ∈ is.take 2, IrShort i) → c.Sectioned (split IrShort is)
  /-- The burst in hand. -/
  hand : 2 ≤ is.length → (∀ i ∈ is.take 2, IrShort i) → c.carrOrNot = true →
    (c.waveSeriesBuf.get c.waveSeriesCnt).toNat = (split IrShort is).hand

/-- There is a signal to come, or one to be looked at. -/
def Pending (c : IrLearnCtrl) : Prop :=
  c.irLearnState = .waitKey ∨ c.irLearnState = .begin ∨ c.irLearnState = .sampleEnd

/-- A start that stays, seen from the next edge. -/
theorem start_concat (last tm : UInt32) (n : ℕ) :
    last - UInt32.ofNat n = tm - UInt32.ofNat (n + (tm - last).toNat) := by
  rw [UInt32.ofNat_add, UInt32.ofNat_toNat]
  grind

theorem sub_start (tm x : UInt32) : tm - (tm - x) = x := by grind

variable {c : IrLearnCtrl} {tm : UInt32} {is : List ℕ}

/-- The first edge. -/
theorem recorded_first (hirq : c.irEnterIrqCnt = 0) (hcheck : c.carrCheckCnt = 0)
    (hcycle : c.carrCycleInterval = 0) (hcnt : c.waveSeriesCnt = 0) (tm : UInt32) :
    Recorded [] (c.irRecord tm) ∧ (c.irRecord tm).lastTriggerTmPoint = tm := by
  rw [irRecord_first (by rw [hirq]; rfl)]
  refine ⟨?_, rfl⟩
  constructor
  case state => rfl
  case irq => simp [recordBegin, hirq]
  case first => simp
  case check => simp [recordBegin, hcheck]
  case cycle_le => simp [carrierChoice]
  case cycle_mem => simp [recordBegin, hcycle]
  case cnt => simp [recordBegin, hcnt]
  case carr => simp
  case sections => simp
  case hand => simp

/-- The second edge. -/
theorem recorded_second (h : Recorded [] c) (hi : c.intervalTo tm < irLearnIntervalThreshold) :
    Recorded [(c.intervalTo tm).toNat] (c.irRecord tm) ∧
      (c.irRecord tm).lastTriggerTmPoint = tm := by
  have hshort : IrShort (c.intervalTo tm).toNat := UInt32.lt_iff_toNat_lt.mp hi
  have hcnt : c.waveSeriesCnt = 0 := Nat.le_zero.mp h.cnt
  have hcycle : c.carrCycleInterval.toNat = 0 := by simpa [carrierChoice] using h.cycle_mem
  rw [irRecord_second (by rw [h.irq]; rfl), if_neg (UInt32.lt_asymm hi)]
  refine ⟨?_, rfl⟩
  constructor
  case state => exact h.state
  case irq => simp [recordBegin, h.irq]
  case first => simp [hshort]
  case check => simpa [recordBegin] using h.check
  case cycle_le => simp [carrierChoice]
  case cycle_mem => simp [recordBegin, hcycle]
  case cnt => simp [recordBegin, hcnt]
  case carr => simp [hshort]
  case sections =>
    intro _ _
    have hsplit : split IrShort [(c.intervalTo tm).toNat] = ⟨[], (c.intervalTo tm).toNat⟩ := by
      simp [split, Split.push_of_short hshort]
    rw [hsplit]
    constructor
    case start =>
      show c.lastTriggerTmPoint = tm - UInt32.ofNat (c.intervalTo tm).toNat
      rw [UInt32.ofNat_toNat]
      exact (sub_start tm _).symm
    case burst => simp [recordBegin, hcnt]
    case gap => simp
    case closed => simp
  case hand => simp

/-- How `ir_record` begins, and goes on with the sections only. -/
structure Begun (c : IrLearnCtrl) (tm : UInt32) (d : IrLearnCtrl) : Prop where
  /-- `ir_enter_irq_cnt`. -/
  irq : d.irEnterIrqCnt = c.irEnterIrqCnt + 1
  /-- `curr_trigger_tm_point`. -/
  curr : d.currTriggerTmPoint = tm
  /-- `time_interval`. -/
  time : d.timeInterval = c.intervalTo tm
  /-- `carr_first_interval`. -/
  first : d.carrFirstInterval = c.carrFirstInterval
  /-- `carr_check_cnt`. -/
  check : d.carrCheckCnt = c.carrCheckCnt
  /-- `carr_cycle_interval`. -/
  cycle : d.carrCycleInterval = c.carrCycleInterval

/-- A third or later edge, whatever it makes of the sections. -/
theorem Recorded.concat (h : Recorded is c) (hne : is ≠ []) {d : IrLearnCtrl} (hd : c.Begun tm d)
    (hstate : d.recordEnd.irLearnState = .begin) (hcnt : d.waveSeriesCnt ≤ is.length)
    (hcarr : d.carrOrNot = true ↔ IrShort (c.intervalTo tm).toNat)
    (hsections : (∀ i ∈ (is ++ [(c.intervalTo tm).toNat]).take 2, IrShort i) →
      d.recordEnd.Sectioned (split IrShort (is ++ [(c.intervalTo tm).toNat])))
    (hhand : (∀ i ∈ (is ++ [(c.intervalTo tm).toNat]).take 2, IrShort i) → d.carrOrNot = true →
      (d.waveSeriesBuf.get d.waveSeriesCnt).toNat =
        (split IrShort (is ++ [(c.intervalTo tm).toNat])).hand) :
    Recorded (is ++ [(c.intervalTo tm).toNat]) d.recordEnd := by
  have hlen : 0 < is.length := List.length_pos_iff.mpr hne
  have hcheck : c.carrCheckCnt < irCarrCheckCnt ↔ is.length - 1 < irCarrCheckCnt := by
    rw [h.check]
    omega
  constructor
  case state => exact hstate
  case irq =>
    rw [recordEnd_irEnterIrqCnt, hd.irq, h.irq, List.length_append, List.length_singleton,
      UInt16.ofNat_add (is.length + 1)]
    rfl
  case first =>
    obtain ⟨j, js, rfl⟩ := List.exists_cons_of_ne_nil hne
    rw [recordEnd_carrFirstInterval, hd.first]
    exact h.first
  case check =>
    rw [recordEnd_carrCheckCnt, hd.check, h.check, List.length_append, List.length_singleton]
    split <;> omega
  case cycle_le =>
    rw [recordEnd_carrCycleInterval, carrierChoice_concat hne, hd.check, hd.cycle, hd.time]
    by_cases hlt : is.length - 1 < irCarrCheckCnt
    · rw [if_pos hlt, if_pos (hcheck.mpr hlt)]
      intro i hi
      obtain hi | hi := List.mem_append.mp hi
      · exact le_max_of_le_left (h.cycle_le i hi)
      · exact le_max_of_le_right (List.mem_singleton.mp hi).le
    · rw [if_neg hlt, if_neg (mt hcheck.mp hlt)]
      exact h.cycle_le
  case cycle_mem =>
    rw [recordEnd_carrCycleInterval, carrierChoice_concat hne, hd.check, hd.cycle, hd.time]
    by_cases hlt : is.length - 1 < irCarrCheckCnt
    · rw [if_pos hlt, if_pos (hcheck.mpr hlt)]
      obtain hmax | hmax := max_choice c.carrCycleInterval.toNat (c.intervalTo tm).toNat
      · rw [hmax]
        exact List.mem_append_left _ h.cycle_mem
      · rw [hmax]
        exact List.mem_append_right (0 :: carrierChoice is) (List.mem_singleton_self _)
    · rw [if_neg hlt, if_neg (mt hcheck.mp hlt)]
      exact h.cycle_mem
  case cnt => simpa using hcnt
  case carr => simpa using hcarr
  case sections => exact fun _ => hsections
  case hand => simpa using fun _ => hhand

/-- The first intervals are still the first. -/
theorem take_two_of_concat {i : ℕ} (h : ∀ j ∈ (is ++ [i]).take 2, IrShort j) :
    ∀ j ∈ is.take 2, IrShort j := fun j hj =>
  h j (by rw [List.take_append]; exact List.mem_append_left _ hj)

/-- What a burst takes does not overflow. -/
theorem toNat_burst {n : ℕ} (hn : n < 2 ^ 16) {hand i : ℕ}
    (hhand : hand ≤ irLearnIntervalThreshold.toNat * n) (hi : IrShort i) :
    (UInt32.ofNat (hand + i)).toNat = hand + i := by
  have hthr : irLearnIntervalThreshold.toNat = 1066 := rfl
  rw [IrShort, hthr] at hi
  rw [hthr] at hhand
  rw [UInt32.toNat_ofNat_of_lt']
  show hand + i < 2 ^ 32
  omega

/-- An interval of a carrier. -/
theorem Recorded.carrier (h : Recorded is c) (hne : is ≠ []) (hlater : c.Later)
    (hlen : is.length < 2 ^ 16) (hi : c.intervalTo tm < irLearnIntervalThreshold)
    (hstate : (c.irRecord tm).irLearnState = .begin) :
    Recorded (is ++ [(c.intervalTo tm).toNat]) (c.irRecord tm) := by
  have hshort : IrShort (c.intervalTo tm).toNat := UInt32.lt_iff_toNat_lt.mp hi
  have hsplit := split_concat IrShort is (c.intervalTo tm).toNat
  rw [Split.push_of_short hshort] at hsplit
  rw [irRecord_carrier hlater hi] at hstate ⊢
  set d := (c.recordBegin tm).recordCarrier with hd
  rw [recordCarrier_eq] at hd
  have hcnt : d.waveSeriesCnt = c.carrierSection := by rw [hd]; rfl
  have hswitch : d.carrSwitchStartTmPoint = c.carrSwitchStartTmPoint := by rw [hd]; rfl
  have hbuf : d.waveSeriesBuf = c.waveSeriesBuf.set c.carrierSection
      (tm - c.carrSwitchStartTmPoint) := by rw [hd]; rfl
  have hcarr : d.carrOrNot = true := by rw [hd]
  -- the section is the one behind those that are over
  have hclosed : c.Sectioned (split IrShort is) →
      c.carrierSection = (split IrShort is).closed.length := fun hs => by
    rw [carrierSection]
    cases hc : c.carrOrNot with
    | true => exact hs.burst hc
    | false => exact (hs.gap hc).1
  have hbegun : c.Begun tm d := by
    rw [hd]
    exact ⟨rfl, rfl, rfl, rfl, rfl, rfl⟩
  refine h.concat hne hbegun hstate ?_ (by simp [hcarr, hshort]) ?_ ?_
  · have := h.cnt
    have := List.length_pos_iff.mpr hne
    rw [hcnt, carrierSection]
    split <;> omega
  · intro htake
    have hs := h.sections hne (take_two_of_concat htake)
    rw [hsplit]
    constructor
    case start =>
      rw [recordEnd_carrSwitchStartTmPoint, recordEnd_lastTriggerTmPoint, hswitch, hs.start,
        hbegun.curr]
      exact start_concat _ _ _
    case burst =>
      intro _
      rw [recordEnd_waveSeriesCnt, hcnt, hclosed hs]
    case gap =>
      intro hc
      rw [recordEnd_carrOrNot, hcarr] at hc
      cases hc
    case closed =>
      intro j v hv
      have hj : j < (split IrShort is).closed.length := (List.getElem?_eq_some_iff.mp hv).1
      rw [recordEnd_carrFirstInterval, recordEnd_waveSeriesBuf, hbuf, hbegun.first,
        LoggedArray.get_set_of_ne _ (by rw [hclosed hs]; omega)]
      exact hs.closed j v hv
  · intro htake _
    have hs := h.sections hne (take_two_of_concat htake)
    rw [hsplit, hcnt, hbuf, LoggedArray.get_set_self, hs.start,
      start_concat c.lastTriggerTmPoint tm (split IrShort is).hand,
      ← toNat_burst hlen (hand_split_le is) hshort]
    exact congrArg UInt32.toNat (sub_start tm _)

/-- The entry of a burst, once the gap behind it begins. -/
theorem closed_burst {first w : UInt32} {hand n j : ℕ} (hj : j % 2 = 0)
    (hfirst : IrShort first.toNat) (hn : n < 2 ^ 16)
    (hhand : hand ≤ irLearnIntervalThreshold.toNat * n) (hw : w.toNat = hand) :
    Closed first.toNat j (w + first).toNat hand := by
  have hburst := toNat_burst hn hhand hfirst
  rw [Closed, if_pos hj, UInt32.toNat_add, hw, Nat.mod_eq_of_lt]
  rw [← hburst]
  exact UInt32.toNat_lt _

/-- The entry of a gap. -/
theorem closed_gap {first i : UInt32} {j : ℕ} (hj : j % 2 ≠ 0) (hfirst : IrShort first.toNat)
    (hthr : irLearnIntervalThreshold.toNat < i.toNat) (hend : i < irLearnEndThreshold) :
    Closed first.toNat j (i - first / 3).toNat i.toNat := by
  have hthird : (first / 3).toNat = first.toNat / 3 := UInt32.toNat_div _ _
  have hle : first.toNat / 3 ≤ i.toNat :=
    le_trans (Nat.div_le_self _ _) (le_trans (le_of_lt hfirst) (le_of_lt hthr))
  have hle' : first / 3 ≤ i := by rwa [UInt32.le_iff_toNat_le, hthird]
  rw [Closed, if_neg hj, UInt32.toNat_sub_of_le _ _ hle', hthird]
  exact ⟨hfirst, hthr, UInt32.lt_iff_toNat_lt.mp hend, Nat.sub_add_cancel hle⟩

/-- A gap. -/
theorem Recorded.gap (h : Recorded is c) (hne : is ≠ []) (hlater : c.Later)
    (hlen : is.length < 2 ^ 16) (hi : irLearnIntervalThreshold < c.intervalTo tm)
    (hend : c.intervalTo tm < irLearnEndThreshold)
    (hstate : (c.irRecord tm).irLearnState = .begin) :
    Recorded (is ++ [(c.intervalTo tm).toNat]) (c.irRecord tm) := by
  have hthr : irLearnIntervalThreshold.toNat < (c.intervalTo tm).toNat := UInt32.lt_iff_toNat_lt.mp hi
  have hlong : ¬ IrShort (c.intervalTo tm).toNat := Nat.not_lt_of_gt hthr
  have hsplit := split_concat IrShort is (c.intervalTo tm).toNat
  rw [Split.push_of_long hlong] at hsplit
  rw [irRecord_gap hlater hi hend] at hstate ⊢
  cases hc : c.carrOrNot with
  | false =>
    rw [hc] at hstate
    cases hstate
  | true =>
  rw [hc, if_pos rfl] at hstate
  rw [if_pos rfl]
  set d := (c.recordBegin tm).recordGap tm with hd
  rw [recordGap_eq] at hd
  have hcnt : d.waveSeriesCnt = c.waveSeriesCnt + 1 := by rw [hd]; rfl
  have hcarr : d.carrOrNot = false := by rw [hd]
  have hswitch : d.carrSwitchStartTmPoint = tm := by rw [hd]
  have hbuf : d.waveSeriesBuf =
      (c.waveSeriesBuf.set c.waveSeriesCnt
        (c.waveSeriesBuf.get c.waveSeriesCnt + c.carrFirstInterval)).set
        (c.waveSeriesCnt + 1 : ℕ) (c.intervalTo tm - c.carrFirstInterval / 3) := by rw [hd]; rfl
  have hbegun : c.Begun tm d := by
    rw [hd]
    exact ⟨rfl, rfl, rfl, rfl, rfl, rfl⟩
  refine h.concat hne hbegun hstate ?_ (by simp [hcarr, hlong]) ?_ (by simp [hcarr])
  · have := h.cnt
    have := List.length_pos_iff.mpr hne
    rw [hcnt]
    omega
  · intro htake
    have hs := h.sections hne (take_two_of_concat htake)
    have htwo : 2 ≤ is.length := by
      by_contra hlt
      exact hlong (htake _ (by
        rw [List.take_of_length_le (by simp; omega)]
        exact List.mem_append_right _ (List.mem_singleton_self _)))
    have hhand := h.hand htwo (take_two_of_concat htake) hc
    have hfirst : IrShort c.carrFirstInterval.toNat := by
      obtain ⟨i, js, rfl⟩ := List.exists_cons_of_ne_nil hne
      obtain ⟨hshort, hval⟩ := h.first i rfl
      rw [hval]
      exact hshort
    rw [hsplit]
    constructor
    case start =>
      rw [recordEnd_carrSwitchStartTmPoint, recordEnd_lastTriggerTmPoint, hswitch, hbegun.curr]
      simp
    case burst =>
      intro hburst
      rw [recordEnd_carrOrNot, hcarr] at hburst
      cases hburst
    case gap =>
      intro _
      rw [recordEnd_waveSeriesCnt, hcnt, hs.burst hc, List.length_append]
      exact ⟨rfl, rfl⟩
    case closed =>
      intro j v hv
      rw [recordEnd_carrFirstInterval, recordEnd_waveSeriesBuf, hbuf, hbegun.first]
      rw [hs.burst hc] at hhand ⊢
      have heven := even_closed IrShort is
      obtain hj | hj | hj := lt_trichotomy j (split IrShort is).closed.length
      · -- a section that is over already
        rw [List.getElem?_append_left hj] at hv
        rw [LoggedArray.get_set_of_ne _ (by omega), LoggedArray.get_set_of_ne _ (by omega)]
        exact hs.closed j v hv
      · -- the burst that the gap ends
        subst hj
        rw [List.getElem?_append_right le_rfl, Nat.sub_self] at hv
        obtain rfl : (split IrShort is).hand = v := by simpa using hv
        rw [LoggedArray.get_set_of_ne _ (by omega), LoggedArray.get_set_self]
        exact closed_burst heven hfirst hlen (hand_split_le is) hhand
      · -- the gap
        have hj : j = (split IrShort is).closed.length + 1 := by
          have := (List.getElem?_eq_some_iff.mp hv).1
          simp only [List.length_append, List.length_cons, List.length_nil] at this
          omega
        subst hj
        rw [List.getElem?_append_right (by omega), Nat.add_sub_cancel_left] at hv
        obtain rfl : (c.intervalTo tm).toNat = v := by simpa using hv
        rw [LoggedArray.get_set_self]
        exact closed_gap (by omega) hfirst hthr hend

/-! ### A signal -/

/-- What is decided stays so. -/
theorem onInput_of_not_pending (h : ¬ c.Pending) (x : IrLearnInput) : c.onInput x = c := by
  obtain ⟨hwait, hbegin, hend⟩ : c.irLearnState ≠ .waitKey ∧ c.irLearnState ≠ .begin ∧
      c.irLearnState ≠ .sampleEnd := by simpa [Pending] using h
  cases x with
  | edge tm => exact if_neg (by simp [Admits, hwait, hbegin])
  | detect now => simp [onInput, irLearnDetect, hwait, hbegin, hend]

theorem foldl_of_not_pending (h : ¬ c.Pending) (run : List IrLearnInput) :
    run.foldl onInput c = c := by
  induction run with
  | nil => rfl
  | cons x run ih => rw [List.foldl_cons, onInput_of_not_pending h, ih]

/-- Behind the end of the signal no edge is recorded. -/
theorem foldl_of_not_admits (h : ¬ c.Admits) (tms : List UInt32) :
    tms.foldl irLearnIrqHandler c = c := by
  induction tms with
  | nil => rfl
  | cons tm tms ih => rw [List.foldl_cons, show c.irLearnIrqHandler tm = c from if_neg h, ih]

/-- `ir_learn_detect` decides, or does nothing. -/
theorem irLearnDetect_eq_or (c : IrLearnCtrl) (now : UInt32) :
    c.irLearnDetect now = c ∨ ¬ (c.irLearnDetect now).Pending := by
  rw [irLearnDetect]
  split
  · exact .inr (by simp [Pending])
  split
  · split
    · exact .inr (by simp [Pending, addLastCarrier])
    · exact .inr (by simp [Pending])
  · exact .inl rfl

/-- As long as nothing is decided, only the edges count. -/
theorem foldl_eq_edges {run : List IrLearnInput} (h : (run.foldl onInput c).Pending) :
    run.foldl onInput c = (edges run).foldl irLearnIrqHandler c := by
  induction run generalizing c with
  | nil => rfl
  | cons x run ih =>
    rw [List.foldl_cons] at h ⊢
    cases x with
    | edge tm => exact ih h
    | detect now =>
      obtain hsame | hdecided := irLearnDetect_eq_or c now
      · rw [show c.onInput (.detect now) = c from hsame] at h ⊢
        exact ih h
      · rw [show c.onInput (.detect now) = c.irLearnDetect now from rfl,
          foldl_of_not_pending hdecided] at h
        exact absurd h hdecided

/-- An edge that ends the signal leaves what there is, if the carrier is chosen. -/
structure Keeps (c c' : IrLearnCtrl) : Prop where
  /-- `wave_series_cnt`. -/
  cnt : c'.waveSeriesCnt = c.waveSeriesCnt
  /-- `wave_series_buf`. -/
  buf : c'.waveSeriesBuf = c.waveSeriesBuf
  /-- `carr_cycle_interval`. -/
  cycle : c.carrCheckCnt = irCarrCheckCnt → c'.carrCycleInterval = c.carrCycleInterval

/-- Unless the sections are too many. -/
theorem recordEnd_irLearnState_of_pending (h : c.recordEnd.Pending) :
    c.recordEnd.irLearnState = c.irLearnState := by
  have hstate := recordEnd_irLearnState c
  split at hstate
  · rw [Pending, hstate] at h
    simp at h
  · exact hstate

theorem Recorded.later (h : Recorded is c) (hne : is ≠ []) (hlen : is.length + 2 ≤ 2 ^ 16) :
    c.Later := by
  have hpos := List.length_pos_iff.mpr hne
  have hirq : (c.irEnterIrqCnt + 1).toNat = (is.length + 2) % 2 ^ 16 := by
    rw [h.irq, show (1 : UInt16) = UInt16.ofNat 1 from rfl, ← UInt16.ofNat_add]
    exact UInt16.toNat_ofNat
  constructor
  · intro hone
    rw [hone, show (1 : UInt16).toNat = 1 from rfl] at hirq
    omega
  · intro htwo
    rw [htwo, show (2 : UInt16).toNat = 2 from rfl] at hirq
    omega

/-- **One edge** of the signal. -/
theorem Recorded.irRecord (h : Recorded is c) (hlen : is.length + 2 ≤ 2 ^ 16)
    (hi : c.intervalTo tm < irLearnIntervalThreshold ∨
      irLearnIntervalThreshold < c.intervalTo tm ∧ c.intervalTo tm < irLearnEndThreshold)
    (hpending : (c.irRecord tm).Pending) :
    Recorded (is ++ [(c.intervalTo tm).toNat]) (c.irRecord tm) ∧
      (c.irRecord tm).lastTriggerTmPoint = tm := by
  by_cases hne : is = []
  · subst hne
    obtain hi | ⟨hi, -⟩ := hi
    · exact recorded_second h hi
    · rw [irRecord_second (by rw [h.irq]; rfl), if_pos hi] at hpending
      exact absurd hpending (by simp [Pending])
  have hlater := h.later hne hlen
  have hlt : is.length < 2 ^ 16 := by omega
  obtain hi | ⟨hi, hend⟩ := hi
  · rw [irRecord_carrier hlater hi] at hpending
    have hstate : (c.irRecord tm).irLearnState = .begin := by
      rw [irRecord_carrier hlater hi, recordEnd_irLearnState_of_pending hpending, recordCarrier_eq]
      exact h.state
    refine ⟨h.carrier hne hlater hlt hi hstate, ?_⟩
    rw [irRecord_carrier hlater hi, recordEnd_lastTriggerTmPoint, recordCarrier_eq]
    rfl
  · rw [irRecord_gap hlater hi hend] at hpending
    cases hc : c.carrOrNot with
    | false =>
      rw [hc] at hpending
      exact absurd hpending (by simp [Pending])
    | true =>
      rw [hc, if_pos rfl] at hpending
      have hgap : c.irRecord tm = ((c.recordBegin tm).recordGap tm).recordEnd := by
        rw [irRecord_gap hlater hi hend, hc, if_pos rfl]
      have hstate : (c.irRecord tm).irLearnState = .begin := by
        rw [hgap, recordEnd_irLearnState_of_pending hpending]
        exact h.state
      refine ⟨h.gap hne hlater hlt hi hend hstate, ?_⟩
      rw [hgap, recordEnd_lastTriggerTmPoint]
      rfl

/-- **The edge that ends the signal**. -/
theorem Recorded.irRecord_end (h : Recorded is c) (hlen : is.length + 2 ≤ 2 ^ 16)
    (hi : irLearnEndThreshold < c.intervalTo tm) (hpending : (c.irRecord tm).Pending) :
    Keeps c (c.irRecord tm) ∧ ¬ (c.irRecord tm).Admits := by
  by_cases hne : is = []
  · subst hne
    rw [irRecord_second (by rw [h.irq]; rfl),
      if_pos (UInt32.lt_trans (by decide) hi)] at hpending
    exact absurd hpending (by simp [Pending])
  have hend := IrLearnCtrl.irRecord_end (h.later hne hlen) hi
  rw [hend] at hpending ⊢
  refine ⟨⟨recordEnd_waveSeriesCnt _, recordEnd_waveSeriesBuf _, fun hcheck => ?_⟩, ?_⟩
  · exact recordEnd_carrCycleInterval_of_checked hcheck
  · rw [Admits, recordEnd_irLearnState_of_pending hpending]
    simp

/-- **A signal**, up to an edge that ends it. -/
theorem exists_recorded (tms : List UInt32) (h : Recorded is c)
    (hthr : ∀ i ∈ intervalsFrom c.lastTriggerTmPoint tms,
      i ≠ irLearnIntervalThreshold.toNat ∧ i ≠ irLearnEndThreshold.toNat)
    (hlen : is.length + 1 +
      min tms.length ((beforeEnd (intervalsFrom c.lastTriggerTmPoint tms)).length + 1) ≤ 2 ^ 16)
    (hpending : (tms.foldl irLearnIrqHandler c).Pending) :
    ∃ c', Recorded (is ++ beforeEnd (intervalsFrom c.lastTriggerTmPoint tms)) c' ∧
      Keeps c' (tms.foldl irLearnIrqHandler c) := by
  induction tms generalizing is c with
  | nil => exact ⟨c, by simpa [intervalsFrom, beforeEnd] using h, rfl, rfl, fun _ => rfl⟩
  | cons tm tms ih =>
    have hrecord : c.irLearnIrqHandler tm = c.irRecord tm := if_pos (.inr h.state)
    rw [List.foldl_cons, hrecord] at hpending ⊢
    have hnow : (c.irRecord tm).Pending := by
      by_contra hdecided
      have hadmits : ¬ (c.irRecord tm).Admits := fun hadmits =>
        hdecided (hadmits.elim .inl fun hbegin => .inr (.inl hbegin))
      rw [foldl_of_not_admits hadmits] at hpending
      exact hdecided hpending
    rw [intervalsFrom] at hthr hlen ⊢
    have hbound : is.length + 2 ≤ 2 ^ 16 := by
      rw [List.length_cons] at hlen
      omega
    -- an edge of the signal, and what comes behind it
    have hsignal : (c.intervalTo tm < irLearnIntervalThreshold ∨
        irLearnIntervalThreshold < c.intervalTo tm ∧ c.intervalTo tm < irLearnEndThreshold) →
        ∃ c', Recorded (is ++ beforeEnd ((c.intervalTo tm).toNat :: intervalsFrom tm tms)) c' ∧
          Keeps c' (tms.foldl irLearnIrqHandler (c.irRecord tm)) := by
      intro hi
      obtain ⟨hrec, hlast⟩ := h.irRecord hbound hi hnow
      have hlt : (c.intervalTo tm).toNat < irLearnEndThreshold.toNat := by
        obtain hi | ⟨-, hi⟩ := hi
        · exact lt_trans (UInt32.lt_iff_toNat_lt.mp hi) (by decide)
        · exact UInt32.lt_iff_toNat_lt.mp hi
      have hcons : beforeEnd ((c.intervalTo tm).toNat :: intervalsFrom tm tms) =
          (c.intervalTo tm).toNat :: beforeEnd (intervalsFrom tm tms) :=
        List.takeWhile_cons_of_pos (by simpa using hlt)
      have hrest := ih hrec
      rw [hlast, List.append_assoc, List.length_append, List.length_singleton] at hrest
      rw [hcons]
      refine hrest (fun i hi => hthr i (List.mem_cons_of_mem _ hi)) ?_ hpending
      rw [show (tm - c.lastTriggerTmPoint).toNat = (c.intervalTo tm).toNat from rfl, hcons,
        List.length_cons, List.length_cons] at hlen
      omega
    obtain hi | hi | hi := irInterval_cases (hthr _ List.mem_cons_self)
    · exact hsignal (.inl hi)
    · exact hsignal (.inr hi)
    · obtain ⟨hkeeps, hadmits⟩ := h.irRecord_end hbound hi hnow
      have hle : ¬ (c.intervalTo tm).toNat < irLearnEndThreshold.toNat :=
        Nat.not_lt_of_gt (UInt32.lt_iff_toNat_lt.mp hi)
      have hnil : beforeEnd ((c.intervalTo tm).toNat :: intervalsFrom tm tms) = [] :=
        List.takeWhile_cons_of_neg (by simpa using hle)
      refine ⟨c, ?_, ?_⟩
      · rw [show (tm - c.lastTriggerTmPoint).toNat = (c.intervalTo tm).toNat from rfl, hnil,
          List.append_nil]
        exact h
      · rw [foldl_of_not_admits hadmits]
        exact hkeeps

/-! ### The result -/

theorem get_addLastCarrier (hcnt : 0 < c.waveSeriesCnt) (j : ℕ) :
    c.addLastCarrier.waveSeriesBuf.get j =
      if j = c.waveSeriesCnt - 1 then c.waveSeriesBuf.get j + c.carrCycleInterval
      else c.waveSeriesBuf.get j := by
  have hindex : (c.waveSeriesCnt : ℤ) - 1 = (c.waveSeriesCnt - 1 : ℕ) := by omega
  rw [addLastCarrier]
  dsimp only
  rw [hindex, Int.toNat_natCast]
  split
  case isTrue hj => rw [hj, LoggedArray.get_set_self]
  case isFalse hj => exact LoggedArray.get_set_of_ne _ hj _

/-- The first intervals are the first one and those that the carrier is chosen from. -/
theorem take_eq_cons (hne : is ≠ []) :
    is.take (irCarrCheckCnt + 1) = is.headD 0 :: carrierChoice is := by
  obtain ⟨i, js, rfl⟩ := List.exists_cons_of_ne_nil hne
  rfl

theorem take_two_of_take (h : ∀ i ∈ is.take (irCarrCheckCnt + 1), IrShort i) :
    ∀ i ∈ is.take 2, IrShort i :=
  fun i hi => h i (List.take_subset_take_left _ (by decide) hi)

/-- The carrier is one of the intervals that it is chosen from. -/
theorem Recorded.cycle_mem_choice (h : Recorded is c) (hchoice : carrierChoice is ≠ []) :
    c.carrCycleInterval.toNat ∈ carrierChoice is := by
  obtain hzero | hmem := List.mem_cons.mp h.cycle_mem
  · obtain ⟨i, js, heq⟩ := List.exists_cons_of_ne_nil hchoice
    have hle := h.cycle_le i (heq ▸ List.mem_cons_self)
    rw [hzero, Nat.le_zero] at hle
    rw [hzero, heq, hle]
    exact List.mem_cons_self
  · exact hmem

/-- The signal of a successful run has more intervals than the carrier is chosen from. -/
theorem Recorded.lt_length (h : Recorded is c)
    (hcnt : carrAndNoCarrMinNumber < c.waveSeriesCnt) : irCarrCheckCnt + 1 < is.length := by
  have hle := h.cnt
  have hmin : carrAndNoCarrMinNumber = 15 := rfl
  have hcheck : irCarrCheckCnt = 10 := rfl
  omega

/-- **What is learned**, for the signals that are learnable. -/
theorem Recorded.learned (h : Recorded is c) (hcnt : carrAndNoCarrMinNumber < c.waveSeriesCnt)
    (hl : Learnable is) : Learned is c.addLastCarrier := by
  have hlen := h.lt_length hcnt
  have hne : is ≠ [] := List.length_pos_iff.mp (Nat.zero_lt_of_lt hlen)
  have hmin : carrAndNoCarrMinNumber = 15 := rfl
  have hs := h.sections hne (take_two_of_take hl.first)
  have hcarr : c.carrOrNot = true := by
    have hlast := List.getLast?_eq_some_getLast hne
    exact (h.carr _ hlast).mpr (hl.last _ hlast)
  have hburst := hs.burst hcarr
  have hhand := h.hand (by omega) (take_two_of_take hl.first) hcarr
  obtain ⟨i, hi, hle⟩ := hl.longest
  have hmem := h.cycle_mem_choice (List.ne_nil_of_mem hi)
  have hmem' : c.carrCycleInterval.toNat ∈ is.take (irCarrCheckCnt + 1) := by
    rw [take_eq_cons hne]
    exact List.mem_cons_of_mem _ hmem
  have hcycle : IrShort c.carrCycleInterval.toNat := hl.first _ hmem'
  have hfirst : c.carrFirstInterval.toNat ≤ c.carrCycleInterval.toNat := by
    obtain ⟨j, js, rfl⟩ := List.exists_cons_of_ne_nil hne
    rw [(h.first j rfl).2]
    exact le_trans hle (h.cycle_le i hi)
  refine ⟨⟨_, List.mem_of_mem_take hmem', hcycle, rfl⟩, ?_⟩
  rw [sections_eq_split, forall₂_map_range, List.length_append, List.length_singleton, ← hburst]
  refine ⟨rfl, fun j v hv => ?_⟩
  have heven := even_closed IrShort is
  rw [get_addLastCarrier (by omega)]
  show _ ≤ v + c.carrCycleInterval.toNat ∧ v ≤ _ + c.carrCycleInterval.toNat
  by_cases hj : j < (split IrShort is).closed.length
  · rw [List.getElem?_append_left hj] at hv
    have hclosed := hs.closed j v hv
    rw [Closed] at hclosed
    by_cases hparity : j % 2 = 0
    · -- a burst takes the first interval more
      rw [if_pos hparity] at hclosed
      rw [if_neg (by omega)]
      omega
    · -- a gap takes a third of it less, and the last one the carrier more
      rw [if_neg hparity] at hclosed
      obtain ⟨-, -, hend, hgap⟩ := hclosed
      split
      · have hthr : irLearnIntervalThreshold.toNat = 1066 := rfl
        have hend' : irLearnEndThreshold.toNat = 480000 := rfl
        rw [IrShort, hthr] at hcycle
        rw [hend'] at hend
        rw [UInt32.toNat_add, Nat.mod_eq_of_lt (by omega)]
        omega
      · omega
  · -- the last burst
    have hlast : j = (split IrShort is).closed.length := by
      have := (List.getElem?_eq_some_iff.mp hv).1
      rw [List.length_append, List.length_singleton] at this
      omega
    subst hlast
    rw [List.getElem?_append_right le_rfl, Nat.sub_self] at hv
    obtain rfl : (split IrShort is).hand = v := by simpa using hv
    rw [if_neg (by omega), ← hburst, hhand]
    omega

/-- **What is learned** from a signal. -/
theorem Recorded.learned_iff (h : Recorded is c)
    (hcnt : carrAndNoCarrMinNumber < c.waveSeriesCnt) :
    Learned is c.addLastCarrier ↔ Learnable is := by
  refine ⟨fun hlearned => ?_, h.learned hcnt⟩
  have hlen := h.lt_length hcnt
  have hne : is ≠ [] := List.length_pos_iff.mp (Nat.zero_lt_of_lt hlen)
  have hmin : carrAndNoCarrMinNumber = 15 := rfl
  -- the carrier is short, and so is whatever it was chosen from
  have hall : ∀ i ∈ is.take (irCarrCheckCnt + 1), IrShort i := by
    obtain ⟨i, -, hshort, hcycle⟩ := hlearned.carrier
    have hcycle : c.carrCycleInterval.toNat = i := hcycle
    intro j hj
    rw [take_eq_cons hne] at hj
    obtain rfl | hj := List.mem_cons.mp hj
    · obtain ⟨j, js, rfl⟩ := List.exists_cons_of_ne_nil hne
      exact (h.first j rfl).1
    · exact lt_of_le_of_lt (h.cycle_le j hj) (hcycle ▸ hshort)
  have hs := h.sections hne (take_two_of_take hall)
  have hsections := hlearned.sections
  rw [sections_eq_split, forall₂_map_range, List.length_append, List.length_singleton]
    at hsections
  obtain ⟨hlength, hentry⟩ := hsections
  have hlength : c.waveSeriesCnt = (split IrShort is).closed.length := Nat.succ.inj hlength
  have hcarr : c.carrOrNot = true := by
    cases hc : c.carrOrNot with
    | true => rfl
    | false =>
      have := (hs.gap hc).1
      omega
  refine ⟨hall, ?_, fun i hi => (h.carr i hi).mp hcarr⟩
  -- the first burst is over, and takes the first interval more
  have hzero : 0 < (split IrShort is).closed.length := by omega
  have hv := List.getElem?_eq_getElem hzero
  have hburst := hs.closed 0 _ hv
  rw [Closed, if_pos rfl] at hburst
  have hle := (hentry 0 _ (by rw [List.getElem?_append_left hzero]; exact hv)).1
  rw [get_addLastCarrier (by omega), if_neg (by omega), hburst] at hle
  have hfirst : c.carrFirstInterval.toNat ≤ c.carrCycleInterval.toNat :=
    Nat.le_of_add_le_add_left hle
  have hchoice : carrierChoice is ≠ [] := by
    intro hnil
    have := congrArg List.length (take_eq_cons hne)
    rw [hnil, List.length_take] at this
    have hcheck : irCarrCheckCnt = 10 := rfl
    simp only [List.length_singleton] at this
    omega
  refine ⟨_, h.cycle_mem_choice hchoice, ?_⟩
  obtain ⟨j, js, rfl⟩ := List.exists_cons_of_ne_nil hne
  rw [(h.first j rfl).2] at hfirst
  exact hfirst

/-- What the late edge leaves is learned from as well. -/
theorem Keeps.learned_iff {c' : IrLearnCtrl} (h : Keeps c c')
    (hcheck : c.carrCheckCnt = irCarrCheckCnt) :
    Learned is c'.addLastCarrier ↔ Learned is c.addLastCarrier := by
  have hcnt : c'.addLastCarrier.waveSeriesCnt = c.addLastCarrier.waveSeriesCnt := h.cnt
  have hcycle : c'.addLastCarrier.carrCycleInterval = c.addLastCarrier.carrCycleInterval :=
    h.cycle hcheck
  have hbuf : c'.addLastCarrier.waveSeriesBuf = c.addLastCarrier.waveSeriesBuf := by
    simp only [addLastCarrier, h.cnt, h.buf, h.cycle hcheck]
  constructor
  · rintro ⟨hcarrier, hsections⟩
    rw [hcycle] at hcarrier hsections
    rw [hcnt, hbuf] at hsections
    exact ⟨hcarrier, hsections⟩
  · rintro ⟨hcarrier, hsections⟩
    rw [← hcycle] at hcarrier hsections
    rw [← hcnt, ← hbuf] at hsections
    exact ⟨hcarrier, hsections⟩

/-- When `ir_learn_detect` comes to `IR_LEARN_SUCCESS`, and what it adds then. -/
theorem irLearnDetect_success {now : UInt32} (hbefore : c.irLearnState ≠ .success)
    (hsuccess : (c.irLearnDetect now).irLearnState = .success) :
    c.Pending ∧ c.irLearnState ≠ .waitKey ∧ carrAndNoCarrMinNumber < c.waveSeriesCnt ∧
      (Learned is (c.irLearnDetect now) ↔ Learned is c.addLastCarrier) := by
  rw [irLearnDetect] at hsuccess ⊢
  split at hsuccess
  · cases hsuccess
  split at hsuccess
  case isFalse => exact absurd hsuccess hbefore
  case isTrue hover =>
    rw [if_neg ‹_›, if_pos hover]
    split at hsuccess
    case isFalse => cases hsuccess
    case isTrue hcnt =>
      rw [if_pos hcnt]
      have hsame : Learned is { c with irLearnState := .success }.addLastCarrier ↔
          Learned is c.addLastCarrier :=
        ⟨fun h => ⟨h.carrier, h.sections⟩, fun h => ⟨h.carrier, h.sections⟩⟩
      obtain ⟨hbegin, -⟩ | hend := hover
      · exact ⟨.inr (.inl hbegin), by simp [hbegin], hcnt, hsame⟩
      · exact ⟨.inr (.inr hend), by simp [hend], hcnt, hsame⟩

/-- What the edges from a start on leave. -/
theorem exists_recorded_of_start (c : IrLearnCtrl) (start : UInt32) {tms : List UInt32}
    (hwait : (tms.foldl irLearnIrqHandler (c.irLearnStart start)).irLearnState ≠ .waitKey)
    (hpending : (tms.foldl irLearnIrqHandler (c.irLearnStart start)).Pending)
    (hthr : ∀ i ∈ intervals tms,
      i ≠ irLearnIntervalThreshold.toNat ∧ i ≠ irLearnEndThreshold.toNat)
    (hlen : heard tms ≤ 2 ^ 16) :
    ∃ c', Recorded (signal tms) c' ∧
      Keeps c' (tms.foldl irLearnIrqHandler (c.irLearnStart start)) := by
  cases tms with
  | nil => exact absurd rfl hwait
  | cons tm tms =>
    obtain ⟨hrec, hlast⟩ := recorded_first (c := c.irLearnStart start) rfl rfl rfl rfl tm
    have hfirst : (c.irLearnStart start).irLearnIrqHandler tm =
        (c.irLearnStart start).irRecord tm := if_pos (.inl rfl)
    have hsignal : signal (tm :: tms) = beforeEnd (intervalsFrom tm tms) := rfl
    rw [heard, hsignal, List.length_cons] at hlen
    rw [List.foldl_cons, hfirst] at hpending ⊢
    rw [hsignal]
    have hrest := exists_recorded tms hrec
    rw [hlast, List.nil_append, List.length_nil] at hrest
    exact hrest hthr (by omega) hpending

end IrLearnCtrl

open IrLearnCtrl

/-- **From which signals the right thing is learned**, where an `ir_learn_detect` ends a run with
`IR_LEARN_SUCCESS`: from those that are learnable and do not let the count of the edges wrap, and
from no others that do not. -/
theorem irLearn_result_iff (c : IrLearnCtrl) (start : UInt32) (run : List IrLearnInput)
    (now : UInt32)
    (hbefore : (run.foldl onInput (c.irLearnStart start)).irLearnState ≠ .success)
    (hsuccess :
      ((run.foldl onInput (c.irLearnStart start)).onInput (.detect now)).irLearnState = .success)
    (hthr : ∀ i ∈ intervals (edges run),
      i ≠ irLearnIntervalThreshold.toNat ∧ i ≠ irLearnEndThreshold.toNat) :
    (heard (edges run) ≤ 2 ^ 16 ∧ Learnable (signal (edges run)) →
      Learned (signal (edges run))
        ((run.foldl onInput (c.irLearnStart start)).onInput (.detect now))) ∧
    (heard (edges run) ≤ 2 ^ 16 →
      Learned (signal (edges run))
        ((run.foldl onInput (c.irLearnStart start)).onInput (.detect now)) →
      Learnable (signal (edges run))) := by
  have hiff : heard (edges run) ≤ 2 ^ 16 →
      (Learned (signal (edges run))
        ((run.foldl onInput (c.irLearnStart start)).onInput (.detect now)) ↔
          Learnable (signal (edges run))) := by
    intro hlen
    obtain ⟨hpending, hwait, hcnt, hresult⟩ := irLearnDetect_success hbefore hsuccess
    rw [show (run.foldl onInput (c.irLearnStart start)).onInput (.detect now) =
      (run.foldl onInput (c.irLearnStart start)).irLearnDetect now from rfl, hresult]
    have hedges := foldl_eq_edges hpending
    rw [hedges] at hpending hwait hcnt ⊢
    obtain ⟨c', hrec, hkeeps⟩ := exists_recorded_of_start c start hwait hpending hthr hlen
    rw [hkeeps.cnt] at hcnt
    have hlength := hrec.lt_length hcnt
    have hcheck : c'.carrCheckCnt = irCarrCheckCnt := by
      rw [hrec.check]
      omega
    rw [hkeeps.learned_iff hcheck]
    exact hrec.learned_iff hcnt
  exact ⟨fun ⟨hlen, hl⟩ => (hiff hlen).mpr hl, fun hlen => (hiff hlen).mp⟩

/-- So many edges, the first at a time and each some ticks behind the one before. -/
def edgesFrom (tm : UInt32) : List UInt32 → List IrLearnInput
  | [] => [.edge tm]
  | i :: is => .edge tm :: edgesFrom (tm + i) is

/-- A first burst of twelve edges, and eight of two. -/
def longFirstBurst : List IrLearnInput :=
  edgesFrom 0 (List.replicate 11 400 ++ (List.replicate 8 [5000, 400]).flatten)

/-- A first burst of two edges, and eight more of two. -/
def shortFirstBurst : List IrLearnInput :=
  edgesFrom 0 (400 :: (List.replicate 8 [5000, 400]).flatten)

instance (is : List ℕ) : Decidable (Learnable is) :=
  decidable_of_iff ((∀ i ∈ is.take (irCarrCheckCnt + 1), IrShort i) ∧
      (∃ i ∈ carrierChoice is, is.headD 0 ≤ i) ∧ ∀ i ∈ is.getLast?, IrShort i)
    ⟨fun h => ⟨h.1, h.2.1, h.2.2⟩, fun h => ⟨h.first, h.longest, h.last⟩⟩

/-- The long first burst is learned from. -/
theorem irLearn_long_first_burst :
    Learned (signal (edges longFirstBurst))
      ((longFirstBurst.foldl onInput (off.irLearnStart 0)).onInput (.detect 600000)) :=
  (irLearn_result_iff off 0 longFirstBurst 600000 (by decide +kernel) (by decide +kernel)
    (by decide +kernel)).1 (by decide +kernel)

/-- Behind the short one the carrier is a gap. -/
theorem irLearn_gap_as_carrier :
    let c := (shortFirstBurst.foldl onInput (off.irLearnStart 0)).onInput (.detect 600000)
    c.irLearnState = .success ∧
      (∀ i ∈ intervals (edges shortFirstBurst),
        i ≠ irLearnIntervalThreshold.toNat ∧ i ≠ irLearnEndThreshold.toNat) ∧
      ¬ Learned (signal (edges shortFirstBurst)) c := by
  refine ⟨by decide +kernel, by decide +kernel, fun h => ?_⟩
  obtain ⟨i, -, hshort, hcycle⟩ := h.carrier
  have hgap : ((shortFirstBurst.foldl onInput (off.irLearnStart 0)).onInput
      (.detect 600000)).carrCycleInterval.toNat = 5000 := by decide +kernel
  rw [hgap] at hcycle
  subst hcycle
  exact absurd hshort (by decide)

end TcBle.Vendor
