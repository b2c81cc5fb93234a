import TcBle.Foundation.Run
import TcBle.Foundation.Timeline
import TcBle.HciTransport.Common

/-!
# The application LED

`vendor/common/blt_led.c`: `device_led_setup` takes what the LED is to do, and `device_led_process`,
which is called now and then, switches it.

## The model

Time is a number; the engine reads it from the system tick, which is its last 32 bits. What
`gpio_write` and `gpio_set_output_en` were last called with is recorded; the number of the pin is
left out. The ticks are those of a core with 16000 of them in a millisecond.

What the LED is to do is stated apart, on a line of phases whose times do not wrap and whose products
do not overflow: `LedCfg.timeline`.

## What is proved

* `Follows.process` — a poll that the tick tells right does to the LED what it does to the line of
  phases.
* `exists_not_blinksSo` — a merged period that overflows its 16 bits is seen to.
* `deviceLed_blinks_iff` — which configurations blink as they are to, and at which polls.
-/

namespace TcBle.Vendor

open TcBle.Foundation TcBle.HciTransport Foundation.Run

/-- `led_cfg_t`. -/
structure LedCfg where
  /-- `onTime_ms`. -/
  onTimeMs : UInt16
  /-- `offTime_ms`. -/
  offTimeMs : UInt16
  /-- `repeatCount`. -/
  repeatCount : UInt8
  /-- `priority`. -/
  priority : UInt8

/-- `device_led`. -/
structure DeviceLed where
  /-- `isOn`. -/
  isOn : UInt8
  /-- `polar`. -/
  polar : UInt8
  /-- `repeatCount`. -/
  repeatCount : UInt8
  /-- `priority`. -/
  priority : UInt8
  /-- `onTime_ms`. -/
  onTimeMs : UInt16
  /-- `offTime_ms`. -/
  offTimeMs : UInt16
  /-- `startTick`. -/
  startTick : UInt32
  /-- What the pin was last written with. -/
  gpioLevel : UInt8
  /-- Whether the pin is an output. -/
  gpioOutputEn : UInt8

/-- `SYSTEM_TIMER_TICK_1MS`. -/
def systemTimerTick1Ms : ℕ := 16000

/-- `clock_time()`: the system tick at a time. -/
def clockTime (t : ℕ) : UInt32 := UInt32.ofNat t

namespace DeviceLed

/-- `device_led_on_off`. -/
def onOff (d : DeviceLed) (on : UInt8) : DeviceLed :=
  { d with gpioLevel := on ^^^ d.polar, gpioOutputEn := on, isOn := on }

/-- `device_led_setup`: what it leaves and returns. -/
def setup (d : DeviceLed) (ledCfg : LedCfg) (now : UInt32) : DeviceLed × ℕ :=
  if d.repeatCount ≠ 0 ∧ ledCfg.priority ≤ d.priority then (d, 0)
  else
    let d := { d with
      onTimeMs := ledCfg.onTimeMs, offTimeMs := ledCfg.offTimeMs
      repeatCount := ledCfg.repeatCount, priority := ledCfg.priority }
    let d :=
      if ledCfg.repeatCount = 0xff then { d with repeatCount := 0 }
      else if d.onTimeMs = 0 then
        { d with offTimeMs := d.offTimeMs * d.repeatCount.toUInt16, repeatCount := 1 }
      else if d.offTimeMs = 0 then
        { d with onTimeMs := d.onTimeMs * d.repeatCount.toUInt16, repeatCount := 1 }
      else d
    let d := { d with startTick := now }
    (d.onOff (if d.onTimeMs ≠ 0 then 1 else 0), 1)

/-- `led_proc`. -/
def ledProc (d : DeviceLed) (now : UInt32) : DeviceLed :=
  if d.isOn ≠ 0 then
    if clockTimeExceed now d.startTick (d.onTimeMs.toNat * 1000) then
      let d := d.onOff 0
      if d.offTimeMs ≠ 0 then
        { d with
          startTick := d.startTick + UInt32.ofNat (d.onTimeMs.toNat * systemTimerTick1Ms) }
      else { d with repeatCount := 0 }
    else d
  else
    if clockTimeExceed now d.startTick (d.offTimeMs.toNat * 1000) then
      let d := { d with repeatCount := d.repeatCount - 1 }
      if d.repeatCount ≠ 0 then
        let d := d.onOff 1
        { d with
          startTick := d.startTick + UInt32.ofNat (d.offTimeMs.toNat * systemTimerTick1Ms) }
      else d
    else d

/-- `device_led_process`. -/
def process (d : DeviceLed) (now : UInt32) : DeviceLed :=
  if d.repeatCount ≠ 0 then d.ledProc now else d

end DeviceLed

/-! ### What the LED is to do -/

/-- What is seen in a phase. -/
structure Blink where
  /-- The LED is lit. -/
  lit : Bool
  /-- How many repetitions are not over. -/
  left : ℕ

/-- A phase of so many milliseconds. -/
def phaseMs (lit : Bool) (ms left : ℕ) : Phase Blink := ⟨⟨lit, left⟩, ms * systemTimerTick1Ms⟩

/-- So many times on and off. -/
def blinks (onMs offMs : ℕ) : ℕ → List (Phase Blink)
  | 0 => []
  | n + 1 => phaseMs true onMs (n + 1) :: phaseMs false offMs (n + 1) :: blinks onMs offMs n

/-- The LED is to be lit so many times, each for the time on. -/
theorem blinks_lit (onMs offMs n : ℕ) :
    ((blinks onMs offMs n).filter fun p => p.label.lit).map Phase.span =
      List.replicate n (onMs * systemTimerTick1Ms) := by
  induction n with
  | zero => rfl
  | succ n ih =>
    rw [List.replicate_succ, ← ih]
    rfl

namespace LedCfg

/-- What is asked for. -/
def phases (c : LedCfg) : List (Phase Blink) :=
  if c.onTimeMs = 0 then [phaseMs false (c.offTimeMs.toNat * c.repeatCount.toNat) 1]
  else if c.offTimeMs = 0 then [phaseMs true (c.onTimeMs.toNat * c.repeatCount.toNat) 1]
  else blinks c.onTimeMs.toNat c.offTimeMs.toNat c.repeatCount.toNat

/-- What is asked for, from a time on. -/
def timeline (c : LedCfg) (t₀ : ℕ) : Timeline Blink := ⟨t₀, c.phases⟩

/-- A merged period fits in its 16 bits. -/
def Fits (c : LedCfg) : Prop :=
  (c.onTimeMs = 0 → c.offTimeMs.toNat * c.repeatCount.toNat < 2 ^ 16) ∧
    (c.offTimeMs = 0 → c.onTimeMs.toNat * c.repeatCount.toNat < 2 ^ 16)

end LedCfg

/-- The LED and its count are those of the current phase, and the pin is driven so; behind the last
one the LED is dark and idle. -/
structure Shows (d : DeviceLed) (l : Timeline Blink) : Prop where
  /-- `isOn`. -/
  isOn : d.isOn = if (l.shown.map Blink.lit).getD false then 1 else 0
  /-- `repeatCount`. -/
  repeatCount : d.repeatCount.toNat = (l.shown.map Blink.left).getD 0
  /-- The level of the pin. -/
  level : d.gpioLevel = d.isOn ^^^ d.polar
  /-- The direction of the pin. -/
  outputEn : d.gpioOutputEn = d.isOn

/-- The engine beside the line of phases. -/
structure LedRun where
  /-- The engine. -/
  led : DeviceLed
  /-- What it is to do. -/
  line : Timeline Blink
  /-- The time of the last call. -/
  now : ℕ

/-- A poll, so long after the last call. -/
def LedRun.poll (s : LedRun) (gap : ℕ) : LedRun :=
  ⟨s.led.process (clockTime (s.now + gap)), s.line.poll (s.now + gap), s.now + gap⟩

/-- The start: a setup. -/
def LedRun.start (d : DeviceLed) (c : LedCfg) (t₀ : ℕ) : LedRun :=
  ⟨(d.setup c (clockTime t₀)).1, c.timeline t₀, t₀⟩

/-- The poll does not come in the span of the phase one or more wraps of the tick late. -/
def LedRun.InTime (s : LedRun) (gap : ℕ) : Prop :=
  ∀ p ∈ s.line.phases.head?,
    (s.now + gap - s.line.since) % 2 ^ 32 ≤ p.span → s.now + gap - s.line.since ≤ p.span

/-- The times of polls. -/
def pollTimes : ℕ → List ℕ → List ℕ
  | _, [] => []
  | t, gap :: gaps => (t + gap) :: pollTimes (t + gap) gaps

/-- **What is asked of a run**: the LED does what it is to after every poll, and after as many polls
behind the end as there are phases it is dark and idle. -/
structure BlinksSo (d : DeviceLed) (c : LedCfg) (t₀ : ℕ) (gaps : List ℕ) : Prop where
  /-- After every poll. -/
  shows : ∀ pre, pre <+: gaps → Shows (pre.foldl LedRun.poll (.start d c t₀)).led
    (pre.foldl LedRun.poll (.start d c t₀)).line
  /-- In the end. -/
  idle : c.phases.length ≤ ((pollTimes t₀ gaps).countP fun t => (c.timeline t₀).finish < t) →
    (gaps.foldl LedRun.poll (.start d c t₀)).led.repeatCount = 0 ∧
      (gaps.foldl LedRun.poll (.start d c t₀)).led.isOn = 0

/-! ### The engine and the line of phases -/

/-- What the engine is still to do. -/
def DeviceLed.rest (d : DeviceLed) : List (Phase Blink) :=
  if d.repeatCount = 0 then []
  else
    let later := blinks d.onTimeMs.toNat d.offTimeMs.toNat (d.repeatCount.toNat - 1)
    let dark := phaseMs false d.offTimeMs.toNat d.repeatCount.toNat
    if d.isOn = 0 then dark :: later
    else phaseMs true d.onTimeMs.toNat d.repeatCount.toNat ::
      if d.offTimeMs = 0 then [] else dark :: later

/-- The engine is at the place of the line. -/
structure Follows (d : DeviceLed) (l : Timeline Blink) : Prop where
  /-- What is to come is the same. -/
  phases : l.phases = d.rest
  /-- The start of the phase is known as a tick. -/
  startTick : d.repeatCount ≠ 0 → d.startTick = clockTime l.since
  /-- `isOn` is a truth value. -/
  isOn_bit : d.isOn = 0 ∨ d.isOn = 1
  /-- Behind the last phase the LED is dark. -/
  dark : d.repeatCount = 0 → d.isOn = 0
  /-- Without dark phases nothing is repeated. -/
  single : d.offTimeMs = 0 → d.repeatCount.toNat ≤ 1
  /-- The level of the pin. -/
  level : d.gpioLevel = d.isOn ^^^ d.polar
  /-- The direction of the pin. -/
  outputEn : d.gpioOutputEn = d.isOn

variable {d : DeviceLed} {l : Timeline Blink} {t : ℕ}

theorem Follows.shows (h : Follows d l) : Shows d l where
  isOn := by
    rw [Timeline.shown, h.phases, DeviceLed.rest]
    obtain hzero | hone := h.isOn_bit
    · split
      · simpa using hzero
      · simp [hzero, phaseMs]
    · have hbusy : d.repeatCount ≠ 0 := by
        intro hidle
        rw [h.dark hidle] at hone
        cases hone
      simp [hbusy, hone, phaseMs]
  repeatCount := by
    rw [Timeline.shown, h.phases, DeviceLed.rest]
    split
    case isTrue hidle => simp [hidle]
    case isFalse => split <;> simp [phaseMs]
  level := h.level
  outputEn := h.outputEn

/-- What the tick tells of a span of so many milliseconds. -/
theorem clockTimeExceed_clockTime {s : ℕ} (hle : s ≤ t) (ms : UInt16) :
    clockTimeExceed (clockTime t) (clockTime s) (ms.toNat * 1000) = true ↔
      ms.toNat * systemTimerTick1Ms < (t - s) % 2 ^ 32 := by
  have hms := ms.toNat_lt
  rw [clockTimeExceed, decide_eq_true_iff, clockTime, clockTime, ← UInt32.ofNat_sub hle,
    UInt32.lt_iff_toNat_lt, UInt32.toNat_ofNat', UInt32.toNat_ofNat', sysTickPerUs,
    systemTimerTick1Ms, Nat.mod_eq_of_lt (show ms.toNat * 1000 * 16 < 2 ^ 32 by omega)]
  omega

/-- A start that is moved by a span. -/
theorem clockTime_add (s n : ℕ) : clockTime s + UInt32.ofNat n = clockTime (s + n) :=
  (UInt32.ofNat_add s n).symm

/-- Where the tick tells right, it tells whether the span is over. -/
theorem exceed_iff {s ms : ℕ} (hle : s ≤ t)
    (htells : (t - s) % 2 ^ 32 ≤ ms * systemTimerTick1Ms → t - s ≤ ms * systemTimerTick1Ms) :
    ms * systemTimerTick1Ms < (t - s) % 2 ^ 32 ↔ s + ms * systemTimerTick1Ms < t := by
  have hmod := Nat.mod_le (t - s) (2 ^ 32)
  omega

/-- The three places on the line. -/
theorem Follows.places (h : Follows d l) :
    (d.repeatCount = 0 ∧ l.phases = []) ∨
    (d.repeatCount ≠ 0 ∧ d.isOn = 1 ∧
      l.phases = phaseMs true d.onTimeMs.toNat d.repeatCount.toNat ::
        if d.offTimeMs = 0 then [] else phaseMs false d.offTimeMs.toNat d.repeatCount.toNat ::
          blinks d.onTimeMs.toNat d.offTimeMs.toNat (d.repeatCount.toNat - 1)) ∨
    (d.repeatCount ≠ 0 ∧ d.isOn = 0 ∧
      l.phases = phaseMs false d.offTimeMs.toNat d.repeatCount.toNat ::
        blinks d.onTimeMs.toNat d.offTimeMs.toNat (d.repeatCount.toNat - 1)) := by
  have hrest := h.phases
  rw [DeviceLed.rest] at hrest
  by_cases hbusy : d.repeatCount = 0
  · rw [if_pos hbusy] at hrest
    exact .inl ⟨hbusy, hrest⟩
  · rw [if_neg hbusy] at hrest
    obtain hzero | hone := h.isOn_bit
    · rw [if_pos hzero] at hrest
      exact .inr (.inr ⟨hbusy, hzero, hrest⟩)
    · rw [if_neg (by rw [hone]; decide)] at hrest
      exact .inr (.inl ⟨hbusy, hone, hrest⟩)

/-- The count as a number. -/
theorem toNat_sub_one {n : UInt8} (h : n ≠ 0) : (n - 1).toNat = n.toNat - 1 := by
  have hpos : (1 : UInt8) ≤ n := by
    rw [UInt8.le_iff_toNat_le]
    have hne : n.toNat ≠ 0 := fun hz => h (UInt8.toNat_inj.mp hz)
    show 1 ≤ n.toNat
    omega
  rw [UInt8.toNat_sub_of_le _ _ hpos]
  rfl

/-- The end of a lit phase. -/
theorem Follows.lit_over (h : Follows d l) (hbusy : d.repeatCount ≠ 0) (hone : d.isOn = 1)
    (hexceed : clockTimeExceed (clockTime t) d.startTick (d.onTimeMs.toNat * 1000) = true)
    (hover : l.since + d.onTimeMs.toNat * systemTimerTick1Ms < t) :
    Follows (d.process (clockTime t)) (l.poll t) := by
  obtain ⟨since, phases⟩ := l
  obtain ⟨hidle, -⟩ | ⟨-, -, hphases⟩ | ⟨-, hzero, -⟩ := h.places
  case inl => exact absurd hidle hbusy
  case inr.inr => rw [hzero] at hone; cases hone
  have hstart := h.startTick hbusy
  dsimp only at hphases hstart hover
  subst hphases
  rw [Timeline.poll_over hover, DeviceLed.process, if_pos hbusy, DeviceLed.ledProc, hone,
    if_pos (by simp), if_pos hexceed]
  by_cases hoff : d.offTimeMs = 0
  case pos =>
    rw [if_neg (by simpa [DeviceLed.onOff] using hoff)]
    exact {
      phases := by simp [DeviceLed.rest, hoff]
      startTick := fun hne => absurd rfl hne
      isOn_bit := .inl rfl
      dark := fun _ => rfl
      single := fun _ => Nat.zero_le 1
      level := rfl
      outputEn := rfl }
  case neg =>
    rw [if_pos (by simpa [DeviceLed.onOff] using hoff)]
    exact {
      phases := by simp [DeviceLed.rest, DeviceLed.onOff, hbusy, hoff]
      startTick := fun _ => by
        show d.startTick + _ = _
        rw [hstart]
        exact clockTime_add _ _
      isOn_bit := .inl rfl
      dark := fun hidle => absurd hidle hbusy
      single := h.single
      level := rfl
      outputEn := rfl }

/-- The end of a dark phase. -/
theorem Follows.dark_over (h : Follows d l) (hbusy : d.repeatCount ≠ 0) (hzero : d.isOn = 0)
    (hexceed : clockTimeExceed (clockTime t) d.startTick (d.offTimeMs.toNat * 1000) = true)
    (hover : l.since + d.offTimeMs.toNat * systemTimerTick1Ms < t) :
    Follows (d.process (clockTime t)) (l.poll t) := by
  obtain ⟨since, phases⟩ := l
  obtain ⟨hidle, -⟩ | ⟨-, hone, -⟩ | ⟨-, -, hphases⟩ := h.places
  case inl => exact absurd hidle hbusy
  case inr.inl => rw [hzero] at hone; cases hone
  have hstart := h.startTick hbusy
  have hcount := toNat_sub_one hbusy
  dsimp only at hphases hstart hover
  subst hphases
  rw [Timeline.poll_over hover, DeviceLed.process, if_pos hbusy, DeviceLed.ledProc,
    if_neg (not_not.mpr hzero), if_pos hexceed]
  by_cases hlast : d.repeatCount - 1 = 0
  case pos =>
    rw [if_neg (by simpa using hlast)]
    have hnone : d.repeatCount.toNat - 1 = 0 := by rw [← hcount, hlast]; rfl
    exact {
      phases := by simp [DeviceLed.rest, hlast, hnone, blinks]
      startTick := fun hne => absurd hlast hne
      isOn_bit := .inl hzero
      dark := fun _ => hzero
      single := fun _ => by
        show (d.repeatCount - 1).toNat ≤ 1
        rw [hcount, hnone]
        exact Nat.zero_le 1
      level := h.level
      outputEn := h.outputEn }
  case neg =>
    rw [if_pos (by simpa using hlast)]
    have hmore : d.repeatCount.toNat - 1 ≠ 0 := by
      rw [← hcount]
      exact fun hz => hlast (UInt8.toNat_inj.mp hz)
    have hoff : d.offTimeMs ≠ 0 := fun hoff => hmore (by have := h.single hoff; omega)
    obtain ⟨n, hn⟩ := Nat.exists_eq_succ_of_ne_zero hmore
    exact {
      phases := by simp [DeviceLed.rest, DeviceLed.onOff, hlast, hoff, hcount, hn, blinks]
      startTick := fun _ => by
        show d.startTick + _ = _
        rw [hstart]
        exact clockTime_add _ _
      isOn_bit := .inr rfl
      dark := fun hidle => absurd hidle hlast
      single := fun hz => absurd hz hoff
      level := rfl
      outputEn := rfl }

/-- A poll that finds the phase not over. -/
theorem process_within (hlit : d.isOn ≠ 0 →
      ¬ clockTimeExceed (clockTime t) d.startTick (d.onTimeMs.toNat * 1000) = true)
    (hdark : d.isOn = 0 →
      ¬ clockTimeExceed (clockTime t) d.startTick (d.offTimeMs.toNat * 1000) = true) :
    d.process (clockTime t) = d := by
  rw [DeviceLed.process, DeviceLed.ledProc]
  by_cases hisOn : d.isOn = 0
  · rw [if_neg (not_not.mpr hisOn), if_neg (hdark hisOn), ite_self]
  · rw [if_pos hisOn, if_neg (hlit hisOn), ite_self]

/-- **A poll**, if the tick tells right whether the phase is over: the engine follows the line. -/
theorem Follows.process (h : Follows d l) (hle : l.since ≤ t)
    (htells : ∀ p ∈ l.phases.head?, (t - l.since) % 2 ^ 32 ≤ p.span → t - l.since ≤ p.span) :
    Follows (d.process (clockTime t)) (l.poll t) := by
  obtain ⟨hidle, hphases⟩ | ⟨hbusy, hone, hphases⟩ | ⟨hbusy, hzero, hphases⟩ := h.places
  case inl =>
    obtain ⟨since, phases⟩ := l
    dsimp only at hphases
    subst hphases
    rw [DeviceLed.process, if_neg (by simpa using hidle), Timeline.poll_nil]
    exact h
  case inr.inl =>
    have hspan := htells _ (by rw [hphases]; rfl)
    have htick := clockTimeExceed_clockTime hle d.onTimeMs
    rw [← h.startTick hbusy, exceed_iff hle hspan] at htick
    by_cases hover : l.since + d.onTimeMs.toNat * systemTimerTick1Ms < t
    · exact h.lit_over hbusy hone (htick.mpr hover) hover
    · rw [process_within (fun _ => mt htick.mp hover) fun hz => by rw [hz] at hone; cases hone]
      obtain ⟨since, phases⟩ := l
      dsimp only at hphases
      subst hphases
      rwa [Timeline.poll_within (not_lt.mp hover)]
  case inr.inr =>
    have hspan := htells _ (by rw [hphases]; rfl)
    have htick := clockTimeExceed_clockTime hle d.offTimeMs
    rw [← h.startTick hbusy, exceed_iff hle hspan] at htick
    by_cases hover : l.since + d.offTimeMs.toNat * systemTimerTick1Ms < t
    · exact h.dark_over hbusy hzero (htick.mpr hover) hover
    · rw [process_within (absurd hzero) fun _ => mt htick.mp hover]
      obtain ⟨since, phases⟩ := l
      dsimp only at hphases
      subst hphases
      rwa [Timeline.poll_within (not_lt.mp hover)]

/-- A poll that comes a wrap late in the span of a phase leaves the phase on. -/
theorem Follows.not_shows (h : Follows d l) (hle : l.since ≤ t) {p : Phase Blink}
    (hp : p ∈ l.phases.head?) (hspan : (t - l.since) % 2 ^ 32 ≤ p.span)
    (hover : ¬ t - l.since ≤ p.span) : ¬ Shows (d.process (clockTime t)) (l.poll t) := by
  have hbehind : l.since + p.span < t := by omega
  obtain ⟨since, phases⟩ := l
  intro hshows
  obtain ⟨hidle, hphases⟩ | ⟨hbusy, hone, hphases⟩ | ⟨hbusy, hzero, hphases⟩ := h.places
  case inl =>
    dsimp only at hphases
    subst hphases
    cases hp
  case inr.inl =>
    -- the LED stays lit, and the line goes on to a dark phase or to none
    dsimp only at hphases
    subst hphases
    obtain rfl := Option.some.inj hp
    have htick := clockTimeExceed_clockTime hle d.onTimeMs
    rw [← h.startTick hbusy] at htick
    have hlit : d.isOn ≠ 0 := by rw [hone]; decide
    rw [process_within (fun _ => mt htick.mp (not_lt.mpr hspan)) fun hz => absurd hz hlit,
      Timeline.poll_over hbehind] at hshows
    have hnext := hshows.isOn
    rw [hone, Timeline.shown] at hnext
    split at hnext <;> cases hnext
  case inr.inr =>
    -- the LED stays dark with its count, and the line goes on to a lit phase or to none
    dsimp only at hphases
    subst hphases
    obtain rfl := Option.some.inj hp
    have htick := clockTimeExceed_clockTime hle d.offTimeMs
    rw [← h.startTick hbusy] at htick
    rw [process_within (absurd hzero) fun _ => mt htick.mp (not_lt.mpr hspan),
      Timeline.poll_over hbehind] at hshows
    have hlit := hshows.isOn
    have hleft := hshows.repeatCount
    rw [Timeline.shown] at hlit hleft
    cases hn : d.repeatCount.toNat - 1 with
    | zero =>
      rw [hn] at hleft
      exact hbusy (UInt8.toNat_inj.mp hleft)
    | succ n =>
      rw [hn, hzero] at hlit
      cases hlit

/-! ### The setup -/

/-- What an accepted setup with a number of repetitions leaves. -/
theorem setup_accepted {c : LedCfg} {now : UInt32} (hcount : c.repeatCount ≤ 254)
    (haccepted : (d.setup c now).2 = 1) :
    (d.setup c now).1 =
      let d' := { d with
        onTimeMs := if c.onTimeMs ≠ 0 ∧ c.offTimeMs = 0
          then c.onTimeMs * c.repeatCount.toUInt16 else c.onTimeMs
        offTimeMs := if c.onTimeMs = 0
          then c.offTimeMs * c.repeatCount.toUInt16 else c.offTimeMs
        repeatCount := if c.onTimeMs = 0 ∨ c.offTimeMs = 0 then 1 else c.repeatCount
        priority := c.priority
        startTick := now }
      d'.onOff (if d'.onTimeMs ≠ 0 then 1 else 0) := by
  have hnot : ¬ (d.repeatCount ≠ 0 ∧ c.priority ≤ d.priority) := by
    intro hno
    rw [DeviceLed.setup, if_pos hno] at haccepted
    cases haccepted
  have hff : c.repeatCount ≠ 0xff := by
    intro hff
    rw [hff] at hcount
    exact absurd hcount (by simp)
  rw [DeviceLed.setup, if_neg hnot]
  by_cases hon : c.onTimeMs = 0 <;> by_cases hoff : c.offTimeMs = 0 <;>
    simp [hff, hon, hoff]

/-- A product that fits. -/
theorem toNat_mul_repeat {a : UInt16} {n : UInt8} (h : a.toNat * n.toNat < 2 ^ 16) :
    (a * n.toUInt16).toNat = a.toNat * n.toNat := by
  rw [UInt16.toNat_mul, UInt8.toNat_toUInt16, Nat.mod_eq_of_lt h]

/-- **A setup** that is accepted starts at the head of the line. -/
theorem follows_setup {c : LedCfg} {t₀ : ℕ} (hcount : 1 ≤ c.repeatCount ∧ c.repeatCount ≤ 254)
    (haccepted : (d.setup c (clockTime t₀)).2 = 1) (hfits : c.Fits) :
    Follows (d.setup c (clockTime t₀)).1 (c.timeline t₀) := by
  rw [setup_accepted hcount.2 haccepted]
  obtain ⟨hfits_off, hfits_on⟩ := hfits
  have hpos : c.repeatCount ≠ 0 := by
    intro hz
    rw [hz] at hcount
    exact absurd hcount.1 (by simp)
  by_cases hon : c.onTimeMs = 0
  case pos =>
    have hprod := toNat_mul_repeat (hfits_off hon)
    exact {
      phases := by
        simp [LedCfg.timeline, LedCfg.phases, DeviceLed.rest, DeviceLed.onOff, hon, hprod, blinks]
      startTick := fun _ => rfl
      isOn_bit := by simp [DeviceLed.onOff, hon]
      dark := by simp [DeviceLed.onOff, hon]
      single := by simp [DeviceLed.onOff, hon]
      level := rfl
      outputEn := rfl }
  case neg =>
    by_cases hoff : c.offTimeMs = 0
    case pos =>
      have hprod := toNat_mul_repeat (hfits_on hoff)
      have hlit : c.onTimeMs * c.repeatCount.toUInt16 ≠ 0 := by
        intro hz
        rw [hz] at hprod
        obtain hz | hz := Nat.mul_eq_zero.mp hprod.symm
        · exact hon (UInt16.toNat_inj.mp hz)
        · exact hpos (UInt8.toNat_inj.mp hz)
      exact {
        phases := by
          simp [LedCfg.timeline, LedCfg.phases, DeviceLed.rest, DeviceLed.onOff, hon, hoff, hlit,
            hprod]
        startTick := fun _ => rfl
        isOn_bit := by simp [DeviceLed.onOff, hon, hoff, hlit]
        dark := by simp [DeviceLed.onOff, hon, hoff]
        single := by simp [DeviceLed.onOff, hon, hoff]
        level := rfl
        outputEn := rfl }
    case neg =>
      obtain ⟨n, hn⟩ := Nat.exists_eq_succ_of_ne_zero fun hz => hpos (UInt8.toNat_inj.mp hz)
      exact {
        phases := by
          simp [LedCfg.timeline, LedCfg.phases, DeviceLed.rest, DeviceLed.onOff, hon, hoff, hpos,
            hn, blinks]
        startTick := fun _ => rfl
        isOn_bit := by simp [DeviceLed.onOff, hon, hoff]
        dark := by simp [DeviceLed.onOff, hon, hoff, hpos]
        single := by simp [DeviceLed.onOff, hon, hoff]
        level := rfl
        outputEn := rfl }

/-! ### Whole runs -/

/-- The start of a phase is not ahead of the time. -/
theorem Timeline.since_le_poll (h : l.since ≤ t) : (l.poll t).since ≤ t := by
  obtain ⟨since, _ | ⟨p, ps⟩⟩ := l
  · exact h
  · by_cases hover : since + p.span < t
    · rw [Timeline.poll_over hover]
      exact hover.le
    · rwa [Timeline.poll_within (not_lt.mp hover)]

/-- The line of a run is polled at the times of the run. -/
theorem line_foldl (gaps : List ℕ) :
    ∀ s : LedRun, (gaps.foldl LedRun.poll s).line =
      (pollTimes s.now gaps).foldl Timeline.poll s.line := by
  induction gaps with
  | nil => exact fun s => rfl
  | cons gap gaps ih => exact fun s => ih (s.poll gap)

/-- A run that shows what it is to at every poll is idle in the end. -/
theorem blinksSo_iff {c : LedCfg} {t₀ : ℕ} {gaps : List ℕ} :
    BlinksSo d c t₀ gaps ↔ ∀ pre, pre <+: gaps →
      Shows (pre.foldl LedRun.poll (.start d c t₀)).led
        (pre.foldl LedRun.poll (.start d c t₀)).line := by
  refine ⟨BlinksSo.shows, fun h => ⟨h, fun hpolls => ?_⟩⟩
  have hend := h gaps List.prefix_rfl
  have hnone : (gaps.foldl LedRun.poll (.start d c t₀)).line.phases = [] := by
    rw [line_foldl]
    exact Timeline.phases_polls_eq_nil hpolls
  have hcount := hend.repeatCount
  have hdark := hend.isOn
  rw [Timeline.shown, hnone] at hcount hdark
  exact ⟨UInt8.toNat_inj.mp hcount, hdark⟩

/-- The engine follows the line, whose phase has begun. -/
structure LedRun.Sound (s : LedRun) : Prop where
  /-- The engine follows the line. -/
  follows : Follows s.led s.line
  /-- The phase has begun. -/
  since_le : s.line.since ≤ s.now

/-- **A configuration that fits** does what it is to exactly at the polls that the tick tells right. -/
theorem blinksSo_iff_inTime {c : LedCfg} {t₀ : ℕ}
    (hcount : 1 ≤ c.repeatCount ∧ c.repeatCount ≤ 254)
    (haccepted : (d.setup c (clockTime t₀)).2 = 1) (hfits : c.Fits) (gaps : List ℕ) :
    BlinksSo d c t₀ gaps ↔ Along LedRun.poll LedRun.InTime (.start d c t₀) gaps := by
  rw [blinksSo_iff]
  have hstart : (LedRun.start d c t₀).Sound := ⟨follows_setup hcount haccepted hfits, le_rfl⟩
  refine Along.iff_forall_prefix hstart (fun s h => h.follows.shows) ?_ ?_ gaps
  case refine_1 =>
    rintro s gap ⟨hfollows, hle⟩ htells
    have hle' : s.line.since ≤ s.now + gap := hle.trans (Nat.le_add_right _ _)
    exact ⟨hfollows.process hle' htells, Timeline.since_le_poll hle'⟩
  case refine_2 =>
    rintro s gap ⟨hfollows, hle⟩ htells
    have hle' : s.line.since ≤ s.now + gap := hle.trans (Nat.le_add_right _ _)
    rw [LedRun.InTime] at htells
    push Not at htells
    obtain ⟨p, hp, hspan, hover⟩ := htells
    exact hfollows.not_shows hle' hp hspan (not_le.mpr hover)

/-! ### Merged periods that do not fit -/

/-- The poll behind the only phase. -/
theorem process_only {s : ℕ} {ms : UInt16} (hbusy : d.repeatCount = 1)
    (hstart : d.startTick = clockTime s)
    (hphase : d.isOn = 1 ∧ d.onTimeMs = ms ∧ d.offTimeMs = 0 ∨ d.isOn = 0 ∧ d.offTimeMs = ms) :
    (d.process (clockTime (s + (ms.toNat * systemTimerTick1Ms + 1)))).repeatCount = 0 := by
  have hms := ms.toNat_lt
  have htick := clockTimeExceed_clockTime
    (Nat.le_add_right s (ms.toNat * systemTimerTick1Ms + 1)) ms
  rw [← hstart, Nat.add_sub_cancel_left, Nat.mod_eq_of_lt (by rw [systemTimerTick1Ms]; omega)]
    at htick
  have hexceed := htick.mpr (Nat.lt_succ_self _)
  have hne : d.repeatCount ≠ 0 := by rw [hbusy]; decide
  rw [DeviceLed.process, if_pos hne, DeviceLed.ledProc]
  obtain ⟨hone, hon, hoff⟩ | ⟨hzero, hoff⟩ := hphase
  · rw [hone, if_pos (by simp), hon, if_pos hexceed]
    simp [DeviceLed.onOff, hoff]
  · rw [if_neg (not_not.mpr hzero), hoff, if_pos hexceed]
    simp [hbusy]

/-- The first poll comes in time, if it comes before the tick wraps. -/
theorem inTime_first {c : LedCfg} {t₀ gap : ℕ} (hgap : gap < 2 ^ 32) :
    (LedRun.start d c t₀).InTime gap := by
  intro p _ hspan
  have hsince : (LedRun.start d c t₀).now + gap - (LedRun.start d c t₀).line.since = gap :=
    Nat.add_sub_cancel_left t₀ gap
  rwa [hsince, Nat.mod_eq_of_lt hgap, ← hsince] at hspan

/-- One phase shows its one repetition until it is over. -/
theorem shown_only {p : Phase Blink} {s gap : ℕ} (h : gap ≤ p.span) :
    ((⟨s, [p]⟩ : Timeline Blink).poll (s + gap)).shown = some p.label := by
  rw [Timeline.poll_within (Nat.add_le_add_left h s)]
  rfl

/-- **A merged period that does not fit** is seen to end too early, or never to begin. -/
theorem exists_not_blinksSo (d : DeviceLed) (c : LedCfg) (t₀ : ℕ) (hcount : c.repeatCount ≤ 254)
    (haccepted : (d.setup c (clockTime t₀)).2 = 1) (hfits : ¬ c.Fits) :
    ∃ gaps : List ℕ, (∀ gap ∈ gaps, gap < 2 ^ 31) ∧
      Along LedRun.poll LedRun.InTime (.start d c t₀) gaps ∧ ¬ BlinksSo d c t₀ gaps := by
  have hsetup := setup_accepted hcount haccepted
  -- the poll right behind the span that is left of the product
  have hlate : ∀ ms : UInt16, ms.toNat * systemTimerTick1Ms + 1 < 2 ^ 31 := by
    intro ms
    have hms := ms.toNat_lt
    rw [systemTimerTick1Ms]
    omega
  have hspan : ∀ (ms : UInt16) (n : ℕ), 2 ^ 16 ≤ n →
      ms.toNat * systemTimerTick1Ms + 1 ≤ n * systemTimerTick1Ms := by
    intro ms n hn
    have hms := ms.toNat_lt
    rw [systemTimerTick1Ms]
    omega
  by_cases hon : c.onTimeMs = 0
  case pos =>
    have hover : 2 ^ 16 ≤ c.offTimeMs.toNat * c.repeatCount.toNat := by
      by_contra hlt
      exact hfits ⟨fun _ => not_le.mp hlt, fun _ => by rw [hon]; simp⟩
    have hline : c.phases = [phaseMs false (c.offTimeMs.toNat * c.repeatCount.toNat) 1] := if_pos hon
    let ms := c.offTimeMs * c.repeatCount.toUInt16
    refine ⟨[ms.toNat * systemTimerTick1Ms + 1], by simpa using hlate ms,
      ⟨inTime_first ((hlate ms).trans (by simp)), trivial⟩, fun hblinks => ?_⟩
    have hshows := (hblinks.shows _ List.prefix_rfl).repeatCount
    have hended : ((LedRun.start d c t₀).poll (ms.toNat * systemTimerTick1Ms + 1)).led.repeatCount =
        0 := by
      refine process_only ?_ ?_ (.inr ?_) <;>
        simp [LedRun.start, hsetup, DeviceLed.onOff, hon, ms]
    have hstill : ((LedRun.start d c t₀).poll (ms.toNat * systemTimerTick1Ms + 1)).line.shown =
        some ⟨false, 1⟩ := by
      rw [LedRun.poll, LedRun.start, LedCfg.timeline, hline]
      exact shown_only (hspan ms _ hover)
    rw [List.foldl_cons, List.foldl_nil, hended, hstill] at hshows
    cases hshows
  case neg =>
    have hoff : c.offTimeMs = 0 := by
      by_contra hoff
      exact hfits ⟨fun h => absurd h hon, fun h => absurd h hoff⟩
    have hover : 2 ^ 16 ≤ c.onTimeMs.toNat * c.repeatCount.toNat := by
      by_contra hlt
      exact hfits ⟨fun h => absurd h hon, fun _ => not_le.mp hlt⟩
    have hline : c.phases = [phaseMs true (c.onTimeMs.toNat * c.repeatCount.toNat) 1] := by
      rw [LedCfg.phases, if_neg hon, if_pos hoff]
    let ms := c.onTimeMs * c.repeatCount.toUInt16
    by_cases hms : ms = 0
    case pos =>
      -- nothing is left of the product: the LED is not lit at all
      refine ⟨[], by simp, trivial, fun hblinks => ?_⟩
      have hshows := (hblinks.shows _ List.prefix_rfl).isOn
      rw [List.foldl_nil, LedRun.start, hsetup, LedCfg.timeline, hline] at hshows
      simp [DeviceLed.onOff, hon, hoff, ms] at hms hshows
      simp [hms, Timeline.shown, phaseMs] at hshows
    case neg =>
      refine ⟨[ms.toNat * systemTimerTick1Ms + 1], by simpa using hlate ms,
        ⟨inTime_first ((hlate ms).trans (by simp)), trivial⟩, fun hblinks => ?_⟩
      have hshows := (hblinks.shows _ List.prefix_rfl).repeatCount
      have hended : ((LedRun.start d c t₀).poll
          (ms.toNat * systemTimerTick1Ms + 1)).led.repeatCount = 0 := by
        refine process_only ?_ ?_ (.inl ⟨?_, ?_, ?_⟩) <;>
          simp_all [LedRun.start, DeviceLed.onOff, ms]
      have hstill : ((LedRun.start d c t₀).poll
          (ms.toNat * systemTimerTick1Ms + 1)).line.shown = some ⟨true, 1⟩ := by
        rw [LedRun.poll, LedRun.start, LedCfg.timeline, hline]
        exact shown_only (hspan ms _ hover)
      rw [List.foldl_cons, List.foldl_nil, hended, hstill] at hshows
      cases hshows

/-- **An accepted configuration** blinks as it is to exactly at the polls that are in time, if a
merged period of it fits in 16 bits; if not, there are polls in time at which it does not. -/
theorem deviceLed_blinks_iff (d : DeviceLed) (c : LedCfg) (t₀ : ℕ)
    (hcount : 1 ≤ c.repeatCount ∧ c.repeatCount ≤ 254)
    (haccepted : (d.setup c (clockTime t₀)).2 = 1) :
    (c.Fits → ∀ gaps, BlinksSo d c t₀ gaps ↔
      Along LedRun.poll LedRun.InTime (.start d c t₀) gaps) ∧
    (¬ c.Fits → ∃ gaps : List ℕ, (∀ gap ∈ gaps, gap < 2 ^ 31) ∧
      Along LedRun.poll LedRun.InTime (.start d c t₀) gaps ∧ ¬ BlinksSo d c t₀ gaps) :=
  ⟨blinksSo_iff_inTime hcount haccepted, exists_not_blinksSo d c t₀ hcount.2 haccepted⟩

/-- `device_led` at the start. -/
def DeviceLed.boot : DeviceLed :=
  { isOn := 0, polar := 0, repeatCount := 0, priority := 0, onTimeMs := 0, offTimeMs := 0
    startTick := 0, gpioLevel := 0, gpioOutputEn := 0 }

/-- Three times a tenth of a second. -/
theorem deviceLed_three_times :
    let c : LedCfg := ⟨100, 100, 3, 1⟩
    (c.Fits → ∀ gaps, BlinksSo .boot c 0 gaps ↔
      Along LedRun.poll LedRun.InTime (.start .boot c 0) gaps) ∧
    (¬ c.Fits → ∃ gaps : List ℕ, (∀ gap ∈ gaps, gap < 2 ^ 31) ∧
      Along LedRun.poll LedRun.InTime (.start .boot c 0) gaps ∧ ¬ BlinksSo .boot c 0 gaps) :=
  deviceLed_blinks_iff .boot ⟨100, 100, 3, 1⟩ 0 (by decide) rfl

/-- A second on, a hundred times: the LED is on for 34464 milliseconds. -/
theorem deviceLed_short :
    ¬ ∀ (d : DeviceLed) (c : LedCfg) (t₀ : ℕ) (gaps : List ℕ),
      1 ≤ c.repeatCount ∧ c.repeatCount ≤ 254 → (d.setup c (clockTime t₀)).2 = 1 →
        (∀ gap ∈ gaps, gap < 2 ^ 31) → BlinksSo d c t₀ gaps := by
  intro hall
  obtain ⟨gaps, hgaps, -, hnot⟩ := exists_not_blinksSo .boot ⟨1000, 0, 100, 1⟩ 0 (by decide) rfl
    fun hfits => absurd (hfits.2 rfl) (by decide)
  exact hnot (hall .boot ⟨1000, 0, 100, 1⟩ 0 gaps (by decide) rfl hgaps)

end TcBle.Vendor
