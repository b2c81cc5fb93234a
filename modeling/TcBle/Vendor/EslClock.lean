import Mathlib.Data.List.Infix
import TcBle.Vendor.AppEsl

/-!
# The clock of the electronic shelf label

`eslp_esl_demo/app_esl.c`: the tests that a timed command meets, `currentTimeCheckTimedCommand` when
it comes and `currentTimeExpired` when the clock goes on, and how `currentTimeLoop` keeps the clock.

## The model

The clock counts milliseconds modulo `2 ^ 32`, so how far ahead of it a time is, and how far it went,
are differences of 32-bit words. The system tick is read twice in `currentTimeLoop`, by
`clock_time_exceed` and for the clock. Ticks are counted from the start of the label without a
bound; the label sees them modulo `2 ^ 32`.

## What is proved

* `checkTimedCommand_right_iff` and `currentTimeExpired_passes_iff` — the two tests against the circle
  of times.
* `Meter.tracks` — the clock is behind by what the updates have dropped.
-/

namespace TcBle.Vendor

variable {n m : ℕ}

/-! ### The tests of a timed command -/

/-- A time can be meant: it is not too far ahead of the clock. -/
def PlausibleAt (timer time : UInt32) : Prop :=
  time - timer ≤ implausibleTimeOffsetMs

/-- The step of the clock from `prev` to `next` passes `time`: it is ahead of `prev`, and not ahead of
`next`. -/
def Passes (prev next time : UInt32) : Prop :=
  0 < time - prev ∧ time - prev ≤ next - prev

/-- How far ahead a time is that is below the clock. -/
theorem toNat_sub_of_lt {timer time : UInt32} (h : time < timer) :
    (time - timer).toNat = 2 ^ 32 - timer.toNat + time.toNat := by
  have hlt := UInt32.lt_iff_toNat_lt.mp h
  have ht := timer.toNat_lt
  rw [UInt32.toNat_sub]
  apply Nat.mod_eq_of_lt
  omega

/-- The check of a time that is not below the clock is the right one. -/
theorem checkTimedCommand_of_le {timer time : UInt32} (lastTick : UInt32) (h : timer ≤ time) :
    CurrentTime.checkTimedCommand ⟨true, timer, lastTick⟩ time = true ↔ PlausibleAt timer time := by
  simp [CurrentTime.checkTimedCommand, PlausibleAt, h]

/-- The check of a time below the clock asks only that it is not the next one. -/
theorem checkTimedCommand_of_lt {timer time : UInt32} (lastTick : UInt32) (h : time < timer) :
    CurrentTime.checkTimedCommand ⟨true, timer, lastTick⟩ time = true ↔ time - timer ≠ 1 := by
  have hle : ¬ timer ≤ time := UInt32.not_le.mpr h
  have hne : 0xFFFFFFFF - timer + time ≠ 0 ↔ time - timer ≠ 1 := by grind
  simp [CurrentTime.checkTimedCommand, hle, hne]

/-- **When the check is right**: the time is not below the clock, or it is ahead by more than a
millisecond and not too far. -/
theorem checkTimedCommand_right_iff (timer time lastTick : UInt32) :
    (CurrentTime.checkTimedCommand ⟨true, timer, lastTick⟩ time = true ↔ PlausibleAt timer time) ↔
      (timer ≤ time ∨ 1 < time - timer ∧ time - timer ≤ implausibleTimeOffsetMs) := by
  rcases UInt32.le_or_lt timer time with h | h
  · simp [checkTimedCommand_of_le lastTick h, h]
  · have hpos : 0 < (time - timer).toNat := by
      rw [toNat_sub_of_lt h]
      have := timer.toNat_lt
      omega
    have hone : time - timer ≠ 1 ↔ (time - timer).toNat ≠ 1 := by
      rw [Ne, ← UInt32.toNat_inj]
      rfl
    have hle : ¬ timer ≤ time := UInt32.not_le.mpr h
    simp only [checkTimedCommand_of_lt lastTick h, PlausibleAt, hone, hle, false_or,
      UInt32.lt_iff_toNat_lt, UInt32.le_iff_toNat_le, UInt32.toNat_one]
    by_cases hoff : (time - timer).toNat ≤ implausibleTimeOffsetMs.toNat
    · simp only [hoff, iff_true, and_true]
      omega
    · simp only [hoff, iff_false, and_false, not_not]
      have : (1 : ℕ) ≤ implausibleTimeOffsetMs.toNat := by decide
      omega

/-! ### The test at a step of the clock -/

/-- **A step of the clock passes** the times that the test says, unless it is none. -/
theorem currentTimeExpired_passes_iff {prev next : UInt32} (h : prev ≠ next) (time : UInt32) :
    currentTimeExpired prev next time = true ↔ Passes prev next time := by
  have hprev := prev.toNat_lt
  have hne : prev.toNat ≠ next.toNat := fun he => h (UInt32.toNat_inj.mp he)
  have hpass : Passes prev next time ↔ 0 < (2 ^ 32 - prev.toNat + time.toNat) % 2 ^ 32 ∧
      (2 ^ 32 - prev.toNat + time.toNat) % 2 ^ 32 ≤ (2 ^ 32 - prev.toNat + next.toNat) % 2 ^ 32 := by
    rw [Passes, UInt32.lt_iff_toNat_lt, UInt32.le_iff_toNat_le, UInt32.toNat_sub, UInt32.toNat_sub]
    rfl
  have htime := time.toNat_lt
  have hnext := next.toNat_lt
  rw [hpass, currentTimeExpired]
  by_cases hlt : next > prev
  · have := UInt32.lt_iff_toNat_lt.mp hlt
    simp only [hlt, if_true, Bool.and_eq_true, decide_eq_true_eq, gt_iff_lt, UInt32.lt_iff_toNat_lt,
      UInt32.le_iff_toNat_le]
    omega
  · have : ¬ prev.toNat < next.toNat := fun he => hlt (UInt32.lt_iff_toNat_lt.mpr he)
    simp only [hlt, if_false, Bool.or_eq_true, decide_eq_true_eq, gt_iff_lt, UInt32.lt_iff_toNat_lt,
      UInt32.le_iff_toNat_le]
    omega

/-- A step that is none passes nothing, and the test says that it passes everything. -/
theorem currentTimeExpired_self (prev time : UInt32) :
    currentTimeExpired prev prev time = true ∧ ¬ Passes prev prev time := by
  constructor
  · have : time ≤ prev ∨ prev < time := UInt32.le_or_lt time prev
    simpa [currentTimeExpired] using this
  · rintro ⟨hpos, hle⟩
    rw [UInt32.sub_self] at hle
    exact UInt32.not_le.mpr hpos hle

/-! ### The clock, read and set by the label -/

section Label

variable (b : EslBoard m)

/-- `clock_time_exceed`, the clock being `now`. -/
def exceeds (tick1us now ref us : UInt32) : Bool := now - ref > us * tick1us

/-- `SYSTEM_TIMER_TICK_1US * 1000`: the ticks of a millisecond. -/
def EslBoard.tick1ms : ℕ := (b.tick1us * 1000).toNat

theorem EslBoard.tick1ms_pos : 0 < b.tick1ms := by
  have h : b.tick1ms ≠ (0 : UInt32).toNat := fun he => b.tick1ms_ne_zero (UInt32.toNat_inj.mp he)
  exact Nat.pos_of_ne_zero h

theorem EslBoard.tick1ms_comm : 1000 * b.tick1us = b.tick1us * 1000 := UInt32.mul_comm _ _

/-- The clock that `currentTimeLoop` leaves: `seen` is what `clock_time_exceed` reads, and `tick` what
is read for the clock. -/
def CurrentTime.poll (seen tick : UInt32) (c : CurrentTime) : CurrentTime :=
  if c.active && exceeds b.tick1us seen c.lastTick 1000 then
    ⟨c.active, c.timer + (tick - c.lastTick) / (b.tick1us * 1000), tick⟩
  else c

/-- It is the clock that the loop of the label leaves, where the two are the same. -/
theorem AppEsl.currentTimeLoop_currentTime (tick : UInt32) (s : AppEsl n m) :
    (s.currentTimeLoop b tick).currentTime = s.currentTime.poll b tick tick := by
  have hexceeds : exceeds b.tick1us tick s.currentTime.lastTick 1000 =
      decide (tick - s.currentTime.lastTick > 1000 * b.tick1us) := rfl
  rw [AppEsl.currentTimeLoop, CurrentTime.poll, hexceeds]
  split <;> rfl

/-- The clock goes on exactly when the loop finds more than a millisecond gone. -/
theorem AppEsl.currentTimeLoop_timer_ne_iff (tick : UInt32) (s : AppEsl n m) :
    (s.currentTimeLoop b tick).currentTime.timer ≠ s.currentTime.timer ↔
      s.currentTime.active = true ∧ tick - s.currentTime.lastTick > 1000 * b.tick1us := by
  rw [AppEsl.currentTimeLoop_currentTime, CurrentTime.poll]
  by_cases h : s.currentTime.active = true ∧ tick - s.currentTime.lastTick > 1000 * b.tick1us
  · have hgone : b.tick1ms < (tick - s.currentTime.lastTick).toNat := by
      have := UInt32.lt_iff_toNat_lt.mp h.2
      rwa [b.tick1ms_comm] at this
    have hq : ((tick - s.currentTime.lastTick) / (b.tick1us * 1000)).toNat ≠ 0 := by
      rw [UInt32.toNat_div]
      exact (Nat.div_pos hgone.le b.tick1ms_pos).ne'
    simp only [exceeds, h.1, h.2, decide_true, Bool.and_self, if_true, and_self, iff_true, Ne]
    intro hself
    apply hq
    rw [UInt32.add_eq_left.mp hself]
    rfl
  · have : (s.currentTime.active && decide (tick - s.currentTime.lastTick > 1000 * b.tick1us)) =
        false := by
      simpa using h
    simp [exceeds, this, h]

/-- A command for an LED that has none pending is refused exactly when the check says so. -/
theorem AppEsl.ledTimedControl_implausible_iff {eslId : UInt8} {ledId : Fin n} {fields : LedFields}
    {time : UInt32} {s : AppEsl n m} (hfree : (s.ledControlData ledId).pendingUpdate = false) :
    (s.ledTimedControl eslId ledId fields time).2 = some (.error .implausibleAbsoluteTime) ↔
      s.currentTime.checkTimedCommand time = false := by
  simp only [AppEsl.ledTimedControl, hfree, Bool.false_and, Bool.false_eq_true, if_false, answer]
  cases s.currentTime.checkTimedCommand time with
  | true => by_cases he : eslId = eslIdBroadcast <;> simp [he]
  | false => simp

/-- A command for a display that has none pending is refused exactly when the check says so. -/
theorem AppEsl.displayTimedImage_implausible_iff {imageLength : UInt8 → UInt32} {eslId : UInt8}
    {displayId : Fin m} {imageId : UInt8} {time : UInt32} {s : AppEsl n m}
    (heslId : eslId ≠ eslIdBroadcast)
    (hfree : (s.displayControlData displayId).pendingUpdate = false)
    (himage : imageLength imageId = (b.imageSize displayId).toUInt32) :
    (s.displayTimedImage b imageLength eslId displayId imageId time).2 =
        some (.error .implausibleAbsoluteTime) ↔
      s.currentTime.checkTimedCommand time = false := by
  simp only [AppEsl.displayTimedImage, himage, hfree, answer]
  cases s.currentTime.checkTimedCommand time <;> simp [heslId]

end Label

/-- **The tests of a timed command**: both are right exactly where the time is not below the clock or
is ahead by more than a millisecond and not too far, and the step of the clock is one. The loop
makes no other. -/
theorem timedCommand_tests_iff (b : EslBoard m) (s : AppEsl n m) (tick : UInt32)
    (timer lastTick time prev next expirationTime : UInt32) :
    (((CurrentTime.checkTimedCommand ⟨true, timer, lastTick⟩ time = true ↔ PlausibleAt timer time) ∧
        (currentTimeExpired prev next expirationTime = true ↔ Passes prev next expirationTime)) ↔
      (timer ≤ time ∨ 1 < time - timer ∧ time - timer ≤ implausibleTimeOffsetMs) ∧ prev ≠ next) ∧
    ((s.currentTimeLoop b tick).currentTime.timer ≠ s.currentTime.timer ↔
      s.currentTime.active = true ∧ tick - s.currentTime.lastTick > 1000 * b.tick1us) := by
  refine ⟨and_congr (checkTimedCommand_right_iff timer time lastTick) ⟨fun h he => ?_, fun h => ?_⟩,
    AppEsl.currentTimeLoop_timer_ne_iff b tick s⟩
  · subst he
    obtain ⟨hexpired, hpasses⟩ := currentTimeExpired_self prev expirationTime
    exact hpasses (h.mp hexpired)
  · exact currentTimeExpired_passes_iff h expirationTime

/-- Right after the wrap, a time from right before it is plausible. -/
theorem timedCommand_tests_fail :
    CurrentTime.checkTimedCommand ⟨true, 5, 0⟩ 3 = true ∧ ¬ PlausibleAt 5 3 := by
  constructor
  · rfl
  · simp only [PlausibleAt, UInt32.not_le]
    decide

/-! ### The clock over a run -/

/-- The ticks from one poll to the next: `wait` ticks until `clock_time_exceed` reads the clock, and
`delay` more until it is read again. -/
structure Poll where
  /-- Until the first reading. -/
  wait : ℕ
  /-- Until the second. -/
  delay : ℕ
  /-- The polls are less than one wrap apart. -/
  near : wait + delay < 2 ^ 32

/-- What the polls do to the ticks, whatever is done with them. -/
structure Meter where
  /-- The tick now. -/
  now : ℕ
  /-- The tick of the last update. -/
  last : ℕ
  /-- The ticks that the updates have dropped: what is left of each gap between two over whole
  milliseconds, and the wraps in it. -/
  lost : ℕ

namespace Meter

variable (b : EslBoard m)

/-- The poll finds more than a millisecond gone, as the tick shows it. -/
def Due (r : Meter) (p : Poll) : Prop := b.tick1ms < (r.now + p.wait - r.last) % 2 ^ 32

instance {r : Meter} {p : Poll} : Decidable (r.Due b p) := inferInstanceAs (Decidable (_ < _))

/-- What an update drops of a gap. -/
def dropped (gap : ℕ) : ℕ := gap - b.tick1ms * (gap % 2 ^ 32 / b.tick1ms)

/-- One poll. -/
def poll (r : Meter) (p : Poll) : Meter :=
  let now := r.now + p.wait + p.delay
  if r.Due b p then ⟨now, now, r.lost + dropped b (now - r.last)⟩ else { r with now := now }

/-- The polls after the clock was set at the tick `t₀`. -/
def run (t₀ : ℕ) (ps : List Poll) : Meter := ps.foldl (poll b) ⟨t₀, t₀, 0⟩

end Meter

/-- One poll of the clock, at a tick. -/
def pollAt (b : EslBoard m) (x : ℕ × CurrentTime) (p : Poll) : ℕ × CurrentTime :=
  (x.1 + p.wait + p.delay,
    x.2.poll b (.ofNat (x.1 + p.wait)) (.ofNat (x.1 + p.wait + p.delay)))

/-- The tick and the clock after it was set to `time` at the tick `t₀`, and polled. -/
def clockRun (b : EslBoard m) (time : UInt32) (t₀ : ℕ) (ps : List Poll) : ℕ × CurrentTime :=
  ps.foldl (pollAt b) (t₀, ⟨true, time, .ofNat t₀⟩)

/-- The poll updates the clock. -/
def Updates (b : EslBoard m) (x : ℕ × CurrentTime) (p : Poll) : Prop :=
  x.2.active = true ∧ exceeds b.tick1us (.ofNat (x.1 + p.wait)) x.2.lastTick 1000 = true

namespace Meter

variable {b : EslBoard m} {time : UInt32} {t₀ : ℕ}

/-- The clock is behind by what the updates have dropped. -/
structure Tracks (b : EslBoard m) (time : UInt32) (t₀ : ℕ) (r : Meter) (x : ℕ × CurrentTime) :
    Prop where
  /-- The tick. -/
  now : x.1 = r.now
  /-- The clock is set. -/
  active : x.2.active = true
  /-- The tick of the last update. -/
  lastTick : x.2.lastTick = .ofNat r.last
  /-- It is not ahead. -/
  last_le : r.last ≤ r.now
  /-- The milliseconds that were counted. -/
  timer : ∃ k, r.last = t₀ + b.tick1ms * k + r.lost ∧ x.2.timer = time + .ofNat k

/-- What an update counts of a gap, and what it drops. -/
theorem counted_add_dropped (b : EslBoard m) (gap : ℕ) :
    b.tick1ms * (gap % 2 ^ 32 / b.tick1ms) + dropped b gap = gap := by
  have hle : b.tick1ms * (gap % 2 ^ 32 / b.tick1ms) ≤ gap :=
    (Nat.mul_div_le _ _).trans (Nat.mod_le _ _)
  rw [dropped]
  omega

/-- The ticks between two, as the label counts them. -/
theorem toNat_ofNat_sub {a c : ℕ} (h : c ≤ a) :
    (UInt32.ofNat a - UInt32.ofNat c).toNat = (a - c) % 2 ^ 32 := by
  rw [← UInt32.ofNat_sub h, UInt32.toNat_ofNat']

/-- A poll updates the clock when it is due. -/
theorem Tracks.updates_iff {r : Meter} {x : ℕ × CurrentTime} (h : r.Tracks b time t₀ x) (p : Poll) :
    Updates b x p ↔ r.Due b p := by
  have hle : r.last ≤ r.now + p.wait := Nat.le_add_right_of_le h.last_le
  rw [Updates, exceeds, decide_eq_true_eq, Due, h.now, h.lastTick, gt_iff_lt,
    UInt32.lt_iff_toNat_lt, toNat_ofNat_sub hle, b.tick1ms_comm]
  exact and_iff_right h.active

/-- **One poll** keeps the account. -/
theorem Tracks.poll {r : Meter} {x : ℕ × CurrentTime} (h : r.Tracks b time t₀ x) (p : Poll) :
    (r.poll b p).Tracks b time t₀ (pollAt b x p) := by
  obtain ⟨k, hlast, htimer⟩ := h.timer
  have hnow := h.now
  have hle := h.last_le
  by_cases hdue : r.Due b p
  · obtain ⟨hactive, hgone⟩ := (h.updates_iff p).mpr hdue
    have hr : r.poll b p = ⟨r.now + p.wait + p.delay, r.now + p.wait + p.delay,
        r.lost + dropped b (r.now + p.wait + p.delay - r.last)⟩ := by
      simp only [Meter.poll, hdue, if_true]
    have hx : pollAt b x p = (x.1 + p.wait + p.delay,
        ⟨true, x.2.timer + (.ofNat (x.1 + p.wait + p.delay) - x.2.lastTick) / (b.tick1us * 1000),
          .ofNat (x.1 + p.wait + p.delay)⟩) := by
      simp only [pollAt, CurrentTime.poll, hactive, hgone, Bool.and_self, if_true]
    have hcount : (.ofNat (x.1 + p.wait + p.delay) - x.2.lastTick) / (b.tick1us * 1000) =
        UInt32.ofNat ((r.now + p.wait + p.delay - r.last) % 2 ^ 32 / b.tick1ms) := by
      apply UInt32.toNat_inj.mp
      have hlt := Nat.mod_lt (r.now + p.wait + p.delay - r.last) (Nat.two_pow_pos 32)
      have hdiv := Nat.div_le_self
        ((r.now + p.wait + p.delay - r.last) % 2 ^ 32) b.tick1ms
      rw [UInt32.toNat_div, hnow, h.lastTick, toNat_ofNat_sub (by omega), UInt32.toNat_ofNat',
        Nat.mod_eq_of_lt (lt_of_le_of_lt hdiv hlt)]
      rfl
    rw [hr, hx]
    refine ⟨by rw [hnow], rfl, by rw [hnow], le_rfl,
      k + (r.now + p.wait + p.delay - r.last) % 2 ^ 32 / b.tick1ms, ?_, ?_⟩
    · have := counted_add_dropped b (r.now + p.wait + p.delay - r.last)
      rw [Nat.mul_add]
      show r.now + p.wait + p.delay = _ + (r.lost + _)
      omega
    · show x.2.timer + _ = _
      rw [hcount, htimer, UInt32.ofNat_add k, UInt32.add_assoc]
  · have hr : r.poll b p = { r with now := r.now + p.wait + p.delay } := by
      simp only [Meter.poll, hdue, if_false]
    have hx : pollAt b x p = (x.1 + p.wait + p.delay, x.2) := by
      have hnot : (x.2.active &&
          exceeds b.tick1us (.ofNat (x.1 + p.wait)) x.2.lastTick 1000) = false := by
        have := mt (h.updates_iff p).mp hdue
        simpa [Updates] using this
      simp only [pollAt, CurrentTime.poll, hnot, Bool.false_eq_true, if_false]
    rw [hr, hx]
    refine ⟨by rw [hnow], h.active, h.lastTick, ?_, k, hlast, htimer⟩
    show r.last ≤ r.now + p.wait + p.delay
    omega

/-- **A run** keeps the account. -/
theorem tracks (b : EslBoard m) (time : UInt32) (t₀ : ℕ) (ps : List Poll) :
    (run b t₀ ps).Tracks b time t₀ (clockRun b time t₀ ps) := by
  induction ps using List.reverseRecOn with
  | nil => exact ⟨rfl, rfl, rfl, le_rfl, 0, rfl, (UInt32.add_zero _).symm⟩
  | append_singleton ps p ih =>
    rw [run, clockRun, List.foldl_append, List.foldl_append]
    exact ih.poll p

/-- Right after an update, the clock is exact when what was dropped is no millisecond. -/
theorem Tracks.exact_iff {r : Meter} {x : ℕ × CurrentTime} (h : r.Tracks b time t₀ x)
    (hnow : r.now = r.last) :
    x.2.timer = time + .ofNat ((x.1 - t₀) / b.tick1ms) ↔ r.lost / b.tick1ms % 2 ^ 32 = 0 := by
  obtain ⟨k, hlast, htimer⟩ := h.timer
  have hgone : (x.1 - t₀) / b.tick1ms = k + r.lost / b.tick1ms := by
    have : x.1 - t₀ = r.lost + b.tick1ms * k := by
      have := h.now
      omega
    rw [this, Nat.add_mul_div_left _ _ b.tick1ms_pos, Nat.add_comm]
  rw [htimer, hgone, UInt32.ofNat_add, ← UInt32.add_assoc, eq_comm, UInt32.add_eq_left,
    ← UInt32.toNat_inj, UInt32.toNat_ofNat']
  rfl

end Meter

/-- **The clock does not drift** exactly where what the updates have dropped since it was set never
makes up a millisecond. -/
theorem currentTime_exact_iff (b : EslBoard m) (time : UInt32) (t₀ : ℕ) (ps : List Poll) :
    (∀ qs p, qs ++ [p] <+: ps → Updates b (clockRun b time t₀ qs) p →
      (clockRun b time t₀ (qs ++ [p])).2.timer =
        time + .ofNat (((clockRun b time t₀ (qs ++ [p])).1 - t₀) / b.tick1ms)) ↔
    (∀ qs p, qs ++ [p] <+: ps → (Meter.run b t₀ qs).Due b p →
      (Meter.run b t₀ (qs ++ [p])).lost / b.tick1ms % 2 ^ 32 = 0) := by
  apply forall₃_congr
  intro qs p hpre
  have htracks := Meter.tracks b time t₀ qs
  rw [htracks.updates_iff p]
  apply forall_congr'
  intro hdue
  apply (Meter.tracks b time t₀ (qs ++ [p])).exact_iff
  rw [Meter.run, List.foldl_append]
  show ((Meter.run b t₀ qs).poll b p).now = ((Meter.run b t₀ qs).poll b p).last
  simp only [Meter.poll, hdue, if_true]

/-- Polled every one and a half milliseconds, the clock counts one. -/
theorem currentTime_exact_fails :
    let b : EslBoard 1 := ⟨16, by decide, fun _ => 0⟩
    let p : Poll := ⟨24000, 0, by decide⟩
    Updates b (clockRun b 0 0 [p]) p ∧
      (clockRun b 0 0 [p, p]).2.timer ≠
        0 + .ofNat (((clockRun b 0 0 [p, p]).1 - 0) / b.tick1ms) := by
  refine ⟨⟨rfl, ?_⟩, ?_⟩ <;> decide

end TcBle.Vendor
