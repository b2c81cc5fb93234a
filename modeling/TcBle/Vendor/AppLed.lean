import TcBle.Foundation.Run
import TcBle.Vendor.EslClock

/-!
# The LEDs of the electronic shelf label

`eslp_esl_demo/led/app_led.c`: an LED shows a pattern of 40 bits, from bit 39 down to bit 0, each for
the time of its value, and again until it has done so a number of times, or for a number of seconds.

## The model

What `app_led_apply` finds that an LED is to do is recorded in `shown`, and what the interface of the
LED is called with in `toggled`; `en` is always the last of these. The clock is read up to four times
in a step of an LED, and each reading may be anything. `app_led_register` is left out: which LEDs are
in use is given. What `apply` of the interface does with the settings touches nothing of this.

## What is proved

* `Led.idLoop_duration` — what remains never grows, whatever the state of the LED.
* `Led.Repeats.idLoop` — a step of an LED that repeats its pattern by count.
* `Led.Steady.idLoop` — the offset is one of the pattern, and the LED as it is to be.
* `Led.Lit.idLoop` — the LED is what was shown last.
-/

namespace TcBle.Vendor

open Foundation.Run

/-- `leds[led_id]`. -/
structure Led where
  /-- `in_use`. -/
  inUse : Bool
  /-- `command_active`. -/
  commandActive : Bool
  /-- `current_command`. -/
  currentCommand : AppLedCommand
  /-- `on_off_time`. -/
  onOffTime : UInt32
  /-- `repeat_time`. -/
  repeatTime : UInt32
  /-- `bit_offset`. -/
  bitOffset : UInt8
  /-- What `iface->toggle` was called with. -/
  toggled : List Bool
  /-- What the LED was to do, at each `app_led_apply`. -/
  shown : List Bool

/-- The readings of the clock in a step of an LED. -/
structure LedClock where
  /-- For the time of the bit. -/
  seen : UInt32
  /-- For `on_off_time`. -/
  onOff : UInt32
  /-- For the second. -/
  seenSecond : UInt32
  /-- For `repeat_time`. -/
  second : UInt32

/-- `pattern[bit_offset / 8] & (1 << (bit_offset % 8))`. -/
def AppLedCommand.bit (c : AppLedCommand) (bitOffset : ℕ) : Bool :=
  c.pattern.toList.getD (bitOffset / 8) 0 &&& ((1 : UInt8) <<< UInt8.ofNat (bitOffset % 8)) ≠ 0

namespace Led

/-- `en`. -/
def en (l : Led) : Bool := l.toggled.getLastD false

/-- What the LED is to do. -/
def target (l : Led) : Bool :=
  if l.commandActive then
    if l.currentCommand.repeatDuration ≠ 0 then l.currentCommand.bit l.bitOffset.toNat
    else l.currentCommand.repeatType ≠ 0
  else false

/-- `app_led_apply`. -/
def apply (l : Led) : Led :=
  { l with
    toggled := if l.en ≠ l.target then l.toggled ++ [l.target] else l.toggled
    shown := l.shown ++ [l.target] }

/-- `app_led_command_apply`, for an LED that is in use. -/
def commandApply (command : AppLedCommand) (onOffTime repeatTime : UInt32) (l : Led) : Led :=
  { l with
    currentCommand := command
    commandActive := true
    onOffTime := onOffTime
    repeatTime := repeatTime
    bitOffset := 39 }.apply

/-- `repeat_duration--`. -/
def decrease (l : Led) : Led :=
  { l with
    currentCommand :=
      { l.currentCommand with repeatDuration := l.currentCommand.repeatDuration - 1 } }

/-- The next bit, which is the first one again after the last. -/
def nextBit (onOffTime : UInt32) (l : Led) : Led :=
  { l with
    onOffTime := onOffTime
    bitOffset := (if l.bitOffset = 0 then 39 else l.bitOffset - 1) % (5 * 8) }

/-- The move to it. Once around, one repetition is done, where the LED repeats by count. -/
def moveBit (onOffTime : UInt32) (l : Led) : Led :=
  let l := l.nextBit onOffTime
  if l.bitOffset = 39 ∧ l.currentCommand.repeatType = 0 then l.decrease else l

/-- The time of the bit, in microseconds. -/
def timeout (l : Led) : UInt32 :=
  (if l.currentCommand.bit l.bitOffset.toNat then l.currentCommand.bitOnPeriod
    else l.currentCommand.bitOffPeriod).toUInt32 * 2000

/-- A second of an LED that repeats by time. -/
def countSecond (tick1us : UInt32) (c : LedClock) (l : Led) : Led :=
  if l.currentCommand.repeatType = 1 ∧ exceeds tick1us c.seenSecond l.repeatTime (1000 * 1000) then
    { l with repeatTime := c.second }.decrease
  else l

/-- The end of the repetitions. -/
def finish (l : Led) : Led :=
  if l.currentCommand.repeatDuration = 0 then { l with commandActive := false } else l

/-- `app_led_id_loop`. -/
def idLoop (tick1us : UInt32) (c : LedClock) (l : Led) : Led :=
  if !l.commandActive then l
  else if l.currentCommand.repeatDuration = 0 then l
  else
    let moved : Bool := exceeds tick1us c.seen l.onOffTime l.timeout
    let l := if moved then l.moveBit c.onOff else l
    let l := (l.countSecond tick1us c).finish
    let ledChanged := moved || l.currentCommand.repeatDuration = 0
    if ledChanged then l.apply else l

end Led

/-- `APP_LED_MAX_LEDS`. -/
def APP_LED_MAX_LEDS : ℕ := 4

/-- `leds`. -/
abbrev Leds := Fin APP_LED_MAX_LEDS → Led

namespace Leds

/-- `app_led_command_apply`, and what it returns. -/
def commandApply (ledId : UInt8) (command : AppLedCommand) (onOffTime repeatTime : UInt32)
    (leds : Leds) : Leds × Bool :=
  if h : ledId.toNat < APP_LED_MAX_LEDS then
    if (leds ⟨ledId.toNat, h⟩).inUse then
      (Function.update leds ⟨ledId.toNat, h⟩
        ((leds ⟨ledId.toNat, h⟩).commandApply command onOffTime repeatTime), true)
    else (leds, false)
  else (leds, false)

/-- `app_led_loop`: a round of its loop touches its own LED only. -/
def loop (tick1us : UInt32) (leds : Leds) (c : Fin APP_LED_MAX_LEDS → LedClock) : Leds :=
  fun i => if (leds i).inUse then (leds i).idLoop tick1us (c i) else leds i

end Leds

/-! ### One step -/

namespace Led

variable {tick1us : UInt32} {c : LedClock} {l : Led}

/-- The step moves to the next bit. -/
def Due (tick1us : UInt32) (c : LedClock) (l : Led) : Prop :=
  l.commandActive = true ∧ l.currentCommand.repeatDuration ≠ 0 ∧
    exceeds tick1us c.seen l.onOffTime l.timeout = true

instance : Decidable (l.Due tick1us c) := inferInstanceAs (Decidable (_ ∧ _))

@[simp] theorem apply_en : l.apply.en = l.target := by
  have hen : l.apply.en =
      (if l.en ≠ l.target then l.toggled ++ [l.target] else l.toggled).getLastD false := rfl
  rw [hen]
  by_cases h : l.en = l.target
  · rw [if_neg (not_not.mpr h)]
    exact h
  · rw [if_pos h]
    simp

@[simp] theorem apply_target : l.apply.target = l.target := rfl
@[simp] theorem apply_bitOffset : l.apply.bitOffset = l.bitOffset := rfl
@[simp] theorem apply_currentCommand : l.apply.currentCommand = l.currentCommand := rfl
@[simp] theorem apply_commandActive : l.apply.commandActive = l.commandActive := rfl
@[simp] theorem apply_shown : l.apply.shown = l.shown ++ [l.target] := rfl
@[simp] theorem apply_inUse : l.apply.inUse = l.inUse := rfl

/-- The LED before `app_led_apply` is called, or not. -/
def advance (tick1us : UInt32) (c : LedClock) (l : Led) : Led :=
  ((if exceeds tick1us c.seen l.onOffTime l.timeout then l.moveBit c.onOff else l).countSecond
    tick1us c).finish

/-- A step of an LED that has nothing to do. -/
theorem idLoop_of_idle (h : l.commandActive = false ∨ l.currentCommand.repeatDuration = 0) :
    l.idLoop tick1us c = l := by
  rcases h with h | h <;> simp [idLoop, h]

/-- A step of an LED that has something to do. -/
theorem idLoop_of_busy (hactive : l.commandActive = true)
    (hduration : l.currentCommand.repeatDuration ≠ 0) :
    l.idLoop tick1us c =
      if l.Due tick1us c ∨ (l.advance tick1us c).currentCommand.repeatDuration = 0 then
        (l.advance tick1us c).apply
      else l.advance tick1us c := by
  have hdue : l.Due tick1us c ↔ exceeds tick1us c.seen l.onOffTime l.timeout = true :=
    ⟨fun h => h.2.2, fun h => ⟨hactive, hduration, h⟩⟩
  rw [idLoop, hactive, Bool.not_true, if_neg Bool.false_ne_true, if_neg hduration]
  simp only [advance, hdue, Bool.or_eq_true, decide_eq_true_eq]

/-! ### What remains -/

/-- What is decreased is not `0`, so it does not wrap. -/
theorem decrease_duration (h : l.currentCommand.repeatDuration ≠ 0) :
    l.decrease.currentCommand.repeatDuration.toNat + 1 =
      l.currentCommand.repeatDuration.toNat := by
  have hpos : l.currentCommand.repeatDuration.toNat ≠ 0 :=
    fun he => h (BitVec.eq_of_toNat_eq he)
  have hlt := l.currentCommand.repeatDuration.isLt
  show (l.currentCommand.repeatDuration - 1).toNat + 1 = _
  rw [BitVec.toNat_sub]
  show (2 ^ 15 - 1 + l.currentCommand.repeatDuration.toNat) % 2 ^ 15 + 1 = _
  omega

/-- A move decreases by one at most, and only where the LED repeats by count. -/
theorem moveBit_duration (t : UInt32) (h : l.currentCommand.repeatDuration ≠ 0) :
    (l.moveBit t).currentCommand.repeatDuration = l.currentCommand.repeatDuration ∨
      l.currentCommand.repeatType = 0 ∧
        (l.moveBit t).currentCommand.repeatDuration.toNat + 1 =
          l.currentCommand.repeatDuration.toNat := by
  have hnext : (l.nextBit t).currentCommand = l.currentCommand := rfl
  rw [moveBit]
  split
  case isTrue hturn => exact .inr ⟨hturn.2, decrease_duration (l := l.nextBit t) h⟩
  case isFalse => exact .inl (by rw [hnext])

/-- A move does not change how the LED repeats. -/
theorem moveBit_repeatType (t : UInt32) :
    (l.moveBit t).currentCommand.repeatType = l.currentCommand.repeatType := by
  rw [moveBit]
  split <;> rfl

/-- A second decreases by one at most, and only where the LED repeats by time. -/
theorem countSecond_duration (h : l.currentCommand.repeatDuration ≠ 0) :
    (l.countSecond tick1us c).currentCommand.repeatDuration = l.currentCommand.repeatDuration ∨
      l.currentCommand.repeatType = 1 ∧
        (l.countSecond tick1us c).currentCommand.repeatDuration.toNat + 1 =
          l.currentCommand.repeatDuration.toNat := by
  rw [countSecond]
  split
  case isTrue hsecond => exact .inr ⟨hsecond.1, decrease_duration h⟩
  case isFalse => exact .inl rfl

/-- By count, seconds do not count. -/
theorem countSecond_of_count (h : l.currentCommand.repeatType = 0) :
    l.countSecond tick1us c = l := by
  rw [countSecond, h]
  exact if_neg fun hsecond => absurd hsecond.1 (by simp)

/-- The end changes the activity only. -/
theorem finish_currentCommand : l.finish.currentCommand = l.currentCommand := by
  rw [finish]
  split <;> rfl

/-- **What remains** is decreased by one at most in a step, and not below `0`. -/
theorem idLoop_duration (l : Led) :
    (l.idLoop tick1us c).currentCommand.repeatDuration = l.currentCommand.repeatDuration ∨
      (l.idLoop tick1us c).currentCommand.repeatDuration.toNat + 1 =
        l.currentCommand.repeatDuration.toNat := by
  by_cases hidle : l.commandActive = false ∨ l.currentCommand.repeatDuration = 0
  · rw [idLoop_of_idle hidle]
    exact .inl rfl
  · obtain ⟨hactive, hduration⟩ := not_or.mp hidle
    have hcmd : (l.idLoop tick1us c).currentCommand = (l.advance tick1us c).currentCommand := by
      rw [idLoop_of_busy (eq_true_of_ne_false hactive) hduration]
      split
      · rw [apply_currentCommand]
      · rfl
    rw [hcmd, advance, finish_currentCommand]
    by_cases hmoved : exceeds tick1us c.seen l.onOffTime l.timeout = true
    · rw [if_pos hmoved]
      rcases moveBit_duration c.onOff hduration with hmove | ⟨htype, hmove⟩
      · rw [← hmove] at hduration ⊢
        rcases countSecond_duration hduration with h | ⟨-, h⟩
        · exact .inl h
        · exact .inr h
      · right
        rw [countSecond_of_count (by rw [moveBit_repeatType, htype]), hmove]
    · rw [if_neg hmoved]
      rcases countSecond_duration hduration with h | ⟨-, h⟩
      · exact .inl h
      · exact .inr h

/-! ### What the LED is -/

/-- The offset is one of the pattern, and the LED is as it is to be. -/
structure Steady (l : Led) : Prop where
  /-- The offset. -/
  bitOffset_le : l.bitOffset.toNat ≤ 39
  /-- The LED. -/
  en_eq : l.en = l.target

/-- An LED that has something to do is to show the bit. -/
theorem target_of_busy (hactive : l.commandActive = true)
    (hduration : l.currentCommand.repeatDuration ≠ 0) :
    l.target = l.currentCommand.bit l.bitOffset.toNat := by
  rw [target, if_pos hactive, if_pos hduration]

/-- The LED is what was shown last. -/
def Lit (l : Led) : Prop := l.shown.getLast? = some l.en

theorem apply_lit : l.apply.Lit := by
  rw [Lit, apply_shown, apply_en, List.getLast?_concat]

/-- A command shows something. -/
theorem Lit.commandApply (command : AppLedCommand) (t₁ t₂ : UInt32) (l : Led) :
    (l.commandApply command t₁ t₂).Lit := apply_lit

/-- Nothing is shown before `app_led_apply` is called. -/
theorem advance_shown : (l.advance tick1us c).shown = l.shown ∧
    (l.advance tick1us c).en = l.en := by
  have hmove : ∀ (t : UInt32) (l : Led), (l.moveBit t).shown = l.shown ∧
      (l.moveBit t).toggled = l.toggled := by
    intro t l
    rw [moveBit]
    split <;> exact ⟨rfl, rfl⟩
  have hsecond : ∀ l : Led, (l.countSecond tick1us c).shown = l.shown ∧
      (l.countSecond tick1us c).toggled = l.toggled := by
    intro l
    rw [countSecond]
    split <;> exact ⟨rfl, rfl⟩
  have hfinish : ∀ l : Led, l.finish.shown = l.shown ∧ l.finish.toggled = l.toggled := by
    intro l
    rw [finish]
    split <;> exact ⟨rfl, rfl⟩
  rw [en, en, advance, (hfinish _).1, (hfinish _).2, (hsecond _).1, (hsecond _).2]
  split
  · rw [(hmove _ _).1, (hmove _ _).2]
    exact ⟨rfl, rfl⟩
  · exact ⟨rfl, rfl⟩

/-- **One step** leaves the LED what was shown last. -/
theorem Lit.idLoop (h : l.Lit) : (l.idLoop tick1us c).Lit := by
  by_cases hidle : l.commandActive = false ∨ l.currentCommand.repeatDuration = 0
  · rwa [idLoop_of_idle hidle]
  · obtain ⟨hactive, hduration⟩ := not_or.mp hidle
    rw [idLoop_of_busy (eq_true_of_ne_false hactive) hduration]
    split
    case isTrue => exact apply_lit
    case isFalse =>
      rw [Lit, advance_shown.1, advance_shown.2]
      exact h

/-- A command makes the LED what it is to be. -/
theorem Steady.commandApply (command : AppLedCommand) (t₁ t₂ : UInt32) (l : Led) :
    (l.commandApply command t₁ t₂).Steady where
  bitOffset_le := by
    rw [Led.commandApply, apply_bitOffset]
    exact Nat.le_refl 39
  en_eq := by rw [Led.commandApply, apply_en, apply_target]

/-- The next offset. -/
theorem nextBit_bitOffset (t : UInt32) (h : l.bitOffset.toNat ≤ 39) :
    (l.nextBit t).bitOffset.toNat = if l.bitOffset.toNat = 0 then 39 else l.bitOffset.toNat - 1 := by
  have hzero : l.bitOffset = 0 ↔ l.bitOffset.toNat = 0 := by
    rw [← UInt8.toNat_inj]
    rfl
  rw [nextBit, UInt8.toNat_mod]
  simp only [hzero]
  split
  · rfl
  · have hone : (1 : UInt8) ≤ l.bitOffset := by
      rw [UInt8.le_iff_toNat_le]
      exact Nat.one_le_iff_ne_zero.mpr ‹_›
    rw [UInt8.toNat_sub_of_le _ _ hone]
    show (l.bitOffset.toNat - 1) % 40 = _
    omega

theorem moveBit_bitOffset (t : UInt32) : (l.moveBit t).bitOffset = (l.nextBit t).bitOffset := by
  rw [moveBit]
  split <;> rfl

theorem countSecond_bitOffset : (l.countSecond tick1us c).bitOffset = l.bitOffset := by
  rw [countSecond]
  split <;> rfl

theorem finish_bitOffset : l.finish.bitOffset = l.bitOffset := by
  rw [finish]
  split <;> rfl

/-- A second that is not the last changes nothing of what the LED is and is to be. -/
theorem countSecond_steady (h : l.Steady) (hactive : l.commandActive = true)
    (hduration : l.currentCommand.repeatDuration ≠ 0)
    (hleft : (l.countSecond tick1us c).currentCommand.repeatDuration ≠ 0) :
    (l.countSecond tick1us c).Steady := by
  unfold countSecond at hleft ⊢
  split
  case isTrue hsecond =>
    rw [if_pos hsecond] at hleft
    refine ⟨h.bitOffset_le, ?_⟩
    have hen : ({ l with repeatTime := c.second }.decrease).en = l.en := rfl
    have hbusy : ({ l with repeatTime := c.second }.decrease).commandActive = true := hactive
    rw [hen, h.en_eq, target_of_busy hactive hduration, target_of_busy hbusy hleft]
    rfl
  case isFalse => exact h

/-- **One step** keeps the offset in the pattern, and the LED as it is to be. -/
theorem Steady.idLoop (h : l.Steady) : (l.idLoop tick1us c).Steady := by
  by_cases hidle : l.commandActive = false ∨ l.currentCommand.repeatDuration = 0
  · rwa [idLoop_of_idle hidle]
  · obtain ⟨hactive, hduration⟩ := not_or.mp hidle
    have hactive : l.commandActive = true := eq_true_of_ne_false hactive
    have hoffset : (l.advance tick1us c).bitOffset.toNat ≤ 39 := by
      rw [advance, finish_bitOffset, countSecond_bitOffset]
      split
      · rw [moveBit_bitOffset, nextBit_bitOffset _ h.bitOffset_le]
        have := h.bitOffset_le
        split <;> omega
      · exact h.bitOffset_le
    rw [idLoop_of_busy hactive hduration]
    split
    case isTrue =>
      refine ⟨?_, ?_⟩
      · rw [apply_bitOffset]
        exact hoffset
      · rw [apply_en, apply_target]
    case isFalse hchanged =>
      -- the bit is the same, and something remains
      obtain ⟨hdue, hleft⟩ := not_or.mp hchanged
      have hseen : ¬ exceeds tick1us c.seen l.onOffTime l.timeout = true :=
        fun he => hdue ⟨hactive, hduration, he⟩
      rw [advance, finish_currentCommand, if_neg hseen] at hleft
      rw [advance, if_neg hseen, finish, if_neg hleft]
      exact countSecond_steady h hactive hduration hleft

/-! ### Repetitions by count -/

/-- The bit that is shown after `k` moves, and nothing once all are done. -/
def nthBit (command : AppLedCommand) (k : ℕ) : Bool :=
  if k < 40 * command.repeatDuration.toNat then command.bit (39 - k % 40) else false

/-- After `k` moves of an LED that repeats its pattern by count, and had shown `before`. -/
structure Repeats (command : AppLedCommand) (before : List Bool) (k : ℕ) (l : Led) : Prop where
  /-- There are no more than the bits of all repetitions. -/
  le : k ≤ 40 * command.repeatDuration.toNat
  /-- The LED is active until they are done. -/
  active : l.commandActive = decide (k < 40 * command.repeatDuration.toNat)
  /-- A repetition is 40 bits. -/
  command_eq : l.currentCommand =
    { command with repeatDuration := .ofNat 15 (command.repeatDuration.toNat - k / 40) }
  /-- The bit. -/
  bitOffset : l.bitOffset.toNat = 39 - k % 40
  /-- The bits so far. -/
  shown : l.shown = before ++ (List.range (k + 1)).map (nthBit command)

variable {command : AppLedCommand} {before : List Bool} {k : ℕ}

/-- The start. -/
theorem Repeats.commandApply (hcount : command.repeatDuration ≠ 0) (t₁ t₂ : UInt32) (l : Led) :
    (l.commandApply command t₁ t₂).Repeats command l.shown 0 where
  le := Nat.zero_le _
  active := by
    have hpos : command.repeatDuration.toNat ≠ 0 := fun he => hcount (BitVec.eq_of_toNat_eq he)
    have : 0 < 40 * command.repeatDuration.toNat := by omega
    rw [Led.commandApply, apply_commandActive, decide_eq_true this]
  command_eq := by
    rw [Led.commandApply, apply_currentCommand, Nat.zero_div, Nat.sub_zero,
      BitVec.ofNat_toNat, BitVec.setWidth_eq]
  bitOffset := rfl
  shown := by
    have hpos : command.repeatDuration.toNat ≠ 0 := fun he => hcount (BitVec.eq_of_toNat_eq he)
    have hlt : 0 < 40 * command.repeatDuration.toNat := by omega
    have hfirst : nthBit command 0 = command.bit 39 := by rw [nthBit, if_pos hlt]
    rw [Led.commandApply, apply_shown, target_of_busy rfl hcount, Nat.zero_add, List.range_one,
      List.map_cons, List.map_nil, hfirst]
    rfl

/-- Before the last move, something remains. -/
theorem Repeats.lt (h : l.Repeats command before k) (hactive : l.commandActive = true) :
    k < 40 * command.repeatDuration.toNat := by
  have := h.active
  rw [hactive] at this
  exact of_decide_eq_true this.symm

/-- The offset after the next move. -/
theorem Repeats.nextBit (h : l.Repeats command before k) (t : UInt32) :
    (l.nextBit t).bitOffset.toNat = 39 - (k + 1) % 40 := by
  have hoffset := h.bitOffset
  rw [nextBit_bitOffset t (by omega)]
  split <;> omega

/-- What the LED is to do after the next move: after the last bit, one repetition less. -/
theorem Repeats.moveBit (h : l.Repeats command before k) (htype : command.repeatType = 0)
    (hlt : k < 40 * command.repeatDuration.toNat) (t : UInt32) :
    (l.moveBit t).currentCommand =
      { command with
        repeatDuration := .ofNat 15 (command.repeatDuration.toNat - (k + 1) / 40) } := by
  have hcommand := h.command_eq
  have hturn : (l.nextBit t).bitOffset = 39 ∧ (l.nextBit t).currentCommand.repeatType = 0 ↔
      (k + 1) % 40 = 0 := by
    have hnext : (l.nextBit t).currentCommand.repeatType = 0 := by
      show l.currentCommand.repeatType = 0
      rw [hcommand]
      exact htype
    rw [and_iff_left hnext, ← UInt8.toNat_inj, h.nextBit t]
    show 39 - (k + 1) % 40 = 39 ↔ _
    omega
  rw [Led.moveBit]
  by_cases hk : (k + 1) % 40 = 0
  · have hless : BitVec.ofNat 15 (command.repeatDuration.toNat - k / 40) - 1 =
        BitVec.ofNat 15 (command.repeatDuration.toNat - (k + 1) / 40) := by
      have hisLt := command.repeatDuration.isLt
      apply BitVec.eq_of_toNat_eq
      rw [BitVec.toNat_sub, BitVec.toNat_ofNat, BitVec.toNat_ofNat]
      show (2 ^ 15 - 1 + _) % 2 ^ 15 = _
      omega
    rw [if_pos (hturn.mpr hk), decrease]
    show { l.currentCommand with repeatDuration := l.currentCommand.repeatDuration - 1 } = _
    rw [hcommand]
    simp only [hless]
  · have hsame : (k + 1) / 40 = k / 40 := by omega
    rw [if_neg (mt hturn.mp hk), hsame]
    exact hcommand

/-- **A step that moves**. -/
theorem Repeats.idLoop_of_due (h : l.Repeats command before k) (htype : command.repeatType = 0)
    (hdue : l.Due tick1us c) : (l.idLoop tick1us c).Repeats command before (k + 1) := by
  obtain ⟨hactive, hduration, hseen⟩ := id hdue
  have hlt := h.lt hactive
  have hisLt := command.repeatDuration.isLt
  have hcommand := h.moveBit htype hlt c.onOff
  have hskip : (l.moveBit c.onOff).countSecond tick1us c = l.moveBit c.onOff :=
    countSecond_of_count (by rw [hcommand]; exact htype)
  -- the end comes with the last bit of the last repetition
  have hend : (l.moveBit c.onOff).currentCommand.repeatDuration = 0 ↔
      ¬ k + 1 < 40 * command.repeatDuration.toNat := by
    rw [hcommand, ← BitVec.toNat_inj]
    show (BitVec.ofNat 15 _).toNat = 0 ↔ _
    rw [BitVec.toNat_ofNat]
    omega
  have hactive' : (l.moveBit c.onOff).finish.commandActive =
      decide (k + 1 < 40 * command.repeatDuration.toNat) := by
    rw [finish]
    by_cases hk : k + 1 < 40 * command.repeatDuration.toNat
    · rw [if_neg (mt hend.mp (not_not.mpr hk)), decide_eq_true hk, Led.moveBit]
      split <;> exact hactive
    · rw [if_pos (hend.mpr hk), decide_eq_false hk]
  have hoffset' : (l.moveBit c.onOff).finish.bitOffset.toNat = 39 - (k + 1) % 40 := by
    rw [finish_bitOffset, moveBit_bitOffset, h.nextBit]
  have htarget : (l.moveBit c.onOff).finish.target = nthBit command (k + 1) := by
    rw [target, hactive', nthBit]
    by_cases hk : k + 1 < 40 * command.repeatDuration.toNat
    · rw [decide_eq_true hk, if_pos rfl, if_pos hk, finish_currentCommand,
        if_pos (mt hend.mp (not_not.mpr hk)), hcommand, hoffset']
      rfl
    · rw [decide_eq_false hk, if_neg Bool.false_ne_true, if_neg hk]
  have hshown : (l.moveBit c.onOff).finish.shown = l.shown := by
    rw [finish, Led.moveBit]
    split <;> split <;> rfl
  rw [idLoop_of_busy hactive hduration, if_pos (.inl hdue), advance, if_pos hseen, hskip]
  refine ⟨hlt, ?_, ?_, ?_, ?_⟩
  · rw [apply_commandActive, hactive']
  · rw [apply_currentCommand, finish_currentCommand, hcommand]
  · rw [apply_bitOffset, hoffset']
  · rw [apply_shown, hshown, htarget, h.shown, List.range_succ (n := k + 1), List.map_append,
      List.append_assoc]
    rfl

/-- **A step that does not**. -/
theorem Repeats.idLoop_of_not_due (h : l.Repeats command before k) (htype : command.repeatType = 0)
    (hdue : ¬ l.Due tick1us c) : l.idLoop tick1us c = l := by
  by_cases hidle : l.commandActive = false ∨ l.currentCommand.repeatDuration = 0
  · exact idLoop_of_idle hidle
  · obtain ⟨hactive, hduration⟩ := not_or.mp hidle
    have hactive : l.commandActive = true := eq_true_of_ne_false hactive
    have hseen : ¬ exceeds tick1us c.seen l.onOffTime l.timeout = true :=
      fun he => hdue ⟨hactive, hduration, he⟩
    have hskip : l.advance tick1us c = l := by
      rw [advance, if_neg hseen, countSecond_of_count, finish, if_neg hduration]
      rw [h.command_eq]
      exact htype
    rw [idLoop_of_busy hactive hduration, hskip, if_neg (not_or.mpr ⟨hdue, hduration⟩)]

/-- The moves of a run. -/
def moves (tick1us : UInt32) : Led → List LedClock → ℕ
  | _, [] => 0
  | l, c :: cs => (if l.Due tick1us c then 1 else 0) + moves tick1us (l.idLoop tick1us c) cs

/-- **A run** of an LED that repeats by count. -/
theorem Repeats.run (tick1us : UInt32) (h : l.Repeats command before k)
    (htype : command.repeatType = 0) (cs : List LedClock) :
    (cs.foldl (fun l c => l.idLoop tick1us c) l).Repeats command before
      (k + moves tick1us l cs) := by
  induction cs generalizing l k with
  | nil => exact h
  | cons c cs ih =>
    rw [List.foldl_cons, moves]
    by_cases hdue : l.Due tick1us c
    · rw [if_pos hdue, ← Nat.add_assoc]
      exact ih (h.idLoop_of_due htype hdue)
    · rw [if_neg hdue, Nat.zero_add, h.idLoop_of_not_due htype hdue]
      exact ih h

/-- An LED that has done all is off. -/
theorem Steady.off (h : l.Steady) (hactive : l.commandActive = false) : l.en = false := by
  rw [h.en_eq, target, hactive, if_neg Bool.false_ne_true]

/-- The bits of a pattern, as they are shown. -/
def patternBits (command : AppLedCommand) : List Bool :=
  (List.range 40).map fun j => command.bit (39 - j)

/-- What is shown in a number of repetitions that are to be done. -/
theorem map_nthBit_of_le {m : ℕ} (h : m ≤ command.repeatDuration.toNat) :
    (List.range (40 * m)).map (nthBit command) =
      (List.replicate m (patternBits command)).flatten := by
  induction m with
  | zero => rfl
  | succ m ih =>
    have hround : (List.range 40).map (nthBit command ∘ (40 * m + ·)) = patternBits command := by
      apply List.map_congr_left
      intro j hj
      have hlt := List.mem_range.mp hj
      have hmod : (40 * m + j) % 40 = j := by omega
      rw [Function.comp_apply, nthBit, if_pos (by omega), hmod]
    rw [Nat.mul_succ, List.range_add, List.map_append, List.map_map, ih (by omega), hround,
      List.replicate_succ', List.flatten_append]
    simp

/-- Once all are done, the pattern was shown as often as it was to be, and the LED is off. -/
theorem Repeats.done (h : l.Repeats command before k)
    (hk : k = 40 * command.repeatDuration.toNat) :
    l.commandActive = false ∧ l.shown = before ++
      (List.replicate command.repeatDuration.toNat (patternBits command)).flatten ++ [false] := by
  have hlast : nthBit command k = false := by rw [nthBit, if_neg (by omega)]
  constructor
  · rw [h.active, decide_eq_false (by omega)]
  · rw [h.shown, List.range_succ, List.map_append, List.map_cons, List.map_nil, hlast, hk,
      map_nthBit_of_le (Nat.le_refl _), List.append_assoc]

/-- Something remains exactly while the LED is active. -/
def Live (l : Led) : Prop := l.commandActive = true ↔ l.currentCommand.repeatDuration ≠ 0

/-- **One step** keeps it so. -/
theorem Live.idLoop (h : l.Live) : (l.idLoop tick1us c).Live := by
  by_cases hidle : l.commandActive = false ∨ l.currentCommand.repeatDuration = 0
  · rwa [idLoop_of_idle hidle]
  · obtain ⟨hactive, hduration⟩ := not_or.mp hidle
    have hactive : l.commandActive = true := eq_true_of_ne_false hactive
    have hadvance : (l.advance tick1us c).Live := by
      rw [advance]
      generalize hl' : (if exceeds tick1us c.seen l.onOffTime l.timeout then l.moveBit c.onOff
        else l).countSecond tick1us c = l'
      have hactive' : l'.commandActive = true := by
        rw [← hl', countSecond, moveBit]
        split <;> split <;> (try split) <;> exact hactive
      rw [Live, finish]
      by_cases hzero : l'.currentCommand.repeatDuration = 0
      · rw [if_pos hzero]
        exact ⟨fun hfalse => absurd hfalse Bool.false_ne_true, fun hne => absurd hzero hne⟩
      · rw [if_neg hzero]
        exact ⟨fun _ => hzero, fun _ => hactive'⟩
    rw [idLoop_of_busy hactive hduration]
    split
    case isTrue =>
      rw [Live, apply_commandActive, apply_currentCommand]
      exact hadvance
    case isFalse => exact hadvance

/-- A step does not change which LEDs are in use. -/
theorem idLoop_inUse : (l.idLoop tick1us c).inUse = l.inUse := by
  have hmove : ∀ t, (l.moveBit t).inUse = l.inUse := by
    intro t
    rw [moveBit]
    split <;> rfl
  have hsecond : ∀ l : Led, (l.countSecond tick1us c).inUse = l.inUse := by
    intro l
    rw [countSecond]
    split <;> rfl
  have hfinish : ∀ l : Led, l.finish.inUse = l.inUse := by
    intro l
    rw [finish]
    split <;> rfl
  have hadvance : (l.advance tick1us c).inUse = l.inUse := by
    rw [advance, hfinish, hsecond]
    split
    · exact hmove _
    · rfl
  by_cases hidle : l.commandActive = false ∨ l.currentCommand.repeatDuration = 0
  · rw [idLoop_of_idle hidle]
  · obtain ⟨hactive, hduration⟩ := not_or.mp hidle
    rw [idLoop_of_busy (eq_true_of_ne_false hactive) hduration]
    split
    · rw [apply_inUse, hadvance]
    · exact hadvance

/-- An LED that has something to do moves on, once its bit was shown long enough. -/
theorem exists_due (hactive : l.commandActive = true)
    (hduration : l.currentCommand.repeatDuration ≠ 0)
    (htick : l.timeout * tick1us < 0xFFFFFFFF) : ∃ c, l.Due tick1us c := by
  refine ⟨⟨l.onOffTime + 0xFFFFFFFF, 0, 0, 0⟩, hactive, hduration, ?_⟩
  have hsub : l.onOffTime + 0xFFFFFFFF - l.onOffTime = 0xFFFFFFFF := by grind
  rw [exceeds, hsub]
  exact decide_eq_true htick

end Led

/-! ### The table -/

namespace Leds

variable {tick1us : UInt32}

/-- A step of the table is one of each LED that is in use. -/
theorem foldl_loop (leds : Leds) {i : Fin APP_LED_MAX_LEDS} (huse : (leds i).inUse = true)
    (steps : List (Fin APP_LED_MAX_LEDS → LedClock)) :
    steps.foldl (loop tick1us) leds i =
      (steps.map (· i)).foldl (fun l c => l.idLoop tick1us c) (leds i) := by
  induction steps generalizing leds with
  | nil => rfl
  | cons c steps ih =>
    have hstep : loop tick1us leds c i = (leds i).idLoop tick1us (c i) := if_pos huse
    have huse' : (loop tick1us leds c i).inUse = true := by
      rw [hstep, Led.idLoop_inUse, huse]
    rw [List.foldl_cons, List.map_cons, List.foldl_cons, ih _ huse', hstep]

/-- What a command does to its LED. -/
theorem commandApply_self (leds : Leds) {ledId : UInt8} (h : ledId.toNat < APP_LED_MAX_LEDS)
    (huse : (leds ⟨ledId.toNat, h⟩).inUse = true) (command : AppLedCommand) (t₁ t₂ : UInt32) :
    (leds.commandApply ledId command t₁ t₂).1 ⟨ledId.toNat, h⟩ =
      (leds ⟨ledId.toNat, h⟩).commandApply command t₁ t₂ := by
  rw [commandApply, dif_pos h, if_pos huse]
  exact Function.update_self _ _ _

/-- What remains of an LED is left as it is in a step, or decreased by one, without a wrap. -/
def CountsDown (tick1us : UInt32) (i : Fin APP_LED_MAX_LEDS) (leds : Leds)
    (c : Fin APP_LED_MAX_LEDS → LedClock) : Prop :=
  (leds.loop tick1us c i).currentCommand.repeatDuration =
      (leds i).currentCommand.repeatDuration ∨
    (leds.loop tick1us c i).currentCommand.repeatDuration.toNat + 1 =
      (leds i).currentCommand.repeatDuration.toNat

/-- Every step counts down. -/
theorem countsDown (i : Fin APP_LED_MAX_LEDS) (leds : Leds)
    (c : Fin APP_LED_MAX_LEDS → LedClock) : leds.CountsDown tick1us i c := by
  by_cases huse : (leds i).inUse = true
  · have hstep : leds.loop tick1us c i = (leds i).idLoop tick1us (c i) := if_pos huse
    rw [CountsDown, hstep]
    exact Led.idLoop_duration (leds i)
  · have hstep : leds.loop tick1us c i = leds i := if_neg huse
    rw [CountsDown, hstep]
    exact .inl rfl

end Leds

/-- **The pattern of an LED**: after a command and any steps, the offset is one of the pattern, and
what remains was decreased by one at most in each step, without a wrap, and the LED is what was shown
last. Where something was to be done, the LED is inactive exactly when nothing remains, and off then.
Repeated by count, the bits are shown one for each move, and when all were the pattern was shown that
often. -/
theorem ledPattern_run (tick1us : UInt32) (leds : Leds) (ledId : UInt8)
    (h : ledId.toNat < APP_LED_MAX_LEDS) (huse : (leds ⟨ledId.toNat, h⟩).inUse = true)
    (command : AppLedCommand) (t₁ t₂ : UInt32)
    (steps : List (Fin APP_LED_MAX_LEDS → LedClock)) :
    let i : Fin APP_LED_MAX_LEDS := ⟨ledId.toNat, h⟩
    let start := (leds.commandApply ledId command t₁ t₂).1
    let l := steps.foldl (Leds.loop tick1us) start i
    let n := command.repeatDuration.toNat
    let k := Led.moves tick1us (start i) (steps.map (· i))
    (l.bitOffset.toNat ≤ 39 ∧ l.shown.getLast? = some l.en ∧
      Along (Leds.loop tick1us) (fun leds c => leds.CountsDown tick1us i c) start steps) ∧
    (n ≠ 0 → (l.commandActive = false ↔ l.currentCommand.repeatDuration = 0) ∧
      (l.commandActive = false → l.en = false)) ∧
    (n ≠ 0 → command.repeatType = 0 →
      (l.commandActive = true ↔ k < 40 * n) ∧ k ≤ 40 * n ∧
      l.shown = (leds i).shown ++ (List.range (k + 1)).map (Led.nthBit command) ∧
      (k = 40 * n → l.en = false ∧ l.shown = (leds i).shown ++
        (List.replicate n (Led.patternBits command)).flatten ++ [false])) := by
  intro i start l n k
  have hstart : start i = (leds i).commandApply command t₁ t₂ :=
    leds.commandApply_self h huse command t₁ t₂
  have huse' : (start i).inUse = true := by
    rw [hstart]
    exact huse
  have hl : l = (steps.map (· i)).foldl (fun l c => l.idLoop tick1us c) (start i) :=
    Leds.foldl_loop start huse' steps
  have hsteady : l.Steady := by
    rw [hl]
    apply List.foldlRecOn (motive := Led.Steady)
    · rw [hstart]
      exact .commandApply command t₁ t₂ _
    · intro l h c _
      exact h.idLoop
  have hlit : l.Lit := by
    rw [hl]
    apply List.foldlRecOn (motive := Led.Lit)
    · rw [hstart]
      exact .commandApply command t₁ t₂ _
    · intro l h c _
      exact h.idLoop
  have hduration : n ≠ 0 → command.repeatDuration ≠ 0 := fun hn he =>
    hn (congrArg BitVec.toNat he)
  refine ⟨⟨hsteady.bitOffset_le, hlit, along_iff.mpr fun _ _ _ _ => Leds.countsDown _ _ _⟩,
    fun hn => ⟨?_, hsteady.off⟩, fun hn htype => ?_⟩
  · have hlive : l.Live := by
      rw [hl]
      apply List.foldlRecOn (motive := Led.Live)
      · rw [hstart]
        exact ⟨fun _ => hduration hn, fun _ => rfl⟩
      · intro l h c _
        exact h.idLoop
    have := not_congr hlive
    rwa [Bool.not_eq_true, not_not] at this
  · have hrepeats : l.Repeats command (leds i).shown k := by
      have hrun := (Led.Repeats.commandApply (hduration hn) t₁ t₂ (leds i)).run tick1us htype
        (steps.map (· i))
      rw [← hstart, ← hl, Nat.zero_add] at hrun
      exact hrun
    refine ⟨?_, hrepeats.le, hrepeats.shown, fun hk => ?_⟩
    · rw [hrepeats.active, decide_eq_true_eq]
    · obtain ⟨hactive, hshown⟩ := hrepeats.done hk
      exact ⟨hsteady.off hactive, hshown⟩

/-- A pattern that is shown once, with a clock that moves on by a tick for each bit: after 40 moves
the bits of the five bytes were shown, the LED is off, and the command is done. -/
theorem ledPattern_once :
    let command : AppLedCommand := ⟨0, 0, 0, 0, #v[1, 2, 3, 4, 5], 0, 0, 0, 1⟩
    let leds : Leds := fun _ => ⟨true, false, command, 0, 0, 0, [], []⟩
    let steps := (List.range 40).map fun t => fun _ : Fin APP_LED_MAX_LEDS =>
      (⟨.ofNat (t + 1), .ofNat (t + 1), 0, 0⟩ : LedClock)
    let l := steps.foldl (Leds.loop 16) (leds.commandApply 0 command 0 0).1 ⟨0, by decide⟩
    l.commandActive = false ∧ l.en = false ∧ l.shown = Led.patternBits command ++ [false] := by
  intro command leds steps l
  have h := (ledPattern_run 16 leds 0 (by decide) rfl command 0 0 steps).2.2 (by decide) rfl
  have hmoves : Led.moves 16 ((leds.commandApply 0 command 0 0).1 ⟨0, by decide⟩)
      (steps.map fun c => c ⟨0, by decide⟩) = 40 := by decide +kernel
  obtain ⟨hactive, -, -, hdone⟩ := h
  obtain ⟨hoff, hshown⟩ := hdone hmoves
  refine ⟨?_, hoff, hshown.trans (by decide +kernel)⟩
  exact Bool.eq_false_iff.mpr (mt hactive.mp hmoves.not_lt)

end TcBle.Vendor
