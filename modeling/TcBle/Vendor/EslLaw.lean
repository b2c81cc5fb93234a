import Mathlib.Data.UInt
import TcBle.Foundation.TimedSlot
import TcBle.Vendor.AppEsl

/-!
# The law of the timed commands of the electronic shelf label

The law of the timed commands is one machine, `EslLaw`, with one slot for each LED and each display,
and the same operations on both: a command for at once is executed, one for a time is offered to the
slot, and what is pending is executed when its time is reached.

The law shares the clock of the label, `currentTime`, and its check of what time can be meant. How
long a time is off is counted modulo `2 ^ 32` milliseconds. When the access point sets the clock, a
pending time that the clock is set to, or forward over, is reached.

## What is proved

* `Agrees.offer_cases` — what becomes of a command for a slot that agrees with what the label keeps.
* `Agrees.progress` and `Agrees.setLeft` — the agreement as time goes by, and as the clock is set.
-/

namespace TcBle.Vendor

open Foundation.TimedSlot

variable {n m : ℕ}

/-! ### The law -/

/-- One slot for each LED and each display. -/
structure EslLaw (n m : ℕ) where
  /-- The clock of the label. -/
  currentTime : CurrentTime
  /-- The LEDs. -/
  led : Fin n → Slot UInt32 AppLedCommand
  /-- The displays. -/
  display : Fin m → Slot UInt32 UInt8
  /-- The responses. -/
  sent : List (List (EslResponse n m))

/-- Setting the clock from `old` to `new` reaches `time`. -/
def clockReaches (old new time : UInt32) : Bool :=
  time = new || (new - old < 0x80000000 && time - old ≤ new - old)

/-- The milliseconds that a loop at `tick` finds gone by, if it looks. -/
def CurrentTime.gone (b : EslBoard m) (tick : UInt32) (c : CurrentTime) : Option UInt32 :=
  if c.active && tick - c.lastTick > 1000 * b.tick1us then
    some ((tick - c.lastTick) / (b.tick1us * 1000))
  else none

namespace EslLaw

variable (b : EslBoard m) (imageLength : UInt8 → UInt32)

/-- The law at the start. -/
def boot : EslLaw n m := ⟨⟨false, 0, 0⟩, fun _ => .empty, fun _ => .empty, []⟩

/-- What a verdict is answered with, `state` being the state of the LED or display. -/
def response (state : EslResponse n m) : Verdict → EslResponse n m
  | .taken => state
  | .deleted => state
  | .queueFull => .error .queueFull
  | .refused => .error .implausibleAbsoluteTime

/-- A command for `time`, offered to a slot. -/
def offer {π : Type} (c : CurrentTime) (slot : Slot UInt32 π) (time : UInt32) (payload : π) :
    Slot UInt32 π × Verdict :=
  slot.offer (c.checkTimedCommand time) time payload (time - c.timer).toNat

/-- One command. -/
def command (l : EslLaw n m) : EslCommand n m → EslLaw n m × Option (EslResponse n m)
  | .displayImage eslId j imageId =>
    if imageLength imageId ≠ (b.imageSize j).toUInt32 then
      (l, answer eslId (.error .imageNotAvailable))
    else
      ({ l with display := Function.update l.display j ((l.display j).perform imageId) },
        answer eslId (.displayState j imageId))
  | .displayTimedImage eslId j imageId time =>
    if imageLength imageId ≠ (b.imageSize j).toUInt32 then
      (l, answer eslId (.error .imageNotAvailable))
    else
      let r := offer l.currentTime (l.display j) time imageId
      ({ l with display := Function.update l.display j r.1 },
        answer eslId (response (.displayState j imageId) r.2))
  | .ledControl eslId i fields =>
    ({ l with led := Function.update l.led i ((l.led i).perform fields.appLedCommand) },
      answer eslId (.ledState i))
  | .ledTimedControl eslId i fields time =>
    let r := offer l.currentTime (l.led i) time fields.appLedCommand
    ({ l with led := Function.update l.led i r.1 }, answer eslId (response (.ledState i) r.2))

/-- The commands of a packet, and their responses. -/
def commands (l : EslLaw n m) : List (EslCommand n m) → EslLaw n m × List (EslResponse n m)
  | [] => (l, [])
  | c :: cmds =>
    let r := l.command b imageLength c
    let rs := r.1.commands cmds
    (rs.1, r.2.toList ++ rs.2)

/-- One event. -/
def step (l : EslLaw n m) : AppEsl.Event n m → EslLaw n m
  | .currentAbsoluteTime time tick =>
    let left {π : Type} (p : Pending UInt32 π) :=
      if clockReaches l.currentTime.timer time p.time then 0 else (p.time - time).toNat
    { l with
      currentTime := ⟨true, time, tick⟩
      led := fun i => (l.led i).setLeft left
      display := fun j => (l.display j).setLeft left }
  | .controlPointCmd imageLength packet =>
    let r := l.commands b imageLength packet.cmds
    { r.1 with sent := if r.2 = [] then r.1.sent else r.1.sent ++ [r.2] }
  | .loop tick _ =>
    match l.currentTime.gone b tick with
    | none => l
    | some d =>
      { l with
        currentTime := ⟨true, l.currentTime.timer + d, tick⟩
        led := fun i => (l.led i).progress d.toNat
        display := fun j => (l.display j).progress d.toNat }

end EslLaw

/-! ### Slots -/

/-- A command for `time'` is clean where `time` is pending, or nothing: it does not replace a
command by one whose time cannot be meant, and is not for the time it is. -/
def CleanTime (c : CurrentTime) (pendingUpdate : Bool) (time time' : UInt32) : Prop :=
  (pendingUpdate = true → time' ≠ 0 → time' = time → c.checkTimedCommand time' = true) ∧
    (pendingUpdate = false → c.active = true → time' ≠ c.timer)

instance {c : CurrentTime} {pendingUpdate : Bool} {time time' : UInt32} :
    Decidable (CleanTime c pendingUpdate time time') :=
  inferInstanceAs (Decidable (_ ∧ _))

/-- A time that can be meant is known only while the clock is. -/
theorem CurrentTime.active_of_check {c : CurrentTime} {time : UInt32}
    (h : c.checkTimedCommand time = true) : c.active = true := by
  unfold CurrentTime.checkTimedCommand at h
  cases hc : c.active with
  | true => rfl
  | false => simp [hc] at h

/-- A slot of the law agrees with what the label keeps for an LED or a display: a pending time is as
far off as the clock says, and not reached. -/
structure Agrees {π : Type} (c : CurrentTime) (pendingUpdate : Bool) (time : UInt32) (payload : π)
    (executed : List π) (slot : Slot UInt32 π) : Prop where
  /-- What is pending. -/
  pending : slot.pending =
    if pendingUpdate then some ⟨time, payload, (time - c.timer).toNat⟩ else none
  /-- A pending time is ahead. -/
  ahead : pendingUpdate = true → c.active = true ∧ time ≠ c.timer
  /-- What was executed. -/
  executed : slot.executed = executed

namespace Agrees

variable {π : Type} {c : CurrentTime} {pendingUpdate : Bool} {time : UInt32} {payload : π}
  {executed : List π} {slot : Slot UInt32 π}

theorem perform (h : Agrees c pendingUpdate time payload executed slot) (x : π) :
    Agrees c pendingUpdate time payload (executed ++ [x]) (slot.perform x) :=
  ⟨h.pending, h.ahead, by rw [← h.executed]; rfl⟩

/-- Every command that was taken is in one place. -/
theorem account (h : Agrees c pendingUpdate time payload executed slot) :
    slot.taken.Perm (executed ++ slot.dropped ++ if pendingUpdate then [payload] else []) := by
  have := slot.account
  rw [h.pending, h.executed] at this
  cases pendingUpdate <;> exact this

theorem delete (h : Agrees c pendingUpdate time payload executed slot) :
    Agrees c false time payload executed slot.delete :=
  ⟨rfl, nofun, h.executed⟩

theorem put (h : Agrees c pendingUpdate time payload executed slot) {time' : UInt32} (payload' : π)
    (hactive : c.active = true) (hne : time' ≠ c.timer) :
    Agrees c true time' payload' executed (slot.put time' payload' (time' - c.timer).toNat) :=
  ⟨rfl, fun _ => ⟨hactive, hne⟩, h.executed⟩

/-- Time `0` deletes what is pending. -/
theorem offer_zero (h : Agrees c true time payload executed slot) (payload' : π) :
    EslLaw.offer c slot 0 payload' = (slot.delete, .deleted) := by
  have hp := h.pending
  simp only [if_true] at hp
  simp [EslLaw.offer, Slot.offer, hp]

/-- Another time is refused. -/
theorem offer_other (h : Agrees c true time payload executed slot) {time' : UInt32} (payload' : π)
    (h0 : time' ≠ 0) (hne : time' ≠ time) :
    EslLaw.offer c slot time' payload' = (slot, .queueFull) := by
  have hp := h.pending
  simp only [if_true] at hp
  simp [EslLaw.offer, Slot.offer, hp, h0, hne]

/-- The same time replaces what is pending. -/
theorem offer_same (h : Agrees c true time payload executed slot) (payload' : π) (h0 : time ≠ 0) :
    EslLaw.offer c slot time payload' =
      (slot.put time payload' (time - c.timer).toNat, .taken) := by
  have hp := h.pending
  simp only [if_true] at hp
  simp [EslLaw.offer, Slot.offer, hp, h0]

/-- Where nothing is pending, a time that can be meant is taken. -/
theorem offer_idle (h : Agrees c false time payload executed slot) (time' : UInt32) (payload' : π) :
    EslLaw.offer c slot time' payload' =
      if c.checkTimedCommand time' then
        (slot.put time' payload' (time' - c.timer).toNat, .taken)
      else (slot, .refused) := by
  have hp := h.pending
  simp only [Bool.false_eq_true, if_false] at hp
  simp [EslLaw.offer, Slot.offer, hp]

/-- **What becomes of a clean command**: it deletes what is pending, is refused because another one
is pending, is taken and keeps the agreement, or is refused because its time cannot be meant. -/
theorem offer_cases (h : Agrees c pendingUpdate time payload executed slot) {time' : UInt32}
    (hclean : CleanTime c pendingUpdate time time') (payload' : π) :
    (pendingUpdate = true ∧ time' = 0 ∧
        EslLaw.offer c slot time' payload' = (slot.delete, .deleted)) ∨
      (pendingUpdate = true ∧ time' ≠ 0 ∧ time' ≠ time ∧
        EslLaw.offer c slot time' payload' = (slot, .queueFull)) ∨
      ((pendingUpdate = true → time' ≠ 0 ∧ time' = time) ∧ c.checkTimedCommand time' = true ∧
        ∃ slot', EslLaw.offer c slot time' payload' = (slot', .taken) ∧
          Agrees c true time' payload' executed slot') ∨
      (pendingUpdate = false ∧ c.checkTimedCommand time' = false ∧
        EslLaw.offer c slot time' payload' = (slot, .refused)) := by
  cases pendingUpdate with
  | true =>
    by_cases h0 : time' = 0
    · subst h0
      exact .inl ⟨rfl, rfl, h.offer_zero payload'⟩
    by_cases hne : time' = time
    · subst hne
      have hcheck := hclean.1 rfl h0 rfl
      exact .inr (.inr (.inl ⟨fun _ => ⟨h0, rfl⟩, hcheck, _, h.offer_same payload' h0,
        h.put payload' (CurrentTime.active_of_check hcheck) (h.ahead rfl).2⟩))
    · exact .inr (.inl ⟨rfl, h0, hne, h.offer_other payload' h0 hne⟩)
  | false =>
    have hoffer := h.offer_idle time' payload'
    cases hcheck : c.checkTimedCommand time' with
    | true =>
      rw [hcheck, if_pos rfl] at hoffer
      have hactive := CurrentTime.active_of_check hcheck
      exact .inr (.inr (.inl ⟨nofun, rfl, _, hoffer,
        h.put payload' hactive (hclean.2 rfl hactive)⟩))
    | false =>
      rw [hcheck, if_neg Bool.false_ne_true] at hoffer
      exact .inr (.inr (.inr ⟨rfl, rfl, hoffer⟩))

end Agrees

/-- A time is expired in an interval exactly if it is no further off than the interval is long. -/
theorem currentTimeExpired_iff {prev d time : UInt32} (hd : d ≠ 0) (hne : time ≠ prev) :
    currentTimeExpired prev (prev + d) time = true ↔ (time - prev).toNat ≤ d.toNat := by
  have hd' : d.toNat ≠ 0 := fun h => hd (UInt32.toNat_inj.mp h)
  have hne' : time.toNat ≠ prev.toNat := fun h => hne (UInt32.toNat_inj.mp h)
  have h₁ := prev.toNat_lt
  have h₂ := d.toNat_lt
  have h₃ := time.toNat_lt
  unfold currentTimeExpired
  split
  · rename_i h
    simp only [gt_iff_lt, UInt32.lt_iff_toNat_lt, UInt32.toNat_add] at h
    simp only [Bool.and_eq_true, decide_eq_true_eq, gt_iff_lt, UInt32.lt_iff_toNat_lt,
      UInt32.le_iff_toNat_le, UInt32.toNat_add, UInt32.toNat_sub]
    omega
  · rename_i h
    simp only [gt_iff_lt, UInt32.lt_iff_toNat_lt, UInt32.toNat_add] at h
    simp only [Bool.or_eq_true, decide_eq_true_eq, gt_iff_lt, UInt32.lt_iff_toNat_lt,
      UInt32.le_iff_toNat_le, UInt32.toNat_add, UInt32.toNat_sub]
    omega

/-- A time that is not reached is nearer afterwards. -/
theorem toNat_sub_add {prev d time : UInt32} (h : d.toNat < (time - prev).toNat) :
    (time - (prev + d)).toNat = (time - prev).toNat - d.toNat ∧ time ≠ prev + d := by
  have h₁ := prev.toNat_lt
  have h₂ := d.toNat_lt
  have h₃ := time.toNat_lt
  simp only [UInt32.toNat_sub] at h
  refine ⟨?_, ?_⟩
  · simp only [UInt32.toNat_sub, UInt32.toNat_add]
    omega
  · rintro rfl
    simp only [UInt32.toNat_add] at h
    omega

/-- A loop that looks finds time gone by. -/
theorem CurrentTime.gone_ne_zero {b : EslBoard m} {tick : UInt32} {c : CurrentTime} {d : UInt32}
    (h : c.gone b tick = some d) : c.active = true ∧ d ≠ 0 := by
  simp only [CurrentTime.gone, Option.ite_none_right_eq_some, Bool.and_eq_true,
    decide_eq_true_eq, Option.some.injEq] at h
  obtain ⟨⟨hactive, hgt⟩, rfl⟩ := h
  refine ⟨hactive, fun hzero => ?_⟩
  have hpos : 0 < (b.tick1us * 1000).toNat :=
    Nat.pos_of_ne_zero fun h => b.tick1ms_ne_zero (UInt32.toNat_inj.mp h)
  rw [UInt32.mul_comm, gt_iff_lt, UInt32.lt_iff_toNat_lt] at hgt
  have hdiv := congrArg UInt32.toNat hzero
  rw [UInt32.toNat_div] at hdiv
  have := Nat.div_pos (Nat.le_of_lt hgt) hpos
  rw [hdiv] at this
  exact absurd this (by simp)

namespace Agrees

variable {π : Type} {c : CurrentTime} {pendingUpdate : Bool} {time : UInt32} {payload : π}
  {executed : List π} {slot : Slot UInt32 π}

/-- Time goes by: what expires is executed. -/
theorem progress (h : Agrees c pendingUpdate time payload executed slot) {d : UInt32} (hd : d ≠ 0)
    (hactive : c.active = true) (tick : UInt32) {expired : Bool}
    (hexp : expired = (pendingUpdate && currentTimeExpired c.timer (c.timer + d) time)) :
    Agrees ⟨c.active, c.timer + d, tick⟩ (if expired then false else pendingUpdate) time payload
      (if expired then executed ++ [payload] else executed) (slot.progress d.toNat) := by
  cases pendingUpdate with
  | false =>
    have hp := h.pending
    simp only [Bool.false_eq_true, if_false] at hp
    rw [hexp]
    simp only [Bool.false_and, Bool.false_eq_true, if_false, Slot.progress, hp]
    exact ⟨hp, fun h => absurd h Bool.false_ne_true, h.executed⟩
  | true =>
    have hp := h.pending
    simp only [if_true] at hp
    have hiff := currentTimeExpired_iff hd (h.ahead rfl).2
    rw [Bool.true_and] at hexp
    rw [← hexp] at hiff
    simp only [Slot.progress, hp]
    cases expired with
    | true =>
      rw [if_pos (hiff.mp rfl)]
      exact ⟨rfl, fun h => absurd h Bool.false_ne_true, by simp [Slot.execute, hp, h.executed]⟩
    | false =>
      have hlt : d.toNat < (time - c.timer).toNat := by
        simpa using hiff
      obtain ⟨hleft, hne⟩ := toNat_sub_add hlt
      rw [if_neg (Nat.not_le_of_lt hlt)]
      refine ⟨?_, fun _ => ⟨hactive, hne⟩, h.executed⟩
      simp [Slot.setLeft, hp, hleft]

/-- Time goes by in steps, the last of which reaches the time of what is pending. -/
theorem reached (h : Agrees c pendingUpdate time payload executed slot)
    (hpend : pendingUpdate = true) {ds : List ℕ} {d : ℕ} (hlt : ds.sum < (time - c.timer).toNat)
    (hle : (time - c.timer).toNat ≤ ds.sum + d) {c' : CurrentTime} {pendingUpdate' : Bool}
    {time' : UInt32} {payload' : π} {executed' : List π}
    (h' : Agrees c' pendingUpdate' time' payload' executed'
      ((ds ++ [d]).foldl Slot.progress slot)) :
    pendingUpdate' = false ∧ executed' = executed ++ [payload] := by
  have hp := h.pending
  rw [hpend, if_pos rfl] at hp
  obtain ⟨hnone, hexec⟩ := Slot.executed_wait hp hlt hle
  have hpend' := h'.pending
  rw [hnone] at hpend'
  refine ⟨?_, ?_⟩
  · cases pendingUpdate' with
    | false => rfl
    | true => simp at hpend'
  · rw [← h'.executed, hexec, h.executed]

/-- The clock is set, and does not reach what is pending. -/
theorem setLeft (h : Agrees c pendingUpdate time payload executed slot) {new : UInt32}
    (hclean : pendingUpdate = true → clockReaches c.timer new time = false) (tick : UInt32) :
    Agrees ⟨true, new, tick⟩ pendingUpdate time payload executed
      (slot.setLeft fun p =>
        if clockReaches c.timer new p.time then 0 else (p.time - new).toNat) := by
  refine ⟨?_, fun hp => ⟨rfl, ?_⟩, h.executed⟩
  · simp only [Slot.setLeft, h.pending]
    cases pendingUpdate with
    | false => rfl
    | true => simp [hclean rfl]
  · rintro rfl
    have := hclean hp
    simp [clockReaches] at this

end Agrees

end TcBle.Vendor
