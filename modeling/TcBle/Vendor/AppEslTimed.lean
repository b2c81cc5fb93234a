import TcBle.Foundation.Run
import TcBle.Vendor.EslLaw

/-!
# The timed commands of the electronic shelf label

`app_esl.c` keeps to the law of the timed commands as long as what happens to the label is clean.

## What is proved

* `command_refines`, `loop_refines` and `currentAbsoluteTime_refines` — what one event does to the
  label, it does to the law, if it is clean.
* `led_reached` and `display_reached` — a pending command is executed by the pass of the main loop
  that reaches its time.
* `fetches_run` — what is fetched for a display is what was requested of it, and when it is not busy,
  the last of that.
* `follows_law` — a run whose events are clean follows the law: the same commands are executed on
  every LED and display, and the same responses are sent.
-/

namespace TcBle.Vendor

open Foundation.Run Foundation.TimedSlot

variable {n m : ℕ}

/-! ### Commands -/

/-- The label is where the law says. -/
structure Refines (s : AppEsl n m) (l : EslLaw n m) : Prop where
  /-- The clock. -/
  currentTime : l.currentTime = s.currentTime
  /-- The LEDs. -/
  led : ∀ i, Agrees s.currentTime (s.ledControlData i).pendingUpdate
    (s.ledControlData i).scheduledCommandTime (s.ledControlData i).scheduledCommand (s.applied i)
    (l.led i)
  /-- The displays. -/
  display : ∀ j, Agrees s.currentTime (s.displayControlData j).pendingUpdate
    (s.displayControlData j).pendingUpdateAbsoluteTime
    (s.displayControlData j).pendingUpdateImageIdx (s.requested j) (l.display j)
  /-- The responses. -/
  sent : l.sent = s.sent

section Commands

variable (b : EslBoard m) (imageLength : UInt8 → UInt32)

/-- A command is clean. A command for a display does not delete what is pending, and a command for
the LEDs of all labels is for a time that can be meant. -/
def CleanCommand (s : AppEsl n m) : EslCommand n m → Prop
  | .displayImage .. => True
  | .displayTimedImage _ j imageId time =>
    imageLength imageId = (b.imageSize j).toUInt32 →
      ((s.displayControlData j).pendingUpdate = true → time ≠ 0) ∧
        CleanTime s.currentTime (s.displayControlData j).pendingUpdate
          (s.displayControlData j).pendingUpdateAbsoluteTime time
  | .ledControl .. => True
  | .ledTimedControl eslId i _ time =>
    CleanTime s.currentTime (s.ledControlData i).pendingUpdate
        (s.ledControlData i).scheduledCommandTime time ∧
      (eslId = eslIdBroadcast → (s.ledControlData i).pendingUpdate = false →
        s.currentTime.checkTimedCommand time = true)

instance (s : AppEsl n m) : ∀ c, Decidable (CleanCommand b imageLength s c)
  | .displayImage .. => inferInstanceAs (Decidable True)
  | .displayTimedImage .. => inferInstanceAs (Decidable (_ → _ ∧ _))
  | .ledControl .. => inferInstanceAs (Decidable True)
  | .ledTimedControl .. => inferInstanceAs (Decidable (_ ∧ _))

variable {b imageLength} {s : AppEsl n m} {l : EslLaw n m}

/-- An LED and its slot change. -/
theorem Refines.updateLed (h : Refines s l) {i : Fin n} {d : LedControlData}
    {applied : List AppLedCommand} {slot : Slot UInt32 AppLedCommand}
    (hi : Agrees s.currentTime d.pendingUpdate d.scheduledCommandTime d.scheduledCommand applied
      slot) :
    Refines
      { s with
        ledControlData := Function.update s.ledControlData i d
        applied := Function.update s.applied i applied }
      { l with led := Function.update l.led i slot } := by
  refine ⟨h.currentTime, fun k => ?_, h.display, h.sent⟩
  by_cases hk : k = i
  · subst hk
    simpa using hi
  · simpa [hk] using h.led k

/-- A display and its slot change. -/
theorem Refines.updateDisplay (h : Refines s l) {j : Fin m} {d : DisplayControl}
    {requested : List UInt8} {slot : Slot UInt32 UInt8}
    (hj : Agrees s.currentTime d.pendingUpdate d.pendingUpdateAbsoluteTime d.pendingUpdateImageIdx
      requested slot) :
    Refines
      { s with
        displayControlData := Function.update s.displayControlData j d
        requested := Function.update s.requested j requested }
      { l with display := Function.update l.display j slot } := by
  refine ⟨h.currentTime, h.led, fun k => ?_, h.sent⟩
  by_cases hk : k = j
  · subst hk
    simpa using hj
  · simpa [hk] using h.display k

/-- `DISPLAY_IMAGE`. -/
theorem displayImage_refines (h : Refines s l) (eslId : UInt8) (j : Fin m) (imageId : UInt8) :
    Refines (s.command b imageLength (.displayImage eslId j imageId)).1
        (l.command b imageLength (.displayImage eslId j imageId)).1 ∧
      (s.command b imageLength (.displayImage eslId j imageId)).2 =
        (l.command b imageLength (.displayImage eslId j imageId)).2 := by
  simp only [AppEsl.command, AppEsl.displayImage, EslLaw.command]
  split
  · exact ⟨h, rfl⟩
  · exact ⟨h.updateDisplay ((h.display j).perform imageId), rfl⟩

/-- `LED_CONTROL`. -/
theorem ledControl_refines (h : Refines s l) (eslId : UInt8) (i : Fin n) (fields : LedFields) :
    Refines (s.command b imageLength (.ledControl eslId i fields)).1
        (l.command b imageLength (.ledControl eslId i fields)).1 ∧
      (s.command b imageLength (.ledControl eslId i fields)).2 =
        (l.command b imageLength (.ledControl eslId i fields)).2 := by
  refine ⟨?_, rfl⟩
  have := h.updateLed (i := i) ((h.led i).perform fields.appLedCommand)
  rwa [Function.update_eq_self] at this

/-- `LED_TIMED_CONTROL`. -/
theorem ledTimedControl_refines (h : Refines s l) {eslId : UInt8} {i : Fin n} {fields : LedFields}
    {time : UInt32} (hclean : CleanCommand b imageLength s (.ledTimedControl eslId i fields time)) :
    Refines (s.command b imageLength (.ledTimedControl eslId i fields time)).1
        (l.command b imageLength (.ledTimedControl eslId i fields time)).1 ∧
      (s.command b imageLength (.ledTimedControl eslId i fields time)).2 =
        (l.command b imageLength (.ledTimedControl eslId i fields time)).2 := by
  obtain ⟨⟨hsame, hnow⟩, hall⟩ := hclean
  have hi := h.led i
  have hupd (d : LedControlData) {slot : Slot UInt32 AppLedCommand}
      (hd : Agrees s.currentTime d.pendingUpdate d.scheduledCommandTime d.scheduledCommand
        (s.applied i) slot) :
      Refines { s with ledControlData := Function.update s.ledControlData i d }
        { l with led := Function.update l.led i slot } := by
    have := h.updateLed (i := i) hd
    rwa [Function.update_eq_self] at this
  have hclock : EslLaw.offer l.currentTime (l.led i) time =
      EslLaw.offer s.currentTime (l.led i) time :=
    congrArg (EslLaw.offer · (l.led i) time) h.currentTime
  simp only [AppEsl.command, AppEsl.ledTimedControl, EslLaw.command, hclock]
  rcases hi.offer_cases ⟨hsame, hnow⟩ fields.appLedCommand with
    ⟨hpend, rfl, hoffer⟩ | ⟨hpend, h0, hne, hoffer⟩ | ⟨htime, hcheck, slot, hoffer, hagrees⟩ |
      ⟨hpend, hcheck, hoffer⟩
  · simp only [hpend, hoffer, Bool.true_and, decide_true, if_true]
    exact ⟨hupd ⟨false, _, _⟩ hi.delete, rfl⟩
  · simp only [hpend, h0, hne, hoffer, ne_eq, not_false_eq_true, decide_true, decide_false,
      Bool.true_and, Bool.false_eq_true, if_false, if_true, Function.update_eq_self]
    exact ⟨h, rfl⟩
  · have hzero : ((s.ledControlData i).pendingUpdate && decide (time = 0)) = false := by
      simp only [Bool.and_eq_false_imp, decide_eq_false_iff_not]
      exact fun hp => (htime hp).1
    have hother : ((s.ledControlData i).pendingUpdate &&
        decide (time ≠ (s.ledControlData i).scheduledCommandTime)) = false := by
      simp only [Bool.and_eq_false_imp, decide_eq_false_iff_not, ne_eq, not_not]
      exact fun hp => (htime hp).2
    simp only [hzero, hother, hcheck, hoffer, Bool.not_true, Bool.false_eq_true, if_false]
    exact ⟨hupd ⟨true, _, _⟩ hagrees, rfl⟩
  · have hone : eslId ≠ eslIdBroadcast := fun heq => by
      have := hall heq hpend
      rw [hcheck] at this
      exact absurd this Bool.false_ne_true
    simp only [hpend, hcheck, hoffer, Bool.false_and, Bool.not_false, Bool.false_eq_true, if_false,
      if_true, Function.update_eq_self]
    exact ⟨h, by simp [answer, hone, EslLaw.response]⟩

/-- `DISPLAY_TIMED_IMAGE`. -/
theorem displayTimedImage_refines (h : Refines s l) {eslId : UInt8} {j : Fin m} {imageId : UInt8}
    {time : UInt32}
    (hclean : CleanCommand b imageLength s (.displayTimedImage eslId j imageId time)) :
    Refines (s.command b imageLength (.displayTimedImage eslId j imageId time)).1
        (l.command b imageLength (.displayTimedImage eslId j imageId time)).1 ∧
      (s.command b imageLength (.displayTimedImage eslId j imageId time)).2 =
        (l.command b imageLength (.displayTimedImage eslId j imageId time)).2 := by
  have hj := h.display j
  have hupd (d : DisplayControl) {slot : Slot UInt32 UInt8}
      (hd : Agrees s.currentTime d.pendingUpdate d.pendingUpdateAbsoluteTime
        d.pendingUpdateImageIdx (s.requested j) slot) :
      Refines { s with displayControlData := Function.update s.displayControlData j d }
        { l with display := Function.update l.display j slot } := by
    have := h.updateDisplay (j := j) hd
    rwa [Function.update_eq_self] at this
  have hclock : EslLaw.offer l.currentTime (l.display j) time =
      EslLaw.offer s.currentTime (l.display j) time :=
    congrArg (EslLaw.offer · (l.display j) time) h.currentTime
  simp only [AppEsl.command, AppEsl.displayTimedImage, EslLaw.command, hclock]
  by_cases hlen : imageLength imageId = (b.imageSize j).toUInt32
  case neg =>
    simp only [ne_eq, hlen, not_false_eq_true, if_true]
    exact ⟨h, trivial⟩
  obtain ⟨hzero, hclean⟩ := hclean hlen
  simp only [ne_eq, hlen, not_true, if_false]
  rcases hj.offer_cases hclean imageId with
    ⟨hpend, h0, -⟩ | ⟨hpend, h0, hne, hoffer⟩ | ⟨htime, hcheck, slot, hoffer, hagrees⟩ |
      ⟨hpend, hcheck, hoffer⟩
  · exact absurd h0 (hzero hpend)
  · simp only [hpend, h0, hne, hoffer, not_false_eq_true, decide_true, decide_false,
      Bool.true_and, Bool.false_eq_true, if_false, if_true, Function.update_eq_self]
    exact ⟨h, rfl⟩
  · have hdelete : ((s.displayControlData j).pendingUpdate && decide (time = 0)) = false := by
      simp only [Bool.and_eq_false_imp, decide_eq_false_iff_not]
      exact fun hp => (htime hp).1
    have hother : ((s.displayControlData j).pendingUpdate &&
        decide (¬time = (s.displayControlData j).pendingUpdateAbsoluteTime)) = false := by
      simp only [Bool.and_eq_false_imp, decide_eq_false_iff_not, not_not]
      exact fun hp => (htime hp).2
    simp only [hdelete, hother, hcheck, hoffer, Bool.not_true, Bool.false_eq_true, if_false]
    exact ⟨hupd { s.displayControlData j with
        pendingUpdate := true, pendingUpdateImageIdx := imageId
        pendingUpdateAbsoluteTime := time } hagrees, rfl⟩
  · simp only [hpend, hcheck, hoffer, Bool.false_and, Bool.not_false, Bool.false_eq_true, if_false,
      if_true, Function.update_eq_self]
    exact ⟨h, rfl⟩

/-- **One command.** -/
theorem command_refines (h : Refines s l) {c : EslCommand n m}
    (hclean : CleanCommand b imageLength s c) :
    Refines (s.command b imageLength c).1 (l.command b imageLength c).1 ∧
      (s.command b imageLength c).2 = (l.command b imageLength c).2 := by
  cases c with
  | displayImage eslId j imageId => exact displayImage_refines h eslId j imageId
  | displayTimedImage eslId j imageId time => exact displayTimedImage_refines h hclean
  | ledControl eslId i fields => exact ledControl_refines h eslId i fields
  | ledTimedControl eslId i fields time => exact ledTimedControl_refines h hclean

end Commands

/-! ### Packets -/

/-- The number of responses to come. -/
def toAnswer (cmds : List (EslCommand n m)) : ℕ := cmds.countP (·.eslId ≠ eslIdBroadcast)

theorem toAnswer_cons (c : EslCommand n m) (cmds : List (EslCommand n m)) :
    toAnswer (c :: cmds) = toAnswer cmds + if c.eslId ≠ eslIdBroadcast then 1 else 0 := by
  simp [toAnswer, List.countP_cons]

/-- A payload has room for the responses to its commands, and more. -/
theorem toAnswer_le (packet : EslCommands n m) : toAnswer packet.cmds ≤ 12 := by
  have hsize (cmds : List (EslCommand n m)) :
      4 * toAnswer cmds ≤ (cmds.map EslCommand.size).sum := by
    induction cmds with
    | nil => simp [toAnswer]
    | cons c cmds ih =>
      have hc : 4 ≤ c.size := by cases c <;> simp only [EslCommand.size] <;> omega
      rw [toAnswer_cons, List.map_cons, List.sum_cons]
      split <;> omega
  have h₁ := hsize packet.cmds
  have h₂ := packet.fits
  simp only [maxEslPayloadSize] at h₂
  omega

/-- The first loop counts the responses to come. -/
theorem toNat_rspLeft {cmds : List (EslCommand n m)} (h : toAnswer cmds < 256) :
    (AppEsl.rspLeft cmds).toNat = toAnswer cmds := by
  have hfold (cmds : List (EslCommand n m)) (k : UInt8) (h : k.toNat + toAnswer cmds < 256) :
      (cmds.foldl (fun k c => if c.eslId ≠ eslIdBroadcast then k + 1 else k) k).toNat =
        k.toNat + toAnswer cmds := by
    induction cmds generalizing k with
    | nil => rfl
    | cons c cmds ih =>
      rw [toAnswer_cons] at h ⊢
      rw [List.foldl_cons]
      by_cases hc : c.eslId ≠ eslIdBroadcast
      · rw [if_pos hc] at h ⊢
        have hk : (k + 1).toNat = k.toNat + 1 := by
          rw [UInt8.toNat_add, UInt8.toNat_one]
          omega
        rw [if_pos hc, ih (k + 1) (by omega), hk]
        omega
      · rw [if_neg hc] at h ⊢
        rw [if_neg hc, ih k (by omega)]
        omega
  simpa [AppEsl.rspLeft] using hfold cmds 0 (by simpa using h)

/-- A response that leaves room for those to come is sent as it is. -/
theorem RspBuf.add_some {r : AppEsl.RspBuf n m} {rsp : EslResponse n m} {k : ℕ}
    (hleft : r.rspLeft.toNat = k + 1) (hroom : r.used + 3 * (k + 1) ≤ maxEslPayloadSize) :
    r.add (some rsp) = ⟨r.rspLeft - 1, r.rsps ++ [rsp]⟩ ∧ (r.rspLeft - 1).toNat = k ∧
      (r.add (some rsp)).used + 3 * k ≤ maxEslPayloadSize := by
  have hsize : rsp.size ≤ 3 := by cases rsp <;> simp only [EslResponse.size] <;> omega
  have hk : (r.rspLeft - 1).toNat = k := by
    rw [UInt8.toNat_sub, UInt8.toNat_one]
    have := r.rspLeft.toNat_lt
    omega
  have hadd : r.add (some rsp) = ⟨r.rspLeft - 1, r.rsps ++ [rsp]⟩ := by
    simp only [AppEsl.RspBuf.add, hk, maxEslPayloadSize, cmdRspMinLength, gt_iff_lt,
      UInt32.lt_iff_toNat_lt, UInt32.toNat_sub, UInt32.toNat_ofNat'] at hroom ⊢
    exact if_neg (by omega)
  refine ⟨hadd, hk, ?_⟩
  simp only [AppEsl.RspBuf.used] at hroom
  rw [hadd]
  simp only [AppEsl.RspBuf.used, List.map_append, List.map_cons, List.map_nil, List.sum_append,
    List.sum_cons, List.sum_nil]
  omega

/-- The law answers a command exactly if it is for this label only. -/
theorem EslLaw.command_snd (b : EslBoard m) (imageLength : UInt8 → UInt32) (l : EslLaw n m)
    (c : EslCommand n m) :
    (c.eslId = eslIdBroadcast ∧ (l.command b imageLength c).2 = none) ∨
      (c.eslId ≠ eslIdBroadcast ∧ ∃ rsp, (l.command b imageLength c).2 = some rsp) := by
  have hanswer (eslId : UInt8) (rsp : EslResponse n m) :
      (eslId = eslIdBroadcast ∧ answer eslId rsp = none) ∨
        (eslId ≠ eslIdBroadcast ∧ ∃ rsp', answer eslId rsp = some rsp') := by
    by_cases h : eslId = eslIdBroadcast
    · exact .inl ⟨h, by simp [answer, h]⟩
    · exact .inr ⟨h, rsp, by simp [answer, h]⟩
  cases c with
  | displayImage eslId j imageId =>
    simp only [EslLaw.command]
    split <;> exact hanswer eslId _
  | displayTimedImage eslId j imageId time =>
    simp only [EslLaw.command]
    split <;> exact hanswer eslId _
  | ledControl eslId i fields => exact hanswer eslId _
  | ledTimedControl eslId i fields time => exact hanswer eslId _

section Packets

variable {b : EslBoard m} {imageLength : UInt8 → UInt32}

/-- The loop over the commands of a packet. -/
theorem rounds_refine {cmds : List (EslCommand n m)} {s : AppEsl n m} {l : EslLaw n m}
    {r : AppEsl.RspBuf n m} (h : Refines s l)
    (hclean : Along (fun s c => (s.command b imageLength c).1) (CleanCommand b imageLength) s cmds)
    (hleft : r.rspLeft.toNat = toAnswer cmds)
    (hroom : r.used + 3 * toAnswer cmds ≤ maxEslPayloadSize) :
    Refines (cmds.foldl (AppEsl.round b imageLength) (s, r)).1 (l.commands b imageLength cmds).1 ∧
      (cmds.foldl (AppEsl.round b imageLength) (s, r)).2.rsps =
        r.rsps ++ (l.commands b imageLength cmds).2 := by
  induction cmds generalizing s l r with
  | nil => exact ⟨h, (List.append_nil _).symm⟩
  | cons c cmds ih =>
    obtain ⟨hc, hcs⟩ := (along_cons ..).mp hclean
    obtain ⟨hstep, hrsp⟩ := command_refines h hc
    have hround : AppEsl.round b imageLength (s, r) c =
        ((s.command b imageLength c).1, r.add (l.command b imageLength c).2) := by
      rw [← hrsp]
      rfl
    rw [toAnswer_cons] at hleft hroom
    rw [List.foldl_cons, hround, EslLaw.commands]
    obtain ⟨heq, hnone⟩ | ⟨hne, rsp, hsome⟩ := l.command_snd b imageLength c
    · rw [if_neg (not_not_intro heq)] at hleft hroom
      rw [hnone]
      exact ih hstep hcs hleft hroom
    · rw [if_pos hne] at hleft hroom
      rw [hsome]
      obtain ⟨hadd, hk, hused⟩ := @RspBuf.add_some _ _ r rsp _ hleft hroom
      obtain ⟨h₁, h₂⟩ := ih hstep hcs (by rw [hadd]; exact hk) hused
      refine ⟨h₁, ?_⟩
      rw [h₂, hadd]
      simp

/-- **One packet.** -/
theorem controlPointCmd_refines {s : AppEsl n m} {l : EslLaw n m} (h : Refines s l)
    {packet : EslCommands n m}
    (hclean : Along (fun s c => (s.command b imageLength c).1) (CleanCommand b imageLength) s
      packet.cmds) :
    Refines (s.step b (.controlPointCmd imageLength packet))
      (l.step b (.controlPointCmd imageLength packet)) := by
  have hle := toAnswer_le packet
  have hleft := toNat_rspLeft (Nat.lt_of_le_of_lt hle (by simp))
  obtain ⟨h₁, h₂⟩ := rounds_refine (r := ⟨AppEsl.rspLeft packet.cmds, []⟩) h hclean hleft (by
    simp only [AppEsl.RspBuf.used, maxEslPayloadSize, List.map_nil, List.sum_nil]
    omega)
  rw [List.nil_append] at h₂
  simp only [AppEsl.step, AppEsl.handleControlPointCmds, EslLaw.step]
  rw [if_neg (by rw [hleft]; simp only [cmdRspMinLength, maxEslPayloadSize]; omega), h₂]
  by_cases hnil : (l.commands b imageLength packet.cmds).2 = []
  · simp only [hnil, ne_eq, not_true, if_false, if_true]
    exact h₁
  · simp only [hnil, ne_eq, not_false_eq_true, if_false, if_true]
    exact ⟨h₁.currentTime, h₁.led, h₁.display, by rw [h₁.sent]⟩

end Packets

/-! ### Runs -/

section Runs

variable (b : EslBoard m)

/-- An event is clean: so are the commands of a packet, one after the other, and the clock is not
set to, or forward over, a time that is pending. -/
def Clean (s : AppEsl n m) : AppEsl.Event n m → Prop
  | .currentAbsoluteTime time _ =>
    (∀ i, (s.ledControlData i).pendingUpdate = true →
        clockReaches s.currentTime.timer time (s.ledControlData i).scheduledCommandTime = false) ∧
      ∀ j, (s.displayControlData j).pendingUpdate = true →
        clockReaches s.currentTime.timer time
          (s.displayControlData j).pendingUpdateAbsoluteTime = false
  | .controlPointCmd imageLength packet =>
    Along (fun s c => (s.command b imageLength c).1) (CleanCommand b imageLength) s packet.cmds
  | .loop .. => True

instance (s : AppEsl n m) : ∀ e, Decidable (Clean b s e)
  | .currentAbsoluteTime .. => inferInstanceAs (Decidable (_ ∧ _))
  | .controlPointCmd .. => inferInstanceAs (Decidable (Along ..))
  | .loop .. => inferInstanceAs (Decidable True)

variable {b} {s : AppEsl n m} {l : EslLaw n m}

/-- **The access point says what time it is.** -/
theorem currentAbsoluteTime_refines (h : Refines s l) {time tick : UInt32}
    (hclean : Clean b s (.currentAbsoluteTime time tick)) :
    Refines (s.step b (.currentAbsoluteTime time tick))
      (l.step b (.currentAbsoluteTime time tick)) := by
  have hclock := h.currentTime
  refine ⟨rfl, fun i => ?_, fun j => ?_, h.sent⟩
  · simp only [EslLaw.step, hclock]
    exact (h.led i).setLeft (hclean.1 i) tick
  · simp only [EslLaw.step, hclock]
    exact (h.display j).setLeft (hclean.2 j) tick

/-- What is drawn, is no matter of the law. -/
theorem displayControlDataLoop_refines (h : Refines s l) (busy : Fin m → Bool) :
    Refines (s.displayControlDataLoop busy) l := by
  refine ⟨h.currentTime, h.led, fun j => ?_, h.sent⟩
  simp only [AppEsl.displayControlDataLoop]
  split
  · exact h.display j
  · exact h.display j

/-- **A pass of the main loop.** -/
theorem loop_refines (h : Refines s l) (tick : UInt32) (busy : Fin m → Bool) :
    Refines (s.step b (.loop tick busy)) (l.step b (.loop tick busy)) := by
  refine displayControlDataLoop_refines ?_ busy
  simp only [EslLaw.step, h.currentTime]
  cases hgone : s.currentTime.gone b tick with
  | none =>
    have hidle : ¬ (s.currentTime.active && tick - s.currentTime.lastTick > 1000 * b.tick1us) := by
      simpa [CurrentTime.gone] using hgone
    rw [AppEsl.currentTimeLoop, if_neg hidle]
    exact h
  | some d =>
    obtain ⟨hactive, hd⟩ := CurrentTime.gone_ne_zero hgone
    have hlook : s.currentTime.active && tick - s.currentTime.lastTick > 1000 * b.tick1us := by
      by_contra hidle
      simp [CurrentTime.gone, hidle] at hgone
    have hval : (tick - s.currentTime.lastTick) / (b.tick1us * 1000) = d := by
      simpa [CurrentTime.gone, hlook] using hgone
    rw [AppEsl.currentTimeLoop, if_pos hlook, hval]
    refine ⟨by rw [hactive], fun i => ?_, fun j => ?_, h.sent⟩
    · have hled := h.led i
      by_cases hexp : ((s.ledControlData i).pendingUpdate && currentTimeExpired s.currentTime.timer
          (s.currentTime.timer + d) (s.ledControlData i).scheduledCommandTime) = true
      · simp only [if_pos hexp]
        exact hled.progress hd hactive tick hexp.symm
      · simp only [if_neg hexp]
        exact hled.progress hd hactive tick (Bool.eq_false_iff.mpr hexp).symm
    · have hdisplay := h.display j
      by_cases hexp : ((s.displayControlData j).pendingUpdate &&
          currentTimeExpired s.currentTime.timer (s.currentTime.timer + d)
            (s.displayControlData j).pendingUpdateAbsoluteTime) = true
      · simp only [if_pos hexp]
        exact hdisplay.progress hd hactive tick hexp.symm
      · simp only [if_neg hexp]
        exact hdisplay.progress hd hactive tick (Bool.eq_false_iff.mpr hexp).symm

/-- **One event.** -/
theorem step_refines (h : Refines s l) {e : AppEsl.Event n m} (hclean : Clean b s e) :
    Refines (s.step b e) (l.step b e) := by
  cases e with
  | currentAbsoluteTime time tick => exact currentAbsoluteTime_refines h hclean
  | controlPointCmd imageLength packet => exact controlPointCmd_refines h hclean
  | loop tick busy => exact loop_refines h tick busy

/-- A run whose events are clean keeps to the law. -/
theorem run_refines {run : List (AppEsl.Event n m)} (hclean : Along (AppEsl.step b) (Clean b) s run)
    (h : Refines s l) : Refines (run.foldl (AppEsl.step b) s) (run.foldl (EslLaw.step b) l) := by
  induction run generalizing s l with
  | nil => exact h
  | cons e run ih =>
    rw [along_cons] at hclean
    exact ih hclean.2 (step_refines h hclean.1)

variable (b) in
/-- The milliseconds that each of some passes of the main loop finds gone by, where it looks. -/
def gones : CurrentTime → List (UInt32 × (Fin m → Bool)) → List ℕ
  | _, [] => []
  | c, (tick, _) :: passes =>
    match c.gone b tick with
    | none => gones c passes
    | some d => d.toNat :: gones ⟨true, c.timer + d, tick⟩ passes

variable (n) in
/-- Passes of the main loop. -/
def loops (passes : List (UInt32 × (Fin m → Bool))) : List (AppEsl.Event n m) :=
  passes.map fun pass => .loop pass.1 pass.2

/-- To the law, passes of the main loop are time that goes by. -/
theorem foldl_loops (l : EslLaw n m) (passes : List (UInt32 × (Fin m → Bool))) :
    (∀ i, ((loops n passes).foldl (EslLaw.step b) l).led i =
        (gones b l.currentTime passes).foldl Slot.progress (l.led i)) ∧
      ∀ j, ((loops n passes).foldl (EslLaw.step b) l).display j =
        (gones b l.currentTime passes).foldl Slot.progress (l.display j) := by
  induction passes generalizing l with
  | nil => exact ⟨fun _ => rfl, fun _ => rfl⟩
  | cons pass passes ih =>
    have hloops : (loops n (pass :: passes)).foldl (EslLaw.step b) l =
        (loops n passes).foldl (EslLaw.step b) (l.step b (.loop pass.1 pass.2)) := rfl
    rw [hloops]
    have hih := ih (l.step b (.loop pass.1 pass.2))
    simp only [gones]
    cases hgone : l.currentTime.gone b pass.1 with
    | none =>
      have hstep : l.step b (.loop pass.1 pass.2) = l := by simp only [EslLaw.step, hgone]
      rwa [hstep] at hih ⊢
    | some d =>
      simp only [EslLaw.step, hgone] at hih ⊢
      exact hih

/-- Passes of the main loop keep to the law. -/
theorem loops_refine (h : Refines s l) (passes : List (UInt32 × (Fin m → Bool))) :
    Refines ((loops n passes).foldl (AppEsl.step b) s)
      ((loops n passes).foldl (EslLaw.step b) l) := by
  refine run_refines (along_iff.mpr fun pre e post hrun => ?_) h
  have he : e ∈ loops n passes := hrun ▸ List.mem_append_right pre List.mem_cons_self
  obtain ⟨pass, -, rfl⟩ := List.mem_map.mp he
  trivial

/-- The pass of the main loop that reaches the time of a pending LED command executes it, and no
pass before it does. -/
theorem led_reached (h : Refines s l) {i : Fin n}
    (hpend : (s.ledControlData i).pendingUpdate = true) {passes : List (UInt32 × (Fin m → Bool))}
    {ds : List ℕ} {d : ℕ} (hgone : gones b s.currentTime passes = ds ++ [d])
    (hlt : ds.sum < ((s.ledControlData i).scheduledCommandTime - s.currentTime.timer).toNat)
    (hle : ((s.ledControlData i).scheduledCommandTime - s.currentTime.timer).toNat ≤ ds.sum + d) :
    (((loops n passes).foldl (AppEsl.step b) s).ledControlData i).pendingUpdate = false ∧
      ((loops n passes).foldl (AppEsl.step b) s).applied i =
        s.applied i ++ [(s.ledControlData i).scheduledCommand] := by
  have hled := (loops_refine (b := b) h passes).led i
  rw [(foldl_loops l passes).1, h.currentTime, hgone] at hled
  exact (h.led i).reached hpend hlt hle hled

/-- The pass of the main loop that reaches the time of a pending image requests it, and no pass before
it does. -/
theorem display_reached (h : Refines s l) {j : Fin m}
    (hpend : (s.displayControlData j).pendingUpdate = true)
    {passes : List (UInt32 × (Fin m → Bool))} {ds : List ℕ} {d : ℕ}
    (hgone : gones b s.currentTime passes = ds ++ [d])
    (hlt : ds.sum <
      ((s.displayControlData j).pendingUpdateAbsoluteTime - s.currentTime.timer).toNat)
    (hle : ((s.displayControlData j).pendingUpdateAbsoluteTime - s.currentTime.timer).toNat ≤
      ds.sum + d) :
    (((loops n passes).foldl (AppEsl.step b) s).displayControlData j).pendingUpdate = false ∧
      ((loops n passes).foldl (AppEsl.step b) s).requested j =
        s.requested j ++ [(s.displayControlData j).pendingUpdateImageIdx] := by
  have hdisplay := (loops_refine (b := b) h passes).display j
  rw [(foldl_loops l passes).2, h.currentTime, hgone] at hdisplay
  exact (h.display j).reached hpend hlt hle hdisplay

/-! ### The images that are fetched -/

/-- What is fetched for a display is what was requested of it, in order; but a request that waits
gives way to a later one. -/
structure Fetches (s : AppEsl n m) (j : Fin m) : Prop where
  /-- In order. -/
  sublist : List.Sublist (s.fetched j) (s.requested j)
  /-- The request that waits is the last one. -/
  waits : (s.displayControlData j).newImage = true → ∃ before,
    s.requested j = before ++ [(s.displayControlData j).imageIdx] ∧
      List.Sublist (s.fetched j) before
  /-- When none waits, the last one was fetched. -/
  last : (s.displayControlData j).newImage = false →
    (s.fetched j).getLast? = (s.requested j).getLast?

theorem boot_fetches (j : Fin m) : Fetches (AppEsl.boot : AppEsl n m) j :=
  ⟨.slnil, nofun, fun _ => rfl⟩

section Fetches

variable {s' : AppEsl n m} {j : Fin m}

/-- A step that requests nothing of the display, and fetches nothing for it. -/
theorem Fetches.same (h : Fetches s j)
    (hnew : (s'.displayControlData j).newImage = (s.displayControlData j).newImage)
    (hidx : (s'.displayControlData j).imageIdx = (s.displayControlData j).imageIdx)
    (hrequested : s'.requested j = s.requested j) (hfetched : s'.fetched j = s.fetched j) :
    Fetches s' j := by
  refine ⟨?_, ?_, ?_⟩
  · rw [hrequested, hfetched]
    exact h.sublist
  · rw [hnew, hidx, hrequested, hfetched]
    exact h.waits
  · rw [hnew, hrequested, hfetched]
    exact h.last

/-- A request. -/
theorem Fetches.request (h : Fetches s j) (hnew : (s'.displayControlData j).newImage = true)
    (hrequested : s'.requested j = s.requested j ++ [(s'.displayControlData j).imageIdx])
    (hfetched : s'.fetched j = s.fetched j) : Fetches s' j := by
  refine ⟨?_, fun _ => ⟨s.requested j, hrequested, ?_⟩, fun hidle => ?_⟩
  · rw [hrequested, hfetched]
    exact h.sublist.trans (List.sublist_append_left _ _)
  · rw [hfetched]
    exact h.sublist
  · exact absurd (hnew.symm.trans hidle) (by decide)

/-- `displayControlDataLoop` fetches the image of a request that waits. -/
theorem Fetches.displayControlDataLoop (h : Fetches s j) (busy : Fin m → Bool) :
    Fetches (s.displayControlDataLoop busy) j := by
  by_cases hfetch : ((s.displayControlData j).newImage && !busy j) = true
  case neg =>
    refine h.same ?_ ?_ rfl ?_
    all_goals simp only [AppEsl.displayControlDataLoop, if_neg hfetch]
  have hwait := (Bool.and_eq_true_iff.mp hfetch).1
  obtain ⟨before, hrequested, hbefore⟩ := h.waits hwait
  have hfetched : (s.displayControlDataLoop busy).fetched j =
      s.fetched j ++ [(s.displayControlData j).imageIdx] := if_pos hfetch
  have hsame : (s.displayControlDataLoop busy).requested j = s.requested j := rfl
  have hidle : ((s.displayControlDataLoop busy).displayControlData j).newImage = false := by
    simp only [AppEsl.displayControlDataLoop, if_pos hfetch]
  refine ⟨?_, fun hnew => absurd (hnew.symm.trans hidle) (by decide), fun _ => ?_⟩
  · rw [hfetched, hsame, hrequested]
    exact hbefore.append_right _
  · rw [hfetched, hsame, hrequested, List.getLast?_concat, List.getLast?_concat]

/-- A command. -/
theorem Fetches.command (h : Fetches s j) (imageLength : UInt8 → UInt32) (c : EslCommand n m) :
    Fetches (s.command b imageLength c).1 j := by
  cases c with
  | displayImage eslId k imageId =>
    simp only [AppEsl.command, AppEsl.displayImage]
    split
    · exact h
    · by_cases hk : j = k
      · subst hk
        refine h.request ?_ ?_ rfl
        all_goals simp
      · refine h.same ?_ ?_ ?_ rfl
        all_goals simp [hk]
  | displayTimedImage eslId k imageId time =>
    simp only [AppEsl.command, AppEsl.displayTimedImage]
    split_ifs
    · exact h
    all_goals
      by_cases hk : j = k
      · subst hk
        exact h.same (by simp) (by simp) rfl rfl
      · exact h.same (by simp [hk]) (by simp [hk]) rfl rfl
  | ledControl eslId i fields => exact h.same rfl rfl rfl rfl
  | ledTimedControl eslId i fields time =>
    simp only [AppEsl.command, AppEsl.ledTimedControl]
    split_ifs <;> exact h.same rfl rfl rfl rfl

/-- A packet. -/
theorem Fetches.handleControlPointCmds (h : Fetches s j) (imageLength : UInt8 → UInt32)
    (cmds : List (EslCommand n m)) :
    Fetches (s.handleControlPointCmds b imageLength cmds) j := by
  have hrounds := List.foldlRecOn (motive := fun p : AppEsl n m × AppEsl.RspBuf n m =>
    Fetches p.1 j) cmds (AppEsl.round b imageLength)
    (b := (s, ⟨AppEsl.rspLeft cmds, []⟩)) h fun p hp c _ => hp.command imageLength c
  rw [AppEsl.handleControlPointCmds]
  split
  · exact h
  · simp only
    split
    · exact hrounds.same rfl rfl rfl rfl
    · exact hrounds

/-- The pass of `currentTimeLoop`. -/
theorem Fetches.currentTimeLoop (h : Fetches s j) (tick : UInt32) :
    Fetches (s.currentTimeLoop b tick) j := by
  rw [AppEsl.currentTimeLoop]
  split
  case isFalse => exact h
  case isTrue =>
    by_cases hexp : ((s.displayControlData j).pendingUpdate && currentTimeExpired
        s.currentTime.timer (s.currentTime.timer +
          (tick - s.currentTime.lastTick) / (b.tick1us * 1000))
        (s.displayControlData j).pendingUpdateAbsoluteTime) = true
    · refine h.request ?_ ?_ rfl
      all_goals simp only [if_pos hexp]
    · refine h.same ?_ ?_ ?_ rfl
      all_goals simp only [if_neg hexp]

/-- **One event.** -/
theorem Fetches.step (h : Fetches s j) (e : AppEsl.Event n m) : Fetches (s.step b e) j := by
  cases e with
  | currentAbsoluteTime time tick => exact h.same rfl rfl rfl rfl
  | controlPointCmd imageLength packet => exact h.handleControlPointCmds imageLength packet.cmds
  | loop tick busy => exact (h.currentTimeLoop tick).displayControlDataLoop busy

/-- After a pass that finds the display not busy, the last image that was requested is fetched. -/
theorem Fetches.loop_idle (h : Fetches s j) (tick : UInt32) {busy : Fin m → Bool}
    (hbusy : busy j = false) :
    ((s.step b (.loop tick busy)).fetched j).getLast? =
      ((s.step b (.loop tick busy)).requested j).getLast? := by
  refine (h.step (.loop tick busy)).last ?_
  simp only [AppEsl.step, AppEsl.loop, AppEsl.displayControlDataLoop, hbusy, Bool.not_false,
    Bool.and_true]
  split
  · rfl
  · exact Bool.eq_false_iff.mpr ‹_›

/-- **In any run** what is fetched for a display is what was requested of it; and a pass that finds it
not busy leaves it with the last image that was requested. -/
theorem fetches_run (b : EslBoard m) (run : List (AppEsl.Event n m)) (j : Fin m) :
    Fetches (run.foldl (AppEsl.step b) AppEsl.boot) j ∧
      ∀ (tick : UInt32) (busy : Fin m → Bool), busy j = false → ∀ s : AppEsl n m,
        s = (run ++ [AppEsl.Event.loop tick busy]).foldl (AppEsl.step b) AppEsl.boot →
          (s.fetched j).getLast? = (s.requested j).getLast? := by
  have hrun : Fetches (run.foldl (AppEsl.step b) AppEsl.boot) j :=
    List.foldlRecOn (motive := fun s : AppEsl n m => Fetches s j) run _ (boot_fetches j)
      fun _ h e _ => h.step e
  refine ⟨hrun, fun tick busy hbusy s hs => ?_⟩
  rw [hs, List.foldl_concat]
  exact hrun.loop_idle tick hbusy

end Fetches

theorem boot_refines : Refines (AppEsl.boot : AppEsl n m) EslLaw.boot :=
  ⟨rfl, fun _ => ⟨rfl, nofun, rfl⟩, fun _ => ⟨rfl, nofun, rfl⟩, rfl⟩

/-- **The law**: after a run whose events are clean, the label is where the law says, and every
command that an LED or a display took was executed once, or was deleted or replaced, or is the one
that is pending. -/
theorem follows_law (b : EslBoard m) {run : List (AppEsl.Event n m)}
    (hclean : Along (AppEsl.step b) (Clean b) AppEsl.boot run) :
    Refines (run.foldl (AppEsl.step b) AppEsl.boot) (run.foldl (EslLaw.step b) EslLaw.boot) ∧
      (∀ i, ((run.foldl (EslLaw.step b) EslLaw.boot).led i).taken.Perm
        ((run.foldl (AppEsl.step b) AppEsl.boot).applied i ++
          ((run.foldl (EslLaw.step b) EslLaw.boot).led i).dropped ++
          if ((run.foldl (AppEsl.step b) AppEsl.boot).ledControlData i).pendingUpdate then
            [((run.foldl (AppEsl.step b) AppEsl.boot).ledControlData i).scheduledCommand]
          else [])) ∧
      ∀ j, ((run.foldl (EslLaw.step b) EslLaw.boot).display j).taken.Perm
        ((run.foldl (AppEsl.step b) AppEsl.boot).requested j ++
          ((run.foldl (EslLaw.step b) EslLaw.boot).display j).dropped ++
          if ((run.foldl (AppEsl.step b) AppEsl.boot).displayControlData j).pendingUpdate then
            [((run.foldl (AppEsl.step b) AppEsl.boot).displayControlData j).pendingUpdateImageIdx]
          else []) := by
  have h := run_refines hclean boot_refines
  exact ⟨h, fun i => (h.led i).account, fun j => (h.display j).account⟩

/-- A label with one LED and one display. -/
def smallBoard : EslBoard 1 := ⟨16, by decide, fun _ => 100⟩

/-- A packet of one command, while every image has `100` bytes. -/
def one (c : EslCommand 1 1) (h : c.size ≤ maxEslPayloadSize) : AppEsl.Event 1 1 :=
  .controlPointCmd (fun _ => 100) ⟨[c], by simpa using h⟩

/-- A timed command for the LED, `x` being its red. -/
def timedRed (x : BitVec 2) (time : UInt32) : AppEsl.Event 1 1 :=
  one (.ledTimedControl 1 0 ⟨x, 0, 0, 3, #v[0, 0, 0, 0, 0, 0, 0], 0, 0⟩ time)
    (by simp [EslCommand.size, maxEslPayloadSize])

/-- A timed LED command is replaced, another one is refused, an image is for a time, and then time
goes by. -/
def redRun : List (AppEsl.Event 1 1) :=
  [.currentAbsoluteTime 1000 0, timedRed 1 1500, timedRed 2 1500, timedRed 3 1600,
    one (.displayTimedImage 1 0 3 1200) (by decide), .loop 16000000 fun _ => false]

theorem redRun_follows_law :
    Refines (redRun.foldl (AppEsl.step smallBoard) AppEsl.boot)
        (redRun.foldl (EslLaw.step smallBoard) EslLaw.boot) ∧
      (redRun.foldl (AppEsl.step smallBoard) AppEsl.boot).requested 0 = [3] ∧
      (redRun.foldl (AppEsl.step smallBoard) AppEsl.boot).fetched 0 = [3] ∧
      (redRun.foldl (AppEsl.step smallBoard) AppEsl.boot).sent =
        [[.ledState 0], [.ledState 0], [.error .queueFull], [.displayState 0 3]] :=
  ⟨(follows_law smallBoard (by decide)).1, by decide, by decide, by decide⟩

/-- A timed image that was deleted is shown. -/
theorem deleted_image_shown :
    ¬∀ (b : EslBoard 1) (run : List (AppEsl.Event 1 1)),
      Refines (run.foldl (AppEsl.step b) AppEsl.boot) (run.foldl (EslLaw.step b) EslLaw.boot) := by
  intro h
  have := ((h smallBoard [.currentAbsoluteTime 1000 0,
    one (.displayTimedImage 1 0 3 2000) (by decide), one (.displayTimedImage 1 0 3 0) (by decide),
    .loop 16016000 fun _ => false]).display 0).executed
  exact absurd this (by decide)

end Runs

end TcBle.Vendor
