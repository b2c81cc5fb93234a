import TcBle.Foundation.AccessLog
import TcBle.Vendor.EslControlPoint

/-!
# The indices of the commands

The indices of LEDs, displays and images come from the commands as they are. Most functions check
them against the table they look into; `displayControlData` and `ledControlData` are indexed
without a check of their own.

## What is proved

* `Reaches.command` — the entries that a command accesses are in their tables exactly if it is valid.
* `Reaches.loop` — the main loop stays in the tables, whatever is pending.
* `indices_validated_iff` — the entries accessed in every run, as long as its commands are valid.
-/

namespace TcBle.Vendor

open TcBle.Foundation.Run TcBle.Foundation.AccessLog TcBle.HciTransport EslLabel

variable {cfg : EslConfig}

/-! ### What is accessed -/

/-- The entries are in their tables. -/
def InTables (cfg : EslConfig) (entries : List (EslTable × ℕ)) : Prop :=
  ∀ e ∈ entries, e.2 < cfg.size e.1

instance (entries : List (EslTable × ℕ)) : Decidable (InTables cfg entries) :=
  inferInstanceAs (Decidable (∀ e ∈ entries, _))

theorem inTables_append (xs ys : List (EslTable × ℕ)) :
    InTables cfg (xs ++ ys) ↔ InTables cfg xs ∧ InTables cfg ys := List.forall_mem_append

theorem inTables_singleton (t : EslTable) (i : ℕ) : InTables cfg [(t, i)] ↔ i < cfg.size t :=
  List.forall_mem_singleton

/-- A function that checks the index stays in its table. -/
theorem inTables_checked {t : EslTable} {n : ℕ} (h : n ≤ cfg.size t) (i : UInt8) :
    InTables cfg (checked t n i) := by
  rw [checked]
  split_ifs with hi
  · exact (inTables_singleton t _).mpr (Nat.lt_of_lt_of_le hi h)
  · exact List.forall_mem_nil _

theorem inTables_allLeds : InTables cfg allLeds := by
  intro e he
  obtain ⟨i, hi, rfl⟩ := List.mem_map.mp he
  exact List.mem_range.mp hi

theorem inTables_stateEntries : InTables cfg stateEntries := by
  intro e he
  rcases List.mem_append.mp he with he | he
  · obtain ⟨i, hi, he⟩ := List.mem_flatMap.mp he
    have hlt : i < ESLS_LEDS_SUPPORTED := List.mem_range.mp hi
    rcases List.mem_cons.mp he with rfl | he
    · exact Nat.lt_succ_of_lt hlt
    · rw [List.mem_singleton.mp he]
      exact hlt
  · obtain ⟨i, hi, rfl⟩ := List.mem_map.mp he
    exact List.mem_range.mp hi

/-- An image is looked up only where there is one. -/
theorem inTables_imageEntry {s : EslLabel} (h : s.storage.Made cfg.images) (imageIdx : ℕ) :
    InTables cfg (s.imageEntry imageIdx) := by
  rw [imageEntry]
  split_ifs with hsome
  · refine (inTables_singleton _ _).mpr ?_
    by_contra hge
    rw [ImageStorage.getImageLength, if_pos (.inr (by rw [h.numImages]; exact not_lt.mp hge))]
      at hsome
    cases hsome
  · exact List.forall_mem_nil _

/-- What is drawn is looked up only where there is something. -/
theorem inTables_drawEntries {s : EslLabel} (h : s.storage.Made cfg.images) (pass : EslPass)
    (i : ℕ) (imageIdx : UInt8) : InTables cfg (s.drawEntries cfg pass i imageIdx) := by
  have hdisplay : InTables cfg (checked .displays APP_DISPLAY_MAX_DISPLAYS (UInt8.ofNat i)) :=
    inTables_checked (Nat.le_refl _) _
  have hdata : InTables cfg (s.imageDataEntries imageIdx.toNat) := by
    rw [imageDataEntries, inTables_append]
    refine ⟨inTables_imageEntry h _, ?_⟩
    split_ifs with hpos
    · have hentry := inTables_imageEntry h imageIdx.toNat
      rw [imageEntry] at hentry
      cases hlen : s.storage.getImageLength imageIdx.toNat with
      | none => simp [hlen] at hpos
      | some length => simpa [hlen] using hentry
    · exact List.forall_mem_nil _
  rw [drawEntries]
  split_ifs
  · exact (inTables_append _ _).mpr ⟨(inTables_append _ _).mpr ⟨hdisplay, hdisplay⟩, hdisplay⟩
  · simpa using (inTables_append _ _).mpr ⟨hdisplay, hdisplay⟩
  · simp only [inTables_append]
    exact ⟨⟨⟨hdisplay, hdisplay⟩, hdata⟩, hdisplay⟩
  · exact hdisplay

/-- From `s` to `s'` the entries accessed are in their tables exactly if `P`, and the image storage
stays as it is. -/
structure Reaches (cfg : EslConfig) (s s' : EslLabel) (P : Prop) : Prop where
  /-- The entries. -/
  touched : Adds EslLabel.touched (fun e => e.2 < cfg.size e.1) s s' P
  /-- The storage. -/
  storage : s'.storage = s.storage

namespace Reaches

variable {s s' s'' : EslLabel} {P Q : Prop}

theorem refl (s : EslLabel) : Reaches cfg s s True := ⟨.of_eq rfl, rfl⟩

theorem congr (h : Reaches cfg s s' P) (hPQ : P ↔ Q) : Reaches cfg s s' Q :=
  ⟨h.touched.congr hPQ, h.storage⟩

/-- What stays in the tables, and then something else. -/
theorem andThen (h₁ : Reaches cfg s s' True) (h₂ : Reaches cfg s' s'' P) : Reaches cfg s s'' P :=
  ⟨h₁.touched.andThen h₂.touched, h₂.storage.trans h₁.storage⟩

/-- Entries accessed one by one. -/
theorem touch (s : EslLabel) (entries : List (EslTable × ℕ)) :
    Reaches cfg s (s.touch entries) (InTables cfg entries) :=
  ⟨⟨entries, rfl, Iff.rfl⟩, rfl⟩

theorem touch_in (s : EslLabel) {entries : List (EslTable × ℕ)} (h : InTables cfg entries) :
    Reaches cfg s (s.touch entries) True := (touch s entries).congr (iff_true_intro h)

/-- One entry. -/
theorem touch_entry (s : EslLabel) (t : EslTable) (i : ℕ) :
    Reaches cfg s (s.touch [(t, i)]) (i < cfg.size t) :=
  (touch s _).congr (inTables_singleton t i)

/-- A loop over the indices of a table. -/
theorem foldl_range {f : EslLabel → ℕ → EslLabel} {n : ℕ} (h : s.storage.Made cfg.images)
    (hf : ∀ s i, s.storage.Made cfg.images → i < n → Reaches cfg s (f s i) True) :
    Reaches cfg s ((List.range n).foldl f s) True := by
  have hstep : ∀ t, ∀ i ∈ List.range n, t.storage = s.storage →
      Adds EslLabel.touched (fun e => e.2 < cfg.size e.1) t (f t i) True ∧
        (f t i).storage = s.storage := by
    intro t i hi ht
    have hreach := hf t i (by rw [ht]; exact h) (List.mem_range.mp hi)
    exact ⟨hreach.touched, hreach.storage.trans ht⟩
  obtain ⟨hadds, hstorage⟩ := Adds.foldl (List.range n) hstep rfl
  exact ⟨hadds.congr (iff_true_intro (along_iff.mpr fun _ _ _ _ => trivial)), hstorage⟩

end Reaches

/-! ### The commands -/

/-- The indices of the command are those of its tables, where the table is not looked into behind a
check: an LED that a timed command is for, and a display, unless the length of the image is not
the one that the display expects. -/
def EslLabel.Validates (cfg : EslConfig) (s : EslLabel) (c : EslRound) : Prop :=
  match EslOpcode.ofByte c.opcode with
  | .displayImage | .displayTimedImage =>
    c.displayId.toNat < ESLS_DISPLAYS_SUPPORTED ∨
      s.imageLength cfg c.imageId ≠ cfg.expectedImageLength c.displayId
  | .ledTimedControl => c.ledId.toNat < ESLS_LEDS_SUPPORTED
  | _ => True

@[simp] theorem label_answer (s : EslLabel) (eslId : UInt8) (written : List UInt8) (rspLen : ℕ) :
    (s.answer eslId written rspLen).label = s := by
  rw [EslLabel.answer]
  split_ifs <;> rfl

namespace Reaches

variable (lib : EslTlv) (s : EslLabel) (c : EslRound)

theorem ping : Reaches cfg s (s.ping c).label True := by
  rw [EslLabel.ping]
  split_ifs
  · exact touch_in s inTables_stateEntries
  · exact refl s

theorem unassociate : Reaches cfg s (s.unassociate c).label True :=
  let h := touch_in s inTables_stateEntries
  ⟨h.touched, h.storage⟩

/-- The arrays of the vendor image are none of the tables. -/
theorem vendorSpecific : Reaches cfg s (s.vendorSpecific lib c).label True :=
  ⟨(refl s).touched, rfl⟩

theorem sensorRead (sensorId length : UInt8) (val : Mem) :
    Reaches cfg s (s.sensorRead sensorId length val).1 True := by
  rw [EslLabel.sensorRead]
  split
  · exact ⟨(refl s).touched, rfl⟩
  · split
    · exact ⟨(refl s).touched, rfl⟩
    · exact refl s

theorem readSensorData : Reaches cfg s (s.readSensorData lib c).label True := by
  rw [EslLabel.readSensorData]
  split_ifs
  · exact sensorRead s _ _ _
  · exact refl s

/-- An LED command looks only at LEDs that there are. -/
theorem ledCommandApply (ledId : UInt8) (command : AppLedCommand) (t₁ t₂ : UInt32) :
    Reaches cfg s (s.ledCommandApply cfg ledId command t₁ t₂) True := by
  have hchecked : InTables cfg (checked .leds APP_LED_MAX_LEDS ledId) :=
    inTables_checked (Nat.le_refl _) ledId
  have hleds : ∀ leds, Reaches cfg s { s with leds := leds } True := fun _ =>
    ⟨(refl s).touched, rfl⟩
  rw [EslLabel.ledCommandApply]
  have happly := (hleds (s.leds.commandApply ledId command t₁ t₂).1).andThen
    (touch_in _ ((inTables_append _ _).mpr ⟨hchecked, hchecked⟩))
  split_ifs
  · refine (happly.andThen (touch_in _ ?_)).andThen (touch_in _ inTables_allLeds)
    refine (inTables_append _ _).mpr ⟨inTables_allLeds, ?_⟩
    intro e he
    obtain ⟨i, hi, he⟩ := List.mem_flatMap.mp he
    have hlt : i < ESLS_LEDS_SUPPORTED :=
      Nat.lt_of_lt_of_le (List.mem_range.mp hi) (Nat.min_le_right _ _)
    rcases List.mem_cons.mp he with rfl | he
    · exact Nat.lt_succ_of_lt hlt
    · rw [List.mem_singleton.mp he]
      exact hlt
  · exact happly

theorem ledControl : Reaches cfg s (s.ledControl cfg c).label True := by
  rw [EslLabel.ledControl, label_answer]
  exact ledCommandApply s _ _ _ _

variable {s}

/-- What a display command looks at before it uses the index. -/
theorem lengths (h : s.storage.Made cfg.images) :
    Reaches cfg s (s.touch (s.lengthEntries c)) True := by
  refine touch_in s ((inTables_append _ _).mpr ⟨inTables_imageEntry h _, ?_⟩)
  exact inTables_checked (Nat.le_refl _) c.displayId

theorem displayImage (h : s.storage.Made cfg.images) :
    Reaches cfg s (s.displayImage cfg lib c).label
      (c.displayId.toNat < ESLS_DISPLAYS_SUPPORTED ∨
        s.imageLength cfg c.imageId ≠ cfg.expectedImageLength c.displayId) := by
  rw [EslLabel.displayImage]
  dsimp only
  split_ifs with hlength
  · rw [label_answer]
    exact (lengths c h).congr (iff_of_true trivial (.inr hlength))
  · rw [label_answer]
    have hentry := (lengths c h).andThen (touch_entry _ .displayControlData c.displayId.toNat)
    refine Reaches.congr (P := c.displayId.toNat < ESLS_DISPLAYS_SUPPORTED)
      ⟨hentry.touched, hentry.storage⟩ ?_
    simp [hlength]

theorem displayTimedImage (h : s.storage.Made cfg.images) :
    Reaches cfg s (s.displayTimedImage cfg lib c).label
      (c.displayId.toNat < ESLS_DISPLAYS_SUPPORTED ∨
        s.imageLength cfg c.imageId ≠ cfg.expectedImageLength c.displayId) := by
  rw [EslLabel.displayTimedImage]
  dsimp only
  split_ifs with hlength
  · rw [label_answer]
    exact (lengths c h).congr (iff_of_true trivial (.inr hlength))
  all_goals
    have hentry := (lengths c h).andThen (touch_entry _ .displayControlData c.displayId.toNat)
    rw [label_answer]
    refine Reaches.congr (P := c.displayId.toNat < ESLS_DISPLAYS_SUPPORTED)
      ⟨hentry.touched, hentry.storage⟩ ?_
    simp [hlength]

variable (s) in
theorem ledTimedControl : Reaches cfg s (s.ledTimedControl lib c).label
    (c.ledId.toNat < ESLS_LEDS_SUPPORTED) := by
  have hentry : Reaches cfg s _ (c.ledId.toNat < ESLS_LEDS_SUPPORTED) :=
    touch_entry s .ledControlData c.ledId.toNat
  rw [EslLabel.ledTimedControl]
  split_ifs
  · rw [label_answer]
    exact ⟨hentry.touched, hentry.storage⟩
  · rw [label_answer]
    exact hentry
  · exact hentry
  · rw [label_answer]
    exact ⟨hentry.touched, hentry.storage⟩

/-- **A command** accesses entries of its tables exactly if it is valid. -/
theorem command (h : s.storage.Made cfg.images) :
    Reaches cfg s (s.command cfg lib c).label (s.Validates cfg c) := by
  rw [EslLabel.command, Validates]
  cases EslOpcode.ofByte c.opcode with
  | ping => exact ping s c
  | vendor => exact vendorSpecific lib s c
  | serviceReset => exact ping s c
  | unassociateFromAp => exact unassociate s c
  | factoryReset => exact ⟨(refl s).touched, rfl⟩
  | updateComplete => exact refl s
  | readSensorData => exact readSensorData lib s c
  | displayImage => exact displayImage lib c h
  | displayTimedImage => exact displayTimedImage lib c h
  | ledControl => exact ledControl s c
  | ledTimedControl => exact ledTimedControl lib s c
  | other => exact refl s

end Reaches

/-! ### A packet -/

namespace Reaches

variable (lib : EslTlv)

theorem label_round (r : EslResponses) (c : EslRound) :
    (r.round cfg lib c).label = (r.label.command cfg lib c).label := by
  rw [EslResponses.round]
  split_ifs <;> rfl

/-- The rounds of a packet. -/
theorem rounds (cs : List EslRound) (r : EslResponses) (h : r.label.storage.Made cfg.images) :
    Reaches cfg r.label (cs.foldl (EslResponses.round cfg lib) r).label
      (Along (EslResponses.round cfg lib) (fun r c => r.label.Validates cfg c) r cs) := by
  have hstep : ∀ q : EslResponses, ∀ c ∈ cs, q.label.storage = r.label.storage →
      Adds (fun q : EslResponses => q.label.touched) (fun e => e.2 < cfg.size e.1) q
          (q.round cfg lib c) (q.label.Validates cfg c) ∧
        (q.round cfg lib c).label.storage = r.label.storage := by
    intro q c _ hq
    have hcommand := command lib c (s := q.label) (by rw [hq]; exact h)
    rw [← label_round lib q c] at hcommand
    exact ⟨hcommand.touched, hcommand.storage.trans hq⟩
  obtain ⟨hadds, hstorage⟩ := Adds.foldl cs hstep rfl
  exact ⟨hadds, hstorage⟩

/-- **A packet**. -/
theorem handle (p : EslPacket) {s : EslLabel} (h : s.storage.Made cfg.images) :
    Reaches cfg s (p.handle cfg lib s).1
      (p.Refused lib ∨ Along (EslResponses.round cfg lib) (fun r c => r.label.Validates cfg c)
        (p.start lib s) (p.rounds lib)) := by
  rw [EslPacket.handle]
  split_ifs with hrefused
  · exact (refl s).congr (iff_of_true trivial (.inl hrefused))
  · refine (rounds lib (p.rounds lib) (p.start lib s) h).congr ?_
    simp [hrefused]

/-! ### The main loop -/

variable (pass : EslPass) (prev : UInt32) {s : EslLabel} {i : ℕ}

theorem currentTimeLed (s : EslLabel) (hi : i < ESLS_LEDS_SUPPORTED) :
    Reaches cfg s (s.currentTimeLed cfg pass prev i) True := by
  have hentry : Reaches cfg s (s.touch [(.ledControlData, i)]) True :=
    touch_in s ((inTables_singleton _ _).mpr hi)
  rw [EslLabel.currentTimeLed]
  split_ifs
  · have happly := hentry.andThen (ledCommandApply _ (UInt8.ofNat i)
      (s.ledControlData i).scheduledCommand (pass.applied i).1 (pass.applied i).2)
    exact ⟨happly.touched, happly.storage⟩
  · exact hentry

theorem currentTimeDisplay (s : EslLabel) (hi : i < ESLS_DISPLAYS_SUPPORTED) :
    Reaches cfg s (s.currentTimeDisplay prev i) True := by
  have hentry : Reaches cfg s (s.touch [(.displayControlData, i)]) True :=
    touch_in s ((inTables_singleton _ _).mpr hi)
  rw [EslLabel.currentTimeDisplay]
  split_ifs
  · exact ⟨hentry.touched, hentry.storage⟩
  · exact hentry

/-- The rounds for the LEDs and for the displays. -/
theorem currentTimeRounds (h : s.storage.Made cfg.images) :
    Reaches cfg s ((List.range ESLS_DISPLAYS_SUPPORTED).foldl (EslLabel.currentTimeDisplay prev)
      ((List.range ESLS_LEDS_SUPPORTED).foldl (EslLabel.currentTimeLed cfg pass prev) s)) True := by
  have hleds : Reaches cfg s
      ((List.range ESLS_LEDS_SUPPORTED).foldl (EslLabel.currentTimeLed cfg pass prev) s) True :=
    foldl_range h fun s i _ hi => currentTimeLed pass prev s hi
  refine hleds.andThen (foldl_range ?_ fun s i _ hi => currentTimeDisplay prev s hi)
  rw [hleds.storage]
  exact h

/-- What is pending becomes what is done at the entries of the tables. -/
theorem currentTimeLoop (h : s.storage.Made cfg.images) :
    Reaches cfg s (s.currentTimeLoop cfg pass) True := by
  rw [EslLabel.currentTimeLoop]
  split_ifs
  · have htime : ∀ time, Reaches cfg s { s with currentTime := time } True := fun _ =>
      ⟨(refl s).touched, rfl⟩
    refine (htime _).andThen (currentTimeRounds pass s.currentTime.timer ?_)
    exact h
  · exact refl s

theorem displayControlDataLoop (h : s.storage.Made cfg.images)
    (hi : i < ESLS_DISPLAYS_SUPPORTED) :
    Reaches cfg s (s.displayControlDataLoop cfg pass i) True := by
  have hentry : Reaches cfg s (s.touch [(.displayControlData, i)]) True :=
    touch_in s ((inTables_singleton _ _).mpr hi)
  rw [EslLabel.displayControlDataLoop]
  split_ifs
  · exact hentry.andThen (touch_in _ (inTables_checked (Nat.le_refl _) _))
  · have hbusy := hentry.andThen (touch_in _ (inTables_checked (t := .displays)
      (Nat.le_refl APP_DISPLAY_MAX_DISPLAYS) (UInt8.ofNat i)))
    have hmade : ((s.touch [(.displayControlData, i)]).touch
        (checked .displays APP_DISPLAY_MAX_DISPLAYS (UInt8.ofNat i))).storage.Made cfg.images := h
    have hdraw := hbusy.andThen
      (touch_in _ (inTables_drawEntries hmade pass i (s.displayControlData i).imageIdx))
    exact ⟨hdraw.touched, hdraw.storage⟩
  · exact hentry

/-- **The main loop**. -/
theorem loop (h : s.storage.Made cfg.images) : Reaches cfg s (s.loop cfg pass) True := by
  have htime := currentTimeLoop pass h
  have hdisplays := htime.andThen (foldl_range (n := ESLS_DISPLAYS_SUPPORTED)
    (by rw [htime.storage]; exact h) fun s i hs hi => displayControlDataLoop pass hs hi)
  have hall : InTables cfg
      (allLeds ++ (List.range APP_DISPLAY_MAX_DISPLAYS).map (EslTable.displays, ·)) := by
    refine (inTables_append _ _).mpr ⟨inTables_allLeds, ?_⟩
    intro e he
    obtain ⟨i, hi, rfl⟩ := List.mem_map.mp he
    exact List.mem_range.mp hi
  refine hdisplays.andThen ?_
  exact ⟨⟨_, rfl, iff_of_true hall trivial⟩, rfl⟩

end Reaches

/-! ### Runs -/

/-- The event is no packet, one that is refused, or one whose commands are valid. -/
def EslLabel.Valid (cfg : EslConfig) (lib : EslTlv) (s : EslLabel) : EslEvent → Prop
  | .controlPointCmd p =>
    p.Refused lib ∨ Along (EslResponses.round cfg lib) (fun r c => r.label.Validates cfg c)
      (p.start lib s) (p.rounds lib)
  | _ => True

/-- The label when the application has made its image storage; everything else is as it was. -/
def EslLabel.init (cfg : EslConfig) (s : EslLabel) : EslLabel :=
  { s with
    storage := ImageStorage.boot cfg.images s.storage.imageData s.storage.bufTemp
    touched := [] }

/-- **One event** accesses entries of the tables exactly if it is valid. -/
theorem adds_step (lib : EslTlv) {s : EslLabel} (h : s.storage.Made cfg.images) (e : EslEvent) :
    Adds EslLabel.touched (fun e => e.2 < cfg.size e.1) s (s.step cfg lib e)
        (s.Valid cfg lib e) ∧ (s.step cfg lib e).storage.Made cfg.images := by
  cases e with
  | currentAbsoluteTime time tick => exact ⟨.of_eq rfl, h⟩
  | state synchronized => exact ⟨.of_eq rfl, h⟩
  | controlPointCmd p =>
    have hhandle := Reaches.handle lib p h
    exact ⟨hhandle.touched, by rw [EslLabel.step, hhandle.storage]; exact h⟩
  | ots r => exact ⟨.of_eq rfl, ImageStorage.made_step h r⟩
  | loop pass =>
    have hloop := Reaches.loop pass h
    exact ⟨hloop.touched, by rw [EslLabel.step, hloop.storage]; exact h⟩

/-- **The indices of the commands**: in every run of packets, requests to the image storage and passes
of the main loop, the entries accessed are in their tables exactly as long as all commands are
valid. -/
theorem indices_validated_iff (cfg : EslConfig) (lib : EslTlv) (s : EslLabel)
    (es : List EslEvent) :
    InTables cfg (es.foldl (EslLabel.step cfg lib) (s.init cfg)).touched ↔
      Along (EslLabel.step cfg lib) (EslLabel.Valid cfg lib) (s.init cfg) es := by
  have hmade : (s.init cfg).storage.Made cfg.images := ImageStorage.made_boot _ _
  have hrun := (Adds.foldl es (fun s e _ h => adds_step lib h e) hmade).1
  rw [InTables, hrun.forall_mem_iff]
  exact and_iff_right (List.forall_mem_nil _)

/-- An image that there is not, for a display that there is not: the lengths are both zero. -/
theorem display_index_unchecked :
    ¬ InTables EslConfig.demo ([.controlPointCmd ⟨1, buffer [0x20, 1, 1, 5] fun _ => 0, fun _ => 0,
      fun _ => ⟨fun _ => 0, fun _ => 0, 0, 0⟩⟩].foldl (EslLabel.step EslConfig.demo EslTlv.nibble)
        (EslLabel.boot.init EslConfig.demo)).touched := by
  decide +kernel

end TcBle.Vendor
