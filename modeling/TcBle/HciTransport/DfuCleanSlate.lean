import TcBle.HciTransport.DfuReceived

/-!
# Whether an update starts on an erased area

`HCI_Start_Dfu` does not look at the area for the new firmware; it is erased by
`DFU_Init` and by the round of the main loop that gives an update up, and there only
when one of three sampled words is not blank. Between two erasures that really happen
the area is *soiled* by the payloads and the boot marks programmed into it (`Soiled`,
read off the inputs of the run), and it is erased exactly when it is not soiled
(`erased_iff_not_soiled`).

So an update starts on an erased area exactly when none is started while the area is
soiled (`cleanSlate_iff`), which the code does not see to: an update can be started
after one that was given up and before the main loop has erased what it left
(`start_after_term_not_clean`).
-/

namespace TcBle.HciTransport.Dev

open TcBle.Foundation

/-- The area for the new firmware is erased. -/
def AreaErased (d : Dev) : Prop := Flash.Erased d.flash d.cb.nextFwAddrStart d.cb.maxFwSize

/-- The input programs a byte of the area for the new firmware: a payload is taken that
has a byte other than `0xff` (but for a boot mark that is masked), or the boot marks are
switched. -/
def Soils (d : Dev) (i : DfuInput) : Prop :=
  (d.TakesPayload i ∧ ∃ j < i.dataLen, d.cb.fwOffset + j < d.cb.maxFwSize ∧
    d.maskedParam i.param i.dataLen j ≠ 0xff) ∨ d.SwitchesMarks i

/-- The input erases the area for the new firmware: a round of the main loop gives the
update up, and one of the sampled words is not blank. -/
def Erases (d : Dev) (i : DfuInput) : Prop := d.Resets i ∧ d.sampledBlank = false

/-- The area was programmed before `DFU_Init`, which did not see it. -/
def SoiledBefore (off : ℕ) (flash : Flash) : Prop :=
  ¬ Flash.Erased flash off dfuNewFwMaxSize ∧
    sampledBlank ⟨dfuInitCb off, flash, 0, [], [], false⟩ = true

/-- The area was programmed since it was last erased: the device of a run, and whether. -/
def soilStep (p : Dev × Prop) (i : DfuInput) : Dev × Prop :=
  (p.1.step i, ¬ p.1.Erases i ∧ (p.2 ∨ p.1.Soils i))

/-- **The area is soiled after a run**: something was programmed into it since it was last
erased. -/
def Soiled (off : ℕ) (flash : Flash) (is : List DfuInput) : Prop :=
  (is.foldl soilStep (dfuInit off flash, SoiledBefore off flash)).2

theorem soilStep_fst (off : ℕ) (flash : Flash) (is : List DfuInput) :
    (is.foldl soilStep (dfuInit off flash, SoiledBefore off flash)).1 = run off flash is := by
  induction is using List.reverseRecOn with
  | nil => rfl
  | append_singleton is i ih =>
    simp only [run, List.foldl_append, List.foldl_cons, List.foldl_nil, soilStep] at ih ⊢
    rw [ih]

@[simp] theorem soiled_nil (off : ℕ) (flash : Flash) :
    Soiled off flash [] = SoiledBefore off flash := rfl

@[simp] theorem soiled_concat (off : ℕ) (flash : Flash) (is : List DfuInput) (i : DfuInput) :
    Soiled off flash (is ++ [i]) ↔
      ¬ (run off flash is).Erases i ∧ (Soiled off flash is ∨ (run off flash is).Soils i) := by
  have hfst := soilStep_fst off flash is
  simp only [Soiled, List.foldl_append, List.foldl_cons, List.foldl_nil, soilStep]
  rw [hfst]

/-! ### What erases and what soils -/

variable {L : SlotLayout} {d : Dev} {i : DfuInput}

/-- The loop over the sectors covers the area. -/
theorem areaErased_of_erase (hL : L.Of d.cb) (f : Flash) :
    Flash.Erased
    (f.replay (eraseSectorsOps ((d.cb.maxFwSize + 0xFFF) / 0x1000) d.cb.nextFwAddrStart))
      d.cb.nextFwAddrStart d.cb.maxFwSize := by
  have halign := L.aligned
  rw [hL.nextFwAddrStart, hL.maxFwSize, replay_eraseSectorsOps halign]
  intro k hk
  refine f.erase_get (by omega) ?_
  have hcover : (dfuNewFwMaxSize + 0xFFF) / 0x1000 * 0x1000 = dfuNewFwMaxSize := by decide
  omega

/-- Erasing erases the area. -/
theorem areaErased_of_erases (hL : L.Of d.cb) (h : d.Erases i) : (d.step i).AreaErased := by
  obtain ⟨hres, hb⟩ := h
  have he : d.dfuEraseNewFwArea = d.flashOps (eraseSectorsOps ((d.cb.maxFwSize + 0xFFF) / 0x1000)
      d.cb.nextFwAddrStart) := by
    simp [dfuEraseNewFwArea, hb, eraseSectors_eq]
  rw [step_of_resets hres, he]
  exact areaErased_of_erase hL d.flash

/-- Taking a payload leaves the area erased when it was and the payload soils nothing. -/
theorem erased_program_iff (d : Dev) (i : DfuInput) :
    Flash.Erased (d.flash.program (d.cb.nextFwAddrStart + d.cb.fwOffset)
        (bytes (d.maskedParam i.param i.dataLen) i.dataLen)) d.cb.nextFwAddrStart d.cb.maxFwSize ↔
      d.AreaErased ∧ ∀ j < i.dataLen, d.cb.fwOffset + j < d.cb.maxFwSize →
        d.maskedParam i.param i.dataLen j = 0xff := by
  constructor
  · intro h
    refine ⟨fun k hk => (Flash.program_eq_ff.mp (h k hk)).1, fun j hj hjmax => ?_⟩
    have hff := (Flash.program_eq_ff.mp (h (d.cb.fwOffset + j) hjmax)).2 (by omega)
    rw [← hff, show d.cb.nextFwAddrStart + (d.cb.fwOffset + j) -
      (d.cb.nextFwAddrStart + d.cb.fwOffset) = j by omega, getD_bytes _ hj]
  · rintro ⟨herased, hmask⟩ k hk
    refine Flash.program_eq_ff.mpr ⟨herased k hk, fun hle => ?_⟩
    obtain ⟨j, rfl⟩ := Nat.exists_eq_add_of_le (show d.cb.fwOffset ≤ k by omega)
    rw [show d.cb.nextFwAddrStart + (d.cb.fwOffset + j) -
      (d.cb.nextFwAddrStart + d.cb.fwOffset) = j by omega]
    by_cases hj : j < i.dataLen
    · rw [getD_bytes _ hj, hmask j hj hk]
    · rw [List.getD_eq_default _ _ (by rw [length_bytes]; omega)]

/-- Switching the boot marks leaves the area programmed. -/
theorem not_erased_switch (hL : L.Of d.cb) (f : Flash) :
    ¬ Flash.Erased (f.replay (switchOps L)) d.cb.nextFwAddrStart d.cb.maxFwSize := by
  intro h
  have h8 := h 8 (by rw [hL.maxFwSize]; decide)
  rw [hL.nextFwAddrStart, switch_next f (by decide), if_pos rfl] at h8
  exact absurd (UInt8.and_eq_neg_one_iff.mp h8).2 (by decide)

/-- **One input**: the area is erased after it when it was erased by it, or was erased
before and not soiled by it. -/
theorem areaErased_step_iff (hL : L.Of d.cb) :
    (d.step i).AreaErased ↔ d.Erases i ∨ (d.AreaErased ∧ ¬ d.Soils i) := by
  by_cases herases : d.Erases i
  · exact ⟨fun _ => Or.inl herases, fun _ => areaErased_of_erases hL herases⟩
  obtain ⟨after, effect⟩ := d.step_effect i
  have hslots := effect.sameSlots
  have hflash := after.flash
  unfold AreaErased Soils
  rw [hslots.nextFwAddrStart, hslots.maxFwSize, ← answers_dataOk_iff, ← answers_endOk_iff]
  simp only [herases, false_or]
  generalize d.newOps i = ops at effect hflash
  generalize d.answers i = evts at effect ⊢
  cases effect with
  | quiet _ _ _ _ hdata hend =>
    rw [hflash, Flash.replay_nil]
    refine ⟨fun h => ⟨h, ?_⟩, And.left⟩
    rintro (⟨rfl, -⟩ | ⟨hi, hok⟩)
    · simp at hdata
    · exact hend hi hok
  | tooLarge =>
    have hop : hciOpcodeVsEndDfu ≠ hciOpcodeVsStartDfu := by decide
    simp [hflash, dataOk, endOk, hop]
  | start => simp [hflash, dataOk, endOk, startOk]
  | data =>
    rw [hflash, replay_writePageOps (by rw [length_bytes]), erased_program_iff]
    simp [dataOk, endOk, AreaErased]
  | switch switches =>
    rw [hflash, switchOps_eq hL]
    simp [not_erased_switch hL, switches.hcmd]
  | blank => simp [hflash]
  | erase hres _ _ _ hb => exact absurd ⟨hres, hb⟩ herases

/-- **After every run the area is erased exactly when it is not soiled.** -/
theorem erased_iff_not_soiled (L : SlotLayout) (flash : Flash) (is : List DfuInput) :
    (run L.next flash is).AreaErased ↔ ¬ Soiled L.next flash is := by
  induction is using List.reverseRecOn with
  | nil =>
    have hcb : (dfuInit L.next flash).cb = dfuInitCb L.next := dfuInit_cb L.next flash
    rw [soiled_nil, SoiledBefore, not_and, run, List.foldl_nil, AreaErased, hcb]
    cases hb : sampledBlank ⟨dfuInitCb L.next, flash, 0, [], [], false⟩ with
    | true =>
      rw [dfuInit_flash_of_blank hb]
      exact ⟨fun h hn => absurd h hn, fun h => by_contra fun hn => by simpa using h hn⟩
    | false =>
      have herased := areaErased_of_erase (d := ⟨dfuInitCb L.next, flash, 0, [], [], false⟩)
        (L := L) ⟨rfl, rfl, rfl⟩ flash
      rw [dfuInit_flash_of_not_blank hb]
      simp only [Bool.false_eq_true]
      exact ⟨fun _ _ => id, fun _ => herased⟩
  | append_singleton is i ih =>
    have hL := run_slots L flash is
    rw [soiled_concat]
    have hstep : run L.next flash (is ++ [i]) = (run L.next flash is).step i := by simp [run]
    rw [hstep, areaErased_step_iff hL, ih]
    tauto

/-! ### The start of an update -/

/-- Every update of the run is started on an erased area. -/
def CleanSlate (off : ℕ) (flash : Flash) (is : List DfuInput) : Prop :=
  ∀ pre i post, is = pre ++ i :: post → (run off flash pre).answers i = [startOk] →
    (run off flash pre).AreaErased

/-- **Every update of a run is started on an erased area exactly when none is started
while the area is soiled.** -/
theorem cleanSlate_iff (L : SlotLayout) (flash : Flash) (is : List DfuInput) :
    CleanSlate L.next flash is ↔ ∀ pre i post, is = pre ++ i :: post →
      (run L.next flash pre).answers i = [startOk] → ¬ Soiled L.next flash pre := by
  simp only [CleanSlate, erased_iff_not_soiled]

/-- **An update can be started on an area that is not erased**: after one that was given
up, before the main loop has erased what it left. -/
theorem start_after_term_not_clean :
    ¬ ∀ (L : SlotLayout) (flash : Flash) (is : List DfuInput), CleanSlate L.next flash is := by
  intro h
  have herased := h slotsAtBase markedFlash
    [startCmd 16, fwDataCmd [0x00], endCmd 0x01, startCmd 16]
    [startCmd 16, fwDataCmd [0x00], endCmd 0x01] (startCmd 16) [] rfl (by decide +kernel)
  have h0 := herased 0 (by decide +kernel)
  exact absurd h0 (by decide +kernel)

end TcBle.HciTransport.Dev
