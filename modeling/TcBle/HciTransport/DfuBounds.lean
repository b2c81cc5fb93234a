import TcBle.HciTransport.DfuReceived

/-!
# Where the payloads of an update go

`HCI_Start_Dfu` checks the announced size against the area for the new firmware.
`HCI_Fw_Data` checks that its payload starts before the end of the image, and that it is no longer
than a payload may be; it does not check where it ends.

## What is proved

* `inImage_iff` — all that the data handler writes lies inside the announced image, in every run
  exactly as long as no payload is taken that straddles its end.
* `straddling_payload_outside` — the code takes such a payload.
-/

namespace TcBle.HciTransport.Dev

open TcBle.Foundation

/-- The payload is taken, and ends behind the announced image. -/
def Straddles (d : Dev) (i : DfuInput) : Prop :=
  d.TakesPayload i ∧ d.cb.newFwSize < d.cb.fwOffset + i.dataLen

/-- **What an input may do**: the data handler writes inside the announced image and inside the area
for the new firmware, and what has been received is no more than was announced. -/
structure InImage (d : Dev) (i : DfuInput) : Prop where
  /-- The writes of the data handler are inside the image. -/
  image : i.IsCmd hciOpcodeVsFwData → ∀ op ∈ d.newOps i,
    op.Within d.cb.nextFwAddrStart (d.cb.nextFwAddrStart + d.cb.newFwSize)
  /-- And inside the area. -/
  area : i.IsCmd hciOpcodeVsFwData → ∀ op ∈ d.newOps i,
    op.Within d.cb.nextFwAddrStart (d.cb.nextFwAddrStart + d.cb.maxFwSize)
  /-- No more is received than was announced. -/
  offset : (d.step i).cb.fwOffset ≤ (d.step i).cb.newFwSize

/-- No more has been received than was announced, and no more was announced than the area has. -/
structure Sized (c : DfuCb) : Prop where
  offset : c.fwOffset ≤ c.newFwSize
  size : c.newFwSize ≤ c.maxFwSize

variable {d : Dev} {i : DfuInput}

theorem Sized.cleared {c : DfuCb} (h : c.Cleared) : Sized c :=
  ⟨by rw [h.fwOffset]; exact Nat.zero_le _, by rw [h.newFwSize]; exact Nat.zero_le _⟩

/-- A round of the main loop that gives the update up is no command. -/
theorem Resets.not_isCmd (h : d.Resets i) (opcode : ℕ) : ¬ i.IsCmd opcode := by
  cases i with
  | hci _ _ => exact absurd h id
  | task _ _ => exact id

/-- The end of an image is not `HCI_Fw_Data`. -/
theorem SwitchesMarks.not_fwData (h : d.SwitchesMarks i) : ¬ i.IsCmd hciOpcodeVsFwData := by
  cases i with
  | hci _ _ =>
    intro hdata
    exact absurd (hdata.symm.trans h.hcmd.1) (by decide)
  | task _ _ => exact id

/-- An input that takes no payload writes none, and keeps the sizes. -/
theorem Sized.step_of_not_takes (h : Sized d.cb) (hnot : ¬ d.TakesPayload i) :
    Sized (d.step i).cb ∧ (i.IsCmd hciOpcodeVsFwData → d.newOps i = []) := by
  obtain ⟨-, effect⟩ := d.step_effect i
  generalize d.newOps i = ops at effect ⊢
  generalize d.answers i = evts at effect
  have hslots := effect.sameSlots
  cases effect with
  | quiet _ image =>
    refine ⟨⟨?_, ?_⟩, fun _ => rfl⟩
    · rw [image.fwOffset, image.newFwSize]
      exact h.offset
    · rw [image.newFwSize, hslots.maxFwSize]
      exact h.size
  | tooLarge _ cleared => exact ⟨.cleared cleared, fun _ => rfl⟩
  | start _ _ _ size offset =>
    refine ⟨⟨by rw [offset]; exact Nat.zero_le _, ?_⟩, fun _ => rfl⟩
    rw [hslots.maxFwSize]
    exact size
  | data takes => exact absurd takes hnot
  | switch switches _ image =>
    refine ⟨⟨?_, ?_⟩, fun hdata => absurd hdata switches.not_fwData⟩
    · rw [image.fwOffset, image.newFwSize]
      exact h.offset
    · rw [image.newFwSize, hslots.maxFwSize]
      exact h.size
  | blank _ _ cleared => exact ⟨.cleared cleared, fun _ => rfl⟩
  | erase hres _ cleared => exact ⟨.cleared cleared, fun hdata => absurd hdata (hres.not_isCmd _)⟩

/-- A payload that is taken is written, and counted. -/
theorem step_of_takes (takes : d.TakesPayload i) :
    (d.step i).cb.fwOffset = d.cb.fwOffset + i.dataLen ∧
      (d.step i).cb.newFwSize = d.cb.newFwSize ∧ (d.step i).cb.maxFwSize = d.cb.maxFwSize ∧
      d.newOps i = writePageOps i.dataLen (d.cb.nextFwAddrStart + d.cb.fwOffset)
        (bytes (d.maskedParam i.param i.dataLen) i.dataLen) := by
  obtain ⟨-, effect⟩ := d.step_effect i
  have hans := answers_dataOk_iff.mpr takes
  have hslots := effect.sameSlots
  rw [hans] at effect
  generalize d.newOps i = ops at effect ⊢
  cases effect with
  | quiet _ _ _ _ hdata => simp at hdata
  | data _ _ size offset => exact ⟨offset, size, hslots.maxFwSize, rfl⟩

/-- **One input**: what the data handler writes lies inside the image, unless the payload straddles
its end. -/
theorem Sized.step_iff (h : Sized d.cb) : InImage d i ↔ ¬ d.Straddles i := by
  by_cases takes : d.TakesPayload i
  · obtain ⟨hoffset, hsize, -, hops⟩ := step_of_takes takes
    constructor
    · rintro hin ⟨-, hlong⟩
      have hle := hin.offset
      rw [hoffset, hsize] at hle
      omega
    · intro hnot
      have hle : d.cb.fwOffset + i.dataLen ≤ d.cb.newFwSize :=
        not_lt.mp fun hlong => hnot ⟨takes, hlong⟩
      have hwithin : ∀ op ∈ d.newOps i,
          op.Within d.cb.nextFwAddrStart (d.cb.nextFwAddrStart + d.cb.newFwSize) := by
        rw [hops]
        refine writePageOps_within (Nat.le_add_right _ _) ?_
        rw [length_bytes]
        omega
      have hsized := h.size
      refine ⟨fun _ => hwithin, ?_, ?_⟩
      · intro _ op hop
        exact (hwithin op hop).mono (Nat.le_refl _) (by omega)
      · rw [hoffset, hsize]
        exact hle
  · obtain ⟨hsized, hnone⟩ := h.step_of_not_takes takes
    refine ⟨fun _ hstraddles => takes hstraddles.1, fun _ => ⟨?_, ?_, hsized.offset⟩⟩
    · intro hdata op hop
      simp [hnone hdata] at hop
    · intro hdata op hop
      simp [hnone hdata] at hop

/-- An input without a straddling payload keeps the sizes. -/
theorem Sized.step (h : Sized d.cb) (hnot : ¬ d.Straddles i) : Sized (d.step i).cb := by
  by_cases takes : d.TakesPayload i
  · obtain ⟨hoffset, hsize, hmax, -⟩ := step_of_takes takes
    refine ⟨?_, ?_⟩
    · rw [hoffset, hsize]
      exact not_lt.mp fun hlong => hnot ⟨takes, hlong⟩
    · rw [hsize, hmax]
      exact h.size
  · exact (h.step_of_not_takes takes).1

/-- **The payloads of a run go into the announced image exactly when none of them straddles its
end.** -/
theorem inImage_iff (off : ℕ) (flash : Flash) (is : List DfuInput) :
    Run.Along Dev.step InImage (dfuInit off flash) is ↔
      Run.Along Dev.step (fun d i => ¬ d.Straddles i) (dfuInit off flash) is := by
  have hinit : Sized (dfuInit off flash).cb := by
    rw [dfuInit_cb]
    exact ⟨Nat.le_refl _, Nat.zero_le _⟩
  exact @Run.Along.iff_along _ _ _ _ (fun d => Sized d.cb) _ (fun _ _ h => h.step_iff)
    (fun _ _ h hnot => h.step hnot) _ hinit is

/-- **A payload goes past the end of its image**: 8 bytes are announced and 16 are sent. -/
theorem straddling_payload_outside :
    ¬ Run.Along Dev.step InImage (dfuInit 0x20000 markedFlash)
      [startCmd 8, fwDataCmd smallImage] := by
  rintro ⟨-, hin, -⟩
  exact absurd hin.offset (by decide +kernel)

end TcBle.HciTransport.Dev
