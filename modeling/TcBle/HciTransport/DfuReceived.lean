import TcBle.HciTransport.DfuStep

/-!
# What a successful end of an update says

When the area for the new firmware is erased at the start of an update, the flash holds
the payloads accepted since (`Holding`), but for the boot mark, which a first payload of
more than 8 bytes leaves erased and `HCI_End_Dfu` writes. So an update that ends with
success has left the whole image in the flash (`end_success_holds_image`). A payload
answered with an error changes nothing (`fwData_error_unchanged`).

Giving an update up (`DFU_END_MODE_TERM_UPD`) is answered with success too, and says
nothing about the flash (`term_success_holds_nothing`).
-/

namespace TcBle.HciTransport.Dev

open TcBle.Foundation

/-- The area for the new firmware is erased whenever an update is started. -/
def CleanStart (p : Dev × Session) (i : DfuInput) : Prop :=
  p.1.answers i = [startOk] → Flash.Erased p.1.flash p.1.cb.nextFwAddrStart p.1.cb.maxFwSize

/-- The flash holds what has been accepted. -/
structure Holding (d : Dev) (s : Session) : Prop where
  /-- The announced size fits. -/
  size : d.cb.newFwSize ≤ d.cb.maxFwSize
  /-- As much has been received as was accepted. -/
  offset : d.cb.fwOffset = s.accepted.length
  /-- What was accepted is in the flash. -/
  content : ∀ k < s.accepted.length, k < d.cb.maxFwSize → k ≠ 8 →
    d.flash (d.cb.nextFwAddrStart + k) = s.accepted.getD k 0xff
  /-- The boot mark can be set, unless the image has something else in its place. -/
  mark : s.accepted.getD 8 0x4b = 0x4b → d.flash (d.cb.nextFwAddrStart + 8) &&& 0x4b = 0x4b
  /-- The rest of the area is erased while payloads are accepted. -/
  rest : d.cb.status = .start → ∀ k < d.cb.maxFwSize, s.accepted.length ≤ k →
    d.flash (d.cb.nextFwAddrStart + k) = 0xff

/-- Nothing is being received: since `DFU_Init`, or since a reset. -/
def Nothing (d : Dev) (s : Session) : Prop :=
  d.cb.Cleared ∧ (s.accepted = [] ∨ d.cb.curCrc = dfuCrcInitValue)

/-! ### The step -/

variable {L : SlotLayout} {d : Dev} {s : Session} {i : DfuInput}

theorem next_of_ne (hstart : d.answers i ≠ [startOk]) (hdata : d.answers i ≠ [dataOk]) :
    s.next d i = s := by
  rw [Session.next, if_neg hstart, if_neg hdata]

/-- An input that is answered neither way leaves the session as it is. -/
theorem next_of_notMem (hstart : startOk ∉ d.answers i) (hdata : dataOk ∉ d.answers i) :
    s.next d i = s := by
  refine next_of_ne (fun heq => hstart ?_) fun heq => hdata ?_
  · rw [heq]
    exact List.mem_singleton_self _
  · rw [heq]
    exact List.mem_singleton_self _

theorem next_of_start (h : d.answers i = [startOk]) : s.next d i = ⟨true, []⟩ := if_pos h

theorem next_of_data (h : d.answers i = [dataOk]) :
    s.next d i = { s with accepted := s.accepted ++ i.payload } := by
  rw [Session.next, if_neg (by rw [h]; decide), if_pos h]

/-- Taking a payload keeps the flash holding what has been accepted. -/
theorem Holding.data (hL : L.Of d.cb) (h : Holding d s) {d' : Dev} (slots : d.cb.SameSlots d'.cb)
    (started : d.cb.status = .start) (size : d'.cb.newFwSize = d.cb.newFwSize)
    (offset : d'.cb.fwOffset = d.cb.fwOffset + i.dataLen)
    (flash : d'.flash = d.flash.program (d.cb.nextFwAddrStart + d.cb.fwOffset)
      (bytes (d.maskedParam i.param i.dataLen) i.dataLen)) :
    Holding d' { s with accepted := s.accepted ++ i.payload } := by
  have hmax : 8 < d.cb.maxFwSize := by rw [hL.maxFwSize]; decide
  have hlen : i.payload.length = i.dataLen := by simp [DfuInput.payload]
  have hget := d.payload_program i d.flash
  rw [← flash, h.offset] at hget
  refine ⟨?_, ?_, ?_, ?_, ?_⟩
  · rw [size, slots.maxFwSize]
    exact h.size
  · rw [offset, List.length_append, h.offset, hlen]
  · intro k hk hkmax hk8
    rw [List.length_append, hlen] at hk
    rw [slots.maxFwSize] at hkmax
    rw [slots.nextFwAddrStart, hget k]
    by_cases hold : k < s.accepted.length
    · rw [if_neg (by omega), List.getD_append _ _ _ _ hold, h.content k hold hkmax hk8]
    · rw [if_pos (by omega), h.rest started k hkmax (by omega), Flash.ff_and,
        List.getD_append_right _ _ _ _ (by omega)]
  · intro h8
    rw [slots.nextFwAddrStart, hget 8]
    by_cases hold : 8 < s.accepted.length
    · rw [List.getD_append _ _ _ _ hold] at h8
      rw [if_neg (by omega)]
      exact h.mark h8
    · have hff := h.rest started 8 hmax (by omega)
      split_ifs with hin
      · rw [List.getD_append_right _ _ _ _ (by omega), List.getD_eq_getElem _ _ (by omega)] at h8
        rw [hff, Flash.ff_and, List.getD_eq_getElem _ _ (by omega), h8]
        rfl
      · rw [hff]
        rfl
  · intro _ k hkmax hk
    rw [List.length_append, hlen] at hk
    rw [slots.maxFwSize] at hkmax
    rw [slots.nextFwAddrStart, hget k, if_neg (by omega)]
    exact h.rest started k hkmax (by omega)

/-- Switching the boot marks keeps the flash holding what has been accepted. -/
theorem Holding.switch (hL : L.Of d.cb) (h : Holding d s) {d' : Dev} (slots : d.cb.SameSlots d'.cb)
    (image : d.cb.SameImage d'.cb) (status : d'.cb.status = .ended)
    (flash : d'.flash = d.flash.replay (switchOps L)) : Holding d' s := by
  have hmax : d.cb.maxFwSize ≤ dfuNewFwAddrBase := by rw [hL.maxFwSize]; decide
  have hnext := hL.nextFwAddrStart
  refine ⟨?_, ?_, ?_, ?_, ?_⟩
  · rw [image.newFwSize, slots.maxFwSize]
    exact h.size
  · rw [image.fwOffset, h.offset]
  · intro k hk hkmax hk8
    rw [slots.maxFwSize] at hkmax
    rw [slots.nextFwAddrStart, hnext, flash, switch_next _ (by omega), if_neg hk8, ← hnext]
    exact h.content k hk hkmax hk8
  · intro h8
    rw [slots.nextFwAddrStart, hnext, flash, switch_next _ (by decide), if_pos rfl, UInt8.and_assoc,
      UInt8.and_self, ← hnext]
    exact h.mark h8
  · intro hstart
    rw [status] at hstart
    cases hstart

/-- A step that keeps the image and the flash keeps the flash holding it. -/
theorem Holding.quiet (h : Holding d s) {d' : Dev} (slots : d.cb.SameSlots d'.cb)
    (image : d.cb.SameImage d'.cb) (status : d'.cb.status = .start → d.cb.status = .start)
    (flash : d'.flash = d.flash) : Holding d' s := by
  refine ⟨?_, ?_, ?_, ?_, fun hs => ?_⟩ <;>
    simp only [image.newFwSize, image.fwOffset, slots.maxFwSize, slots.nextFwAddrStart, flash]
  exacts [h.size, h.offset, h.content, h.mark, h.rest (status hs)]

/-- A new update on an erased area. -/
theorem Holding.start {d' : Dev} (slots : d.cb.SameSlots d'.cb)
    (size : d'.cb.newFwSize ≤ d.cb.maxFwSize) (offset : d'.cb.fwOffset = 0)
    (flash : d'.flash = d.flash)
    (herased : Flash.Erased d.flash d.cb.nextFwAddrStart d.cb.maxFwSize)
      (hmax : 8 < d.cb.maxFwSize) :
    Holding d' ⟨true, []⟩ := by
  refine ⟨?_, ?_, ?_, ?_, ?_⟩ <;> simp only [slots.maxFwSize, slots.nextFwAddrStart, flash]
  · exact size
  · simp [offset]
  · simp
  · intro _
    rw [herased 8 hmax]
    rfl
  · exact fun _ k hk _ => herased k hk

/-- The invariant of the runs whose updates start on an erased area. -/
def Received (L : SlotLayout) (d : Dev) (s : Session) : Prop :=
  L.Of d.cb ∧ (Nothing d s ∨ Holding d s)

/-- One input keeps the invariant: one case for each effect. -/
theorem Received.step (h : Received L d s) (hclean : CleanStart (d, s) i) :
    Received L (d.step i) (s.next d i) := by
  obtain ⟨hL, hs⟩ := h
  obtain ⟨after, effect⟩ := d.step_effect i
  have hflash := after.flash
  refine ⟨hL.sameSlots effect.sameSlots, ?_⟩
  generalize hc : (d.step i).cb = c at effect
  generalize hops : d.newOps i = ops at effect hflash
  generalize hevts : d.answers i = evts at effect
  subst hc
  cases effect with
  | quiet slots image status hstart hdata _ =>
    rw [next_of_notMem (hevts ▸ hstart) (hevts ▸ hdata)]
    rcases hs with ⟨hcl, hcrc⟩ | hs
    · rw [← image.curCrc] at hcrc
      exact Or.inl ⟨hcl.sameImage image status, hcrc⟩
    · exact Or.inr (hs.quiet slots image status hflash)
  | tooLarge slots cleared crc => exact Or.inl ⟨cleared, Or.inr crc⟩
  | start _ _ slots size offset crc =>
    rw [next_of_start hevts]
    exact Or.inr (Holding.start slots size offset hflash (hclean hevts)
      (by rw [hL.maxFwSize]; decide))
  | data takes slots size offset _ =>
    rw [next_of_data hevts]
    rcases hs with ⟨hcl, -⟩ | hs
    · exact absurd takes.started hcl.status
    · refine Or.inr (hs.data hL slots takes.started size offset ?_)
      rw [hflash, replay_writePageOps (by rw [length_bytes])]
  | switch _ slots image status =>
    have hnext : s.next d i = s := next_of_ne (by rw [hevts]; decide) (by rw [hevts]; decide)
    rw [hnext]
    rcases hs with ⟨hcl, hcrc⟩ | hs
    · rw [← image.curCrc] at hcrc
      exact Or.inl ⟨hcl.sameImage image fun hstart => absurd (status.symm.trans hstart) nofun, hcrc⟩
    · rw [switchOps_eq hL] at hflash
      exact Or.inr (hs.switch hL slots image status hflash)
  | blank _ slots cleared crc _ => exact Or.inl ⟨cleared, Or.inr crc⟩
  | erase _ slots cleared crc _ => exact Or.inl ⟨cleared, Or.inr crc⟩

/-- Every run whose updates start on an erased area keeps the invariant. -/
theorem received_run (L : SlotLayout) (flash : Flash) {is : List DfuInput}
    (hclean : Run.Along stepS CleanStart (initS L.next flash) is) :
    Received L (runS L.next flash is).1 (runS L.next flash is).2 := by
  refine hclean.induction (P := fun _ p => Received L p.1 p.2) ?_ fun is i h hc => h.step hc
  refine ⟨by rw [initS, dfuInit_cb]; exact ⟨rfl, rfl, rfl⟩, Or.inl ⟨?_, Or.inl rfl⟩⟩
  rw [initS, dfuInit_cb]
  exact ⟨rfl, rfl, by simp [dfuInitCb]⟩

/-! ### The end of an update -/

/-- What a switch of the boot marks leaves when the flash holds what was accepted. -/
theorem Holding.read (hL : L.Of d.cb) (h : Holding d s) (whole : d.cb.fwOffset = d.cb.newFwSize)
    (h8 : s.accepted.getD 8 0x4b = 0x4b) :
    (d.flash.replay (switchOps L)).read L.next d.cb.newFwSize = s.accepted := by
  have hlen : d.cb.newFwSize = s.accepted.length := by rw [← whole, h.offset]
  have hmax : d.cb.maxFwSize ≤ dfuNewFwAddrBase := by rw [hL.maxFwSize]; decide
  have hsize := h.size
  have hnext := hL.nextFwAddrStart
  rw [hlen, Flash.read_eq_iff]
  intro k hk
  rw [switch_next _ (by omega)]
  split_ifs with hk8
  · subst hk8
    rw [List.getD_eq_getElem _ _ hk] at h8 ⊢
    rw [h8, ← hnext]
    exact h.mark (by rw [List.getD_eq_getElem _ _ hk, h8])
  · rw [← hnext]
    exact h.content k hk (by omega) hk8

/-- What switching the boot marks does to the flash. -/
theorem step_flash_of_switchesMarks (hL : L.Of d.cb) (h : d.SwitchesMarks i) :
    (d.step i).flash = d.flash.replay (switchOps L) := by
  obtain ⟨timer, hstep⟩ := step_of_switchesMarks h
  rw [hstep, switchMarks, ← switchOps_eq hL]
  rfl

/-- The payloads accepted are what the flash holds once `i` has ended the update. -/
def HoldsImageAfter (L : SlotLayout) (flash : Flash) (is : List DfuInput) (i : DfuInput) : Prop :=
  ((runS L.next flash is).1.step i).flash.read L.next (runS L.next flash is).1.cb.newFwSize =
    (runS L.next flash is).2.accepted

/-- **A successful end of an image leaves the image in the flash**, however it was cut
into payloads, when each update of the run starts on an erased area and byte 8 of the
image is the boot mark; and a payload answered with an error leaves the flash, the
offset and the running check as they were. -/
theorem endFwUpd_success_holds_image (L : SlotLayout) (flash : Flash) (is : List DfuInput)
    (i : DfuInput) :
    (Run.Along stepS CleanStart (initS L.next flash) is → i.IsEndFwUpd →
      endOk ∈ (runS L.next flash is).1.answers i →
      (runS L.next flash is).2.accepted.getD 8 0x4b = 0x4b → HoldsImageAfter L flash is i) ∧
    ∀ status ≠ DfuErr.success.code,
      .cmdStatus hciOpcodeVsFwData status ∈ (runS L.next flash is).1.answers i →
        ((runS L.next flash is).1.step i).flash = (runS L.next flash is).1.flash ∧
        ((runS L.next flash is).1.step i).cb.fwOffset = (runS L.next flash is).1.cb.fwOffset ∧
        ((runS L.next flash is).1.step i).cb.curCrc = (runS L.next flash is).1.cb.curCrc := by
  generalize hp : runS L.next flash is = p
  obtain ⟨d, s⟩ := p
  obtain ⟨after, effect⟩ := d.step_effect i
  constructor
  · intro hclean hend hok h8
    obtain ⟨hL, hs⟩ := received_run L flash hclean
    rw [hp] at hL hs
    have switches := answers_endOk_iff.mp ⟨hend, hok⟩
    have hcrc := switches.crc
    rw [HoldsImageAfter, hp, step_flash_of_switchesMarks hL switches]
    rcases hs with ⟨hcl, hnone | hinit⟩ | hs
    · rw [hcl.newFwSize, hnone]
      rfl
    · rw [hinit] at hcrc
      exact absurd hcrc (by decide)
    · exact hs.read hL switches.whole h8
  · intro status hst hmem
    have hflash := after.flash
    generalize d.newOps i = ops at effect hflash
    generalize d.answers i = evts at effect hmem
    cases effect with
    | quiet slots image => exact ⟨hflash, image.fwOffset, image.curCrc⟩
    | data => exact absurd (by simpa [dataOk] using hmem) hst
    | tooLarge => simp at hmem
    | start => simp [startOk] at hmem
    | switch => simp [endOk] at hmem
    | blank => simp at hmem
    | erase => simp at hmem

/-- The two slots, with the device running from `0`. -/
def slotsAtBase : SlotLayout := ⟨0x20000, by decide, Or.inr (by decide)⟩

/-- A flash with a running image at `0`, of which only the boot mark matters here. -/
def markedFlash : Flash := fun a => if a = 8 then 0x4b else 0xff

/-- An image of 16 bytes, the last four its check. -/
def smallImage : List UInt8 :=
  [1, 2, 3, 4, 5, 6, 7, 8, 0x4b, 10, 11, 12] ++
    crcBytes (dfuCrc32Calc dfuCrcInitValue [1, 2, 3, 4, 5, 6, 7, 8, 0x4b, 10, 11, 12])

theorem markedFlash_erased {d : Dev} (hf : d.flash = markedFlash)
    (hL : d.cb.nextFwAddrStart = 0x20000) :
    Flash.Erased d.flash d.cb.nextFwAddrStart d.cb.maxFwSize := by
  intro k _
  rw [hf, hL, markedFlash, if_neg (by omega)]

theorem initS_markedFlash : (initS 0x20000 markedFlash).1.flash = markedFlash :=
  dfuInit_flash_of_blank (by decide)

/-- An update with a small image, to its end. -/
theorem small_update_holds_image :
    HoldsImageAfter slotsAtBase markedFlash [startCmd 16, fwDataCmd smallImage] (endCmd 0x00) := by
  refine (endFwUpd_success_holds_image slotsAtBase markedFlash [startCmd 16, fwDataCmd smallImage]
    (endCmd 0x00)).1 ⟨fun _ => ?_, fun h => ?_, trivial⟩ (by decide)
    (by decide +kernel) (by decide +kernel)
  · exact markedFlash_erased initS_markedFlash rfl
  · exact absurd h (by decide +kernel)

/-- **Not every `HCI_End_Dfu` answered with success has left the image in the flash**: an
update of 16 bytes that is given up before any payload is answered with success too. -/
theorem term_success_holds_nothing :
    ¬ ∀ (L : SlotLayout) (flash : Flash) (is : List DfuInput) (i : DfuInput),
      Run.Along stepS CleanStart (initS L.next flash) is → i.IsCmd hciOpcodeVsEndDfu →
        endOk ∈ (runS L.next flash is).1.answers i →
        (runS L.next flash is).2.accepted.getD 8 0x4b = 0x4b → HoldsImageAfter L flash is i := by
  intro h
  have hread := h slotsAtBase markedFlash [startCmd 16] (endCmd 0x01)
    ⟨fun _ => markedFlash_erased initS_markedFlash rfl, trivial⟩ (by decide) (by decide +kernel)
    (by decide +kernel)
  have hlen := congrArg List.length hread
  rw [Flash.length_read] at hlen
  exact absurd hlen (by decide +kernel)

end TcBle.HciTransport.Dev
