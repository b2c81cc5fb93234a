import TcBle.HciTransport.DfuCleanSlate

/-!
# Whether a power cut always finds an image to boot

The power may be cut after any flash operation of a run. The device boots the image
whose slot carries the boot mark; `HCI_End_Dfu` sets the mark of the new image and then
clears that of the running one. A run is *safe* (`ImageSafe`) when the marks change only
at the end of an image that was started, received whole and checked, and every prefix of
the operations leaves the running image as it was or a verified new one.

## What is proved

* `imageSafe_of_sound` — a run is safe when its steps meet `Sound`: a condition on the
  input and on the device it finds.
* `end_after_init_not_safe` — and not otherwise: `DFU_Init` leaves the check at zero and
  both sizes equal, so that `HCI_End_Dfu` alone gives the running image up.
-/

namespace TcBle.HciTransport.Dev

open TcBle.Foundation

/-! ### Safety -/

/-- The image that was received is verified: an update was started, and the payloads
accepted since then are as long as announced and leave a zero check. -/
structure Verified (p : Dev × Session) : Prop where
  /-- A `HCI_Start_Dfu` was accepted. -/
  started : p.2.started = true
  /-- The payloads are as long as announced. -/
  whole : p.2.accepted.length = p.1.cb.newFwSize
  /-- Their check is zero. -/
  crc : dfuCrc32Calc dfuCrcInitValue p.2.accepted = 0#32

/-- `img` was verified at some `HCI_End_Dfu` of the run. -/
def VerifiedBy (off : ℕ) (flash : Flash) (is : List DfuInput) (img : List UInt8) : Prop :=
  ∃ pre i post, is = pre ++ i :: post ∧ i.IsEndFwUpd ∧ Verified (runS off flash pre) ∧
    img = (runS off flash pre).2.accepted

/-- The running image is as it was in `flash`, boot mark and all. -/
structure OldBootable (L : SlotLayout) (flash f : Flash) : Prop where
  /-- The boot mark. -/
  mark : f (L.running + 8) = 0x4b
  /-- The slot. -/
  slot : ∀ k < dfuNewFwAddrBase, f (L.running + k) = flash (L.running + k)

/-- The slot of the new firmware holds `img` and its boot mark. -/
structure NewBootable (L : SlotLayout) (img : List UInt8) (f : Flash) : Prop where
  /-- The boot mark. -/
  mark : f (L.next + 8) = 0x4b
  /-- The image. -/
  content : ∀ k < img.length, k ≠ 8 → f (L.next + k) = img.getD k 0xff

/-- Wherever the power is cut during `ops`, a boot mark that was set or cleared since `f`
needs `P`. -/
def MarksNeed (L : SlotLayout) (f : Flash) (ops : List FlashOp) (P : Prop) : Prop :=
  ∀ o, o <+: ops →
    (f.replay o (L.next + 8) = 0x4b ∧ f (L.next + 8) ≠ 0x4b) ∨
      (f (L.running + 8) = 0x4b ∧ f.replay o (L.running + 8) ≠ 0x4b) → P

/-- The input changes the boot marks only as the end of a verified image. -/
def Guarded (L : SlotLayout) (p : Dev × Session) (i : DfuInput) : Prop :=
  MarksNeed L p.1.flash (p.1.newOps i) (i.IsEndFwUpd ∧ Verified p)

/-- **The run is safe**: boot marks change only at the end of a verified image, and wherever
the power is cut there is the old image or a verified one. -/
structure ImageSafe (L : SlotLayout) (flash : Flash) (is : List DfuInput) : Prop where
  /-- `DFU_Init` leaves the marks alone. -/
  init : MarksNeed L flash (dfuInit L.next flash).ops False
  /-- So does every input but the end of a verified image. -/
  guarded : Run.Along stepS (Guarded L) (initS L.next flash) is
  /-- There is an image to boot. -/
  bootable : ∀ ops, ops <+: (run L.next flash is).ops → OldBootable L flash (flash.replay ops) ∨
    ∃ img, VerifiedBy L.next flash is img ∧ NewBootable L img (flash.replay ops)

/-! ### The condition -/

/-- What the code does not look at. -/
structure Sound (L : SlotLayout) (p : Dev × Session) (i : DfuInput) : Prop where
  /-- The end of an image comes after the start of an update. -/
  started : p.1.SwitchesMarks i → p.2.started = true
  /-- It finds a boot mark that can be set. -/
  settable : p.1.SwitchesMarks i → p.1.flash (L.next + 8) &&& 0x4b = 0x4b
  /-- The flash can take the bytes of a payload, but for a masked boot mark. -/
  takes : p.1.TakesPayload i → ∀ j < i.dataLen, ¬(p.1.cb.fwOffset = 0 ∧ j = 8) →
    p.1.flash (L.next + (p.1.cb.fwOffset + j)) &&& i.param j = i.param j
  /-- A payload that is not the first does not bring the boot mark. -/
  unmarked : p.1.TakesPayload i → ∀ j < i.dataLen, p.1.cb.fwOffset ≠ 0 → p.1.cb.fwOffset + j = 8 →
    i.param j = 0x4b → p.1.flash (L.next + 8) = 0x4b
  /-- Once the running image is given up, the area is not erased, -/
  keeps : p.1.flash (L.running + 8) ≠ 0x4b → ¬ p.1.Erases i
  /-- and no payload changes it. -/
  rests : p.1.flash (L.running + 8) ≠ 0x4b → p.1.TakesPayload i → ∀ j < i.dataLen,
    ¬(p.1.cb.fwOffset = 0 ∧ j = 8) →
      p.1.flash (L.next + (p.1.cb.fwOffset + j)) &&& i.param j =
        p.1.flash (L.next + (p.1.cb.fwOffset + j))

/-! ### The session and the flash -/

variable {L : SlotLayout} {flash : Flash} {d : Dev} {s : Session} {i : DfuInput}

theorem dfuCrc32Calc_append (crc : BitVec 32) (xs ys : List UInt8) :
    dfuCrc32Calc crc (xs ++ ys) = dfuCrc32Calc (dfuCrc32Calc crc xs) ys := by
  induction xs generalizing crc with
  | nil => rfl
  | cons x xs ih => exact ih _

/-- The control block and the flash agree with what has been accepted. -/
structure Tracks (d : Dev) (s : Session) : Prop where
  /-- The announced size fits. -/
  size : d.cb.newFwSize ≤ d.cb.maxFwSize
  /-- As much has been received as was accepted. -/
  offset : d.cb.fwOffset = s.accepted.length
  /-- The check is that of what was accepted. -/
  crc : d.cb.curCrc = dfuCrc32Calc dfuCrcInitValue s.accepted
  /-- What was accepted is in the flash. -/
  content : ∀ k < s.accepted.length, k ≠ 8 →
    d.flash (d.cb.nextFwAddrStart + k) = s.accepted.getD k 0xff

/-- What a payload leaves checked is the payload, where the flash can take it. -/
theorem bytes_checkedBuf (htake : ∀ j < i.dataLen, ¬(d.cb.fwOffset = 0 ∧ j = 8) →
      d.flash (d.cb.nextFwAddrStart + (d.cb.fwOffset + j)) &&& i.param j = i.param j) :
    bytes (d.checkedBuf i.param i.dataLen (d.flash.program (d.cb.nextFwAddrStart + d.cb.fwOffset)
      (bytes (d.maskedParam i.param i.dataLen) i.dataLen))) i.dataLen = i.payload := by
  refine bytes_congr fun j hj => ?_
  rw [checkedBuf_apply hj]
  split_ifs with h8
  · rw [h8.2]
  · rw [Flash.program_get, getD_bytes _ hj, maskedParam_apply hj, if_neg h8, Nat.add_assoc]
    exact htake j hj h8

/-- Taking a payload keeps the session and the flash in step. -/
theorem Tracks.data (hL : L.Of d.cb) (h : Tracks d s) (hsound : Sound L (d, s) i)
    (takes : d.TakesPayload i) {d' : Dev} (slots : d.cb.SameSlots d'.cb)
    (size : d'.cb.newFwSize = d.cb.newFwSize) (offset : d'.cb.fwOffset = d.cb.fwOffset + i.dataLen)
    (crc : d'.cb.curCrc = dfuCrc32Calc d.cb.curCrc (bytes (d.checkedBuf i.param i.dataLen
      (d.flash.program (d.cb.nextFwAddrStart + d.cb.fwOffset)
        (bytes (d.maskedParam i.param i.dataLen) i.dataLen))) i.dataLen))
    (flash : d'.flash = d.flash.program (d.cb.nextFwAddrStart + d.cb.fwOffset)
      (bytes (d.maskedParam i.param i.dataLen) i.dataLen)) :
    Tracks d' { s with accepted := s.accepted ++ i.payload } := by
  have hlen : i.payload.length = i.dataLen := by simp [DfuInput.payload]
  have hget := d.payload_program i d.flash
  rw [← flash, h.offset] at hget
  refine ⟨?_, ?_, ?_, ?_⟩
  · rw [size, slots.maxFwSize]
    exact h.size
  · rw [offset, List.length_append, h.offset, hlen]
  · rw [crc, bytes_checkedBuf, h.crc, dfuCrc32Calc_append]
    rw [hL.nextFwAddrStart]
    exact hsound.takes takes
  · intro k hk hk8
    rw [List.length_append, hlen] at hk
    rw [slots.nextFwAddrStart, hget k]
    by_cases hold : k < s.accepted.length
    · rw [if_neg (by omega), List.getD_append _ _ _ _ hold, h.content k hold hk8]
    · obtain ⟨j, rfl⟩ := Nat.exists_eq_add_of_le (not_lt.mp hold)
      have h8 : ¬(d.cb.fwOffset = 0 ∧ j = 8) := by
        have := h.offset
        omega
      have htake := hsound.takes takes j (by omega) h8
      rw [if_pos (by omega), List.getD_append_right _ _ _ _ (by omega), Nat.add_sub_cancel_left,
        DfuInput.payload, getD_bytes _ (by omega), hL.nextFwAddrStart, ← h.offset]
      exact htake

/-- Switching the boot marks keeps them in step. -/
theorem Tracks.switch (hL : L.Of d.cb) (h : Tracks d s) {d' : Dev} (slots : d.cb.SameSlots d'.cb)
    (image : d.cb.SameImage d'.cb) (whole : d.cb.fwOffset = d.cb.newFwSize)
    (flash : d'.flash = d.flash.replay (switchOps L)) : Tracks d' s := by
  have hmax : d.cb.maxFwSize ≤ dfuNewFwAddrBase := by rw [hL.maxFwSize]; decide
  have hsize := h.size
  have hoff := h.offset
  refine ⟨?_, ?_, ?_, ?_⟩
  · rw [image.newFwSize, slots.maxFwSize]
    exact hsize
  · rw [image.fwOffset, hoff]
  · rw [image.curCrc, h.crc]
  · intro k hk hk8
    rw [slots.nextFwAddrStart, hL.nextFwAddrStart, flash, switch_next _ (by omega), if_neg hk8,
      ← hL.nextFwAddrStart]
    exact h.content k hk hk8

/-- A step that keeps the image and the flash keeps them in step. -/
theorem Tracks.quiet (h : Tracks d s) {d' : Dev} (slots : d.cb.SameSlots d'.cb)
    (image : d.cb.SameImage d'.cb) (flash : d'.flash = d.flash) : Tracks d' s := by
  refine ⟨?_, ?_, ?_, ?_⟩ <;>
    simp only [image.newFwSize, image.fwOffset, image.curCrc, slots.maxFwSize,
      slots.nextFwAddrStart, flash]
  exacts [h.size, h.offset, h.crc, h.content]

/-- The control block is in step with the session, or knows of no image. -/
def InStep (d : Dev) (s : Session) : Prop :=
  (d.cb.Cleared ∧ (s.started = false ∨ d.cb.curCrc = dfuCrcInitValue)) ∨ Tracks d s

/-- One input keeps the control block in step: one case for each effect. -/
theorem InStep.step (hL : L.Of d.cb) (h : InStep d s) (hsound : Sound L (d, s) i) :
    InStep (d.step i) (s.next d i) := by
  obtain ⟨after, effect⟩ := d.step_effect i
  have hflash := after.flash
  generalize hc : (d.step i).cb = c at effect
  generalize hops : d.newOps i = ops at effect hflash
  generalize hevts : d.answers i = evts at effect
  subst hc
  cases effect with
  | quiet slots image status hstart hdata _ =>
    rw [next_of_notMem (hevts ▸ hstart) (hevts ▸ hdata)]
    rcases h with ⟨hcl, hcrc⟩ | h
    · rw [← image.curCrc] at hcrc
      exact Or.inl ⟨hcl.sameImage image status, hcrc⟩
    · exact Or.inr (h.quiet slots image hflash)
  | tooLarge slots cleared crc => exact Or.inl ⟨cleared, Or.inr crc⟩
  | start _ _ slots size offset crc =>
    rw [next_of_start hevts]
    refine Or.inr ⟨?_, ?_, ?_, ?_⟩
    · rw [slots.maxFwSize]
      exact size
    · simp [offset]
    · exact crc
    · simp
  | data takes slots size offset crc =>
    rw [next_of_data hevts]
    rcases h with ⟨hcl, -⟩ | h
    · exact absurd takes.started hcl.status
    · refine Or.inr (h.data hL hsound takes slots size offset crc ?_)
      rw [hflash, replay_writePageOps (by rw [length_bytes])]
  | switch switches slots image status =>
    have hnext : s.next d i = s := next_of_ne (by rw [hevts]; decide) (by rw [hevts]; decide)
    rw [hnext]
    rcases h with ⟨hcl, hcrc⟩ | h
    · rw [← image.curCrc] at hcrc
      exact Or.inl ⟨hcl.sameImage image fun hstart => absurd (status.symm.trans hstart) nofun, hcrc⟩
    · rw [switchOps_eq hL] at hflash
      exact Or.inr (h.switch hL slots image switches.whole hflash)
  | blank _ slots cleared crc _ => exact Or.inl ⟨cleared, Or.inr crc⟩
  | erase _ slots cleared crc _ => exact Or.inl ⟨cleared, Or.inr crc⟩

/-- An image that ends is verified. -/
theorem InStep.verified (h : InStep d s) (hsound : Sound L (d, s) i)
    (switches : d.SwitchesMarks i) :
    Verified (d, s) ∧ Tracks d s := by
  have hcrc := switches.crc
  rcases h with ⟨-, hs | hinit⟩ | h
  · have hstarted := hsound.started switches
    simp [hs] at hstarted
  · rw [hinit] at hcrc
    exact absurd hcrc (by decide)
  · exact ⟨⟨hsound.started switches, by rw [← h.offset, switches.whole], by rw [← h.crc, hcrc]⟩, h⟩

/-! ### Power cuts -/

/-- There is an image to boot: the old one, or a verified one with the running image's
mark cleared. -/
def Bootable (L : SlotLayout) (flash : Flash) (is : List DfuInput) (f : Flash) : Prop :=
  OldBootable L flash f ∨
    (f (L.running + 8) ≠ 0x4b ∧ ∃ img, VerifiedBy L.next flash is img ∧ NewBootable L img f)

theorem VerifiedBy.concat {off : ℕ} {is : List DfuInput} {img : List UInt8}
    (h : VerifiedBy off flash is img) (i : DfuInput) : VerifiedBy off flash (is ++ [i]) img := by
  obtain ⟨pre, j, post, rfl, hrest⟩ := h
  exact ⟨pre, j, post ++ [i], by simp, hrest⟩

theorem Bootable.concat {is : List DfuInput} {f : Flash} (h : Bootable L flash is f)
    (i : DfuInput) :
    Bootable L flash (is ++ [i]) f := by
  rcases h with h | ⟨hrun, img, hv, h⟩
  · exact Or.inl h
  · exact Or.inr ⟨hrun, img, hv.concat i, h⟩

/-- Operations on the slot of the new firmware leave the running image alone. -/
theorem replay_running {ops : List FlashOp} {f : Flash}
    (h : ∀ op ∈ ops, op.Within L.next (L.next + dfuNewFwAddrBase)) {o : List FlashOp}
    (ho : o <+: ops)
    {k : ℕ} (hk : k < dfuNewFwAddrBase) : f.replay o (L.running + k) = f (L.running + k) := by
  refine Flash.replay_other h ho ?_
  by_contra hin
  rw [not_or, not_lt, not_le] at hin
  obtain ⟨j, hj⟩ := Nat.exists_eq_add_of_le hin.1
  exact L.running_apart hk (show j < dfuNewFwAddrBase by omega) hj

theorem OldBootable.replay {ops : List FlashOp} {f : Flash} (hf : OldBootable L flash f)
    (h : ∀ op ∈ ops, op.Within L.next (L.next + dfuNewFwAddrBase)) {o : List FlashOp}
    (ho : o <+: ops) :
    OldBootable L flash (f.replay o) := by
  refine ⟨?_, fun k hk => ?_⟩
  · rw [replay_running h ho (by decide)]
    exact hf.mark
  · rw [replay_running h ho hk]
    exact hf.slot k hk

/-- Erasing sets no boot mark. -/
theorem replay_erase_mark {n addr a : ℕ} {f : Flash} {o : List FlashOp}
    (ho : o <+: eraseSectorsOps n addr) (h : f.replay o a = 0x4b) : f a = 0x4b := by
  refine Flash.replay_prefix_of_step (P := fun g => g a = 0x4b → f a = 0x4b) id ?_ ho h
  intro op hop g hg
  have herase : ∃ b, op = .erase b 0x1000 := by
    clear ho h hg
    induction n generalizing addr with
    | zero => simp [eraseSectorsOps] at hop
    | succ n ih =>
      rcases List.mem_cons.mp hop with rfl | hop
      · exact ⟨_, rfl⟩
      · exact ih hop
  obtain ⟨b, rfl⟩ := herase
  simp only [FlashOp.apply, Flash.erase]
  split
  · intro hff
    exact absurd hff (by simp)
  · exact hg

/-- The sectors that are erased are those of the slot of the new firmware. -/
theorem eraseSectorsOps_within_slot (L : SlotLayout) :
    ∀ op ∈ eraseSectorsOps ((dfuNewFwMaxSize + 0xFFF) / 0x1000) L.next,
      op.Within L.next (L.next + dfuNewFwAddrBase) := by
  intro op hop
  exact (eraseSectorsOps_within L.aligned op hop).mono (Nat.le_refl _)
    (Nat.add_le_add_left (by decide) _)

theorem marksNeed_erase (L : SlotLayout) (f : Flash) (P : Prop) :
    MarksNeed L f (eraseSectorsOps ((dfuNewFwMaxSize + 0xFFF) / 0x1000) L.next) P := by
  rintro o ho (⟨hset, hnot⟩ | ⟨hrun, hclear⟩)
  · exact absurd (replay_erase_mark ho hset) hnot
  · exact absurd
      (by rw [replay_running (eraseSectorsOps_within_slot L) ho (by decide), hrun]) hclear

theorem marksNeed_nil (L : SlotLayout) (f : Flash) (P : Prop) : MarksNeed L f [] P := by
  rintro o ho (⟨hset, hnot⟩ | ⟨hrun, hclear⟩) <;> rw [List.prefix_nil.mp ho] at *
  · exact absurd hset hnot
  · exact absurd hrun hclear

/-! ### The effects that write -/

/-- A payload is written into the slot of the new firmware. -/
theorem payload_within (hL : L.Of d.cb) (takes : d.TakesPayload i) (h : InStep d s) :
    ∀ op ∈ writePageOps i.dataLen (d.cb.nextFwAddrStart + d.cb.fwOffset)
      (bytes (d.maskedParam i.param i.dataLen) i.dataLen),
      op.Within L.next (L.next + dfuNewFwAddrBase) := by
  have hroom := takes.room
  have hlen := takes.len
  rcases h with ⟨hcl, -⟩ | h
  · exact absurd takes.started hcl.status
  · have hsize := h.size
    rw [hL.maxFwSize] at hsize
    refine writePageOps_within (by rw [hL.nextFwAddrStart]; omega) ?_
    rw [length_bytes, hL.nextFwAddrStart]
    unfold dfuNewFwMaxSize at hsize
    unfold dfuMaxPayload at hlen
    unfold dfuNewFwAddrBase
    omega

/-- What is left at `L.next + k` of the first `n` bytes of a payload. -/
theorem program_take_apply (hL : L.Of d.cb) (n k : ℕ) :
    d.flash.program (d.cb.nextFwAddrStart + d.cb.fwOffset)
        ((bytes (d.maskedParam i.param i.dataLen) i.dataLen).take n) (L.next + k) =
          d.flash (L.next + k) ∨
      ∃ j < i.dataLen, ¬(d.cb.fwOffset = 0 ∧ j = 8) ∧ k = d.cb.fwOffset + j ∧
        d.flash.program (d.cb.nextFwAddrStart + d.cb.fwOffset)
          ((bytes (d.maskedParam i.param i.dataLen) i.dataLen).take n) (L.next + k) =
            d.flash (L.next + k) &&& i.param j := by
  rw [hL.nextFwAddrStart]
  by_cases hin : d.cb.fwOffset ≤ k ∧ k - d.cb.fwOffset < min n i.dataLen
  · obtain ⟨j, rfl⟩ := Nat.exists_eq_add_of_le hin.1
    have hj : j < i.dataLen := by omega
    have hget : d.flash.program (L.next + d.cb.fwOffset)
        ((bytes (d.maskedParam i.param i.dataLen) i.dataLen).take n)
        (L.next + (d.cb.fwOffset + j)) =
        d.flash (L.next + (d.cb.fwOffset + j)) &&& d.maskedParam i.param i.dataLen j := by
      rw [← Nat.add_assoc, Flash.program_get, List.getD_eq_getElem?_getD, List.getElem?_take,
        if_pos (by omega), ← List.getD_eq_getElem?_getD, getD_bytes _ hj]
    rw [hget, maskedParam_apply hj]
    split_ifs with h8
    · exact Or.inl (Flash.and_ff _)
    · exact Or.inr ⟨j, hj, h8, rfl, rfl⟩
  · left
    refine Flash.program_other _ ?_
    rw [List.length_take, length_bytes]
    omega

/-- Wherever the power is cut, a payload leaves what there was to boot. -/
theorem bootable_data (hL : L.Of d.cb) (h : InStep d s) (hsound : Sound L (d, s) i)
    (takes : d.TakesPayload i) {is : List DfuInput} (hb : Bootable L flash is d.flash)
    {o : List FlashOp} (ho : o <+: writePageOps i.dataLen (d.cb.nextFwAddrStart + d.cb.fwOffset)
      (bytes (d.maskedParam i.param i.dataLen) i.dataLen)) :
    Bootable L flash is (d.flash.replay o) := by
  have hwithin := payload_within hL takes h
  rcases hb with hb | ⟨hrun, img, hv, hb⟩
  · exact Or.inl (hb.replay hwithin ho)
  · -- the running image is given up: the payload changes nothing
    have hsame : ∀ k, d.flash.replay o (L.next + k) = d.flash (L.next + k) := by
      intro k
      obtain ⟨n, hn⟩ := replay_writePageOps_prefix (f := d.flash) ho
      rw [hn]
      rcases program_take_apply (i := i) hL n k with heq | ⟨j, hj, h8, rfl, heq⟩
      · exact heq
      · rw [heq]
        exact hsound.rests hrun takes j hj h8
    refine Or.inr ⟨?_, img, hv, ?_, fun k hk hk8 => ?_⟩
    · rw [replay_running hwithin ho (by decide)]
      exact hrun
    · rw [hsame]
      exact hb.mark
    · rw [hsame]
      exact hb.content k hk hk8

/-- A payload changes no boot mark. -/
theorem marksNeed_data (hL : L.Of d.cb) (h : InStep d s) (hsound : Sound L (d, s) i)
    (takes : d.TakesPayload i) (P : Prop) :
    MarksNeed L d.flash (writePageOps i.dataLen (d.cb.nextFwAddrStart + d.cb.fwOffset)
      (bytes (d.maskedParam i.param i.dataLen) i.dataLen)) P := by
  rintro o ho (⟨hset, hnot⟩ | ⟨hrun, hclear⟩)
  · obtain ⟨n, hn⟩ := replay_writePageOps_prefix (f := d.flash) ho
    rw [hn] at hset
    rcases program_take_apply (i := i) hL n 8 with heq | ⟨j, hj, h8, hk, heq⟩
    · exact absurd (heq ▸ hset) hnot
    · have htake := hsound.takes takes j hj h8
      simp only [← hk] at htake
      rw [heq, htake] at hset
      exact absurd (hsound.unmarked takes j hj (by simp only; omega) hk.symm hset) hnot
  · rw [replay_running (payload_within hL takes h) ho (by decide)] at hclear
    exact absurd hrun hclear

/-- Where the power can be cut while the boot marks are switched. -/
theorem prefix_switchOps {o : List FlashOp} (ho : o <+: switchOps L) :
    o <+: [.write (L.next + 0x8) [0x4b]] ∨ o = switchOps L := by
  have hsplit : switchOps L = [.write (L.next + 0x8) [0x4b]] ++ [.write (L.running + 0x8) [0x00]] :=
    rfl
  rw [hsplit, List.prefix_concat_iff] at ho
  exact ho.symm.imp_right fun h => h

/-- Wherever the power is cut, switching the boot marks leaves an image to boot. -/
theorem bootable_switch (hL : L.Of d.cb) (tracks : Tracks d s) (hsound : Sound L (d, s) i)
    (switches : d.SwitchesMarks i) {is : List DfuInput}
    (hv : VerifiedBy L.next flash is s.accepted) (hb : Bootable L flash is d.flash)
    {o : List FlashOp} (ho : o <+: switchOps L) : Bootable L flash is (d.flash.replay o) := by
  have hmax : d.cb.maxFwSize ≤ dfuNewFwAddrBase := by rw [hL.maxFwSize]; decide
  have hwithin : ∀ op ∈ [FlashOp.write (L.next + 0x8) [0x4b]],
      op.Within L.next (L.next + dfuNewFwAddrBase) := by
    intro op hop
    rw [List.mem_singleton] at hop
    subst hop
    refine ⟨Nat.le_add_right _ _, ?_⟩
    simp only [List.length_singleton, dfuNewFwAddrBase]
    omega
  rcases prefix_switchOps ho with ho | rfl
  · -- the new mark may be set, the running image is still there
    rcases hb with hb | ⟨hrun, img, hvi, hb⟩
    · exact Or.inl (hb.replay hwithin ho)
    · refine Or.inr ⟨by rwa [replay_running hwithin ho (by decide)], img, hvi, ?_,
        fun k hk hk8 => ?_⟩
      · rcases List.prefix_concat_iff.mp (show o <+: [] ++ [_] from ho) with rfl | ho
        · simp only [Flash.replay_cons, Flash.replay_nil, FlashOp.apply, List.nil_append]
          rw [Flash.program_singleton, hb.mark]
          rfl
        · rw [List.prefix_nil.mp ho]
          exact hb.mark
      · rcases List.prefix_concat_iff.mp (show o <+: [] ++ [_] from ho) with rfl | ho
        · simp only [Flash.replay_cons, Flash.replay_nil, FlashOp.apply, List.nil_append]
          rw [Flash.program_other _ (by simp only [List.length_singleton]; omega)]
          exact hb.content k hk hk8
        · rw [List.prefix_nil.mp ho]
          exact hb.content k hk hk8
  · refine Or.inr ⟨by rw [switch_running]; decide, s.accepted, hv, ?_, fun k hk hk8 => ?_⟩
    · rw [switch_next _ (by decide), if_pos rfl]
      exact hsound.settable switches
    · have hsize := tracks.size
      rw [← switches.whole, tracks.offset] at hsize
      rw [switch_next _ (by omega), if_neg hk8, ← hL.nextFwAddrStart]
      exact tracks.content k hk hk8

/-! ### Runs -/

/-- Wherever the power is cut during an input, there is an image to boot. -/
theorem bootable_step {is : List DfuInput} (hrun : runS L.next flash is = (d, s)) (hL : L.Of d.cb)
    (h : InStep d s) (hsound : Sound L (d, s) i) (hb : Bootable L flash is d.flash)
    {o : List FlashOp}
    (ho : o <+: d.newOps i) : Bootable L flash (is ++ [i]) (d.flash.replay o) := by
  obtain ⟨-, effect⟩ := d.step_effect i
  have hb := hb.concat i
  generalize hops : d.newOps i = ops at effect ho
  generalize d.answers i = evts at effect
  cases effect with
  | data takes => exact bootable_data hL h hsound takes hb ho
  | switch switches =>
    rw [switchOps_eq hL] at ho
    obtain ⟨hv, tracks⟩ := h.verified hsound switches
    have hby : VerifiedBy L.next flash (is ++ [i]) s.accepted :=
      ⟨is, i, [], rfl, switches.hcmd, hrun ▸ hv, by rw [hrun]⟩
    exact bootable_switch hL tracks hsound switches hby hb ho
  | erase hres _ _ _ hblank =>
    rw [hL.nextFwAddrStart, hL.maxFwSize] at ho
    rcases hb with hb | ⟨hgone, -⟩
    · exact Or.inl (hb.replay (eraseSectorsOps_within_slot L) ho)
    · exact absurd ⟨hres, hblank⟩ (hsound.keeps hgone)
  | quiet | tooLarge | start | blank =>
    rw [List.prefix_nil.mp ho]
    exact hb

/-- An input changes the boot marks only as the end of a verified image. -/
theorem guarded_step (hL : L.Of d.cb) (h : InStep d s) (hsound : Sound L (d, s) i) :
    Guarded L (d, s) i := by
  obtain ⟨-, effect⟩ := d.step_effect i
  change MarksNeed L d.flash (d.newOps i) _
  generalize d.newOps i = ops at effect ⊢
  generalize d.answers i = evts at effect
  cases effect with
  | data takes => exact marksNeed_data hL h hsound takes _
  | switch switches => exact fun o _ _ => ⟨switches.hcmd, (h.verified hsound switches).1⟩
  | erase =>
    rw [hL.nextFwAddrStart, hL.maxFwSize]
    exact marksNeed_erase L d.flash _
  | quiet | tooLarge | start | blank => exact marksNeed_nil L d.flash _

/-- `DFU_Init` performs nothing, or the erasing of the area. -/
theorem dfuInit_ops (off : ℕ) (flash : Flash) : (dfuInit off flash).ops = [] ∨
    (dfuInit off flash).ops = eraseSectorsOps ((dfuNewFwMaxSize + 0xFFF) / 0x1000) off := by
  simp only [dfuInit, dfuEraseNewFwArea]
  split
  · exact Or.inl rfl
  · right
    rw [eraseSectors_eq, flashOps_ops]
    exact List.nil_append _

/-- The operations of a run with one more input. -/
theorem run_ops_concat (off : ℕ) (flash : Flash) (is : List DfuInput) (i : DfuInput) :
    (run off flash (is ++ [i])).ops = (run off flash is).ops ++ (run off flash is).newOps i := by
  rw [run, List.foldl_append]
  exact (step_effect _ i).1.ops

/-- A prefix of two runs of operations on end. -/
theorem prefix_append_cases {α : Type*} {o xs ys : List α} (h : o <+: xs ++ ys) :
    o <+: xs ∨ ∃ p, p <+: ys ∧ o = xs ++ p := by
  rcases List.prefix_or_prefix_of_prefix h (List.prefix_append xs ys) with hx | ⟨p, rfl⟩
  · exact Or.inl hx
  · exact Or.inr ⟨p, (List.prefix_append_right_inj xs).mp h, rfl⟩

/-- The invariant of the runs whose steps meet the condition. -/
structure Imaged (L : SlotLayout) (flash : Flash) (is : List DfuInput) (p : Dev × Session) :
    Prop where
  /-- It is about the state of this run. -/
  state : runS L.next flash is = p
  /-- The control block is in step with the session. -/
  inStep : InStep p.1 p.2
  /-- Wherever the power was cut there was an image to boot. -/
  cuts : ∀ o, o <+: (run L.next flash is).ops → Bootable L flash is (flash.replay o)
  /-- The marks were changed only at the end of a verified image. -/
  guarded : Run.Along stepS (Guarded L) (initS L.next flash) is

/-- One input keeps the invariant. -/
theorem Imaged.step {is : List DfuInput} {p : Dev × Session} (h : Imaged L flash is p)
    (hsound : Sound L p i) : Imaged L flash (is ++ [i]) (stepS p i) := by
  obtain ⟨d, s⟩ := p
  have hd : run L.next flash is = d := by rw [← runS_fst, h.state]
  have hL : L.Of d.cb := hd ▸ run_slots L flash is
  have hflash : d.flash = flash.replay (run L.next flash is).ops := by rw [← run_replay, hd]
  refine ⟨?_, h.inStep.step hL hsound, ?_, ?_⟩
  · rw [runS, List.foldl_append, ← runS, h.state]
    rfl
  · intro o ho
    rw [run_ops_concat] at ho
    rcases prefix_append_cases ho with ho | ⟨p, hp, rfl⟩
    · exact (h.cuts o ho).concat i
    · rw [Flash.replay_append, ← hflash]
      rw [hd] at hp
      refine bootable_step h.state hL h.inStep hsound ?_ hp
      rw [hflash]
      exact h.cuts _ (List.prefix_refl _)
  · rw [Run.along_concat]
    refine ⟨h.guarded, ?_⟩
    rw [← runS, h.state]
    exact guarded_step hL h.inStep hsound

/-- The invariant holds after `DFU_Init` of a device that can boot. -/
theorem imaged_init (L : SlotLayout) {flash : Flash} (hmark : flash (L.running + 8) = 0x4b) :
    Imaged L flash [] (initS L.next flash) := by
  refine ⟨rfl, Or.inl ⟨?_, Or.inl rfl⟩, fun o ho => Or.inl ?_, trivial⟩
  · rw [initS, dfuInit_cb]
    exact ⟨rfl, rfl, by simp [dfuInitCb]⟩
  · have hold : OldBootable L flash flash := ⟨hmark, fun _ _ => rfl⟩
    change o <+: (dfuInit L.next flash).ops at ho
    rcases dfuInit_ops L.next flash with hops | hops <;> rw [hops] at ho
    · rw [List.prefix_nil.mp ho]
      exact hold
    · exact hold.replay (eraseSectorsOps_within_slot L) ho

theorem imaged_run (L : SlotLayout) {flash : Flash} (hmark : flash (L.running + 8) = 0x4b)
    {is : List DfuInput} (hsound : Run.Along stepS (Sound L) (initS L.next flash) is) :
    Imaged L flash is (runS L.next flash is) :=
  hsound.induction (P := fun is p => Imaged L flash is p) (imaged_init L hmark)
    fun _ _ h hs => h.step hs

/-- **A run from a device that can boot is safe when its steps are sound.** -/
theorem imageSafe_of_sound (L : SlotLayout) (flash : Flash) (is : List DfuInput)
    (hmark : flash (L.running + 8) = 0x4b)
    (hsound : Run.Along stepS (Sound L) (initS L.next flash) is) : ImageSafe L flash is := by
  have h := imaged_run L hmark hsound
  refine ⟨?_, h.guarded, fun ops hops => ?_⟩
  · rcases dfuInit_ops L.next flash with hops | hops <;> rw [hops]
    · exact marksNeed_nil L flash False
    · exact marksNeed_erase L flash False
  · rcases h.cuts ops hops with hb | ⟨-, hb⟩
    · exact Or.inl hb
    · exact Or.inr hb

/-- An update with a small image, to its end. -/
theorem small_update_imageSafe :
    ImageSafe slotsAtBase markedFlash [startCmd 16, fwDataCmd smallImage, endCmd 0x00] := by
  refine imageSafe_of_sound slotsAtBase markedFlash _ rfl ⟨?_, ?_, ?_, trivial⟩
  · have hrun : (initS 0x20000 markedFlash).1.flash 8 = 0x4b := by rw [initS_markedFlash]; rfl
    exact ⟨fun h => absurd h.hcmd (by decide), fun h => absurd h.hcmd (by decide),
      fun h => absurd h.hcmd (by decide), fun h => absurd h.hcmd (by decide),
      fun h => absurd hrun h, fun h => absurd hrun h⟩
  · exact ⟨fun h => absurd h.hcmd (by decide), fun h => absurd h.hcmd (by decide),
      fun _ => by decide +kernel, fun _ => by decide +kernel,
      fun h => absurd (by decide +kernel) h, fun h => absurd (by decide +kernel) h⟩
  · exact ⟨fun _ => by decide +kernel, fun _ => by decide +kernel,
      fun h => absurd h.hcmd (by decide), fun h => absurd h.hcmd (by decide),
      fun h => absurd (by decide +kernel) h, fun h => absurd (by decide +kernel) h⟩

/-- **The end of an image right after `DFU_Init` gives the running image up**: no update was
started, and the marks are switched. -/
theorem end_after_init_not_safe :
    ¬ ∀ (L : SlotLayout) (flash : Flash) (is : List DfuInput),
      flash (L.running + 8) = 0x4b → ImageSafe L flash is := by
  intro h
  have hguard := (h slotsAtBase markedFlash [endCmd 0x00] rfl).guarded.1
  have hset := hguard ((initS 0x20000 markedFlash).1.newOps (endCmd 0x00)) (List.prefix_refl _)
    (Or.inl ⟨by decide +kernel, by decide +kernel⟩)
  exact absurd hset.2.started (by decide)

end TcBle.HciTransport.Dev
