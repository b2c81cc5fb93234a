import TcBle.HciTransport.DfuImage

/-!
# The running check of an update

`DFU_Crc32Calc` runs over each payload as it is read back from the flash, and
`HCI_End_Dfu` asks for a zero. The image that is checked in this way (`Checked`) is that of
the payloads taken since the last start, however it was cut.

## What is proved

* `dfuCrc32Calc_trailer_iff` — data with a trailer leave zero exactly when the trailer is
  their check.
* `endOk_iff_trailed` — an update that was started ends with success exactly when the image
  checked is as long as announced and its last four bytes are the check of the others.
* `agrees_run` — the image checked is that of the payloads sent, when the area was
  erased at the start.
-/

namespace TcBle.HciTransport.Dev

open TcBle.Foundation

/-! ### Check and trailer -/

theorem dfuCrcBit_eq (crc : BitVec 32) : dfuCrcBit crc = Crc.shift 0xEDB88320#32 crc :=
  (Crc.shift_eq_ite _ (by simp) crc).symm

/-- The check is that of the library with the polynomial `0xEDB88320`. -/
theorem dfuCrc32Calc_eq (crc : BitVec 32) (data : List UInt8) :
    dfuCrc32Calc crc data = Crc.crc 0xEDB88320#32 crc data := by
  induction data generalizing crc with
  | nil => rfl
  | cons b data ih =>
    rw [dfuCrc32Calc, ih, Crc.crc_cons, funext dfuCrcBit_eq]
    rfl

/-- The number of the bytes of a number, -/
theorem word_crcBytes (x : BitVec 32) : Crc.word (crcBytes x) = x := by
  refine Crc.word_low_cons (Crc.word_low_cons (Crc.word_low_cons (Crc.word_low_cons ?_)))
  refine BitVec.eq_of_getLsbD_eq fun i _ => ?_
  simp [Crc.word]

/-- and the bytes of the number of four bytes. -/
theorem crcBytes_word {t : List UInt8} (ht : t.length = 4) : crcBytes (Crc.word t) = t := by
  obtain ⟨a, b, c, e, rfl⟩ := List.length_eq_four.mp ht
  have hb : (Crc.word [a, b, c, e] : BitVec 32) >>> 8 = Crc.word [b, c, e] :=
    Crc.word_cons_ushiftRight (by simp) a
  have hc : (Crc.word [a, b, c, e] : BitVec 32) >>> 16 = Crc.word [c, e] := by
    rw [BitVec.shiftRight_add _ 8 8, hb]
    exact Crc.word_cons_ushiftRight (by simp) b
  have he : (Crc.word [a, b, c, e] : BitVec 32) >>> 24 = Crc.word [e] := by
    rw [BitVec.shiftRight_add _ 16 8, hc]
    exact Crc.word_cons_ushiftRight (by simp) c
  rw [crcBytes, hb, hc, he]
  simp only [Crc.setWidth_word_cons (show 8 ≤ 32 by decide)]

/-- **Data with a trailer leave zero exactly when the trailer is their check.** -/
theorem dfuCrc32Calc_trailer_iff (crc : BitVec 32) (data : List UInt8) (x : BitVec 32) :
    dfuCrc32Calc crc (data ++ crcBytes x) = 0#32 ↔ x = dfuCrc32Calc crc data := by
  have hpoly : (0xEDB88320#32).msb = true := by decide
  have hfits : 8 * (crcBytes x).length ≤ 32 := Nat.le_refl _
  have h := Crc.crc_trailer_iff hpoly hfits crc data
  rwa [word_crcBytes, ← dfuCrc32Calc_eq, ← dfuCrc32Calc_eq] at h

/-- The last four bytes of an image are the check of the others. -/
def Trailed (img : List UInt8) : Prop :=
  ∃ data, img = data ++ crcBytes (dfuCrc32Calc dfuCrcInitValue data)

/-- **An image leaves zero exactly when its trailer matches.** -/
theorem dfuCrc32Calc_eq_zero_iff (img : List UInt8) :
    dfuCrc32Calc dfuCrcInitValue img = 0#32 ↔ Trailed img := by
  constructor
  · intro hzero
    by_cases hlen : 4 ≤ img.length
    · have hsplit := List.take_append_drop (img.length - 4) img
      have hfour : (img.drop (img.length - 4)).length = 4 := by
        rw [List.length_drop]
        omega
      rw [← hsplit, ← crcBytes_word hfour, dfuCrc32Calc_trailer_iff] at hzero
      refine ⟨img.take (img.length - 4), ?_⟩
      rw [← hzero, crcBytes_word hfour, hsplit]
    · -- fewer than four bytes do not reach the high bits of the initial value
      have hbits : 8 * img.length ≤ 32 := by omega
      have hword : Crc.word img = dfuCrcInitValue := by
        rw [dfuCrc32Calc_eq] at hzero
        exact (Crc.crc_trailer_iff (by decide) hbits dfuCrcInitValue []).mp hzero
      have hhigh := Crc.getLsbD_word_of_le (w := 32) (show 8 * img.length ≤ 31 by omega)
      rw [hword] at hhigh
      exact absurd hhigh (by decide)
  · rintro ⟨data, rfl⟩
    exact (dfuCrc32Calc_trailer_iff _ _ _).mpr rfl

/-! ### The image that is checked -/

/-- What the check has run over since the last start: each payload as it was read back. -/
def checkedNext (img : List UInt8) (d : Dev) (i : DfuInput) : List UInt8 :=
  if d.answers i = [startOk] then []
  else if d.answers i = [dataOk] then
    img ++ bytes (d.checkedBuf i.param i.dataLen (d.step i).flash) i.dataLen
  else img

/-- A device, its session and the image that is checked. -/
structure Checked where
  /-- The device. -/
  dev : Dev
  /-- The session. -/
  session : Session
  /-- The image. -/
  image : List UInt8

/-- An input. -/
def stepC (q : Checked) (i : DfuInput) : Checked :=
  ⟨q.dev.step i, q.session.next q.dev i, checkedNext q.image q.dev i⟩

/-- A run from `DFU_Init`. -/
def runC (off : ℕ) (flash : Flash) (is : List DfuInput) : Checked :=
  is.foldl stepC ⟨dfuInit off flash, ⟨false, []⟩, []⟩

/-- It is the run of the device and its session. -/
theorem runC_runS (off : ℕ) (flash : Flash) (is : List DfuInput) :
    ((runC off flash is).dev, (runC off flash is).session) = runS off flash is := by
  induction is using List.reverseRecOn with
  | nil => rfl
  | append_singleton is i ih =>
    rw [runC, List.foldl_append, runS, List.foldl_append, ← runS, ← ih]
    rfl

variable {L : SlotLayout} {flash : Flash} {d : Dev} {s : Session} {i : DfuInput}

theorem checkedNext_of_notMem {img : List UInt8} (hstart : startOk ∉ d.answers i)
    (hdata : dataOk ∉ d.answers i) : checkedNext img d i = img := by
  rw [checkedNext, if_neg, if_neg]
  · intro heq
    exact hdata (heq ▸ List.mem_singleton_self _)
  · intro heq
    exact hstart (heq ▸ List.mem_singleton_self _)

/-- The check is that of the image, or nothing is known of an image. -/
def Summed (q : Checked) : Prop :=
  (q.dev.cb.Cleared ∧ (q.session.started = false ∨ q.dev.cb.curCrc = dfuCrcInitValue)) ∨
    (q.dev.cb.fwOffset = q.image.length ∧
      q.dev.cb.curCrc = dfuCrc32Calc dfuCrcInitValue q.image)

/-- One input keeps it so: one case for each effect. -/
theorem Summed.step {q : Checked} (h : Summed q) (i : DfuInput) : Summed (stepC q i) := by
  obtain ⟨d, s, img⟩ := q
  obtain ⟨after, effect⟩ := d.step_effect i
  have hflash := after.flash
  unfold Summed stepC
  simp only
  generalize hc : (d.step i).cb = c at effect ⊢
  generalize hops : d.newOps i = ops at effect hflash
  generalize hevts : d.answers i = evts at effect
  cases effect with
  | quiet slots image status hstart hdata _ =>
    rw [next_of_notMem (hevts ▸ hstart) (hevts ▸ hdata),
      checkedNext_of_notMem (hevts ▸ hstart) (hevts ▸ hdata), image.fwOffset, image.curCrc]
    exact h.imp_left fun ⟨hcl, hcrc⟩ => ⟨hcl.sameImage image status, hcrc⟩
  | tooLarge slots cleared crc => exact Or.inl ⟨cleared, Or.inr crc⟩
  | start _ _ slots size offset crc =>
    rw [checkedNext, if_pos hevts, offset, crc]
    exact Or.inr ⟨rfl, rfl⟩
  | data takes slots size offset crc =>
    have hne : d.answers i ≠ [startOk] := by
      rw [hevts]
      decide
    rw [checkedNext, if_neg hne, if_pos hevts]
    rcases h with ⟨hcl, -⟩ | ⟨hoff, hcrc⟩
    · exact absurd takes.started hcl.status
    · rw [replay_writePageOps (by rw [length_bytes])] at hflash
      refine Or.inr ⟨?_, ?_⟩
      · rw [offset, hoff, List.length_append, length_bytes]
      · rw [crc, hcrc, ← hflash, dfuCrc32Calc_append]
  | switch switches slots image status =>
    have hstart : startOk ∉ d.answers i := by
      rw [hevts]
      decide
    have hdata : dataOk ∉ d.answers i := by
      rw [hevts]
      decide
    rw [next_of_notMem hstart hdata, checkedNext_of_notMem hstart hdata, image.fwOffset,
      image.curCrc]
    refine h.imp_left fun ⟨hcl, hcrc⟩ => ⟨hcl.sameImage image fun hst => ?_, hcrc⟩
    exact absurd (status.symm.trans hst) nofun
  | blank _ slots cleared crc _ => exact Or.inl ⟨cleared, Or.inr crc⟩
  | erase _ slots cleared crc _ => exact Or.inl ⟨cleared, Or.inr crc⟩

theorem summed_run (off : ℕ) (flash : Flash) (is : List DfuInput) : Summed (runC off flash is) := by
  induction is using List.reverseRecOn with
  | nil =>
    refine Or.inl ⟨?_, Or.inl rfl⟩
    rw [runC, List.foldl_nil, dfuInit_cb]
    exact ⟨rfl, rfl, by simp [dfuInitCb]⟩
  | append_singleton is i ih =>
    rw [runC, List.foldl_append]
    exact ih.step i

/-- **An update that was started ends with success exactly when the image that was checked is as
long as announced and its trailer matches.** -/
theorem endOk_iff_trailed {q : Checked} (h : Summed q) (hrun : q.dev.halted = false)
    (hstarted : q.session.started = true) (hend : i.IsEndFwUpd) :
    endOk ∈ q.dev.answers i ↔ q.image.length = q.dev.cb.newFwSize ∧ Trailed q.image := by
  have hswitch : endOk ∈ q.dev.answers i ↔
      q.dev.cb.fwOffset = q.dev.cb.newFwSize ∧ q.dev.cb.curCrc = 0#32 := by
    constructor
    · intro hok
      have hs := answers_endOk_iff.mp ⟨hend, hok⟩
      exact ⟨hs.whole, hs.crc⟩
    · rintro ⟨hwhole, hcrc⟩
      exact (answers_endOk_iff.mpr ⟨hrun, hend, hwhole, hcrc⟩).2
  rw [hswitch, ← dfuCrc32Calc_eq_zero_iff]
  rcases h with ⟨hcl, hnot | hinit⟩ | ⟨hoff, hcrc⟩
  · rw [hstarted] at hnot
    cases hnot
  · -- nothing is known of an image: the check is the initial value, also that of no bytes
    rw [hinit, hcl.newFwSize]
    constructor
    · rintro ⟨-, hzero⟩
      exact absurd hzero (by decide)
    · rintro ⟨hnone, hzero⟩
      rw [List.eq_nil_of_length_eq_zero hnone] at hzero
      exact absurd hzero (by decide)
  · rw [hoff, hcrc]

/-! ### The image that was sent -/

/-- A payload that is read back from an erased area is the payload. -/
theorem bytes_checkedBuf_of_holding (h : Holding d s) (takes : d.TakesPayload i)
    (hroom : s.accepted.length + i.dataLen ≤ d.cb.maxFwSize) :
    bytes (d.checkedBuf i.param i.dataLen (d.flash.program (d.cb.nextFwAddrStart + d.cb.fwOffset)
      (bytes (d.maskedParam i.param i.dataLen) i.dataLen))) i.dataLen = i.payload := by
  refine bytes_checkedBuf fun j hj _ => ?_
  have hoff := h.offset
  rw [h.rest takes.started (d.cb.fwOffset + j) (by omega) (by omega), Flash.ff_and]

/-- What was checked is as long as what was sent, and the same as far as the area goes. -/
def Agrees (q : Checked) : Prop :=
  q.image.length = q.session.accepted.length ∧
    (q.session.accepted.length ≤ q.dev.cb.maxFwSize → q.image = q.session.accepted)

theorem Agrees.step {q : Checked} (h : Agrees q) (hrec : Received L q.dev q.session)
    (i : DfuInput) : Agrees (stepC q i) := by
  obtain ⟨d, s, img⟩ := q
  obtain ⟨hlen, hsame⟩ := h
  obtain ⟨after, effect⟩ := d.step_effect i
  have hmax := effect.sameSlots.maxFwSize
  have hflash := after.flash
  have hpay : i.payload.length = i.dataLen := by simp [DfuInput.payload]
  unfold Agrees stepC
  simp only [hmax]
  by_cases hstart : d.answers i = [startOk]
  · rw [checkedNext, if_pos hstart, next_of_start hstart]
    exact ⟨rfl, fun _ => rfl⟩
  · by_cases hdata : d.answers i = [dataOk]
    · rw [checkedNext, if_neg hstart, if_pos hdata, next_of_data hdata]
      simp only [List.length_append, length_bytes, hpay]
      refine ⟨by rw [hlen], fun hroom => ?_⟩
      have takes : d.TakesPayload i := answers_dataOk_iff.mp hdata
      have hholds : Holding d s := by
        rcases hrec.2 with ⟨hcl, -⟩ | hh
        · exact absurd takes.started hcl.status
        · exact hh
      have hprog : (d.step i).flash = d.flash.program (d.cb.nextFwAddrStart + d.cb.fwOffset)
          (bytes (d.maskedParam i.param i.dataLen) i.dataLen) := by
        generalize d.answers i = evts at effect hdata
        generalize d.newOps i = ops at effect hflash
        subst hdata
        cases effect with
        | quiet _ _ _ _ hno => exact absurd (List.mem_singleton_self _) hno
        | data => rw [hflash, replay_writePageOps (by rw [length_bytes])]
      have himg : img = s.accepted := hsame ((Nat.le_add_right _ _).trans hroom)
      rw [hprog, bytes_checkedBuf_of_holding hholds takes hroom, himg]
    · rw [checkedNext, if_neg hstart, if_neg hdata, next_of_ne hstart hdata]
      exact ⟨hlen, hsame⟩

/-- **The image checked is the one sent**, when every update of the run starts on an erased
area. -/
theorem agrees_run (L : SlotLayout) (flash : Flash) {is : List DfuInput}
    (hclean : Run.Along stepS CleanStart (initS L.next flash) is) :
    Agrees (runC L.next flash is) := by
  induction is using List.reverseRecOn with
  | nil => exact ⟨rfl, fun _ => rfl⟩
  | append_singleton is i ih =>
    have hbefore := ((Run.along_concat _ _ _).mp hclean).1
    have hrec := received_run L flash hbefore
    rw [← runC_runS] at hrec
    rw [runC, List.foldl_append]
    exact (ih hbefore).step hrec i

/-- What is received of an update fits the area when it is as long as announced. -/
theorem newFwSize_le {L : SlotLayout} (h : Received L d s) : d.cb.newFwSize ≤ d.cb.maxFwSize := by
  rcases h.2 with ⟨hcl, -⟩ | hh
  · rw [hcl.newFwSize]
    exact Nat.zero_le _
  · exact hh.size

/-- `HCI_End_Dfu` takes the image `img` for the end of an update, exactly when it is as long as
announced and its trailer matches. -/
def AcceptsTrailed (d : Dev) (i : DfuInput) (img : List UInt8) : Prop :=
  endOk ∈ d.answers i ↔ img.length = d.cb.newFwSize ∧ Trailed img

/-- **The running check**: it is incremental; a trailer leaves zero exactly when it is the check;
and an update that was started ends with success, in every run, exactly when the image checked is
as long as announced and its trailer matches. That image is the one sent, in any pieces, when
every update of the run starts on an erased area. -/
theorem runningCrc_accepts_trailed :
    (∀ crc xs ys, dfuCrc32Calc crc (xs ++ ys) = dfuCrc32Calc (dfuCrc32Calc crc xs) ys) ∧
    (∀ crc data x, dfuCrc32Calc crc (data ++ crcBytes x) = 0#32 ↔ x = dfuCrc32Calc crc data) ∧
    ∀ (L : SlotLayout) (flash : Flash) (is : List DfuInput) (i : DfuInput) (q : Checked),
      q = runC L.next flash is → q.dev.halted = false → q.session.started = true →
        i.IsEndFwUpd → AcceptsTrailed q.dev i q.image ∧
          (Run.Along stepS CleanStart (initS L.next flash) is →
            AcceptsTrailed q.dev i q.session.accepted) := by
  refine ⟨dfuCrc32Calc_append, dfuCrc32Calc_trailer_iff, ?_⟩
  rintro L flash is i q rfl hrun hstarted hend
  have himage := endOk_iff_trailed (summed_run L.next flash is) hrun hstarted hend
  refine ⟨himage, fun hclean => ?_⟩
  obtain ⟨hlen, hsame⟩ := agrees_run L flash hclean
  have hrec := received_run L flash hclean
  rw [← runC_runS] at hrec
  have hsize := newFwSize_le hrec
  rw [AcceptsTrailed, himage, hlen]
  refine and_congr_right fun hwhole => ?_
  rw [hsame (hwhole.trans_le hsize)]

/-- An update with a small image ends with success. -/
theorem small_update_accepted :
    endOk ∈ (runC 0x20000 markedFlash [startCmd 16, fwDataCmd smallImage]).dev.answers
      (endCmd 0x00) := by
  have haccepts := (runningCrc_accepts_trailed.2.2 slotsAtBase markedFlash
    [startCmd 16, fwDataCmd smallImage] (endCmd 0x00) _ rfl (by decide +kernel)
    (by decide +kernel) (by decide)).2 ⟨fun _ => ?_, fun h => ?_, trivial⟩
  · exact haccepts.mpr ⟨by decide +kernel, [1, 2, 3, 4, 5, 6, 7, 8, 0x4b, 10, 11, 12],
      by decide +kernel⟩
  · exact markedFlash_erased initS_markedFlash rfl
  · exact absurd h (by decide +kernel)

end TcBle.HciTransport.Dev
