import TcBle.HciTransport.DfuCrc
import TcBle.Vendor.FlashFwCheck

/-!
# The check of an image that came over HCI

`HCI_End_Dfu` takes an image by the running check of `hci_dfu.c`, a byte and a bit at a time over the
payloads; the firmware that runs after the reboot can check itself with `flash_fw_check`, which goes
over the flash in blocks, a nibble and a table entry at a time. Both start from all ones, and both
expect the check in the last four bytes.

## What is proved

* `accepted_trailed` — the payloads of an update that ended with success are an image and its check.
* `FwCheck.flashFwCheck_of_trailed` — an image with its check, whose size word is right, passes.
* `accepted_checks` — so does what an update has left in the flash, in any run.
-/

namespace TcBle.Vendor

open TcBle.Foundation TcBle.HciTransport TcBle.HciTransport.Dev

/-! ### The image that was taken -/

/-- **What was taken** is an image and its check, when every update starts on an erased area. -/
theorem accepted_trailed {L : SlotLayout} {flash : Flash} {is : List DfuInput} {i : DfuInput}
    (hclean : Run.Along stepS CleanStart (initS L.next flash) is)
    (hend : i.IsEndFwUpd) (hok : endOk ∈ (runS L.next flash is).1.answers i)
    (hne : (runS L.next flash is).2.accepted ≠ []) :
    Trailed (runS L.next flash is).2.accepted ∧
      (runS L.next flash is).1.cb.newFwSize = (runS L.next flash is).2.accepted.length := by
  have hsummed := summed_run L.next flash is
  have hagrees := agrees_run L flash hclean
  obtain ⟨-, hs⟩ := received_run L flash hclean
  have switches := answers_endOk_iff.mp ⟨hend, hok⟩
  rw [← runC_runS] at hs switches hne ⊢
  have hholding : Holding (runC L.next flash is).dev (runC L.next flash is).session := by
    rcases hs with ⟨-, hnone | hinit⟩ | hholding
    · exact absurd hnone hne
    · exact absurd (hinit.symm.trans switches.crc) (by decide)
    · exact hholding
  have hsize : (runC L.next flash is).dev.cb.newFwSize =
      (runC L.next flash is).session.accepted.length := switches.whole.symm.trans hholding.offset
  refine ⟨?_, hsize⟩
  rcases hsummed with ⟨hcl, -⟩ | ⟨-, hcrc⟩
  · exact absurd (List.eq_nil_of_length_eq_zero (hsize.symm.trans hcl.newFwSize)) hne
  · have himage := hagrees.2 (hsize ▸ hholding.size)
    rw [← himage, ← dfuCrc32Calc_eq_zero_iff]
    exact hcrc.symm.trans switches.crc

/-- **What is then in the flash** is that image. -/
theorem accepted_read {L : SlotLayout} {flash : Flash} {is : List DfuInput} {i : DfuInput}
    (hclean : Run.Along stepS CleanStart (initS L.next flash) is)
    (hend : i.IsEndFwUpd) (hok : endOk ∈ (runS L.next flash is).1.answers i)
    (hne : (runS L.next flash is).2.accepted ≠ [])
    (h8 : (runS L.next flash is).2.accepted.getD 8 0x4b = 0x4b) :
    ((runS L.next flash is).1.step i).flash.read L.next
      (runS L.next flash is).2.accepted.length = (runS L.next flash is).2.accepted := by
  obtain ⟨hL, hs⟩ := received_run L flash hclean
  have switches := answers_endOk_iff.mp ⟨hend, hok⟩
  have hsize := (accepted_trailed hclean hend hok hne).2
  rw [step_flash_of_switchesMarks hL switches, ← hsize]
  rcases hs with ⟨-, hnone | hinit⟩ | hholding
  · exact absurd hnone hne
  · exact absurd (hinit.symm.trans switches.crc) (by decide)
  · exact hholding.read hL switches.whole h8

/-! ### The image that is checked -/

/-- The size that an image gives in its header. -/
def sizeWord (image : List UInt8) : ℕ := u32At fun i => image.getD (i + 0x18) 0xff

theorem bytes_adv_eq_read (flash : Flash) (addr n : ℕ) :
    bytes (adv flash addr) n = flash.read addr n :=
  List.map_congr_left fun i _ => congrArg flash (Nat.add_comm i addr)

namespace FwConfig

variable {c : FwConfig} {flash : Flash} {image : List UInt8}

/-- The size is read from the header of the image. -/
theorem fwSize_of_read (hread : flash.read c.fwFlashAddr image.length = image)
    (hlen : 0x1c ≤ image.length) : c.fwSize flash = sizeWord image := by
  have hbyte : ∀ i < 4, flash (i + (c.fwFlashAddr + 0x18)) = image.getD (i + 0x18) 0xff := by
    intro i hi
    have hin : i + 0x18 < image.length := by omega
    have hget : (flash.read c.fwFlashAddr image.length).getD (i + 0x18) 0xff =
        flash (c.fwFlashAddr + (i + 0x18)) := Flash.getD_read flash hin 0xff
    rw [hread] at hget
    rw [hget, Nat.add_comm i, Nat.add_comm i, Nat.add_assoc]
  simp only [fwSize, sizeWord, u32At, adv]
  rw [hbyte 0 (by decide), hbyte 1 (by decide), hbyte 2 (by decide), hbyte 3 (by decide)]

end FwConfig

namespace FwCheck

variable {cal : Crc32HalfCal} {flash : Flash} {image : List UInt8}

/-- **An image with its check passes**, when its size word is its size and four bytes or more are
left of the last block; and the buffers are kept to. -/
theorem flashFwCheck_of_trailed (hcal : cal.Standard) {c : FwConfig} (htrailed : Trailed image)
    (hread : flash.read c.fwFlashAddr image.length = image) (hlen : 0x1c ≤ image.length)
    (hsize : sizeWord image = image.length) (hrest : 4 ≤ image.length % FW_READ_SIZE)
    (hslot : image.length ≤ c.slotSize) {crcInitValue : BitVec 32}
    (hinit : crcInitValue = 0 ∨ crcInitValue = 0xFFFFFFFF) (fwTmpdata otaDat : Mem) :
    (flashFwCheck cal flash c crcInitValue fwTmpdata otaDat).2 = 0 ∧
      (flashFwCheck cal flash c crcInitValue fwTmpdata otaDat).1.tmpTop ≤ FW_READ_SIZE ∧
      (flashFwCheck cal flash c crcInitValue fwTmpdata otaDat).1.datTop ≤ FW_READ_SIZE * 2 := by
  have hfwSize : c.fwSize flash = image.length := (FwConfig.fwSize_of_read hread hlen).trans hsize
  have hin := c.fwFlashAddr_add_le hslot
  obtain ⟨data, himage⟩ := htrailed
  obtain ⟨k, r, hk, hr, hlt⟩ : ∃ k r, image.length = k * FW_READ_SIZE + r ∧ 4 ≤ r ∧
      r < FW_READ_SIZE :=
    ⟨_, _, (Nat.div_add_mod' _ _).symm, hrest, Nat.mod_lt _ (by decide)⟩
  have hdata : data.length = k * FW_READ_SIZE + (r - 4) := by
    have := congrArg List.length himage
    rw [List.length_append, show ∀ x, (crcBytes x).length = 4 from fun _ => rfl] at this
    omega
  -- the flash holds the data, and then the check
  have hparts : flash.read c.fwFlashAddr (data.length + 4) =
      data ++ crcBytes (dfuCrc32Calc dfuCrcInitValue data) := by
    rw [← himage, ← hread]
    congr 1
    omega
  rw [Flash.read_append] at hparts
  obtain ⟨hbody, htail⟩ := List.append_inj hparts (Flash.length_read _ _ _)
  have hblocks : image.length / FW_READ_SIZE = k := by
    rw [hk, Nat.add_comm, Nat.add_mul_div_right _ _ (by decide), Nat.div_eq_of_lt hlt, Nat.zero_add]
  have hmod : image.length % FW_READ_SIZE = r := by
    rw [hk, Nat.add_comm, Nat.add_mul_mod_self_right, Nat.mod_eq_of_lt hlt]
  have hword : image.length / FW_READ_SIZE % 2 ^ 16 = k := by
    rw [hblocks]
    refine Nat.mod_eq_of_lt ?_
    unfold FW_READ_SIZE at hk
    omega
  have hstored : subU32 (c.fwFlashAddr + image.length) 4 = c.fwFlashAddr + data.length := by
    rw [subU32_of_le (by omega) (by omega)]
    omega
  set s₀ : FwCheck := ⟨if crcInitValue = 0 then 0xFFFFFFFF else crcInitValue, fwTmpdata, otaDat,
    0, 0⟩ with hs₀
  have hstart : s₀.fwCrcInit = dfuCrcInitValue := by
    rcases hinit with rfl | rfl <;> rfl
  obtain ⟨hcrc, htmp, hdat⟩ := checkBlocks_spec (a := c.fwFlashAddr) (k := k) flash hcal
    (by omega) s₀
  obtain ⟨hcrc', htmp', hdat'⟩ := checkRest_spec (a := c.fwFlashAddr) flash hcal (by omega)
    (hmod.symm ▸ hr) (s₀.checkBlocks cal flash c.fwFlashAddr k)
  have hsum : (checkRest cal flash c.fwFlashAddr image.length
      (s₀.checkBlocks cal flash c.fwFlashAddr k)).fwCrcInit =
        dfuCrc32Calc dfuCrcInitValue data := by
    rw [hcrc', hcrc, hstart, hblocks, hmod, ← Crc.crc_append, ← adv_adv, ← bytes_add, ← hdata,
      bytes_adv_eq_read, hbody, dfuCrc32Calc_eq]
  simp only [flashFwCheck, hfwSize, hword, ← hs₀, hstored, bytes_adv_eq_read, htail, word_crcBytes,
    hsum, ne_eq, not_true_eq_false, if_false, true_and]
  exact ⟨htmp'.trans (max_le (htmp.trans (max_le (Nat.zero_le _) le_rfl)) le_rfl),
    hdat'.trans (max_le (hdat.trans (max_le (Nat.zero_le _) le_rfl)) le_rfl)⟩

end FwCheck

open FwCheck

/-- **What an update has left in the flash passes the check**, in any run whose updates start on an
erased area: when it ends with success, the image has the boot mark, its size word is its size, and
four bytes or more are left of its last block. -/
theorem accepted_checks {cal : Crc32HalfCal} (hcal : cal.Standard) (L : SlotLayout) (flash : Flash)
    (is : List DfuInput) (i : DfuInput)
    (hclean : Run.Along stepS CleanStart (initS L.next flash) is)
    (hend : i.IsEndFwUpd) (hok : endOk ∈ (runS L.next flash is).1.answers i)
    (image : List UInt8) (himage : image = (runS L.next flash is).2.accepted)
    (h8 : image.getD 8 0x4b = 0x4b) (hlen : 0x1c ≤ image.length)
    (hsize : sizeWord image = image.length) (hrest : 4 ≤ image.length % FW_READ_SIZE)
    (c : FwConfig) (haddr : c.fwFlashAddr = L.next) (hslot : dfuNewFwMaxSize ≤ c.slotSize)
    {crcInitValue : BitVec 32} (hinit : crcInitValue = 0 ∨ crcInitValue = 0xFFFFFFFF)
    (fwTmpdata otaDat : Mem) :
    let checked := flashFwCheck cal ((runS L.next flash is).1.step i).flash c crcInitValue
      fwTmpdata otaDat
    checked.2 = 0 ∧ checked.1.tmpTop ≤ FW_READ_SIZE ∧ checked.1.datTop ≤ FW_READ_SIZE * 2 := by
  subst himage
  have hne : (runS L.next flash is).2.accepted ≠ [] := by
    intro hnil
    rw [hnil] at hlen
    exact absurd hlen (by decide)
  obtain ⟨htrailed, hwhole⟩ := accepted_trailed hclean hend hok hne
  have hread := accepted_read hclean hend hok hne h8
  have hfits : (runS L.next flash is).2.accepted.length ≤ c.slotSize := by
    obtain ⟨hL, hs⟩ := received_run L flash hclean
    rw [← hwhole]
    exact ((newFwSize_le ⟨hL, hs⟩).trans hL.maxFwSize.le).trans hslot
  exact flashFwCheck_of_trailed hcal htrailed (haddr ▸ hread) hlen hsize hrest hfits hinit
    fwTmpdata otaDat

/-- The device after the reboot, running from `0x20000`. -/
def rebooted : FwConfig := { FwCheck.atStart with otaProgramOffset := 0 }

/-- An image of 304 bytes, a block and 48 bytes more, with the boot mark and its size: 32 bytes that
leave the check at zero, and zeros. -/
def bootImage : List UInt8 :=
  let data : List UInt8 :=
    [1, 2, 3, 4, 5, 6, 7, 8, 0x4b, 0, 0, 0, 0, 0, 0, 0, 0, 0, 0, 0, 0, 0, 0, 0, 0x30, 1, 0, 0]
  data ++ crcBytes (dfuCrc32Calc dfuCrcInitValue data) ++ List.replicate 272 0

theorem bootImage_trailed : Trailed bootImage := by
  rw [← dfuCrc32Calc_eq_zero_iff, bootImage, dfuCrc32Calc_append,
    (dfuCrc32Calc_trailer_iff _ _ _).mpr rfl, dfuCrc32Calc_eq]
  exact Crc.crc_zeros 0xEDB88320#32 272

/-- An update with that image, in five payloads. -/
def bootUpdate : List DfuInput :=
  startCmd 304 :: (List.range 5).map fun k => fwDataCmd ((bootImage.drop (64 * k)).take 64)

/-- An update ends with success when the image checked is whole and an image with its check. -/
theorem endOk_of_trailed {off : ℕ} {flash : Flash} {is : List DfuInput} {i : DfuInput}
    (hrun : (runC off flash is).dev.halted = false)
    (hstarted : (runC off flash is).session.started = true) (hend : i.IsEndFwUpd)
    (hwhole : (runC off flash is).image.length = (runC off flash is).dev.cb.newFwSize)
    (htrailed : Trailed (runC off flash is).image) : endOk ∈ (runS off flash is).1.answers i := by
  rw [← runC_runS]
  exact (endOk_iff_trailed (summed_run off flash is) hrun hstarted hend).mpr ⟨hwhole, htrailed⟩

theorem bootUpdate_image : (runC 0x20000 markedFlash bootUpdate).image = bootImage := by
  decide +kernel

/-- The update ends with success. -/
theorem bootUpdate_ok : endOk ∈ (runS 0x20000 markedFlash bootUpdate).1.answers (endCmd 0x00) := by
  apply endOk_of_trailed
  · decide +kernel
  · decide +kernel
  · decide
  · decide +kernel
  · rw [bootUpdate_image]
    exact bootImage_trailed

/-- An image that came in five payloads passes. -/
theorem bootImage_checks :
    (flashFwCheck crc32HalfCal ((runS 0x20000 markedFlash bootUpdate).1.step (endCmd 0x00)).flash
      rebooted 0xFFFFFFFF (fun _ => 0) (fun _ => 0)).2 = 0 := by
  refine (accepted_checks crc32HalfCal_standard slotsAtBase markedFlash bootUpdate (endCmd 0x00)
    ⟨fun _ => ?_, fun h => ?_, fun h => ?_, fun h => ?_, fun h => ?_, fun h => ?_, trivial⟩
    (by decide) bootUpdate_ok bootImage
    (by decide +kernel) (by decide +kernel) (by decide +kernel) (by decide +kernel)
    (by decide +kernel) rebooted rfl (by decide) (Or.inr rfl) _ _).1
  · exact markedFlash_erased initS_markedFlash rfl
  all_goals exact absurd h (by decide +kernel)

end TcBle.Vendor
