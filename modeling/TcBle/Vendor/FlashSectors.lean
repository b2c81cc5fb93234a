import TcBle.Vendor.CustomPair
import TcBle.Vendor.MacAddress

/-!
# The sectors of the flash

`vendor/common/ble_flash.c`: `blc_readFlashSize_autoConfigCustomFlashSector` takes the size of the
flash from its mid, and the sectors of the device addresses, the calibration values, the pairing
information and the attribute handles from the size. `custom_pair.c` keeps its log in the sectors of
the pairing information, which are free where it is used.

## What is proved

* `sectors_apart` — on every core and flash the areas have nothing in common, and end within the
  flash.
-/

namespace TcBle.Vendor

open TcBle.Foundation

/-- `FLASH_SIZE_256K`. -/
def FLASH_SIZE_256K : ℕ := 0x12

/-- `FLASH_SIZE_512K`. -/
def FLASH_SIZE_512K : ℕ := 0x13

/-- `FLASH_SIZE_1M`. -/
def FLASH_SIZE_1M : ℕ := 0x14

/-- `FLASH_SIZE_2M`. -/
def FLASH_SIZE_2M : ℕ := 0x15

/-- `FLASH_SMP_PAIRING_MAX_SIZE`, of which there are two. -/
def FLASH_SMP_PAIRING_MAX_SIZE : ℕ := 2 * 4096

/-- The addresses that are kept in variables. -/
structure Sectors where
  /-- `flash_sector_mac_address`. -/
  macAddress : ℕ
  /-- `flash_sector_calibration`. -/
  calibration : ℕ
  /-- `flash_sector_smp_storage`, and `flash_sector_custom_pairing`. -/
  smpStorage : ℕ
  /-- `flash_sector_simple_sdp_att`. -/
  simpleSdpAtt : ℕ
  deriving DecidableEq

/-- The addresses ending in `_256K_FLASH`, which `MCU_CORE_TC123X` has. -/
def sectors256K : Sectors := ⟨0x3F000, 0x3E000, 0x3A000, 0x38000⟩

/-- The addresses ending in `_512K_FLASH`. -/
def sectors512K : McuCore → Sectors
  | .c825x | .c827x => ⟨0x76000, 0x77000, 0x78000, 0x7D000⟩
  | .tc321x | .tc123x => ⟨0x7F000, 0x7E000, 0x7A000, 0x78000⟩

/-- The addresses ending in `_1M_FLASH`. -/
def sectors1M : Sectors := ⟨0xFF000, 0xFE000, 0xFA000, 0xF6000⟩

/-- The addresses ending in `_2M_FLASH`. -/
def sectors2M : Sectors := ⟨0x1FF000, 0x1FE000, 0x1FA000, 0x1F6000⟩

/-- `blc_flash_capacity`, from the mid. -/
def blcFlashCapacity (mid : ℕ) : ℕ := (mid &&& 0x00ff0000) >>> 16

/-- `blc_readFlashSize_autoConfigCustomFlashSector`: a core looks for the sizes of the flashes that
it supports, and ends in an endless loop where it finds none of them. -/
def blcReadFlashSizeAutoConfigCustomFlashSector (core : McuCore) (mid : ℕ) : Option Sectors :=
  let capacity := blcFlashCapacity mid
  if capacity = FLASH_SIZE_512K then some (sectors512K core)
  else if core = .tc123x ∧ capacity = FLASH_SIZE_256K then some sectors256K
  else if capacity = FLASH_SIZE_1M then some sectors1M
  else if core = .tc321x ∧ capacity = FLASH_SIZE_2M then some sectors2M
  else none

namespace Sectors

/-- The areas: a sector each for the addresses and the calibration values, the pairing information
with its backup, and the handles. -/
def areas (s : Sectors) : List (ℕ × ℕ) :=
  [(s.macAddress, 4096), (s.calibration, 4096), (s.smpStorage, 2 * FLASH_SMP_PAIRING_MAX_SIZE),
    (s.simpleSdpAtt, FLASH_SDP_ATT_MAX_SIZE)]

/-- **The areas are apart**, and end before `size`. -/
structure Apart (s : Sectors) (size : ℕ) : Prop where
  /-- Two areas have nothing in common. -/
  pairwise : s.areas.Pairwise fun a b => a.1 + a.2 ≤ b.1 ∨ b.1 + b.2 ≤ a.1
  /-- An area is behind the start of the flash, and ends within it. -/
  bounds : ∀ a ∈ s.areas, 0 < a.1 ∧ a.1 + a.2 ≤ size

instance (s : Sectors) (size : ℕ) : Decidable (s.Apart size) :=
  decidable_of_iff (s.areas.Pairwise (fun a b => a.1 + a.2 ≤ b.1 ∨ b.1 + b.2 ≤ a.1) ∧
    ∀ a ∈ s.areas, 0 < a.1 ∧ a.1 + a.2 ≤ size) ⟨fun h => ⟨h.1, h.2⟩, fun h => ⟨h.1, h.2⟩⟩

end Sectors

/-- What a core finds. -/
theorem sectors_cases {core : McuCore} {mid : ℕ} {s : Sectors}
    (h : blcReadFlashSizeAutoConfigCustomFlashSector core mid = some s) :
    (blcFlashCapacity mid = FLASH_SIZE_512K ∧ s = sectors512K core) ∨
      (blcFlashCapacity mid = FLASH_SIZE_256K ∧ s = sectors256K) ∨
      (blcFlashCapacity mid = FLASH_SIZE_1M ∧ s = sectors1M) ∨
      (blcFlashCapacity mid = FLASH_SIZE_2M ∧ s = sectors2M) := by
  simp only [blcReadFlashSizeAutoConfigCustomFlashSector] at h
  split_ifs at h with h512K h256K h1M h2M
  · exact .inl ⟨h512K, (Option.some.inj h).symm⟩
  · exact .inr (.inl ⟨h256K.2, (Option.some.inj h).symm⟩)
  · exact .inr (.inr (.inl ⟨h1M, (Option.some.inj h).symm⟩))
  · exact .inr (.inr (.inr ⟨h2M.2, (Option.some.inj h).symm⟩))

/-- **The sectors are apart**, on every core and flash. -/
theorem sectors_apart {core : McuCore} {mid : ℕ} {s : Sectors}
    (h : blcReadFlashSizeAutoConfigCustomFlashSector core mid = some s) :
    s.Apart (2 ^ blcFlashCapacity mid) := by
  obtain ⟨hsize, rfl⟩ | ⟨hsize, rfl⟩ | ⟨hsize, rfl⟩ | ⟨hsize, rfl⟩ := sectors_cases h
  · rw [hsize]
    cases core <;> decide
  · rw [hsize]
    decide
  · rw [hsize]
    decide
  · rw [hsize]
    decide

/-- **Sectors that can be used**: they are apart, within the flashes the driver can address. -/
structure Layout where
  /-- The sectors. -/
  sectors : Sectors
  /-- They are apart. -/
  apart : sectors.Apart (2 ^ 24)

theorem blcFlashCapacity_le {core : McuCore} {mid : ℕ} {s : Sectors}
    (h : blcReadFlashSizeAutoConfigCustomFlashSector core mid = some s) :
    blcFlashCapacity mid ≤ 24 := by
  obtain ⟨hsize, -⟩ | ⟨hsize, -⟩ | ⟨hsize, -⟩ | ⟨hsize, -⟩ := sectors_cases h <;>
    exact hsize.trans_le (by decide)

/-- The sectors of a core and a flash. -/
def Layout.of {core : McuCore} {mid : ℕ} {s : Sectors}
    (h : blcReadFlashSizeAutoConfigCustomFlashSector core mid = some s) : Layout :=
  ⟨s, (sectors_apart h).pairwise, fun a ha =>
    ⟨((sectors_apart h).bounds a ha).1, ((sectors_apart h).bounds a ha).2.trans
      (Nat.pow_le_pow_right (by decide) (blcFlashCapacity_le h))⟩⟩

namespace Layout

variable (L : Layout)

theorem pairing_le : L.sectors.smpStorage + FLASH_CUSTOM_PAIRING_MAX_SIZE ≤ 2 ^ 24 := by
  have hsmp := (L.apart.bounds (L.sectors.smpStorage, 2 * FLASH_SMP_PAIRING_MAX_SIZE)
    (by simp [Sectors.areas])).2
  unfold FLASH_SMP_PAIRING_MAX_SIZE at hsmp
  unfold FLASH_CUSTOM_PAIRING_MAX_SIZE
  omega

theorem macAddress_ne : L.sectors.macAddress ≠ 0 :=
  (L.apart.bounds (L.sectors.macAddress, 4096) (by simp [Sectors.areas])).1.ne'

end Layout

end TcBle.Vendor
