import Mathlib.Tactic.IntervalCases
import TcBle.Foundation.Flash

/-!
# The MAC addresses

`vendor/common/ble_flash.c`: `blc_initMacAddress` reads the public address and the two bytes that the
random static address has of its own from the MAC area of the flash, and draws and writes what is
erased there.

## The model

A start comes with the five bytes that are drawn and with what `mac_public` holds before: on a core
without a company id three of its bytes are left as they are. The callbacks around the writes, which
change the protection of the flash, are left out.

## What is proved

* `blcInitMacAddress_snd` — a start gives what is in the flash after it.
* `blcInitMacAddress_written` — where the area does not look erased, it writes nothing.
* `macAddress_persists_iff` — when all later starts give what the first one gave.
-/

namespace TcBle.Vendor

open TcBle.Foundation

/-- A device address, the low byte first. -/
abbrev BleMac := Vector UInt8 6

/-- `MCU_CORE_TYPE`. -/
inductive McuCore where
  /-- `MCU_CORE_825x`. -/
  | c825x
  /-- `MCU_CORE_827x`. -/
  | c827x
  /-- `MCU_CORE_TC321X`. -/
  | tc321x
  /-- `MCU_CORE_TC123X`. -/
  | tc123x
  deriving DecidableEq

/-- The company id that a core writes to `mac_public[3]` and on, if it does. -/
def McuCore.companyId : McuCore → Option (UInt8 × UInt8 × UInt8)
  | .c825x => some (0x38, 0xC1, 0xA4)
  | .c827x => some (0xD1, 0x19, 0xC4)
  | .tc321x => some (0x4A, 0xAB, 0xD0)
  | .tc123x => none

/-- What a start brings. -/
structure MacStart where
  /-- `value_rand`. -/
  valueRand : Vector UInt8 5
  /-- `mac_public` before the call. -/
  macPublic : BleMac

/-- What `blc_initMacAddress` sets. -/
structure MacAddresses where
  /-- `mac_public`. -/
  macPublic : BleMac
  /-- `mac_random_static`. -/
  macRandomStatic : BleMac
  deriving DecidableEq

/-- The public address that is drawn where the flash has none. -/
def drawnPublic (core : McuCore) (s : MacStart) : BleMac :=
  let id := core.companyId.getD (s.macPublic[3], s.macPublic[4], s.macPublic[5])
  #v[s.valueRand[0], s.valueRand[1], s.valueRand[2], id.1, id.2.1, id.2.2]

/-- `mac_read` from the flash: the public address. -/
def readPublic (f : Flash) (flashAddr : ℕ) : BleMac :=
  #v[f flashAddr, f (flashAddr + 1), f (flashAddr + 2), f (flashAddr + 3), f (flashAddr + 4),
    f (flashAddr + 5)]

/-- `ff_six_byte`. -/
def ffSixByte : BleMac := #v[0xff, 0xff, 0xff, 0xff, 0xff, 0xff]

/-- The random static address of a public one and two bytes. -/
def randomStatic (macPublic : BleMac) (b₃ b₄ : UInt8) : BleMac :=
  #v[macPublic[0], macPublic[1], macPublic[2], b₃, b₄, 0xC0]

/-- `high_2_byte`. -/
def high2Byte (f : Flash) (flashAddr : ℕ) : UInt16 :=
  (f (flashAddr + 6)).toUInt16 ||| ((f (flashAddr + 7)).toUInt16 <<< 8)

/-- `blc_initMacAddress`: the flash after it, and what it sets. Without a sector for the addresses it
returns at once. -/
def blcInitMacAddress (core : McuCore) (flashSectorMacAddress flashAddr : ℕ) (s : MacStart)
    (f : Flash) : Flash × Option MacAddresses :=
  if flashSectorMacAddress = 0 then (f, none)
  else
    -- the bytes are read before anything is written
    let macRead := readPublic f flashAddr
    let high := high2Byte f flashAddr
    let b₆ := f (flashAddr + 6)
    let b₇ := f (flashAddr + 7)
    let (macPublic, f) :=
      if macRead ≠ ffSixByte then (macRead, f)
      else
        let drawn := drawnPublic core s
        (drawn, f.program flashAddr drawn.toList)
    if high ≠ 0xFFFF then (f, some ⟨macPublic, randomStatic macPublic b₆ b₇⟩)
    else
      (f.program (flashAddr + 6) [s.valueRand[3], s.valueRand[4]],
        some ⟨macPublic, randomStatic macPublic s.valueRand[3] s.valueRand[4]⟩)

/-- What each of a row of starts sets, on the flash that the one before leaves. -/
def macAddresses (core : McuCore) (flashSectorMacAddress flashAddr : ℕ) :
    Flash → List MacStart → List (Option MacAddresses)
  | _, [] => []
  | f, s :: starts =>
    let r := blcInitMacAddress core flashSectorMacAddress flashAddr s f
    r.2 :: macAddresses core flashSectorMacAddress flashAddr r.1 starts

/-! ### The marks -/

/-- `high_2_byte` is that of an erased area exactly if both of its bytes are. -/
theorem high2Byte_iff (f : Flash) (flashAddr : ℕ) :
    high2Byte f flashAddr = 0xFFFF ↔ f (flashAddr + 6) = 0xff ∧ f (flashAddr + 7) = 0xff := by
  have hword : ∀ x y : UInt8, (x.toUInt16 ||| (y.toUInt16 <<< 8)).toNat =
      x.toNat + y.toNat * 2 ^ 8 := by
    intro x y
    have hx := x.toNat_lt
    have hy := y.toNat_lt
    rw [UInt16.toNat_or, UInt16.toNat_shiftLeft, UInt8.toNat_toUInt16, UInt8.toNat_toUInt16,
      show (8 : UInt16).toNat % 16 = 8 from rfl,
      Nat.mod_eq_of_lt (by rw [Nat.shiftLeft_eq]; omega), Nat.or_comm,
      ← Nat.shiftLeft_add_eq_or_of_lt hx, Nat.shiftLeft_eq, Nat.add_comm]
  have hx := (f (flashAddr + 6)).toNat_lt
  have hy := (f (flashAddr + 7)).toNat_lt
  rw [high2Byte, ← UInt16.toNat_inj, hword, ← UInt8.toNat_inj, ← UInt8.toNat_inj]
  show _ = 65535 ↔ _ = 255 ∧ _ = 255
  omega

/-- The area is not taken for an erased one in either part. -/
structure Written (f : Flash) (flashAddr : ℕ) : Prop where
  /-- The public address. -/
  pub : readPublic f flashAddr ≠ ffSixByte
  /-- The two bytes of the random static address. -/
  high : ¬ (f (flashAddr + 6) = 0xff ∧ f (flashAddr + 7) = 0xff)

/-- The addresses that are in the flash. -/
def storedAddresses (f : Flash) (flashAddr : ℕ) : MacAddresses :=
  ⟨readPublic f flashAddr,
    randomStatic (readPublic f flashAddr) (f (flashAddr + 6)) (f (flashAddr + 7))⟩

/-! ### One start -/

variable (core : McuCore) {flashSectorMacAddress : ℕ} (flashAddr : ℕ) (s : MacStart) (f : Flash)

/-- The public address of a start: what is there, or what is drawn. -/
def givenPublic (core : McuCore) (flashAddr : ℕ) (s : MacStart) (f : Flash) : BleMac :=
  if readPublic f flashAddr ≠ ffSixByte then readPublic f flashAddr else drawnPublic core s

/-- The two bytes of a start's random static address: what is there, or what is drawn. -/
def givenHigh (flashAddr : ℕ) (s : MacStart) (f : Flash) : UInt8 × UInt8 :=
  if f (flashAddr + 6) = 0xff ∧ f (flashAddr + 7) = 0xff then (s.valueRand[3], s.valueRand[4])
  else (f (flashAddr + 6), f (flashAddr + 7))

/-- The flash with the public address. -/
def withPublic (core : McuCore) (flashAddr : ℕ) (s : MacStart) (f : Flash) : Flash :=
  if readPublic f flashAddr ≠ ffSixByte then f
  else f.program flashAddr (drawnPublic core s).toList

/-- The flash with the two bytes of the random static address. -/
def withHigh (flashAddr : ℕ) (s : MacStart) (f : Flash) : Flash :=
  if f (flashAddr + 6) = 0xff ∧ f (flashAddr + 7) = 0xff then
    f.program (flashAddr + 6) [s.valueRand[3], s.valueRand[4]]
  else f

/-- An erased area takes an address as it is. -/
theorem readPublic_program {flashAddr : ℕ} {f : Flash} (h : readPublic f flashAddr = ffSixByte)
    (a : BleMac) :
    readPublic (f.program flashAddr a.toList) flashAddr = a := by
  have hff : ∀ i (hi : i < 6), f (flashAddr + i) = 0xff := by
    intro i hi
    have hget : (readPublic f flashAddr)[i] = ffSixByte[i] := by rw [h]
    interval_cases i <;> exact hget
  have hbyte : ∀ i (hi : i < 6), f.program flashAddr a.toList (flashAddr + i) = a[i] := by
    intro i hi
    rw [Flash.program_get, hff i hi, Flash.ff_and, List.getD_eq_getElem _ _ (by simpa using hi)]
    simp
  refine Vector.ext fun i hi => ?_
  rw [← hbyte i hi]
  interval_cases i <;> rfl

/-- A write behind the address leaves it alone. -/
theorem readPublic_program_high (data : List UInt8) :
    readPublic (f.program (flashAddr + 6) data) flashAddr = readPublic f flashAddr := by
  have hbyte : ∀ i < 6, f.program (flashAddr + 6) data (flashAddr + i) = f (flashAddr + i) :=
    fun i hi => Flash.program_other f (.inl (by omega))
  have hzero : f.program (flashAddr + 6) data flashAddr = f flashAddr := hbyte 0 (by simp)
  rw [readPublic, hzero, hbyte 1 (by simp), hbyte 2 (by simp), hbyte 3 (by simp),
    hbyte 4 (by simp), hbyte 5 (by simp)]
  rfl

/-- Writing the address leaves the bytes behind it alone. -/
theorem withPublic_high (i : ℕ) :
    withPublic core flashAddr s f (flashAddr + (6 + i)) = f (flashAddr + (6 + i)) := by
  rw [withPublic]
  split
  · rfl
  · exact Flash.program_other f (.inr (by simp))

/-- The public address that is in the flash then. -/
theorem readPublic_withPublic :
    readPublic (withPublic core flashAddr s f) flashAddr = givenPublic core flashAddr s f := by
  rw [withPublic, givenPublic]
  split
  case isTrue => rfl
  case isFalse h => exact readPublic_program (not_not.mp h) _

/-- Writing the two bytes leaves the address alone. -/
theorem readPublic_withHigh :
    readPublic (withHigh flashAddr s f) flashAddr = readPublic f flashAddr := by
  rw [withHigh]
  split
  · exact readPublic_program_high flashAddr f _
  · rfl

/-- The two bytes that are in the flash then. -/
theorem withHigh_high :
    withHigh flashAddr s f (flashAddr + 6) = (givenHigh flashAddr s f).1 ∧
      withHigh flashAddr s f (flashAddr + 7) = (givenHigh flashAddr s f).2 := by
  rw [withHigh, givenHigh]
  split
  case isFalse => exact ⟨rfl, rfl⟩
  case isTrue h =>
    obtain ⟨h₆, h₇⟩ := h
    have hget : ∀ i, f.program (flashAddr + 6) [s.valueRand[3], s.valueRand[4]]
        (flashAddr + 6 + i) = f (flashAddr + 6 + i) &&&
          [s.valueRand[3], s.valueRand[4]].getD i 0xff := fun i => f.program_get
    have hget₆ := hget 0
    have hget₇ := hget 1
    rw [Nat.add_zero, h₆, Flash.ff_and] at hget₆
    rw [Nat.add_assoc, h₇, Flash.ff_and] at hget₇
    exact ⟨hget₆, hget₇⟩

/-- What a start writes and gives. -/
theorem blcInitMacAddress_eq (hsector : flashSectorMacAddress ≠ 0) :
    blcInitMacAddress core flashSectorMacAddress flashAddr s f =
      (withHigh flashAddr s (withPublic core flashAddr s f),
        some ⟨givenPublic core flashAddr s f,
          randomStatic (givenPublic core flashAddr s f) (givenHigh flashAddr s f).1
            (givenHigh flashAddr s f).2⟩) := by
  have h₆ : withPublic core flashAddr s f (flashAddr + 6) = f (flashAddr + 6) :=
    withPublic_high core flashAddr s f 0
  have h₇ : withPublic core flashAddr s f (flashAddr + 7) = f (flashAddr + 7) :=
    withPublic_high core flashAddr s f 1
  simp only [blcInitMacAddress, if_neg hsector, ne_eq, high2Byte_iff, withHigh, h₆, h₇,
    givenHigh, givenPublic]
  by_cases hpub : readPublic f flashAddr = ffSixByte <;>
    by_cases hhigh : f (flashAddr + 6) = 0xff ∧ f (flashAddr + 7) = 0xff <;>
    simp [withPublic, hpub, hhigh]

/-- The public address in the flash after a start. -/
theorem readPublic_blcInitMacAddress (hsector : flashSectorMacAddress ≠ 0) :
    readPublic (blcInitMacAddress core flashSectorMacAddress flashAddr s f).1 flashAddr =
      givenPublic core flashAddr s f := by
  rw [blcInitMacAddress_eq core flashAddr s f hsector, readPublic_withHigh, readPublic_withPublic]

/-- The two bytes of the random static address in the flash after a start. -/
theorem high_blcInitMacAddress (hsector : flashSectorMacAddress ≠ 0) :
    (blcInitMacAddress core flashSectorMacAddress flashAddr s f).1 (flashAddr + 6) =
        (givenHigh flashAddr s f).1 ∧
      (blcInitMacAddress core flashSectorMacAddress flashAddr s f).1 (flashAddr + 7) =
        (givenHigh flashAddr s f).2 := by
  have h₆ : withPublic core flashAddr s f (flashAddr + 6) = f (flashAddr + 6) :=
    withPublic_high core flashAddr s f 0
  have h₇ : withPublic core flashAddr s f (flashAddr + 7) = f (flashAddr + 7) :=
    withPublic_high core flashAddr s f 1
  have hgiven : givenHigh flashAddr s (withPublic core flashAddr s f) = givenHigh flashAddr s f := by
    rw [givenHigh, givenHigh, h₆, h₇]
  rw [blcInitMacAddress_eq core flashAddr s f hsector, ← hgiven]
  exact withHigh_high flashAddr s (withPublic core flashAddr s f)

/-- **A start** gives what is in the flash after it. -/
theorem blcInitMacAddress_snd (hsector : flashSectorMacAddress ≠ 0) :
    (blcInitMacAddress core flashSectorMacAddress flashAddr s f).2 =
      some (storedAddresses (blcInitMacAddress core flashSectorMacAddress flashAddr s f).1
        flashAddr) := by
  obtain ⟨h₆, h₇⟩ := high_blcInitMacAddress core flashAddr s f hsector
  rw [storedAddresses, readPublic_blcInitMacAddress core flashAddr s f hsector, h₆, h₇,
    blcInitMacAddress_eq core flashAddr s f hsector]

/-- A start in a written area writes nothing. -/
theorem blcInitMacAddress_written (hsector : flashSectorMacAddress ≠ 0) (h : Written f flashAddr) :
    blcInitMacAddress core flashSectorMacAddress flashAddr s f =
      (f, some (storedAddresses f flashAddr)) := by
  have hfst : (blcInitMacAddress core flashSectorMacAddress flashAddr s f).1 = f := by
    rw [blcInitMacAddress_eq core flashAddr s f hsector]
    simp only [withPublic, if_pos h.pub, withHigh, if_neg h.high]
  refine Prod.ext hfst ?_
  rw [blcInitMacAddress_snd core flashAddr s f hsector, hfst]

/-- When the area is written after a start. -/
theorem written_iff (hsector : flashSectorMacAddress ≠ 0) :
    Written (blcInitMacAddress core flashSectorMacAddress flashAddr s f).1 flashAddr ↔
      ¬ (readPublic f flashAddr = ffSixByte ∧ drawnPublic core s = ffSixByte) ∧
        ¬ (f (flashAddr + 6) = 0xff ∧ f (flashAddr + 7) = 0xff ∧ s.valueRand[3] = 0xff ∧
          s.valueRand[4] = 0xff) := by
  have hpub := readPublic_blcInitMacAddress core flashAddr s f hsector
  obtain ⟨h₆, h₇⟩ := high_blcInitMacAddress core flashAddr s f hsector
  have hpub_iff : givenPublic core flashAddr s f = ffSixByte ↔
      readPublic f flashAddr = ffSixByte ∧ drawnPublic core s = ffSixByte := by
    rw [givenPublic]
    split <;> simp_all
  have hhigh_iff : ((givenHigh flashAddr s f).1 = 0xff ∧ (givenHigh flashAddr s f).2 = 0xff) ↔
      f (flashAddr + 6) = 0xff ∧ f (flashAddr + 7) = 0xff ∧ s.valueRand[3] = 0xff ∧
        s.valueRand[4] = 0xff := by
    rw [givenHigh]
    split <;> simp_all
  rw [← hpub_iff, ← hhigh_iff, ← hpub, ← h₆, ← h₇]
  exact ⟨fun h => ⟨h.pub, h.high⟩, fun h => ⟨h.1, h.2⟩⟩

/-! ### All later starts -/

variable {core : McuCore} {flashAddr : ℕ} {s : MacStart} {f : Flash}

/-- **Later starts** in a written area give what is in the flash. -/
theorem macAddresses_written (hsector : flashSectorMacAddress ≠ 0) (h : Written f flashAddr)
    (starts : List MacStart) :
    ∀ r ∈ macAddresses core flashSectorMacAddress flashAddr f starts,
      r = some (storedAddresses f flashAddr) := by
  induction starts with
  | nil => simp [macAddresses]
  | cons s starts ih =>
    intro r hr
    rw [macAddresses, blcInitMacAddress_written core flashAddr s f hsector h] at hr
    obtain rfl | hr := List.mem_cons.mp hr
    · rfl
    · exact ih r hr

/-- A start that draws zeros. -/
def zeroStart : MacStart := ⟨.replicate 5 0, .replicate 6 0⟩

/-- **An unwritten area** gives something else to some later start. -/
theorem blcInitMacAddress_unwritten (hsector : flashSectorMacAddress ≠ 0)
    (h : ¬ Written f flashAddr) :
    (blcInitMacAddress core flashSectorMacAddress flashAddr zeroStart f).2 ≠
      some (storedAddresses f flashAddr) := by
  intro hgives
  rw [blcInitMacAddress_eq core flashAddr zeroStart f hsector] at hgives
  obtain ⟨hpub, hstatic⟩ := MacAddresses.mk.inj (Option.some.inj hgives)
  refine h ⟨fun hff => ?_, fun hff => ?_⟩
  case refine_1 =>
    -- the first byte drawn is not that of an erased area
    rw [givenPublic, hff, if_neg (by simp)] at hpub
    have hfirst : (drawnPublic core zeroStart)[0] = ffSixByte[0] := by rw [hpub]
    cases hfirst
  case refine_2 =>
    have hfourth : (givenHigh flashAddr zeroStart f).1 = f (flashAddr + 6) :=
      congrArg (fun a : BleMac => a[3]) hstatic
    rw [givenHigh, if_pos hff, hff.1] at hfourth
    cases hfourth

/-- The address has the top bits of a random static one. -/
def TopBits (r : Option MacAddresses) : Prop :=
  ∀ a ∈ r, a.macRandomStatic[5] &&& 0xC0 = 0xC0

/-- **The top bits** are set by every start. -/
theorem blcInitMacAddress_topBits :
    TopBits (blcInitMacAddress core flashSectorMacAddress flashAddr s f).2 := by
  by_cases hsector : flashSectorMacAddress = 0
  · simp [blcInitMacAddress, hsector, TopBits]
  · rw [blcInitMacAddress_eq core flashAddr s f hsector]
    intro a ha
    cases ha
    show (0xC0 : UInt8) &&& 0xC0 = 0xC0
    rfl

/-- The top bits are set by all of a row of starts. -/
theorem macAddresses_topBits (starts : List MacStart) :
    ∀ f, ∀ r ∈ macAddresses core flashSectorMacAddress flashAddr f starts, TopBits r := by
  induction starts with
  | nil => simp [macAddresses]
  | cons s starts ih =>
    intro f r hr
    obtain rfl | hr := List.mem_cons.mp hr
    · exact blcInitMacAddress_topBits
    · exact ih _ r hr

/-- Without a sector for the addresses no start gives any. -/
theorem macAddresses_zero (starts : List MacStart) :
    ∀ r ∈ macAddresses core 0 flashAddr f starts, r = none := by
  induction starts with
  | nil => simp [macAddresses]
  | cons s starts ih =>
    intro r hr
    obtain rfl | hr := List.mem_cons.mp hr
    · rfl
    · exact ih r hr

/-- What the first start gives, all later ones give, and the random static address has its top bits
set in each. -/
def Persists (core : McuCore) (flashSectorMacAddress flashAddr : ℕ) (s : MacStart) (f : Flash) :
    Prop :=
  let first := blcInitMacAddress core flashSectorMacAddress flashAddr s f
  ∀ starts, (∀ r ∈ macAddresses core flashSectorMacAddress flashAddr first.1 starts,
    r = first.2) ∧ ∀ r ∈ macAddresses core flashSectorMacAddress flashAddr f (s :: starts), TopBits r

/-- **The addresses persist** exactly if nothing is drawn that looks like the erased area it is
written to. -/
theorem macAddress_persists_iff (core : McuCore) (flashSectorMacAddress flashAddr : ℕ)
    (s : MacStart) (f : Flash) :
    Persists core flashSectorMacAddress flashAddr s f ↔
      flashSectorMacAddress = 0 ∨
        (¬ (readPublic f flashAddr = ffSixByte ∧ drawnPublic core s = ffSixByte) ∧
          ¬ (f (flashAddr + 6) = 0xff ∧ f (flashAddr + 7) = 0xff ∧ s.valueRand[3] = 0xff ∧
            s.valueRand[4] = 0xff)) := by
  by_cases hsector : flashSectorMacAddress = 0
  case pos =>
    subst hsector
    refine ⟨fun _ => .inl rfl, fun _ starts => ⟨?_, macAddresses_topBits _ f⟩⟩
    exact macAddresses_zero starts
  case neg =>
    rw [or_iff_right hsector, ← written_iff core flashAddr s f hsector]
    constructor
    · intro hpersists
      by_contra hwritten
      obtain ⟨hsame, -⟩ := hpersists [zeroStart]
      have hnext := hsame _ List.mem_cons_self
      rw [blcInitMacAddress_snd core flashAddr s f hsector] at hnext
      exact blcInitMacAddress_unwritten hsector hwritten hnext
    · intro hwritten starts
      refine ⟨fun r hr => ?_, macAddresses_topBits _ f⟩
      rw [blcInitMacAddress_snd core flashAddr s f hsector]
      exact macAddresses_written hsector hwritten starts r hr

/-- What a start draws where the area is erased: the last two bytes look like it. -/
def erasedDraw : MacStart := ⟨#v[0x11, 0x22, 0x33, 0xff, 0xff], .replicate 6 0⟩

/-- Two bytes that are drawn as those of an erased area are drawn again at the next start. -/
theorem macAddress_drawn_again :
    ¬ ∀ (core : McuCore) (flashSectorMacAddress flashAddr : ℕ) (s : MacStart) (f : Flash),
      Persists core flashSectorMacAddress flashAddr s f := by
  intro hpersists
  have hsector : 0x76000 ≠ 0 := by decide
  obtain ⟨hsame, -⟩ := hpersists .c825x 0x76000 0x76000 erasedDraw (fun _ => 0xff) [zeroStart]
  refine blcInitMacAddress_unwritten hsector ?_
    ((hsame _ List.mem_cons_self).trans (blcInitMacAddress_snd _ _ _ _ hsector))
  rw [written_iff _ _ _ _ hsector]
  exact fun h => h.2 ⟨rfl, rfl, rfl, rfl⟩

end TcBle.Vendor
