import TcBle.Vendor.CustomPairAdd

/-!
# The area of the pairing table

The custom pairing table reads its own sector only, and as long as its index does not wrap around it
writes nothing outside of it.

## What is proved

* `handle_same` — where the sector is the same, an event leads to the same table and sector.
* `handle_outside` — it leaves the bytes outside of the sector alone.
-/

namespace TcBle.Vendor.CustomPair

open TcBle.Foundation

/-- The two differ outside of the sector only. -/
structure Same (s t : CustomPair) : Prop where
  /-- `flash_sector_custom_pairing`. -/
  sector : t.sector = s.sector
  /-- The sector. -/
  flash : ∀ a, s.sector ≤ a → a < s.sector + FLASH_CUSTOM_PAIRING_MAX_SIZE → t.flash a = s.flash a
  /-- The index. -/
  cfgIdx : t.cfgIdx = s.cfgIdx
  /-- The table. -/
  tbl : t.tbl = s.tbl

/-- The second differs from the first in the sector only, as far as the flash goes. -/
structure Inside (s t : CustomPair) : Prop where
  /-- `flash_sector_custom_pairing`. -/
  sector : t.sector = s.sector
  /-- The rest. -/
  flash : ∀ a, (a < s.sector ∨ s.sector + FLASH_CUSTOM_PAIRING_MAX_SIZE ≤ a) →
    t.flash a = s.flash a

/-- What the table needs for its writes to stay in the sector. -/
structure Bounded (s : CustomPair) : Prop where
  /-- The records of the entries. -/
  tbl : ∀ e ∈ s.tbl, e.1 + 8 ≤ FLASH_CUSTOM_PAIRING_MAX_SIZE
  /-- The table is at most full. -/
  length_le : s.tbl.length ≤ USER_PAIR_ACL_PERIPHR_MAX_NUM
  /-- The index of the last record. -/
  neg_le : -8 ≤ s.cfgIdx
  /-- It is that of a record, or behind all of them. -/
  last : 8 ∣ s.cfgIdx ∨ (FLASH_CUSTOM_PAIRING_MAX_SIZE : ℤ) ≤ s.cfgIdx + 8

variable {s t u : CustomPair} {k : ℕ}

theorem Same.refl (s : CustomPair) : Same s s := ⟨rfl, fun _ _ _ => rfl, rfl, rfl⟩

theorem Inside.refl (s : CustomPair) : Inside s s := ⟨rfl, fun _ _ => rfl⟩

theorem Inside.trans (h : Inside s t) (h' : Inside t u) : Inside s u :=
  ⟨h'.sector.trans h.sector, fun a ha =>
    (h'.flash a (by rwa [h.sector])).trans (h.flash a ha)⟩

theorem Same.bounded (h : Same s t) (hb : s.Bounded) : t.Bounded :=
  ⟨by rw [h.tbl]; exact hb.tbl, by rw [h.tbl]; exact hb.length_le,
    by rw [h.cfgIdx]; exact hb.neg_le, by rw [h.cfgIdx]; exact hb.last⟩

theorem Holds.bounded (h : s.Holds k) : s.Bounded := by
  refine ⟨fun e he => ?_, h.length_le, h.neg_le, ?_⟩
  case refine_2 =>
    unfold FLASH_CUSTOM_PAIRING_MAX_SIZE
    rcases h.last with hlast | ⟨hk, hlast⟩
    · omega
    · rw [num_log] at hk
      omega
  obtain ⟨i, hi, rfl⟩ := List.getElem_of_mem he
  obtain ⟨hmarked, hrecord⟩ := h.entry (List.getElem?_eq_getElem hi)
  have hlt := (FlashLog.mem_marked.mp (List.getElem_mem hmarked)).1.trans_le h.filled.le
  rw [num_log] at hlt
  rw [hrecord]
  show _ * 8 + 8 ≤ 4096
  omega

theorem Same.addr (h : Same s t) (idx : ℕ) : t.addr idx = s.addr idx := by
  rw [CustomPair.addr, CustomPair.addr, h.sector]

/-- An address in the sector. -/
theorem addr_of_lt {idx : ℕ} (h : idx < FLASH_CUSTOM_PAIRING_MAX_SIZE) :
    s.addr idx = s.sector + idx := by
  have hsector := s.sector_le
  exact Nat.mod_eq_of_lt (by omega)

/-! ### The same table -/

/-- A write leads to the same sector. -/
theorem Same.program (h : Same s t) (addr : ℕ) (data : List UInt8) :
    Same { s with flash := s.flash.program addr data }
      { t with flash := t.flash.program addr data } :=
  ⟨h.sector, fun a hlo hhi => Flash.program_congr (h.flash a hlo hhi) addr data, h.cfgIdx, h.tbl⟩

theorem Same.delete (h : Same s t) (i : ℕ) :
    Same (s.userTblSlaveMacDeleteByIndex i) (t.userTblSlaveMacDeleteByIndex i) := by
  unfold userTblSlaveMacDeleteByIndex
  rw [h.tbl]
  cases s.tbl[i]? with
  | none => exact h
  | some e =>
    have hwrite := h.program (s.addr e.1) [ADR_ERASE_MARK]
    simp only [markErased, h.addr]
    exact ⟨hwrite.sector, hwrite.flash, h.cfgIdx, rfl⟩

theorem Same.addRecord (h : Same s t) (d : MacAddr) : Same (s.addRecord d) (t.addRecord d) := by
  have hwrite := h.program (s.addr (toU32 s.cfgIdx)) d.bytes
  simp only [CustomPair.addRecord, h.cfgIdx, h.addr, h.tbl]
  exact ⟨hwrite.sector, hwrite.flash, rfl, rfl⟩

/-- So with another index. -/
theorem Same.withIdx (h : Same s t) (x : ℤ) : Same { s with cfgIdx := x } { t with cfgIdx := x } :=
  ⟨h.sector, h.flash, rfl, h.tbl⟩

theorem Same.makeRoom (h : Same s t) : Same s.makeRoom t.makeRoom := by
  unfold CustomPair.makeRoom
  rw [h.tbl]
  split_ifs
  · exact h.delete 0
  · exact h

theorem Same.add (h : Same s t) (a : PeerAddr) :
    Same (s.userTblSlaveMacAdd a).1 (t.userTblSlaveMacAdd a).1 := by
  have hroom := h.makeRoom
  rw [add_eq, add_eq, hroom.cfgIdx]
  split_ifs
  · exact hroom.withIdx _
  · exact (hroom.withIdx _).addRecord _

theorem Same.deleteByAdr (h : Same s t) (a : PeerAddr) :
    Same (s.userTblSlaveMacDeleteByAdr a).1 (t.userTblSlaveMacDeleteByAdr a).1 := by
  unfold userTblSlaveMacDeleteByAdr
  rw [h.tbl]
  cases s.tbl.findIdx? fun e => e.2.peer = a with
  | none => exact h
  | some i => exact h.delete i

theorem Same.deleteAll (h : Same s t) :
    Same s.userTblSlaveMacDeleteAll t.userTblSlaveMacDeleteAll := by
  refine ⟨h.sector, fun a hlo hhi => ?_, h.cfgIdx, rfl⟩
  have hflash := h.flash a hlo hhi
  simp only [userTblSlaveMacDeleteAll, h.tbl, h.addr]
  -- over the entries, for any two flashes that have the same at `a`
  generalize s.flash = f at hflash
  generalize t.flash = g at hflash
  induction s.tbl generalizing f g with
  | nil => exact hflash
  | cons e es ih => exact ih _ _ (Flash.program_congr hflash _ _)

theorem Same.rewrite (h : Same s t) (es : List (ℕ × MacAddr)) :
    Same (es.foldl (fun s e => { s with cfgIdx := wrapInt (s.cfgIdx + 8) }.addRecord e.2) s)
      (es.foldl (fun s e => { s with cfgIdx := wrapInt (s.cfgIdx + 8) }.addRecord e.2) t) := by
  induction es generalizing s t with
  | nil => exact h
  | cons e es ih =>
    have hidx : Same { s with cfgIdx := wrapInt (s.cfgIdx + 8) }
        { t with cfgIdx := wrapInt (t.cfgIdx + 8) } :=
      ⟨h.sector, h.flash, by rw [h.cfgIdx], h.tbl⟩
    exact ih (hidx.addRecord e.2)

theorem Same.clean (h : Same s t) : Same s.userBondSlaveFlashClean t.userBondSlaveFlashClean := by
  unfold userBondSlaveFlashClean
  rw [h.cfgIdx, h.tbl]
  split_ifs
  · exact h
  · have herased : Same
        { s with
          flash := s.flash.erase s.sector FLASH_CUSTOM_PAIRING_MAX_SIZE
          cfgIdx := -8
          tbl := [] }
        { t with
          flash := t.flash.erase t.sector FLASH_CUSTOM_PAIRING_MAX_SIZE
          cfgIdx := -8
          tbl := [] } := by
      refine ⟨h.sector, fun a hlo hhi => ?_, rfl, rfl⟩
      show t.flash.erase t.sector _ a = s.flash.erase s.sector _ a
      rw [h.sector, Flash.erase_get _ hlo hhi, Flash.erase_get _ hlo hhi]
    exact herased.rewrite s.tbl

/-- The initialisation reads the sector only. -/
theorem initLoop_congr (hsector : t.sector = s.sector)
    (hflash : ∀ a, s.sector ≤ a → a < s.sector + FLASH_CUSTOM_PAIRING_MAX_SIZE →
      t.flash a = s.flash a) (n idx : ℕ) (tbl : List (ℕ × MacAddr))
    (hidx : idx + 8 * n ≤ FLASH_CUSTOM_PAIRING_MAX_SIZE) :
    t.initLoop n idx tbl = s.initLoop n idx tbl := by
  induction n generalizing idx tbl with
  | zero => rfl
  | succ n ih =>
    have haddr : s.addr idx = s.sector + idx := addr_of_lt (by omega)
    have haddr' : t.addr idx = s.addr idx := by rw [CustomPair.addr, CustomPair.addr, hsector]
    have hread : ∀ o < 8, t.flash (s.addr idx + o) = s.flash (s.addr idx + o) := fun o ho =>
      hflash _ (by omega) (by omega)
    have hmac : readMacAddr t.flash (s.addr idx) = readMacAddr s.flash (s.addr idx) :=
      readMacAddr_congr hread
    have hmark : t.flash (s.addr idx) = s.flash (s.addr idx) := hread 0 (by omega)
    rw [initLoop, initLoop, haddr', hmark, hmac, ih _ _ (by omega), ih _ _ (by omega)]

/-- A reboot does not look at the index or the table. -/
theorem reboot_ram (s : CustomPair) (x : ℤ) (tbl : List (ℕ × MacAddr)) :
    CustomPair.reboot { s with cfgIdx := x, tbl := tbl } = s.reboot := by
  unfold CustomPair.reboot userMasterHostPairingFlashInit
  rw [initLoop_congr (s := { s with tbl := [] }) (t := { s with cfgIdx := x, tbl := [] }) rfl
    (fun _ _ _ => rfl) (4096 / 8) 0 _ (by decide)]

theorem Same.reboot (h : Same s t) : Option.Rel Same s.reboot t.reboot := by
  have hempty : Same { s with tbl := [] } { t with tbl := [] } := ⟨h.sector, h.flash, h.cfgIdx, rfl⟩
  unfold CustomPair.reboot userMasterHostPairingFlashInit
  rw [initLoop_congr hempty.sector hempty.flash (4096 / 8) 0 _ (by decide)]
  cases CustomPair.initLoop { s with tbl := [] } (4096 / 8) 0 [] with
  | none => exact .none
  | some r =>
    refine .some (Same.clean ?_)
    exact ⟨h.sector, h.flash, rfl, rfl⟩

/-- **The same sector** gives the same table and sector. -/
theorem handle_same (h : Same s t) (e : Event) : Option.Rel Same (s.handle e) (t.handle e) := by
  cases e with
  | add a => exact .some (h.add a)
  | deleteByAdr a => exact .some (h.deleteByAdr a)
  | deleteAll => exact .some h.deleteAll
  | clean => exact .some h.clean
  | reboot => exact h.reboot

/-! ### The rest of the flash -/

/-- A write within the sector. -/
theorem Inside.program (idx : ℕ) (data : List UInt8)
    (h : idx + data.length ≤ FLASH_CUSTOM_PAIRING_MAX_SIZE)
    (hdata : 0 < data.length) :
    Inside s { s with flash := s.flash.program (s.addr idx) data } := by
  refine ⟨rfl, fun a ha => s.flash.program_other ?_⟩
  rw [addr_of_lt (by omega)]
  omega

theorem Bounded.delete (h : s.Bounded) (i : ℕ) : Inside s (s.userTblSlaveMacDeleteByIndex i) := by
  unfold userTblSlaveMacDeleteByIndex
  cases he : s.tbl[i]? with
  | none => exact .refl s
  | some e =>
    have hidx := h.tbl e (List.mem_of_getElem? he)
    have hwrite := Inside.program (s := s) e.1 [ADR_ERASE_MARK]
      (by rw [List.length_singleton]; omega) Nat.one_pos
    exact ⟨rfl, hwrite.flash⟩

theorem Inside.addRecord (d : MacAddr) (hlo : 0 ≤ s.cfgIdx)
    (hhi : s.cfgIdx + 8 ≤ FLASH_CUSTOM_PAIRING_MAX_SIZE) : Inside s (s.addRecord d) := by
  have hidx : toU32 s.cfgIdx = s.cfgIdx.toNat := by
    unfold FLASH_CUSTOM_PAIRING_MAX_SIZE at hhi
    unfold toU32
    omega
  have hlen : d.bytes.length = 8 := by
    rw [MacAddr.bytes, List.length_cons, SdpStore.length_bytes]
  have hwrite := Inside.program (s := s) (toU32 s.cfgIdx) d.bytes
    (by omega) (by omega)
  exact ⟨rfl, hwrite.flash⟩

theorem Bounded.makeRoom (h : s.Bounded) : Inside s s.makeRoom := by
  unfold CustomPair.makeRoom
  split_ifs
  · exact h.delete 0
  · exact .refl s

theorem Bounded.add (h : s.Bounded) (hrange : s.cfgIdx + 8 < 2 ^ 31) (a : PeerAddr) :
    Inside s (s.userTblSlaveMacAdd a).1 := by
  have hneg := h.neg_le
  have hlast := h.last
  have hwrap : wrapInt (s.makeRoom.cfgIdx + 8) = s.cfgIdx + 8 := by
    rw [s.makeRoom_cfgIdx, wrapInt_of_lt (by omega) hrange]
  rw [add_eq, hwrap]
  unfold FLASH_CUSTOM_PAIRING_MAX_SIZE at hlast ⊢
  split_ifs with hfull
  · exact ⟨h.makeRoom.sector, h.makeRoom.flash⟩
  · refine h.makeRoom.trans ?_
    have hadd := Inside.addRecord (s := { s.makeRoom with cfgIdx := s.cfgIdx + 8 })
      ⟨ADR_BOND_MARK, a⟩ (show 0 ≤ s.cfgIdx + 8 by omega) (by
        show s.cfgIdx + 8 + 8 ≤ ((4096 : ℕ) : ℤ)
        omega)
    exact ⟨hadd.sector, hadd.flash⟩

theorem Bounded.deleteAll (h : s.Bounded) : Inside s s.userTblSlaveMacDeleteAll := by
  refine ⟨rfl, fun a ha => ?_⟩
  have hentries := h.tbl
  unfold userTblSlaveMacDeleteAll
  -- over the entries, for any flash that has the same at `a`
  suffices ∀ f : Flash, (s.tbl.foldl (fun f e => f.program (s.addr e.1) [ADR_ERASE_MARK]) f) a =
      f a from this s.flash
  generalize s.tbl = es at hentries
  induction es with
  | nil => exact fun f => rfl
  | cons e es ih =>
    intro f
    have he := hentries e List.mem_cons_self
    refine (ih (fun e' he' => hentries e' (List.mem_cons_of_mem e he')) _).trans ?_
    refine f.program_other ?_
    rw [addr_of_lt (by omega), List.length_singleton]
    omega

/-- The entries written to the start of the sector. -/
theorem Inside.rewrite (es : List (ℕ × MacAddr)) {n : ℕ} (hidx : s.cfgIdx = 8 * n - 8)
    (hlen : 8 * (n + es.length) ≤ FLASH_CUSTOM_PAIRING_MAX_SIZE) :
    Inside s (es.foldl (fun s e => { s with cfgIdx := wrapInt (s.cfgIdx + 8) }.addRecord e.2)
      s) := by
  induction es generalizing s n with
  | nil => exact .refl s
  | cons e es ih =>
    rw [List.length_cons] at hlen
    have hwrap : wrapInt (s.cfgIdx + 8) = 8 * n := by
      unfold FLASH_CUSTOM_PAIRING_MAX_SIZE at hlen
      rw [wrapInt_of_lt (by omega) (by omega)]
      omega
    have hadd := Inside.addRecord (s := { s with cfgIdx := wrapInt (s.cfgIdx + 8) }) e.2
      (by
        show 0 ≤ wrapInt (s.cfgIdx + 8)
        omega)
      (by
        show wrapInt (s.cfgIdx + 8) + 8 ≤ _
        omega)
    refine Inside.trans (t := { s with cfgIdx := wrapInt (s.cfgIdx + 8) }.addRecord e.2)
      ⟨hadd.sector, hadd.flash⟩ (ih (n := n + 1) ?_ (by omega))
    show wrapInt (s.cfgIdx + 8) = _
    omega

theorem Inside.clean (hlen : s.tbl.length ≤ USER_PAIR_ACL_PERIPHR_MAX_NUM) :
    Inside s s.userBondSlaveFlashClean := by
  unfold USER_PAIR_ACL_PERIPHR_MAX_NUM at hlen
  unfold userBondSlaveFlashClean
  split_ifs
  · exact .refl s
  · have herased : Inside s
        { s with
          flash := s.flash.erase s.sector FLASH_CUSTOM_PAIRING_MAX_SIZE
          cfgIdx := -8
          tbl := [] } := ⟨rfl, fun a ha => s.flash.erase_other ha⟩
    refine herased.trans (Inside.rewrite s.tbl (n := 0) rfl ?_)
    unfold FLASH_CUSTOM_PAIRING_MAX_SIZE
    omega

theorem Inside.reboot (h : s.reboot = some t) : Inside s t := by
  rw [CustomPair.reboot, userMasterHostPairingFlashInit, Option.map_eq_some_iff] at h
  obtain ⟨r, hr, rfl⟩ := h
  have hclean := Inside.clean (s := { s with cfgIdx := r.1 - 8, tbl := r.2 })
    (initLoop_le (Nat.zero_le _) hr)
  exact ⟨hclean.sector, hclean.flash⟩

/-- **The rest of the flash** is left alone. -/
theorem handle_outside (h : s.Bounded) {e : Event} (hrange : InRange (some s) e)
    (ht : s.handle e = some t) : Inside s t := by
  cases e with
  | add a =>
    cases ht
    exact h.add hrange a
  | deleteByAdr a =>
    cases ht
    unfold userTblSlaveMacDeleteByAdr
    cases s.tbl.findIdx? fun e => e.2.peer = a with
    | none => exact .refl s
    | some i => exact h.delete i
  | deleteAll =>
    cases ht
    exact h.deleteAll
  | clean =>
    cases ht
    exact .clean h.length_le
  | reboot => exact .reboot ht

end TcBle.Vendor.CustomPair
