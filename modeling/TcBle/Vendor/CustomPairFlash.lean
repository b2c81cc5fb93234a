import TcBle.Vendor.CustomPair
import TcBle.Foundation.Run

/-!
# The pairing table and its log

The table is what the log gives when it is read back: the records that are bonded, in their order.
The index of the last record keeps growing when the log is full, since `user_tbl_slave_mac_add`
moves it before it looks; after some 2^28 refused devices it wraps around, and a device is written
to no place in the sector.

## What is proved

* `agrees_iff` — in every state of a run a reboot gives the same table and the log has no more
  devices than the table holds, exactly when the index never wraps around.
-/

namespace TcBle.Vendor.CustomPair

open TcBle.Foundation TcBle.Foundation.Run

variable {s : CustomPair} {f g : Flash} {k : ℕ}

/-- The records of eight bytes in the sector. -/
def log (s : CustomPair) : FlashLog := ⟨s.sector, 8, FLASH_CUSTOM_PAIRING_MAX_SIZE / 8, by decide⟩

/-- The entry that record `i` gives. -/
def record (s : CustomPair) (f : Flash) (i : ℕ) : ℕ × MacAddr :=
    (i * 8, readMacAddr f (s.log.unit i))

/-- The entries that the first `k` records give. -/
def records (s : CustomPair) (f : Flash) (k : ℕ) : List (ℕ × MacAddr) :=
  (s.log.marked f ADR_BOND_MARK k).map (s.record f)

/-- The devices of the table, in their order. -/
def devices (s : CustomPair) : List MacAddr := s.tbl.map Prod.snd

/-- **The table and the log agree.** -/
structure Agrees (s : CustomPair) : Prop where
  /-- The log is read back as the table. -/
  scan : ∃ idx, s.initLoop (4096 / 8) 0 [] = some (idx, s.tbl)
  /-- A reboot gives the same devices in the same order. -/
  rebuild : ∃ s', s.reboot = some s' ∧ s'.devices = s.devices
  /-- The log has no more devices than the table can hold. -/
  live : (s.log.marked s.flash ADR_BOND_MARK s.log.num).length ≤ USER_PAIR_ACL_PERIPHR_MAX_NUM

/-- **The invariant**: `k` records of the log are used. -/
structure Holds (s : CustomPair) (k : ℕ) : Prop where
  /-- The records in use. -/
  filled : s.log.Filled s.flash k
  /-- The others are erased. -/
  fresh : ∀ i < s.log.num, k ≤ i → s.flash.Erased (s.log.unit i) 8
  /-- The table. -/
  tbl : s.tbl = s.records s.flash k
  /-- It is at most full. -/
  length_le : s.tbl.length ≤ USER_PAIR_ACL_PERIPHR_MAX_NUM
  /-- The index of the last record, which keeps growing when the log is full. -/
  last : s.cfgIdx = 8 * k - 8 ∨ k = s.log.num ∧ 8 * k - 8 ≤ s.cfgIdx
  /-- It is an `int`. -/
  lt : s.cfgIdx < 2 ^ 31

theorem num_log : s.log.num = 512 := rfl

theorem size_log : s.log.size = 8 := rfl

theorem wrapInt_of_lt {x : ℤ} (hlo : -2 ^ 31 ≤ x) (hhi : x < 2 ^ 31) : wrapInt x = x := by
  rw [wrapInt, Int.bmod_def]
  split_ifs <;> omega

/-- An `int` that overflows. -/
theorem wrapInt_of_ge {x : ℤ} (hlo : 2 ^ 31 ≤ x) (hhi : x < 2 ^ 32) : wrapInt x = x - 2 ^ 32 := by
  rw [wrapInt, Int.bmod_def]
  split_ifs <;> omega

/-- The address of a record. -/
theorem addr_eq {i : ℕ} (h : i < 512) : s.addr (i * 8) = s.log.unit i := by
  have hsector := s.sector_le
  unfold FLASH_CUSTOM_PAIRING_MAX_SIZE at hsector
  show (s.sector + i * 8) % 2 ^ 32 = s.sector + i * 8
  omega

theorem readMacAddr_congr {a : ℕ} (h : ∀ o < 8, g (a + o) = f (a + o)) :
    readMacAddr g a = readMacAddr f a := by
  have haddr : (fun i : Fin 6 => g (a + 2 + i)) = fun i : Fin 6 => f (a + 2 + i) :=
    funext fun i => by
    rw [Nat.add_assoc, h _ (by omega)]
  simp only [readMacAddr]
  rw [haddr, h 1 (by omega), show g a = f a from h 0 (by omega)]

/-- What is written to an erased record is read back. -/
theorem readMacAddr_program {a : ℕ} (h : f.Erased a 8) (d : MacAddr) :
    readMacAddr (f.program a d.bytes) a = d := by
  have hbyte : ∀ o < 8, f.program a d.bytes (a + o) = d.bytes.getD o 0xff := by
    intro o ho
    rw [Flash.program_get, h o ho, Flash.ff_and]
  have hpeer : ∀ o < 7, f.program a d.bytes (a + 1 + o) = d.peer.bytes.getD o 0xff := by
    intro o ho
    rw [Nat.add_assoc, Nat.add_comm 1 o, hbyte (o + 1) (by omega)]
    rfl
  obtain ⟨mark, ⟨adrType, addr⟩⟩ := d
  have haddr : (fun i : Fin 6 => f.program a (MacAddr.bytes ⟨mark, ⟨adrType, addr⟩⟩) (a + 2 + i)) =
    addr := funext fun i => by
    have := hpeer (i.val + 1) (by omega)
    rw [SdpStore.getD_bytes_succ] at this
    refine Eq.trans (congrArg _ ?_) this
    omega
  simp only [readMacAddr]
  rw [haddr, show f.program a _ a = mark from hbyte 0 (by omega),
    show f.program a _ (a + 1) = adrType from hpeer 0 (by omega)]

/-! ### Reading the log back -/

theorem records_succ (k : ℕ) : s.records f (k + 1) = s.records f k ++
    if s.log.mark f k = ADR_BOND_MARK then [s.record f k] else [] := by
  unfold records
  rw [FlashLog.marked_succ, List.map_append]
  split_ifs <;> rfl

theorem initLoop_eq (h : s.log.Filled s.flash k)
    (hlen : (s.records s.flash k).length ≤ USER_PAIR_ACL_PERIPHR_MAX_NUM)
    (n i : ℕ) (hi : i + n = 512) (hik : i ≤ k) :
    s.initLoop n (i * 8) (s.records s.flash i) = some (k * 8, s.records s.flash k) := by
  induction n generalizing i with
  | zero =>
    have := h.le
    have hk : i = k := by
      rw [num_log] at this
      omega
    rw [hk]
    rfl
  | succ n ih =>
    rw [initLoop, addr_eq (by omega)]
    rcases Nat.lt_or_eq_of_le hik with hlt | rfl
    · have hsucc := records_succ (s := s) (f := s.flash) i
      by_cases hmark : s.flash (s.log.unit i) = ADR_BOND_MARK
      · rw [if_pos (show s.log.mark s.flash i = _ from hmark)] at hsucc
        have hpre : (s.records s.flash (i + 1)).length ≤ (s.records s.flash k).length := by
          have := (FlashLog.marked_prefix (L := s.log) (f := s.flash) ADR_BOND_MARK hlt).length_le
          simpa [records] using this
        have hfree : (s.records s.flash i).length < USER_PAIR_ACL_PERIPHR_MAX_NUM := by
          rw [hsucc, List.length_append, List.length_singleton] at hpre
          omega
        rw [if_pos hmark, if_pos hfree]
        have := ih (i + 1) (by omega) hlt
        rwa [hsucc, Nat.add_mul] at this
      · rw [if_neg (show ¬s.log.mark s.flash i = _ from hmark), List.append_nil] at hsucc
        rw [if_neg hmark, if_neg (h.unit_used hlt)]
        have := ih (i + 1) (by omega) hlt
        rwa [hsucc, Nat.add_mul] at this
    · have hfree := h.unit_free (show i < s.log.num by rw [num_log]; omega) (le_refl i)
      rw [if_neg (by rw [hfree]; decide), if_pos hfree]

/-- **What the initialisation reads**: the entries of the records in use. -/
theorem scan_eq (h : s.log.Filled s.flash k)
    (hlen : (s.records s.flash k).length ≤ USER_PAIR_ACL_PERIPHR_MAX_NUM) :
    s.initLoop (4096 / 8) 0 [] = some (k * 8, s.records s.flash k) := by
  have := initLoop_eq h hlen 512 0 rfl (Nat.zero_le k)
  rwa [Nat.zero_mul] at this

/-! ### One record -/

/-- What is written within record `i` leaves the others alone. -/
theorem program_other {i j o : ℕ} {data : List UInt8} (hne : j ≠ i) (hlen : data.length ≤ 8)
    (ho : o < 8) :
    f.program (s.log.unit i) data (s.log.unit j + o) = f (s.log.unit j + o) :=
  FlashLog.program_unit_other (o := 0) hne (by rw [size_log]; omega) ho

theorem record_other {i j : ℕ} {data : List UInt8} (hne : j ≠ i) (hlen : data.length ≤ 8) :
    s.record (f.program (s.log.unit i) data) j = s.record f j :=
  congrArg (Prod.mk (j * 8)) (readMacAddr_congr fun _ ho => program_other hne hlen ho)

theorem mark_other {i j : ℕ} {data : List UInt8} (hne : j ≠ i) (hlen : data.length ≤ 8) :
    s.log.mark (f.program (s.log.unit i) data) j = s.log.mark f j :=
      program_other (o := 0) hne hlen (by simp)

/-- An entry of the table is that of a record in use. -/
theorem Holds.entry (h : s.Holds k) {i : ℕ} {e : ℕ × MacAddr} (he : s.tbl[i]? = some e) :
    ∃ (hi : i < (s.log.marked s.flash ADR_BOND_MARK k).length),
      e = s.record s.flash (s.log.marked s.flash ADR_BOND_MARK k)[i] := by
  rw [h.tbl, records, List.getElem?_map, Option.map_eq_some_iff] at he
  obtain ⟨u, hu, rfl⟩ := he
  obtain ⟨hi, rfl⟩ := List.getElem?_eq_some_iff.mp hu
  exact ⟨hi, rfl⟩

/-- **An entry is deleted.** -/
theorem Holds.delete (h : s.Holds k) (i : ℕ) : (s.userTblSlaveMacDeleteByIndex i).Holds k := by
  unfold userTblSlaveMacDeleteByIndex
  cases he : s.tbl[i]? with
  | none => exact h
  | some e =>
    obtain ⟨hi, rfl⟩ := h.entry he
    set us := s.log.marked s.flash ADR_BOND_MARK k with hus
    have hle := h.filled.le
    obtain ⟨huk, humark⟩ := FlashLog.mem_marked.mp (List.getElem_mem hi)
    set u := us[i] with hu
    have haddr : s.addr (s.record s.flash u).1 = s.log.unit u :=
      addr_eq (by rw [num_log] at hle; omega)
    simp only [markErased, haddr]
    set g := s.flash.program (s.log.unit u) [ADR_ERASE_MARK] with hg
    have hmark : s.log.mark g u = ADR_ERASE_MARK := by
      rw [FlashLog.mark, hg, Flash.program_singleton]
      exact UInt8.and_zero
    have hother : ∀ j, j ≠ u → s.log.mark g j = s.log.mark s.flash j :=
      fun j hj => mark_other hj (by simp)
    have htbl : s.tbl.eraseIdx i = s.records g k := by
      have hmarked : s.log.marked g ADR_BOND_MARK k = us.eraseIdx i := by
        rw [FlashLog.marked_remark (by rw [hmark]; decide) hother]
        exact List.Nodup.erase_getElem (FlashLog.nodup_marked _) i hi
      rw [h.tbl, records, List.eraseIdx_map, records, hmarked]
      refine List.map_congr_left fun j hj => (record_other ?_ (by simp)).symm
      rintro rfl
      have hnodup := FlashLog.nodup_marked (L := s.log) (f := s.flash) (k := k) ADR_BOND_MARK
      rw [← List.Nodup.erase_getElem hnodup i hi] at hj
      exact hnodup.not_mem_erase hj
    refine ⟨h.filled.remark huk (by rw [hmark]; decide) hother, fun j hj hkj o ho => ?_, htbl, ?_,
      h.last, h.lt⟩
    · exact (program_other (by omega) (by simp) ho).trans (h.fresh j hj hkj o ho)
    · exact (List.length_eraseIdx_le _ _).trans h.length_le

/-- **A device is written** to the next record. -/
theorem Holds.addRecord (h : s.Holds k) (hk : k < s.log.num) (hlast : s.cfgIdx = 8 * k - 8)
    (hlen : s.tbl.length < USER_PAIR_ACL_PERIPHR_MAX_NUM) {d : MacAddr}
    (hd : d.bondMark = ADR_BOND_MARK) :
    ({ s with cfgIdx := wrapInt (s.cfgIdx + 8) }.addRecord d).Holds (k + 1) ∧
      ({ s with cfgIdx := wrapInt (s.cfgIdx + 8) }.addRecord d).cfgIdx = (8 * k : ℤ) := by
  have hk' : k < 512 := hk
  have hcfg : wrapInt (s.cfgIdx + 8) = 8 * k := by
    rw [wrapInt_of_lt (by omega) (by omega)]
    omega
  have hidx : toU32 (8 * k) = k * 8 := by
    unfold toU32
    omega
  have haddr : CustomPair.addr { s with cfgIdx := 8 * (k : ℤ) } (k * 8) = s.log.unit k :=
    addr_eq (s := s) hk'
  simp only [CustomPair.addRecord, hcfg, hidx, haddr]
  set g := s.flash.program (s.log.unit k) d.bytes with hg
  have hbytes : d.bytes.length ≤ 8 := by
    rw [MacAddr.bytes, List.length_cons, SdpStore.length_bytes]
  have hread : readMacAddr g (s.log.unit k) = d := readMacAddr_program (h.fresh k hk (le_refl k)) d
  have hmark : s.log.mark g k = ADR_BOND_MARK := by
    rw [← hd, ← hread]
    rfl
  have hother : ∀ j, j ≠ k → s.log.mark g j = s.log.mark s.flash j :=
    fun j hj => mark_other hj hbytes
  refine ⟨⟨h.filled.take hk (by rw [hmark]; decide) hother, fun j hj hkj o ho => ?_, ?_, ?_, ?_,
    ?_⟩, trivial⟩
  · exact (program_other (by omega) hbytes ho).trans (h.fresh j hj (by omega) o ho)
  · have hnew : s.record g k = (k * 8, d) := congrArg (Prod.mk (k * 8)) hread
    show s.tbl ++ [(k * 8, d)] = s.records g (k + 1)
    rw [h.tbl, records, records, FlashLog.marked_take hmark hother, List.map_append,
      List.map_singleton, hnew]
    congr 1
    refine List.map_congr_left fun j hj => (record_other ?_ hbytes).symm
    exact (FlashLog.mem_marked.mp hj).1.ne
  · show (s.tbl ++ [(k * 8, d)]).length ≤ _
    rw [List.length_append, List.length_singleton]
    exact hlen
  · refine Or.inl ?_
    show (8 * k : ℤ) = 8 * (k + 1 : ℕ) - 8
    omega
  · show (8 * k : ℤ) < 2 ^ 31
    omega

theorem addRecord_devices (d : MacAddr) (s : CustomPair) :
    (s.addRecord d).devices = s.devices ++ [d] := by
  simp [devices, CustomPair.addRecord]

/-- All entries are deleted. -/
theorem Holds.deleteAll (h : s.Holds k) : s.userTblSlaveMacDeleteAll.Holds k := by
  generalize hn : s.tbl.length = n
  induction n generalizing s with
  | zero =>
    have hnil : s.tbl = [] := List.length_eq_zero_iff.mp hn
    have hsame : s.userTblSlaveMacDeleteAll = s := by
      cases s
      cases hnil
      rfl
    rw [hsame]
    exact h
  | succ n ih =>
    obtain ⟨e, rest, hcons⟩ := List.exists_cons_of_length_eq_add_one hn
    have hfirst : s.userTblSlaveMacDeleteByIndex 0 = { s.markErased e.1 with tbl := rest } := by
      rw [userTblSlaveMacDeleteByIndex, hcons]
      rfl
    have hstep : s.userTblSlaveMacDeleteAll =
      (s.userTblSlaveMacDeleteByIndex 0).userTblSlaveMacDeleteAll := by
      rw [hfirst, userTblSlaveMacDeleteAll, hcons]
      rfl
    rw [hstep]
    refine ih (h.delete 0) ?_
    rw [hfirst]
    rw [hcons, List.length_cons] at hn
    exact Nat.succ.inj hn

/-! ### The operations -/

/-- A device of the table has its mark. -/
theorem Holds.bondMark (h : s.Holds k) : ∀ d ∈ s.devices, d.bondMark = ADR_BOND_MARK := by
  intro d hd
  rw [devices, h.tbl, records, List.map_map] at hd
  obtain ⟨i, hi, rfl⟩ := List.mem_map.mp hd
  exact (FlashLog.mem_marked.mp hi).2

/-- Devices are written one after the other. -/
theorem Holds.rewrite (h : s.Holds k) (hlast : s.cfgIdx = 8 * k - 8) (es : List (ℕ × MacAddr))
    (hlen : s.tbl.length + es.length ≤ USER_PAIR_ACL_PERIPHR_MAX_NUM)
    (hk : k + es.length ≤ s.log.num)
    (hmark : ∀ d ∈ es.map Prod.snd, d.bondMark = ADR_BOND_MARK) :
    ∃ k',
      (es.foldl (fun s e => { s with cfgIdx := wrapInt (s.cfgIdx + 8) }.addRecord e.2) s).Holds k' ∧
      (es.foldl (fun s e => { s with cfgIdx := wrapInt (s.cfgIdx + 8) }.addRecord e.2) s).devices =
        s.devices ++ es.map Prod.snd := by
  induction es generalizing s k with
  | nil => exact ⟨k, h, (List.append_nil _).symm⟩
  | cons e es ih =>
    rw [List.length_cons] at hlen hk
    rw [List.map_cons, List.forall_mem_cons] at hmark
    obtain ⟨hadd, hcfg⟩ := h.addRecord (by omega) hlast (by omega) hmark.1
    set s₁ := { s with cfgIdx := wrapInt (s.cfgIdx + 8) }.addRecord e.2 with hs₁
    have hlen₁ : s₁.tbl.length = s.tbl.length + 1 := by simp [hs₁, CustomPair.addRecord]
    have hnum : s₁.log.num = s.log.num := rfl
    obtain ⟨k', hholds, hdev⟩ := ih hadd (by rw [hcfg]; omega) (by omega) (by omega) hmark.2
    refine ⟨k', hholds, hdev.trans ?_⟩
    rw [hs₁, addRecord_devices, List.append_assoc]
    rfl

/-- **The log is cleaned**, if it is half full. -/
theorem Holds.clean (h : s.Holds k) : ∃ k', s.userBondSlaveFlashClean.Holds k' ∧
    s.userBondSlaveFlashClean.devices = s.devices := by
  unfold userBondSlaveFlashClean
  split_ifs
  · exact ⟨k, h, rfl⟩
  · have herased : ∀ i < s.log.num, (s.flash.erase s.sector FLASH_CUSTOM_PAIRING_MAX_SIZE).Erased
      (s.log.unit i) 8 := by
        intro i hi o ho
        rw [num_log] at hi
        have hunit : s.log.unit i = s.sector + i * 8 := rfl
        refine Flash.erase_get _ (by omega) ?_
        rw [hunit, FLASH_CUSTOM_PAIRING_MAX_SIZE]
        omega
    have hempty : ({ s with
        flash := s.flash.erase s.sector FLASH_CUSTOM_PAIRING_MAX_SIZE
        cfgIdx := -8
        tbl := [] } : CustomPair).Holds 0 := by
      refine ⟨⟨Nat.zero_le _, fun i hi => absurd hi (Nat.not_lt_zero i), fun i hi _ => ?_⟩,
        fun i hi _ => herased i hi,
        rfl, Nat.zero_le _, Or.inl rfl, show (-8 : ℤ) < 2 ^ 31 by decide⟩
      exact herased i hi 0 (by simp)
    have hlen := h.length_le
    have hnum : s.log.num = 512 := rfl
    have hmax : USER_PAIR_ACL_PERIPHR_MAX_NUM = 4 := rfl
    obtain ⟨k', hholds, hdev⟩ := hempty.rewrite rfl s.tbl (by simpa using hlen)
      (show 0 + s.tbl.length ≤ 512 by omega) h.bondMark
    exact ⟨k', hholds, hdev⟩

/-- **The table is read back** from the log after a reboot. -/
theorem reboot_of_log (hfilled : s.log.Filled s.flash k)
    (hfresh : ∀ i < s.log.num, k ≤ i → s.flash.Erased (s.log.unit i) 8)
    (hlen : (s.records s.flash k).length ≤ USER_PAIR_ACL_PERIPHR_MAX_NUM) :
    ∃ s' k', s.reboot = some s' ∧ s'.Holds k' ∧
      s'.devices = (s.records s.flash k).map Prod.snd := by
  have hscan : CustomPair.initLoop { s with tbl := [] } (4096 / 8) 0 [] =
    some (k * 8, s.records s.flash k) :=
    scan_eq (s := { s with tbl := [] }) hfilled hlen
  have hk : k ≤ 512 := hfilled.le
  have hread : ({ s with cfgIdx := (k * 8 : ℕ) - 8, tbl := s.records s.flash k } :
    CustomPair).Holds k :=
    ⟨hfilled, hfresh, rfl, hlen, Or.inl (by push_cast; omega),
      show ((k * 8 : ℕ) - 8 : ℤ) < 2 ^ 31 by omega⟩
  obtain ⟨k', hholds, hdev⟩ := hread.clean
  refine ⟨_, k', ?_, hholds, hdev⟩
  rw [CustomPair.reboot, userMasterHostPairingFlashInit, hscan]
  rfl

theorem Holds.reboot (h : s.Holds k) : ∃ s' k', s.reboot = some s' ∧ s'.Holds k' ∧
    s'.devices = s.devices := by
  rw [devices, h.tbl]
  exact reboot_of_log h.filled h.fresh (h.tbl ▸ h.length_le)

/-- The table and the log agree. -/
theorem Holds.agrees (h : s.Holds k) : s.Agrees := by
  obtain ⟨s', k', hreboot, -, hdev⟩ := h.reboot
  refine ⟨⟨k * 8, ?_⟩, ⟨s', hreboot, hdev⟩, ?_⟩
  · rw [h.tbl]
    exact scan_eq h.filled (h.tbl ▸ h.length_le)
  · have hlen := h.length_le
    rw [h.tbl, records, List.length_map] at hlen
    rwa [h.filled.marked_num (by decide)]

/-! ### Adding a device -/

/-- The table with room for a device. -/
def makeRoom (s : CustomPair) : CustomPair :=
  if s.tbl.length ≥ USER_PAIR_ACL_PERIPHR_MAX_NUM then s.userTblSlaveMacDeleteByIndex 0 else s

theorem deleteByIndex_cfgIdx (i : ℕ) (s : CustomPair) :
    (s.userTblSlaveMacDeleteByIndex i).cfgIdx = s.cfgIdx := by
  unfold userTblSlaveMacDeleteByIndex
  split <;> rfl

theorem makeRoom_cfgIdx (s : CustomPair) : s.makeRoom.cfgIdx = s.cfgIdx := by
  unfold makeRoom
  split_ifs
  · exact deleteByIndex_cfgIdx 0 s
  · rfl

theorem Holds.makeRoom (h : s.Holds k) :
    s.makeRoom.Holds k ∧ s.makeRoom.tbl.length < USER_PAIR_ACL_PERIPHR_MAX_NUM := by
  unfold CustomPair.makeRoom
  split_ifs with hfull
  · refine ⟨h.delete 0, ?_⟩
    have hlen := h.length_le
    have hpos : 0 < s.tbl.length := Nat.lt_of_lt_of_le (by decide) hfull
    unfold userTblSlaveMacDeleteByIndex
    rw [List.getElem?_eq_getElem hpos]
    show (s.tbl.eraseIdx 0).length < _
    rw [List.length_eraseIdx_of_lt hpos]
    omega
  · exact ⟨h, not_le.mp hfull⟩

/-- The index does not wrap around. -/
def InRange : Option CustomPair → Event → Prop
  | some s, .add _ => s.cfgIdx + 8 < 2 ^ 31
  | _, _ => True

theorem add_eq (a : PeerAddr) (s : CustomPair) : s.userTblSlaveMacAdd a =
    if wrapInt (s.makeRoom.cfgIdx + 8) ≥ (FLASH_CUSTOM_PAIRING_MAX_SIZE : ℤ) then
      ({ s.makeRoom with cfgIdx := wrapInt (s.makeRoom.cfgIdx + 8) }, 0)
    else ({ s.makeRoom with cfgIdx := wrapInt (s.makeRoom.cfgIdx + 8) }.addRecord
      ⟨ADR_BOND_MARK, a⟩, 1) := rfl

theorem Holds.neg_le (h : s.Holds k) : -8 ≤ s.cfgIdx := by
  rcases h.last with hlast | ⟨-, hlast⟩
  · omega
  · omega

/-- **A device is added**, or refused by a log that is full. -/
theorem Holds.add (h : s.Holds k) (hrange : s.cfgIdx + 8 < 2 ^ 31) (a : PeerAddr) :
    ∃ k', (s.userTblSlaveMacAdd a).1.Holds k' := by
  obtain ⟨hroom, hlen⟩ := h.makeRoom
  have hcfg := s.makeRoom_cfgIdx
  have hneg := h.neg_le
  have hwrap : wrapInt (s.makeRoom.cfgIdx + 8) = s.cfgIdx + 8 := by
    rw [hcfg, wrapInt_of_lt (by omega) hrange]
  rw [add_eq]
  split_ifs with hfull
  · refine ⟨k, hroom.filled, hroom.fresh, hroom.tbl, hroom.length_le, Or.inr ?_, ?_⟩
    · rw [hwrap, FLASH_CUSTOM_PAIRING_MAX_SIZE] at hfull
      have hk : k ≤ 512 := h.filled.le
      have hnum : s.makeRoom.log.num = 512 := rfl
      have hlast : 8 * (k : ℤ) - 8 ≤ s.cfgIdx := by
        rcases h.last with hlast | ⟨-, hlast⟩
        · exact hlast.ge
        · exact hlast
      show k = 512 ∧ 8 * (k : ℤ) - 8 ≤ wrapInt (s.makeRoom.cfgIdx + 8)
      rw [hwrap]
      rcases h.last with hlast | ⟨hk, -⟩
      · omega
      · exact ⟨hk, by omega⟩
    · show wrapInt (s.makeRoom.cfgIdx + 8) < 2 ^ 31
      rw [hwrap]
      exact hrange
  · rw [hwrap, FLASH_CUSTOM_PAIRING_MAX_SIZE] at hfull
    have hnum : s.log.num = 512 := rfl
    rcases h.last with hlast | ⟨hk, hlast⟩
    · refine ⟨k + 1, (hroom.addRecord (show k < 512 by omega) (hcfg.trans hlast) hlen rfl).1⟩
    · omega

/-- A device that is added when the index wraps around is not in the log. -/
theorem Holds.not_agrees (h : s.Holds k) (hrange : ¬s.cfgIdx + 8 < 2 ^ 31) (a : PeerAddr) :
    ¬(s.userTblSlaveMacAdd a).1.Agrees := by
  obtain ⟨hroom, hlen⟩ := h.makeRoom
  have hcfg := s.makeRoom_cfgIdx
  have hlt := h.lt
  have hsector := s.makeRoom.sector_le
  have hwrap : wrapInt (s.makeRoom.cfgIdx + 8) = s.cfgIdx + 8 - 2 ^ 32 := by
    rw [hcfg, wrapInt_of_ge (by omega) (by omega)]
  rw [add_eq, hwrap, if_neg (by rw [FLASH_CUSTOM_PAIRING_MAX_SIZE]; omega)]
  set s' := { s.makeRoom with cfgIdx := s.cfgIdx + 8 - 2 ^ 32 }.addRecord
    ⟨ADR_BOND_MARK, a⟩ with hs'
  rintro ⟨⟨idx, hscan⟩, -, -⟩
  -- the record is written past the sector, so the log still gives the other entries
  have hmark : ∀ i < s.makeRoom.log.num, s'.log.mark s'.flash i =
    s.makeRoom.log.mark s.makeRoom.flash i := by
    intro i hi
    refine Flash.program_other _ (Or.inl ?_)
    have hidx : toU32 (s.cfgIdx + 8 - 2 ^ 32) = (s.cfgIdx + 8).toNat := by
      unfold toU32
      omega
    rw [num_log] at hi
    rw [FLASH_CUSTOM_PAIRING_MAX_SIZE] at hsector
    show s.makeRoom.sector + i * 8 < (s.makeRoom.sector + toU32 (s.cfgIdx + 8 - 2 ^ 32)) % 2 ^ 32
    omega
  have hfilled : s'.log.Filled s'.flash k := hroom.filled.congr hmark
  have hlenRecords : (s'.records s'.flash k).length = s.makeRoom.tbl.length := by
    rw [hroom.tbl, records, records, List.length_map, List.length_map]
    exact congrArg List.length (FlashLog.marked_congr fun i hi =>
      hmark i (hi.trans_le hroom.filled.le))
  have hread := scan_eq hfilled (by rw [hlenRecords]; exact hroom.length_le)
  rw [hscan, Option.some.injEq, Prod.mk.injEq] at hread
  have hlength := congrArg List.length hread.2
  rw [hlenRecords, hs', CustomPair.addRecord, List.length_append, List.length_singleton] at hlength
  exact absurd hlength (Nat.succ_ne_self s.makeRoom.tbl.length)

/-! ### Runs -/

/-- The module is out of its endless loop, and the table and the log agree. -/
def Good (s : Option CustomPair) : Prop := ∃ p, s = some p ∧ p.Agrees

/-- The module as the events leave it. -/
def Ok (s : Option CustomPair) : Prop := ∃ p k, s = some p ∧ p.Holds k

theorem Ok.good {s : Option CustomPair} (h : Ok s) : Good s := by
  obtain ⟨p, k, rfl, hp⟩ := h
  exact ⟨p, rfl, hp.agrees⟩

theorem Ok.next {s : Option CustomPair} (h : Ok s) {e : Event} (hrange : InRange s e) :
    Ok (step s e) := by
  obtain ⟨p, k, rfl, hp⟩ := h
  cases e with
  | add a =>
    obtain ⟨k', hadd⟩ := hp.add hrange a
    exact ⟨_, k', rfl, hadd⟩
  | deleteByAdr a =>
    refine ⟨_, k, rfl, ?_⟩
    unfold userTblSlaveMacDeleteByAdr
    split
    · exact hp.delete _
    · exact hp
  | deleteAll => exact ⟨_, k, rfl, hp.deleteAll⟩
  | clean =>
    obtain ⟨k', hclean, -⟩ := hp.clean
    exact ⟨_, k', rfl, hclean⟩
  | reboot =>
    obtain ⟨p', k', hreboot, hp', -⟩ := hp.reboot
    exact ⟨p', k', hreboot, hp'⟩

theorem Ok.not_good {s : Option CustomPair} (h : Ok s) {e : Event} (hrange : ¬InRange s e) :
    ¬Good (step s e) := by
  obtain ⟨p, k, rfl, hp⟩ := h
  cases e with
  | add a =>
    rintro ⟨p', hstep, hagrees⟩
    rw [← Option.some.inj hstep] at hagrees
    exact hp.not_agrees hrange a hagrees
  | deleteByAdr a => exact absurd trivial hrange
  | deleteAll => exact absurd trivial hrange
  | clean => exact absurd trivial hrange
  | reboot => exact absurd trivial hrange

/-- An erased sector, before the first start. -/
def Blank (s : CustomPair) : Prop := s.flash.Erased s.sector FLASH_CUSTOM_PAIRING_MAX_SIZE

theorem Blank.fresh (h : s.Blank) : ∀ i < s.log.num, s.flash.Erased (s.log.unit i) 8 := by
  intro i hi o ho
  have hunit : s.log.unit i = s.sector + i * 8 := rfl
  rw [num_log] at hi
  rw [hunit, Nat.add_assoc]
  refine h _ ?_
  rw [FLASH_CUSTOM_PAIRING_MAX_SIZE]
  omega

/-- The first start finds no device. -/
theorem Blank.reboot (h : s.Blank) : s.reboot = some { s with cfgIdx := -8, tbl := [] } ∧
    ({ s with cfgIdx := -8, tbl := [] } : CustomPair).Holds 0 := by
  have hfilled : s.log.Filled s.flash 0 :=
    ⟨Nat.zero_le _, fun i hi => absurd hi (Nat.not_lt_zero i),
      fun i hi _ => h.fresh i hi 0 (by simp)⟩
  have hscan : CustomPair.initLoop { s with tbl := [] } (4096 / 8) 0 [] = some (0 * 8, []) :=
    scan_eq (s := { s with tbl := [] }) hfilled (Nat.zero_le _)
  refine ⟨?_, hfilled, fun i hi _ => h.fresh i hi, rfl, Nat.zero_le _, Or.inl rfl,
    show (-8 : ℤ) < 2 ^ 31 by decide⟩
  rw [CustomPair.reboot, userMasterHostPairingFlashInit, hscan]
  rfl

theorem ok_of_blank (h : s.Blank) : Ok s.reboot := ⟨_, 0, h.reboot.1, h.reboot.2⟩

/-- **The table and the log agree** in every state of a run exactly when the index never wraps
around. -/
theorem agrees_iff (s : CustomPair) (hblank : s.Blank) (run : List Event) :
    (∀ pre, pre <+: run → Good (pre.foldl step s.reboot)) ↔ Along step InRange s.reboot run :=
  Along.iff_forall_prefix (ok_of_blank hblank) (fun _ h => Ok.good h)
    (fun _ _ h hrange => Ok.next h hrange)
    (fun _ _ h hrange => Ok.not_good h hrange) run

/-! ### The index wraps around -/

theorem add_cfgIdx (a : PeerAddr) (s : CustomPair) :
    (s.userTblSlaveMacAdd a).1.cfgIdx = wrapInt (s.cfgIdx + 8) := by
  rw [add_eq, ← makeRoom_cfgIdx s]
  split_ifs <;> rfl

/-- Adding devices moves the index on. -/
theorem Holds.replicate_add (h : s.Holds 0) (hcfg : s.cfgIdx = -8) (a : PeerAddr) (n : ℕ)
    (hn : n ≤ 2 ^ 28) :
    ∃ p k, (List.replicate n (Event.add a)).foldl step (some s) = some p ∧ p.Holds k ∧
      p.cfgIdx = 8 * n - 8 := by
  induction n with
  | zero => exact ⟨s, 0, rfl, h, by omega⟩
  | succ n ih =>
    obtain ⟨p, k, hrun, hp, hidx⟩ := ih (by omega)
    have hrange : p.cfgIdx + 8 < 2 ^ 31 := by omega
    obtain ⟨k', hadd⟩ := hp.add hrange a
    refine ⟨(p.userTblSlaveMacAdd a).1, k', ?_, hadd, ?_⟩
    · rw [List.replicate_succ', List.foldl_append, hrun]
      rfl
    · rw [add_cfgIdx, wrapInt_of_lt (by omega) hrange]
      omega

/-- A sector that is erased. -/
def erased : CustomPair := ⟨0x76000, by decide, fun _ => 0xff, 0, []⟩

/-- A device. -/
def someDevice : PeerAddr := ⟨0, fun _ => 0⟩

/-- One device, which is then deleted, and a reboot. -/
theorem erased_agrees :
    Good ([.add someDevice, .deleteByAdr someDevice, .reboot].foldl step erased.reboot) := by
  refine (agrees_iff erased (fun _ _ => rfl)
    [.add someDevice, .deleteByAdr someDevice, .reboot]).mpr
    ⟨?_, trivial, trivial, trivial⟩ _ List.prefix_rfl
  rw [(Blank.reboot (s := erased) fun _ _ => rfl).1]
  show (-8 : ℤ) + 8 < 2 ^ 31
  decide

/-- After 2^28 devices, of which the log took 512, one more is not found after a reboot. -/
theorem erased_overflows :
    ¬Good ((List.replicate (2 ^ 28 + 1) (Event.add someDevice)).foldl step erased.reboot) := by
  obtain ⟨hreboot, hstart⟩ := Blank.reboot (s := erased) fun _ _ => rfl
  obtain ⟨p, k, hrun, hp, hidx⟩ := hstart.replicate_add rfl someDevice (2 ^ 28) (le_refl _)
  rw [hreboot, List.replicate_succ', List.foldl_append, hrun]
  rintro ⟨p', hstep, hagrees⟩
  rw [← Option.some.inj hstep] at hagrees
  exact hp.not_agrees (by omega) someDevice hagrees

end TcBle.Vendor.CustomPair
