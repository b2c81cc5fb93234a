import TcBle.Vendor.CustomPairFlash

/-!
# A device that is refused

`user_tbl_slave_mac_add` makes room in the table and moves the index of the last record before it
looks whether the sector has room. It takes neither back when the device is refused.

## What is proved

* `atomic_iff` — a call is atomic exactly when the sector has room.
* `lossless_iff` — a call that is refused loses no device exactly when the table is not full.
* `adds_atomic_iff` — all calls of a run are atomic exactly when the sector has room at each.
-/

namespace TcBle.Vendor.CustomPair

open TcBle.Foundation TcBle.Foundation.Run

variable {s : CustomPair} {k : ℕ}

/-- The bonded records of the whole sector. -/
def live (s : CustomPair) : List (ℕ × MacAddr) := s.records s.flash s.log.num

/-- A call adds the device or changes nothing. -/
structure Atomic (s : CustomPair) (a : PeerAddr) : Prop where
  /-- A device that is refused. -/
  refused : (s.userTblSlaveMacAdd a).2 = 0 → (s.userTblSlaveMacAdd a).1.tbl = s.tbl ∧
    (s.userTblSlaveMacAdd a).1.live = s.live ∧ (s.userTblSlaveMacAdd a).1.cfgIdx = s.cfgIdx
  /-- A device that is taken comes last, and the oldest one is gone if the table was full. -/
  taken : (s.userTblSlaveMacAdd a).2 ≠ 0 → ∃ idx, (s.userTblSlaveMacAdd a).1.tbl =
    (if s.tbl.length ≥ USER_PAIR_ACL_PERIPHR_MAX_NUM then s.tbl.tail else s.tbl) ++
      [(idx, ⟨ADR_BOND_MARK, a⟩)]

/-- The calls of a run that add a device are atomic. -/
def AddsAtomic : Option CustomPair → Event → Prop
  | some s, .add a => s.Atomic a
  | _, _ => True

/-- There is room in the sector for a device that is added. -/
def HasRoom : Option CustomPair → Event → Prop
  | some s, .add _ => s.cfgIdx + 8 < (FLASH_CUSTOM_PAIRING_MAX_SIZE : ℤ)
  | _, _ => True

/-! ### One call -/

theorem makeRoom_tbl (s : CustomPair) : s.makeRoom.tbl =
    if s.tbl.length ≥ USER_PAIR_ACL_PERIPHR_MAX_NUM then s.tbl.tail else s.tbl := by
  unfold makeRoom
  split_ifs with hfull
  · have hpos : 0 < s.tbl.length := Nat.lt_of_lt_of_le (by decide) hfull
    rw [userTblSlaveMacDeleteByIndex, List.getElem?_eq_getElem hpos]
    exact List.eraseIdx_zero
  · rfl

/-- An `int` is moved by the addition. -/
theorem wrapInt_add_ne (x : ℤ) : wrapInt (x + 8) ≠ x := by
  rw [wrapInt, Int.bmod_def]
  split_ifs <;> omega

/-- A call is refused at the end of the sector. -/
theorem add_refused_iff (s : CustomPair) (a : PeerAddr) : (s.userTblSlaveMacAdd a).2 = 0 ↔
    ¬wrapInt (s.cfgIdx + 8) < (FLASH_CUSTOM_PAIRING_MAX_SIZE : ℤ) := by
  rw [add_eq, makeRoom_cfgIdx, not_lt]
  by_cases hfull : wrapInt (s.cfgIdx + 8) ≥ (FLASH_CUSTOM_PAIRING_MAX_SIZE : ℤ)
  · rw [if_pos hfull]
    exact iff_of_true rfl hfull
  · rw [if_neg hfull]
    exact iff_of_false Nat.one_ne_zero hfull

/-- **A call is atomic** exactly when it is not refused: the index has moved before. -/
theorem atomic_iff (s : CustomPair) (a : PeerAddr) :
    s.Atomic a ↔ wrapInt (s.cfgIdx + 8) < (FLASH_CUSTOM_PAIRING_MAX_SIZE : ℤ) := by
  constructor
  · intro hatomic
    by_contra hfull
    have hcfg := (hatomic.refused ((add_refused_iff s a).mpr hfull)).2.2
    rw [add_cfgIdx] at hcfg
    exact wrapInt_add_ne s.cfgIdx hcfg
  · intro hroom
    refine ⟨fun hrefused => absurd hroom ((add_refused_iff s a).mp hrefused), fun _ => ?_⟩
    rw [add_eq, makeRoom_cfgIdx, if_neg (not_le.mpr hroom), ← makeRoom_tbl]
    exact ⟨_, rfl⟩

/-- **A call that is refused** loses no device exactly when the table is not full. -/
theorem lossless_iff {a : PeerAddr} (hrefused : (s.userTblSlaveMacAdd a).2 = 0) :
    (s.userTblSlaveMacAdd a).1.tbl = s.tbl ∧ (s.userTblSlaveMacAdd a).1.live = s.live ↔
      s.tbl.length < USER_PAIR_ACL_PERIPHR_MAX_NUM := by
  have hfull := (add_refused_iff s a).mp hrefused
  rw [add_eq, makeRoom_cfgIdx, if_pos (not_lt.mp hfull)]
  constructor
  · rintro ⟨htbl, -⟩
    by_contra hlen
    have hlength := congrArg List.length (htbl.symm.trans (makeRoom_tbl s))
    rw [if_pos (not_lt.mp hlen), List.length_tail] at hlength
    have hmax : USER_PAIR_ACL_PERIPHR_MAX_NUM = 4 := rfl
    omega
  · intro hlen
    have hroom : s.makeRoom = s := if_neg (not_le.mpr hlen)
    rw [hroom]
    exact ⟨rfl, rfl⟩

/-! ### The index -/

/-- The index in a run whose devices all find room. -/
def InSector (s : Option CustomPair) : Prop :=
  Ok s ∧ ∀ p ∈ s, p.cfgIdx < (FLASH_CUSTOM_PAIRING_MAX_SIZE : ℤ)

theorem rewrite_cfgIdx (es : List (ℕ × MacAddr)) (s : CustomPair)
    (hneg : -8 ≤ s.cfgIdx) (hlt : s.cfgIdx + 8 * es.length < 2 ^ 31) :
    (es.foldl (fun s e => { s with cfgIdx := wrapInt (s.cfgIdx + 8) }.addRecord e.2) s).cfgIdx =
      s.cfgIdx + 8 * es.length := by
  induction es generalizing s with
  | nil => simp
  | cons e es ih =>
    rw [List.length_cons] at hlt ⊢
    have hwrap : wrapInt (s.cfgIdx + 8) = s.cfgIdx + 8 := wrapInt_of_lt (by omega) (by omega)
    rw [List.foldl_cons, ih]
    · show wrapInt (s.cfgIdx + 8) + 8 * (es.length : ℤ) = _
      rw [hwrap]
      omega
    · show -8 ≤ wrapInt (s.cfgIdx + 8)
      omega
    · show wrapInt (s.cfgIdx + 8) + 8 * (es.length : ℤ) < 2 ^ 31
      omega

/-- The index after the sector is cleaned. -/
theorem clean_cfgIdx (hlen : s.tbl.length ≤ USER_PAIR_ACL_PERIPHR_MAX_NUM) :
    s.userBondSlaveFlashClean.cfgIdx < (FLASH_CUSTOM_PAIRING_MAX_SIZE : ℤ) := by
  have hmax : USER_PAIR_ACL_PERIPHR_MAX_NUM = 4 := rfl
  unfold userBondSlaveFlashClean FLASH_CUSTOM_PAIRING_MAX_SIZE
  split_ifs with hhalf
  · omega
  · rw [rewrite_cfgIdx _ _ (le_refl (-8)) (show (-8 : ℤ) + 8 * s.tbl.length < 2 ^ 31 by omega)]
    show (-8 : ℤ) + 8 * s.tbl.length < 4096
    omega

/-- What the loop of the initialisation gives. -/
theorem initLoop_le {n idx : ℕ} {tbl : List (ℕ × MacAddr)} {r : ℕ × List (ℕ × MacAddr)}
    (hlen : tbl.length ≤ USER_PAIR_ACL_PERIPHR_MAX_NUM) (h : s.initLoop n idx tbl = some r) :
    r.2.length ≤ USER_PAIR_ACL_PERIPHR_MAX_NUM := by
  induction n generalizing idx tbl with
  | zero =>
    obtain rfl := Option.some.inj h
    exact hlen
  | succ n ih =>
    rw [initLoop] at h
    split_ifs at h with hmark hroom hend
    · refine ih ?_ h
      rw [List.length_append]
      exact hroom
    · obtain rfl := Option.some.inj h
      exact hlen
    · exact ih hlen h

/-- A reboot leaves the index in the sector. -/
theorem reboot_cfgIdx {s' : CustomPair} (h : s.reboot = some s') :
    s'.cfgIdx < (FLASH_CUSTOM_PAIRING_MAX_SIZE : ℤ) := by
  rw [CustomPair.reboot, userMasterHostPairingFlashInit] at h
  obtain ⟨r, hr, rfl⟩ := Option.map_eq_some_iff.mp h
  exact clean_cfgIdx (initLoop_le (Nat.zero_le _) hr)

theorem InSector.next {s : Option CustomPair} (h : InSector s) {e : Event} (hroom : HasRoom s e) :
    InSector (step s e) := by
  obtain ⟨⟨p, k, rfl, hp⟩, hcfg⟩ := h
  have hlt := hcfg p rfl
  have hrange : InRange (some p) e := by
    cases e with
    | add a =>
      show p.cfgIdx + 8 < 2 ^ 31
      rw [FLASH_CUSTOM_PAIRING_MAX_SIZE] at hlt
      omega
    | _ => trivial
  refine ⟨Ok.next ⟨p, k, rfl, hp⟩ hrange, fun p' hp' => ?_⟩
  cases e with
  | add a =>
    rw [← Option.some.inj hp', add_cfgIdx, wrapInt_of_lt _ hrange]
    · exact hroom
    · have := hp.neg_le
      omega
  | deleteByAdr a =>
    rw [← Option.some.inj hp', userTblSlaveMacDeleteByAdr]
    split
    · rw [deleteByIndex_cfgIdx]
      exact hlt
    · exact hlt
  | deleteAll =>
    rw [← Option.some.inj hp']
    exact hlt
  | clean =>
    rw [← Option.some.inj hp']
    exact clean_cfgIdx hp.length_le
  | reboot => exact reboot_cfgIdx hp'

/-! ### Runs -/

/-- **Adding devices over a run**: every call is atomic exactly when every call finds room in the
sector. -/
theorem adds_atomic_iff (s : CustomPair) (hblank : s.Blank) (run : List Event) :
    Along step AddsAtomic s.reboot run ↔ Along step HasRoom s.reboot run := by
  refine Along.iff_along (fun s e (h : InSector s) => ?_) (fun s e h hroom => h.next hroom)
    ⟨ok_of_blank hblank, fun p hp => reboot_cfgIdx hp⟩ run
  obtain ⟨⟨p, k, rfl, hp⟩, hcfg⟩ := h
  cases e with
  | add a =>
    have hlt := hcfg p rfl
    have hneg := hp.neg_le
    rw [FLASH_CUSTOM_PAIRING_MAX_SIZE] at hlt
    have hiff := p.atomic_iff a
    rwa [wrapInt_of_lt (by omega) (by omega)] at hiff
  | _ => exact Iff.rfl

/-! ### A full table and a full sector -/

theorem add_length (h : wrapInt (s.cfgIdx + 8) < (FLASH_CUSTOM_PAIRING_MAX_SIZE : ℤ))
    (a : PeerAddr) (hlen : s.tbl.length ≤ USER_PAIR_ACL_PERIPHR_MAX_NUM) :
    (s.userTblSlaveMacAdd a).1.tbl.length =
      min (s.tbl.length + 1) USER_PAIR_ACL_PERIPHR_MAX_NUM := by
  have hmax : USER_PAIR_ACL_PERIPHR_MAX_NUM = 4 := rfl
  obtain ⟨idx, htbl⟩ := ((atomic_iff s a).mpr h).taken
    (fun hrefused => (add_refused_iff s a).mp hrefused h)
  rw [htbl, List.length_append, List.length_singleton]
  split_ifs with hfull
  · rw [List.length_tail]
    omega
  · omega

/-- The table is full after four devices. -/
theorem Holds.replicate_add_length (h : s.Holds 0) (hcfg : s.cfgIdx = -8) (a : PeerAddr) (n : ℕ)
    (hn : n ≤ 512) {p : CustomPair}
    (hp : (List.replicate n (Event.add a)).foldl step (some s) = some p) :
    p.tbl.length = min n USER_PAIR_ACL_PERIPHR_MAX_NUM := by
  induction n generalizing p with
  | zero =>
    obtain rfl := Option.some.inj hp
    rw [h.tbl]
    rfl
  | succ n ih =>
    obtain ⟨q, k, hrun, hq, hidx⟩ := h.replicate_add hcfg a n (by omega)
    rw [List.replicate_succ', List.foldl_append, hrun] at hp
    obtain rfl := Option.some.inj hp
    have hroom : wrapInt (q.cfgIdx + 8) < (FLASH_CUSTOM_PAIRING_MAX_SIZE : ℤ) := by
      rw [wrapInt_of_lt (by omega) (by omega), FLASH_CUSTOM_PAIRING_MAX_SIZE]
      omega
    rw [add_length hroom a hq.length_le, ih (by omega) hrun]
    omega

/-- **A refused device takes another one away**: 512 devices fill the sector, of which the table
has four; it has three after the next one, which is refused. -/
theorem full_loses :
    ∃ run : List Event, ∃ p : CustomPair, run.foldl step erased.reboot = some p ∧
      p.tbl.length = 4 ∧ (p.userTblSlaveMacAdd someDevice).2 = 0 ∧
      (p.userTblSlaveMacAdd someDevice).1.tbl.length = 3 ∧ ¬p.Atomic someDevice := by
  obtain ⟨hreboot, hstart⟩ := Blank.reboot (s := erased) fun _ _ => rfl
  obtain ⟨p, k, hrun, hp, hidx⟩ := hstart.replicate_add rfl someDevice 512 (by decide)
  have hlen : p.tbl.length = 4 :=
    hstart.replicate_add_length rfl someDevice 512 (le_refl _) hrun
  have hfull : ¬wrapInt (p.cfgIdx + 8) < (FLASH_CUSTOM_PAIRING_MAX_SIZE : ℤ) := by
    rw [wrapInt_of_lt (by omega) (by omega), FLASH_CUSTOM_PAIRING_MAX_SIZE]
    omega
  have hrefused := (add_refused_iff p someDevice).mpr hfull
  refine ⟨List.replicate 512 (Event.add someDevice), p, ?_, hlen, hrefused, ?_, ?_⟩
  · rw [hreboot, hrun]
  · rw [add_eq, makeRoom_cfgIdx, if_pos (not_lt.mp hfull)]
    show p.makeRoom.tbl.length = 3
    rw [makeRoom_tbl, if_pos (by rw [hlen]; decide), List.length_tail, hlen]
  · exact fun hatomic => hfull ((atomic_iff p someDevice).mp hatomic)

/-- Two devices. -/
theorem two_adds_atomic :
    Along step AddsAtomic erased.reboot [.add someDevice, .add someDevice] := by
  refine (adds_atomic_iff erased (fun _ _ => rfl) [.add someDevice, .add someDevice]).mpr ?_
  rw [(Blank.reboot (s := erased) fun _ _ => rfl).1]
  refine ⟨show (-8 : ℤ) + 8 < 4096 by decide, ?_, trivial⟩
  show (CustomPair.userTblSlaveMacAdd someDevice
    { erased with cfgIdx := -8, tbl := [] }).1.cfgIdx + 8 < (4096 : ℤ)
  rw [add_cfgIdx]
  show wrapInt (-8 + 8) + 8 < 4096
  decide

end TcBle.Vendor.CustomPair
