import TcBle.Vendor.DeviceTable

/-!
# Looking up a connected device

The lookups go through the table and return the first entry that matches. All of them look at
`conn_state`, except for the one by address, which takes a free slot, whose bytes are zero, for a
device with the public address zero.

## What is proved

* `lookup_iff` — in every table that insertions and deletions lead to, a lookup succeeds exactly
  when a connected device matches, and returns its entry, if and only if it does not meet such a
  slot first. A device that is gone is then not found until it is inserted again.
-/

namespace TcBle.Vendor.DevTable

open TcBle.Foundation

variable {s : DevTable}

/-- The lookups. -/
inductive Lookup where
  /-- `dev_char_info_search_by_connhandle`. -/
  | byConnhandle (connhandle : UInt16)
  /-- `dev_char_info_search_by_peer_mac_address`, for an address that is not resolvable private. -/
  | byPeerMacAddress (a : PeerAddr) (h : ¬a.IsResolvablePrivate)
  /-- `dev_char_info_is_connection_state_by_conn_handle`. -/
  | isConnectionState (connhandle : UInt16)
  /-- `dev_char_get_conn_role_by_connhandle`. -/
  | connRole (connhandle : UInt16)
  /-- `dev_char_get_conn_index_by_connhandle`. -/
  | connIndex (connhandle : UInt16)

namespace Lookup

/-- The device is one that is looked for. -/
def Matches (d : DevCharInfo) : Lookup → Prop
  | byPeerMacAddress a _ => d.peer = a
  | byConnhandle h | isConnectionState h | connRole h | connIndex h => d.connHandle = h

/-- The lookup succeeds. -/
def Succeeds (s : DevTable) : Lookup → Prop
  | byConnhandle h => (s.devCharInfoSearchByConnhandle h).isSome
  | byPeerMacAddress a _ => (s.devCharInfoSearchByPeerMacAddress a).isSome
  | isConnectionState h => s.devCharInfoIsConnectionStateByConnHandle h = true
  | connRole h => s.devCharGetConnRoleByConnhandle h ≠ 2
  | connIndex h => s.devCharGetConnIndexByConnhandle h ≠ INVALID_CONN_IDX

/-- The lookup returns the entry in slot `i`, or what it asks of it. -/
def Returns (s : DevTable) (i : ℕ) : Lookup → Prop
  | byConnhandle h => s.devCharInfoSearchByConnhandle h = some i
  | byPeerMacAddress a _ => s.devCharInfoSearchByPeerMacAddress a = some i
  | isConnectionState h => s.devCharInfoIsConnectionStateByConnHandle h = true
  | connRole h => s.devCharGetConnRoleByConnhandle h = (s.connDevList i).connRole.toNat
  | connIndex h => s.devCharGetConnIndexByConnhandle h = i

/-- Slot `i` has a connected device that is looked for. -/
def At (s : DevTable) (q : Lookup) (i : ℕ) : Prop :=
    i < s.maxNum ∧ s.Connected i ∧ q.Matches (s.connDevList i)

/-- **What a lookup is for.** -/
structure Correct (s : DevTable) (q : Lookup) : Prop where
  /-- It succeeds exactly when a connected device matches. -/
  succeeds_iff : q.Succeeds s ↔ ∃ i, q.At s i
  /-- It returns the entry of one. -/
  returns : q.Succeeds s → ∃ i, q.At s i ∧ q.Returns s i

/-- The lookup does not come to a free slot that looks like the device. -/
def PassesFree (s : DevTable) : Lookup → Prop
  | byPeerMacAddress a _ => a = DevCharInfo.cleared.peer →
      ∀ i < s.maxNum, ¬s.Connected i → ∃ j < i, s.Connected j ∧ (s.connDevList j).peer = a
  | _ => True

end Lookup

/-- A free slot is zero. -/
def Clean (s : DevTable) : Prop := ∀ i, ¬s.Connected i → s.connDevList i = .cleared

theorem Clean.step (h : s.Clean) (e : Event) : (s.step e).Clean := by
  rcases setsSlot_step s e with ⟨role, n, i, entry, heq, hentry⟩ | heq
  · rw [heq]
    intro j hj
    by_cases hji : j = i
    · rw [hji, Connected, setEntry_self] at hj
      rw [hji, setEntry_self]
      rcases hentry with ⟨-, hcon⟩ | hzero
      · exact absurd hcon hj
      · exact hzero
    · rw [Connected, setEntry_of_ne hji, addCount_connDevList] at hj
      rw [setEntry_of_ne hji, addCount_connDevList]
      exact h j hj
  · rw [heq]
    exact h

/-! ### The lookups by handle -/

/-- The slot found is the first one that has a connection with the handle. -/
theorem slotOfConnhandle_eq_some {h : UInt16} {i : ℕ} (hfind : s.slotOfConnhandle h = some i) :
    i < s.maxNum ∧ s.Connected i ∧ (s.connDevList i).connHandle = h := by
  obtain ⟨⟨hh, hcon⟩, ⟨-, hlt⟩, -⟩ := firstIn_eq_some_iff.mp hfind
  exact ⟨by omega, hcon, hh⟩

theorem slotOfConnhandle_isSome_iff {h : UInt16} :
    (s.slotOfConnhandle h).isSome ↔ ∃ i < s.maxNum, s.Connected i ∧
    (s.connDevList i).connHandle = h := by
  constructor
  · intro hsome
    obtain ⟨i, hi⟩ := Option.isSome_iff_exists.mp hsome
    exact ⟨i, slotOfConnhandle_eq_some hi⟩
  · rintro ⟨i, hlt, hcon, hh⟩
    by_contra hnone
    rw [Option.not_isSome_iff_eq_none] at hnone
    exact firstIn_eq_none_iff.mp hnone i (Nat.zero_le i) (by omega) ⟨hh, hcon⟩

/-- A lookup that succeeds exactly when a connection has the handle, and answers for its slot. -/
theorem Lookup.correct_of_slot {q : Lookup} {h : UInt16}
    (hmatch : ∀ d, q.Matches d ↔ d.connHandle = h)
    (hsucc : q.Succeeds s ↔ (s.slotOfConnhandle h).isSome)
    (hret : ∀ i, s.slotOfConnhandle h = some i → q.Returns s i) : q.Correct s := by
  refine ⟨?_, fun hq => ?_⟩
  · rw [hsucc, slotOfConnhandle_isSome_iff]
    exact exists_congr fun i => and_congr_right fun _ => and_congr_right fun _ => (hmatch _).symm
  · obtain ⟨i, hi⟩ := Option.isSome_iff_exists.mp (hsucc.mp hq)
    obtain ⟨hlt, hcon, hh⟩ := slotOfConnhandle_eq_some hi
    exact ⟨i, ⟨hlt, hcon, (hmatch _).mpr hh⟩, hret i hi⟩

/-- The role of a connection is one of the two, so that 2 says that there is none. -/
theorem Sound.connRole_ne_two (h : s.Sound) {i : ℕ} (hi : i < s.maxNum) (hcon : s.Connected i) :
    (s.connDevList i).connRole.toNat ≠ 2 := by
  rcases h.roles i hi hcon with ⟨hrole, -⟩ | ⟨hrole, -⟩
  · rw [hrole]
    decide
  · rw [hrole]
    decide

theorem connRole_of_some {h : UInt16} {i : ℕ} (hfind : s.slotOfConnhandle h = some i) :
    s.devCharGetConnRoleByConnhandle h = (s.connDevList i).connRole.toNat := by
  rw [devCharGetConnRoleByConnhandle, hfind]

theorem connRole_of_none {h : UInt16} (hfind : s.slotOfConnhandle h = none) :
    s.devCharGetConnRoleByConnhandle h = 2 := by
  rw [devCharGetConnRoleByConnhandle, hfind]

theorem connIndex_of_some {h : UInt16} {i : ℕ} (hfind : s.slotOfConnhandle h = some i) :
    s.devCharGetConnIndexByConnhandle h = i := by
  rw [devCharGetConnIndexByConnhandle, hfind, Option.getD_some]

theorem connIndex_of_none {h : UInt16} (hfind : s.slotOfConnhandle h = none) :
    s.devCharGetConnIndexByConnhandle h = INVALID_CONN_IDX := by
  rw [devCharGetConnIndexByConnhandle, hfind, Option.getD_none]

theorem Sound.connRole_correct (hs : s.Sound) (h : UInt16) : (Lookup.connRole h).Correct s := by
  refine Lookup.correct_of_slot (fun _ => Iff.rfl) ?_ fun i hi => connRole_of_some hi
  show s.devCharGetConnRoleByConnhandle h ≠ 2 ↔ _
  cases hfind : s.slotOfConnhandle h with
  | none => simp [connRole_of_none hfind]
  | some i =>
    obtain ⟨hlt, hcon, -⟩ := slotOfConnhandle_eq_some hfind
    rw [connRole_of_some hfind]
    exact iff_of_true (hs.connRole_ne_two hlt hcon) rfl

theorem connIndex_correct (s : DevTable) (h : UInt16) : (Lookup.connIndex h).Correct s := by
  refine Lookup.correct_of_slot (fun _ => Iff.rfl) ?_ fun i hi => connIndex_of_some hi
  show s.devCharGetConnIndexByConnhandle h ≠ INVALID_CONN_IDX ↔ _
  cases hfind : s.slotOfConnhandle h with
  | none => simp [connIndex_of_none hfind]
  | some i =>
    have hlt : i < s.centralMax + s.periphrMax := (slotOfConnhandle_eq_some hfind).1
    have hmax := s.max_le
    rw [connIndex_of_some hfind]
    exact iff_of_true (by omega) rfl

/-! ### The lookup by address -/

theorem searchByPeerMacAddress_eq_some {a : PeerAddr} (ha : ¬a.IsResolvablePrivate) {i : ℕ} :
    s.devCharInfoSearchByPeerMacAddress a = some i ↔
      (s.connDevList i).peer = a ∧ i < s.maxNum ∧ ∀ j < i, (s.connDevList j).peer ≠ a := by
  unfold devCharInfoSearchByPeerMacAddress
  rw [firstIn_eq_some_iff]
  simp [MacMatch, ha, eq_comm]

theorem searchByPeerMacAddress_isSome {a : PeerAddr} (ha : ¬a.IsResolvablePrivate) {i : ℕ}
    (hi : i < s.maxNum)
    (hpeer : (s.connDevList i).peer = a) :
    ∃ k ≤ i, s.devCharInfoSearchByPeerMacAddress a = some k := by
  cases hfind : s.devCharInfoSearchByPeerMacAddress a with
  | none =>
    exact absurd ⟨ha, hpeer.symm⟩
      (firstIn_eq_none_iff.mp hfind i (Nat.zero_le i) (by omega))
  | some k =>
    refine ⟨k, ?_, rfl⟩
    by_contra hlt
    exact ((searchByPeerMacAddress_eq_some ha).mp hfind).2.2 i (by omega) hpeer

/-- The lookup by address is right exactly when it passes the free slots. -/
theorem Clean.byPeerMacAddress_iff (hs : s.Clean) {a : PeerAddr} (ha : ¬a.IsResolvablePrivate) :
    (Lookup.byPeerMacAddress a ha).Correct s ↔ (Lookup.byPeerMacAddress a ha).PassesFree s := by
  constructor
  · rintro hcorrect rfl i hi hfree
    have hpeer : (s.connDevList i).peer = DevCharInfo.cleared.peer := by rw [hs i hfree]
    obtain ⟨k, hki, hfind⟩ := searchByPeerMacAddress_isSome ha hi hpeer
    obtain ⟨j, ⟨-, hcon, hmatch⟩, hret⟩ :=
      hcorrect.returns (Option.isSome_iff_exists.mpr ⟨k, hfind⟩)
    have hjk : j = k := Option.some.inj (hret.symm.trans hfind)
    have hne : j ≠ i := by
      rintro rfl
      exact hfree hcon
    exact ⟨j, by omega, hcon, hmatch⟩
  · intro hpass
    -- the entry found is connected: a free one is zero, and `PassesFree` has another before it
    have hfound : ∀ k, s.devCharInfoSearchByPeerMacAddress a = some k →
        Lookup.At s (.byPeerMacAddress a ha) k := by
      intro k hfind
      obtain ⟨hpeer, hlt, hfirst⟩ := (searchByPeerMacAddress_eq_some ha).mp hfind
      refine ⟨hlt, ?_, hpeer⟩
      by_contra hfree
      have hzero : a = DevCharInfo.cleared.peer := by rw [← hpeer, hs k hfree]
      obtain ⟨j, hj, -, hpeerj⟩ := hpass hzero k hlt hfree
      exact hfirst j hj hpeerj
    refine ⟨⟨fun hsome => ?_, ?_⟩, fun hsome => ?_⟩
    · obtain ⟨k, hk⟩ := Option.isSome_iff_exists.mp hsome
      exact ⟨k, hfound k hk⟩
    · rintro ⟨i, hlt, -, hmatch⟩
      obtain ⟨k, -, hk⟩ := searchByPeerMacAddress_isSome ha hlt hmatch
      exact Option.isSome_iff_exists.mpr ⟨k, hk⟩
    · obtain ⟨k, hk⟩ := Option.isSome_iff_exists.mp hsome
      exact ⟨k, hfound k hk, hk⟩

theorem Lookup.correct_iff (hs : s.Sound) (hc : s.Clean) (q : Lookup) :
    q.Correct s ↔ q.PassesFree s := by
  cases q with
  | byConnhandle h =>
    exact iff_of_true (correct_of_slot (fun _ => Iff.rfl) Iff.rfl fun _ hi => hi) trivial
  | byPeerMacAddress a ha => exact hc.byPeerMacAddress_iff ha
  | isConnectionState h =>
    exact iff_of_true (correct_of_slot (fun _ => Iff.rfl) Iff.rfl fun i hi =>
      Option.isSome_iff_exists.mpr ⟨i, hi⟩) trivial
  | connRole h => exact iff_of_true (hs.connRole_correct h) trivial
  | connIndex h => exact iff_of_true (connIndex_correct s h) trivial

/-! ### Runs -/

/-- The event inserts no device that is looked for. -/
def Event.InsertsNo (q : Lookup) (e : Event) : Prop := ∀ d, e.inserted = some d → ¬q.Matches d

/-- No connected device is one that is looked for. -/
def Lookup.Gone (s : DevTable) (q : Lookup) : Prop := ∀ i, ¬q.At s i

theorem addCount_maxNum (role : UInt8) (n : ℤ) (s : DevTable) :
    (s.addCount role n).maxNum = s.maxNum := by
  unfold addCount
  split <;> rfl

/-- A device that is gone stays so until it is inserted. -/
theorem Lookup.Gone.step {q : Lookup} (h : q.Gone s) {e : Event} (he : e.InsertsNo q) :
    q.Gone (s.step e) := by
  rcases setsSlot_step s e with ⟨role, n, i, entry, heq, hentry⟩ | heq
  · rw [heq]
    rintro j ⟨hlt, hcon, hmatch⟩
    by_cases hji : j = i
    · rw [Connected, hji, setEntry_self] at hcon
      rw [hji, setEntry_self] at hmatch
      rcases hentry with ⟨hins, -⟩ | rfl
      · exact he entry hins hmatch
      · exact not_connected_cleared hcon
    · rw [Connected, setEntry_of_ne hji, addCount_connDevList] at hcon
      rw [setEntry_of_ne hji, addCount_connDevList] at hmatch
      exact h j ⟨(addCount_maxNum role n s).subst hlt, hcon, hmatch⟩
  · rw [heq]
    exact h

theorem sound_clean (c : DevConfig) (run : List Event) :
    (run.foldl step (init c)).Sound ∧ (run.foldl step (init c)).Clean :=
  List.foldlRecOn (motive := fun s => s.Sound ∧ s.Clean) run step ⟨sound_init c, fun _ _ => rfl⟩
    fun _ h e _ => ⟨h.1.step e, h.2.step e⟩

/-- **The lookups agree with the connected devices**: after every run a lookup does what it is for
exactly when it passes the free slots; and then a device that is gone is not found, until it is
inserted. -/
theorem lookup_iff (c : DevConfig) (run : List Event) (q : Lookup) :
    (q.Correct (run.foldl step (init c)) ↔ q.PassesFree (run.foldl step (init c))) ∧
    ∀ later : List Event, q.Gone (run.foldl step (init c)) → (∀ e ∈ later, e.InsertsNo q) →
      q.PassesFree ((run ++ later).foldl step (init c)) →
        ¬q.Succeeds ((run ++ later).foldl step (init c)) := by
  obtain ⟨hs, hc⟩ := sound_clean c run
  refine ⟨Lookup.correct_iff hs hc q, fun later hgone hlater hpass hsucc => ?_⟩
  obtain ⟨hs', hc'⟩ := sound_clean c (run ++ later)
  obtain ⟨i, hi⟩ := ((Lookup.correct_iff hs' hc' q).mpr hpass).succeeds_iff.mp hsucc
  rw [List.foldl_append] at hi
  exact List.foldlRecOn (motive := fun s => q.Gone s) later step hgone
    (fun _ h e he => h.step (hlater e he)) i hi

/-- The public address zero is found in a table that has no device. -/
theorem zeroAddress_found : ¬(Lookup.byPeerMacAddress DevCharInfo.cleared.peer (by decide)).Correct
    (init ⟨4, 4, by decide⟩) := by
  intro h
  have hsucc :
    ((init ⟨4, 4, by decide⟩).devCharInfoSearchByPeerMacAddress DevCharInfo.cleared.peer).isSome :=
    by decide
  obtain ⟨i, -, hcon, -⟩ := h.succeeds_iff.mp hsucc
  exact not_connected_cleared hcon

end TcBle.Vendor.DevTable
