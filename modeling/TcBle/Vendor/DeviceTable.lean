import TcBle.Vendor.DeviceManage

/-!
# The invariant of the device table

The counters count the connected entries of their own slots, and each role keeps to its slots. An
insertion fills the first free slot of its role and a deletion clears the first connected entry that
matches, where no entry matches a resolvable private address.

## What is proved

* `table_invariant` — all of this, after every sequence of insertions and deletions.
-/

namespace TcBle.Vendor.DevTable

open TcBle.Foundation

variable {s : DevTable}

/-- Slot `i` is one of those of a role. -/
def RoleSlot (s : DevTable) (role : UInt8) (i : ℕ) : Prop :=
  role = ACL_ROLE_CENTRAL ∧ i < s.centralMax ∨ role = ACL_ROLE_PERIPHERAL ∧ s.centralMax ≤ i ∧
    i < s.maxNum

/-- The entry in slot `i` is that of a connection. -/
def Connected (s : DevTable) (i : ℕ) : Prop := (s.connDevList i).Connected

/-- **The invariant.** -/
structure Sound (s : DevTable) : Prop where
  /-- The counter of the central connections. -/
  centralNum : s.centralNum = countIn DevCharInfo.Connected s.connDevList 0 s.centralMax
  /-- The counter of the peripheral connections. -/
  periphrNum : s.periphrNum = countIn DevCharInfo.Connected s.connDevList s.centralMax s.periphrMax
  /-- The connected entries are in the slots of their roles. -/
  roles : ∀ i < s.maxNum, s.Connected i → s.RoleSlot (s.connDevList i).connRole i

/-- **What an insertion does** that leads to `r`: the first free slot of the role gets the entry. -/
structure FillsFirst (s : DevTable) (role : UInt8) (entry : DevCharInfo) (r : DevTable × ℕ) :
    Prop where
  /-- Where no slot is free. -/
  full : (∀ i, s.RoleSlot role i → s.Connected i) → r = (s, INVALID_CONN_IDX)
  /-- Where slot `i` is the first free one. -/
  filled : ∀ i, s.RoleSlot role i → ¬s.Connected i → (∀ j < i, s.RoleSlot role j → s.Connected j) →
    r.2 = i ∧ r.1.connDevList i = entry ∧ r.1.Connected i ∧ ∀ j, j ≠ i →
      r.1.connDevList j = s.connDevList j

/-- **What a deletion does** that leads to `r`: the first connected entry that `p` says is the one
is freed. -/
structure FreesFirst (s : DevTable) (p : DevCharInfo → Prop) (r : DevTable × ℕ) : Prop where
  /-- Where there is none. -/
  missed : (∀ i < s.maxNum, s.Connected i → ¬p (s.connDevList i)) → r = (s, 1)
  /-- Where it is in slot `i`. -/
  freed : ∀ i < s.maxNum, s.Connected i → p (s.connDevList i) →
    (∀ j < i, s.Connected j → ¬p (s.connDevList j)) →
      r.2 = 0 ∧ ¬r.1.Connected i ∧ ∀ j, j ≠ i → r.1.connDevList j = s.connDevList j

/-- A connection of a role is counted `n` more times. -/
def addCount (role : UInt8) (n : ℤ) (s : DevTable) : DevTable :=
  if role = ACL_ROLE_CENTRAL then { s with centralNum := s.centralNum + n }
  else { s with periphrNum := s.periphrNum + n }

/-- A slot gets an entry. -/
def setEntry (i : ℕ) (entry : DevCharInfo) (s : DevTable) : DevTable :=
  { s with connDevList := Function.update s.connDevList i entry }

theorem RoleSlot.lt {role : UInt8} {i : ℕ} (h : s.RoleSlot role i) : i < s.maxNum := by
  rcases h with ⟨-, h⟩ | ⟨-, -, h⟩
  · exact Nat.lt_add_right _ h
  · exact h

theorem not_connected_cleared : ¬DevCharInfo.cleared.Connected := not_not.mpr rfl

/-- **What the insertions do**: they find the first free slot of the role, or none. -/
theorem insertEntry_cases (role : UInt8) (entry : DevCharInfo) (s : DevTable) :
    (∃ i, s.RoleSlot role i ∧ ¬s.Connected i ∧ (∀ j < i, s.RoleSlot role j → s.Connected j) ∧
      s.insertEntry role entry = ((s.addCount role 1).setEntry i entry, i)) ∨
    ((∀ i, s.RoleSlot role i → s.Connected i) ∧
      s.insertEntry role entry = (s, INVALID_CONN_IDX)) := by
  have hmax := s.max_le
  have hslot : ∀ i, s.RoleSlot role i → i ≠ INVALID_CONN_IDX := by
    intro i hi
    have := hi.lt
    unfold maxNum at this
    omega
  unfold insertEntry takeIndex
  by_cases hc : role = ACL_ROLE_CENTRAL
  · rw [if_pos hc]
    have hiff : ∀ i, s.RoleSlot role i ↔ 0 ≤ i ∧ i < 0 + s.centralMax := by
      intro i
      simp [RoleSlot, hc, ACL_ROLE_CENTRAL, ACL_ROLE_PERIPHERAL]
    cases hfind : firstIn (fun d : DevCharInfo => d.connState = 0) s.connDevList 0 s.centralMax with
    | some i =>
      obtain ⟨hfree, hrange, hfirst⟩ := firstIn_eq_some_iff.mp hfind
      refine Or.inl ⟨i, (hiff i).mpr hrange, not_not.mpr hfree,
        fun j hj _ => hfirst j (Nat.zero_le j) hj, ?_⟩
      rw [addCount, if_pos hc]
      exact if_pos (hslot i ((hiff i).mpr hrange))
    | none =>
      rw [firstIn_eq_none_iff] at hfind
      refine Or.inr ⟨fun i hi => hfind i (Nat.zero_le i) ((hiff i).mp hi).2, ?_⟩
      exact if_neg (not_not.mpr rfl)
  · rw [if_neg hc]
    by_cases hp : role = ACL_ROLE_PERIPHERAL
    · rw [if_pos hp]
      have hiff : ∀ i, s.RoleSlot role i ↔
          s.centralMax ≤ i ∧ i < s.centralMax + s.periphrMax := by
        intro i
        simp [RoleSlot, hp, ACL_ROLE_CENTRAL, ACL_ROLE_PERIPHERAL, maxNum]
      cases hfind : firstIn (fun d : DevCharInfo =>
        d.connState = 0) s.connDevList s.centralMax s.periphrMax with
      | some i =>
        obtain ⟨hfree, hrange, hfirst⟩ := firstIn_eq_some_iff.mp hfind
        refine Or.inl ⟨i, (hiff i).mpr hrange, not_not.mpr hfree,
          fun j hj hslotj => hfirst j ((hiff j).mp hslotj).1 hj, ?_⟩
        rw [addCount, if_neg hc]
        exact if_pos (hslot i ((hiff i).mpr hrange))
      | none =>
        rw [firstIn_eq_none_iff] at hfind
        refine Or.inr ⟨fun i hi => hfind i ((hiff i).mp hi).1 ((hiff i).mp hi).2, ?_⟩
        exact if_neg (not_not.mpr rfl)
    · rw [if_neg hp]
      refine Or.inr ⟨fun i hi => ?_, if_neg (not_not.mpr rfl)⟩
      rcases hi with ⟨h, -⟩ | ⟨h, -⟩
      · exact absurd h hc
      · exact absurd h hp

/-- **What the deletions do.** -/
theorem deleteFirst_cases (p : DevCharInfo → Prop) [DecidablePred p] (s : DevTable) :
    (∃ i < s.maxNum, s.Connected i ∧ p (s.connDevList i) ∧
      (∀ j < i, s.Connected j → ¬p (s.connDevList j)) ∧
      s.deleteFirst p = ((s.addCount (s.connDevList i).connRole (-1)).setEntry i .cleared, 0)) ∨
    ((∀ i < s.maxNum, s.Connected i → ¬p (s.connDevList i)) ∧ s.deleteFirst p = (s, 1)) := by
  unfold deleteFirst
  cases hfind : firstIn (fun d => d.Connected ∧ p d) s.connDevList 0 s.maxNum with
  | some i =>
    obtain ⟨⟨hcon, hp⟩, ⟨-, hlt⟩, hfirst⟩ := firstIn_eq_some_iff.mp hfind
    refine Or.inl ⟨i, by omega, hcon, hp, fun j hj hconj hpj =>
      hfirst j (Nat.zero_le j) hj ⟨hconj, hpj⟩, ?_⟩
    simp only [addCount, setEntry]
    split_ifs
    · rfl
    · rfl
  | none =>
    rw [firstIn_eq_none_iff] at hfind
    exact Or.inr ⟨fun i hi hcon hp => hfind i (Nat.zero_le i) (by omega) ⟨hcon, hp⟩, rfl⟩

/-! ### What one step does -/

@[simp] theorem setEntry_self (i : ℕ) (entry : DevCharInfo) (s : DevTable) :
    (s.setEntry i entry).connDevList i = entry :=
  Function.update_self ..

theorem setEntry_of_ne {i j : ℕ} (h : j ≠ i) (entry : DevCharInfo) (s : DevTable) :
    (s.setEntry i entry).connDevList j = s.connDevList j := Function.update_of_ne h ..

@[simp] theorem addCount_connDevList (role : UInt8) (n : ℤ) (s : DevTable) :
    (s.addCount role n).connDevList = s.connDevList := by
  unfold addCount
  split <;> rfl

/-- An insertion fills the first free slot of the role. -/
theorem insertEntry_fillsFirst (role : UInt8) {entry : DevCharInfo} (hentry : entry.Connected)
    (s : DevTable) :
    s.FillsFirst role entry (s.insertEntry role entry) := by
  rcases insertEntry_cases role entry s with ⟨i, hslot, hfree, hfirst, heq⟩ | ⟨hall, heq⟩
  · refine ⟨fun hall => absurd (hall i hslot) hfree, fun k hk hkfree hkfirst => ?_⟩
    have hki : k = i := by
      rcases lt_trichotomy k i with hlt | h | hlt
      · exact absurd (hfirst k hlt hk) hkfree
      · exact h
      · exact absurd (hkfirst i hlt hslot) hfree
    subst hki
    rw [heq]
    refine ⟨rfl, setEntry_self .., ?_, fun j hj => ?_⟩
    · unfold Connected
      rw [setEntry_self]
      exact hentry
    · rw [setEntry_of_ne hj, addCount_connDevList]
  · exact ⟨fun _ => heq, fun i hi hfree _ => absurd (hall i hi) hfree⟩

/-- A deletion frees the first connected entry that matches. -/
theorem deleteFirst_freesFirst (p : DevCharInfo → Prop) [DecidablePred p] (s : DevTable) :
    s.FreesFirst p (s.deleteFirst p) := by
  rcases deleteFirst_cases p s with ⟨i, hlt, hcon, hp, hfirst, heq⟩ | ⟨hnone, heq⟩
  · refine ⟨fun hnone => absurd hp (hnone i hlt hcon), fun k _ hkcon hkp hkfirst => ?_⟩
    have hki : k = i := by
      rcases lt_trichotomy k i with hlt | h | hlt
      · exact absurd hkp (hfirst k hlt hkcon)
      · exact h
      · exact absurd hp (hkfirst i hlt hcon)
    subst hki
    rw [heq]
    refine ⟨rfl, ?_, fun j hj => ?_⟩
    · unfold Connected
      rw [setEntry_self]
      exact not_connected_cleared
    · rw [setEntry_of_ne hj, addCount_connDevList]
  · exact ⟨fun _ => heq, fun i hlt hcon hp _ => absurd hp (hnone i hlt hcon)⟩

/-- An entry is inserted. -/
theorem Sound.insert (h : s.Sound) {role : UInt8} {i : ℕ} {entry : DevCharInfo}
    (hslot : s.RoleSlot role i)
    (hfree : ¬s.Connected i) (hentry : entry.Connected) (hrole : entry.connRole = role) :
    ((s.addCount role 1).setEntry i entry).Sound := by
  have hroles : ∀ j < s.maxNum, (s.setEntry i entry).Connected j →
      s.RoleSlot ((s.setEntry i entry).connDevList j).connRole j := by
    intro j hj hcon
    by_cases hji : j = i
    · rw [hji, setEntry_self, hrole]
      exact hslot
    · rw [Connected, setEntry_of_ne hji] at hcon
      rw [setEntry_of_ne hji]
      exact h.roles j hj hcon
  have hcentral := h.centralNum
  have hperiphr := h.periphrNum
  rcases hslot with ⟨rfl, hi⟩ | ⟨rfl, hlo, hi⟩
  · rw [addCount, if_pos rfl]
    refine ⟨?_, ?_, hroles⟩
    · have hgain : countIn DevCharInfo.Connected
        (Function.update s.connDevList i entry) 0 s.centralMax = _ :=
        countIn_update_gain (Nat.zero_le i) (by omega) hfree hentry
      simp only [setEntry]
      omega
    · simp only [setEntry]
      rw [countIn_update_of_notMem (Or.inl hi)]
      exact hperiphr
  · rw [addCount, if_neg (by decide)]
    refine ⟨?_, ?_, hroles⟩
    · simp only [setEntry]
      rw [countIn_update_of_notMem (Or.inr (by omega))]
      exact hcentral
    · have hgain : countIn DevCharInfo.Connected
        (Function.update s.connDevList i entry) s.centralMax s.periphrMax = _ :=
        countIn_update_gain hlo hi hfree hentry
      simp only [setEntry]
      omega

/-- A connected entry is cleared. -/
theorem Sound.delete (h : s.Sound) {i : ℕ} (hi : i < s.maxNum) (hcon : s.Connected i) :
    ((s.addCount (s.connDevList i).connRole (-1)).setEntry i .cleared).Sound := by
  have hroles : ∀ j < s.maxNum, (s.setEntry i .cleared).Connected j →
      s.RoleSlot ((s.setEntry i .cleared).connDevList j).connRole j := by
    intro j hj hconj
    by_cases hji : j = i
    · rw [hji, Connected, setEntry_self] at hconj
      exact absurd hconj not_connected_cleared
    · rw [Connected, setEntry_of_ne hji] at hconj
      rw [setEntry_of_ne hji]
      exact h.roles j hj hconj
  have hcentral := h.centralNum
  have hperiphr := h.periphrNum
  rcases h.roles i hi hcon with ⟨hrole, hlt⟩ | ⟨hrole, hlo, hlt⟩
  · rw [addCount, if_pos hrole]
    refine ⟨?_, ?_, hroles⟩
    · have hloss : _ = countIn DevCharInfo.Connected s.connDevList 0 s.centralMax :=
        countIn_update_loss (Nat.zero_le i) (by omega) hcon not_connected_cleared
      simp only [setEntry]
      omega
    · simp only [setEntry]
      rw [countIn_update_of_notMem (Or.inl hlt)]
      exact hperiphr
  · rw [addCount, if_neg (by rw [hrole]; decide)]
    refine ⟨?_, ?_, hroles⟩
    · simp only [setEntry]
      rw [countIn_update_of_notMem (Or.inr (by omega))]
      exact hcentral
    · have hloss : _ = countIn DevCharInfo.Connected s.connDevList s.centralMax s.periphrMax :=
        countIn_update_loss hlo hlt hcon not_connected_cleared
      simp only [setEntry]
      omega

/-! ### Runs -/

theorem Sound.insertEntry (h : s.Sound) {role : UInt8} {entry : DevCharInfo}
    (hentry : entry.Connected)
    (hrole : entry.connRole = role) : (s.insertEntry role entry).1.Sound := by
  rcases insertEntry_cases role entry s with ⟨i, hslot, hfree, -, heq⟩ | ⟨-, heq⟩
  · rw [heq]
    exact h.insert hslot hfree hentry hrole
  · rw [heq]
    exact h

theorem Sound.deleteFirst (h : s.Sound) (p : DevCharInfo → Prop) [DecidablePred p] :
    (s.deleteFirst p).1.Sound := by
  rcases deleteFirst_cases p s with ⟨i, hlt, hcon, -, -, heq⟩ | ⟨-, heq⟩
  · rw [heq]
    exact h.delete hlt hcon
  · rw [heq]
    exact h

theorem connected_entry (pConnEvt : ConnCompleteEvt) : pConnEvt.entry.Connected := by
  show (1 : UInt8) ≠ 0
  decide

theorem connected_insert (dev : DevCharInfo) :
    DevCharInfo.Connected { dev with connState := 1 } := by
  show (1 : UInt8) ≠ 0
  decide

/-- The entry that an event inserts. -/
def Event.inserted : Event → Option DevCharInfo
  | .insert dev => some { dev with connState := 1 }
  | .connEvent pConnEvt | .enhancedConnEvent pConnEvt => some pConnEvt.entry
  | .deleteByConnhandle _ | .deleteByPeerMacAddress _ => none

/-- The event leads to `s'` by setting one slot, to the entry it inserts or to zero, or does
nothing. -/
def SetsSlot (s : DevTable) (e : Event) (s' : DevTable) : Prop :=
  (∃ role n i entry, s' = (s.addCount role n).setEntry i entry ∧
    (e.inserted = some entry ∧ entry.Connected ∨ entry = .cleared)) ∨ s' = s

theorem SetsSlot.insertEntry {role : UInt8} {entry : DevCharInfo} {e : Event}
    (he : e.inserted = some entry)
    (hentry : entry.Connected) : s.SetsSlot e (s.insertEntry role entry).1 := by
  rcases insertEntry_cases role entry s with ⟨i, -, -, -, heq⟩ | ⟨-, heq⟩
  · exact Or.inl ⟨role, 1, i, entry, congrArg Prod.fst heq, Or.inl ⟨he, hentry⟩⟩
  · exact Or.inr (congrArg Prod.fst heq)

theorem SetsSlot.deleteFirst (p : DevCharInfo → Prop) [DecidablePred p] (e : Event) :
    s.SetsSlot e (s.deleteFirst p).1 := by
  rcases deleteFirst_cases p s with ⟨i, -, -, -, -, heq⟩ | ⟨-, heq⟩
  · exact Or.inl ⟨_, -1, i, .cleared, congrArg Prod.fst heq, Or.inr rfl⟩
  · exact Or.inr (congrArg Prod.fst heq)

theorem setsSlot_step (s : DevTable) (e : Event) : s.SetsSlot e (s.step e) := by
  cases e with
  | insert dev => exact SetsSlot.insertEntry rfl (connected_insert dev)
  | connEvent pConnEvt => exact SetsSlot.insertEntry rfl (connected_entry pConnEvt)
  | enhancedConnEvent pConnEvt => exact SetsSlot.insertEntry rfl (connected_entry pConnEvt)
  | deleteByConnhandle connhandle => exact SetsSlot.deleteFirst _ _
  | deleteByPeerMacAddress a => exact SetsSlot.deleteFirst _ _

/-- **One step keeps the invariant.** -/
theorem Sound.step (h : s.Sound) (e : Event) : (s.step e).Sound := by
  cases e with
  | insert dev => exact h.insertEntry (connected_insert dev) rfl
  | connEvent pConnEvt => exact h.insertEntry (connected_entry pConnEvt) rfl
  | enhancedConnEvent pConnEvt => exact h.insertEntry (connected_entry pConnEvt) rfl
  | deleteByConnhandle connhandle => exact h.deleteFirst _
  | deleteByPeerMacAddress a => exact h.deleteFirst _

theorem sound_init (c : DevConfig) : (init c).Sound := by
  have hnone : ∀ lo n,
      countIn DevCharInfo.Connected (fun _ => DevCharInfo.cleared) lo n = 0 := by
    intro lo n
    refine List.countP_eq_zero.mpr fun i _ => ?_
    simpa using not_connected_cleared
  refine ⟨?_, ?_, fun i _ hcon => absurd hcon not_connected_cleared⟩
  · simp only [init]
    rw [hnone]
    rfl
  · simp only [init]
    rw [hnone]
    rfl

/-- What each event does in a state of the table. -/
structure Exact (s : DevTable) : Prop where
  /-- `dev_char_info_insert`. -/
  insert : ∀ dev, s.FillsFirst dev.connRole { dev with connState := 1 } (s.handle (.insert dev))
  /-- A connection complete event. -/
  connEvent : ∀ e, s.FillsFirst e.role e.entry (s.handle (.connEvent e))
  /-- An enhanced connection complete event. -/
  enhancedConnEvent : ∀ e, s.FillsFirst e.role e.entry (s.handle (.enhancedConnEvent e))
  /-- A deletion by handle. -/
  deleteByConnhandle : ∀ connhandle, s.FreesFirst (fun d => d.connHandle = connhandle)
    (s.handle (.deleteByConnhandle connhandle))
  /-- A deletion by address. -/
  deleteByPeerMacAddress : ∀ a, s.FreesFirst (fun d => ¬a.IsResolvablePrivate ∧ a = d.peer)
    (s.handle (.deleteByPeerMacAddress a))

theorem exact_of (s : DevTable) : s.Exact where
  insert dev := insertEntry_fillsFirst _ (connected_insert dev) s
  connEvent e := insertEntry_fillsFirst _ (connected_entry e) s
  enhancedConnEvent e := insertEntry_fillsFirst _ (connected_entry e) s
  deleteByConnhandle _ := deleteFirst_freesFirst _ s
  deleteByPeerMacAddress a := deleteFirst_freesFirst (MacMatch a) s

/-- **The invariant of the table**, after every sequence of insertions and deletions. -/
theorem table_invariant (c : DevConfig) (run : List Event) :
    (run.foldl step (init c)).Sound ∧ (run.foldl step (init c)).Exact :=
  ⟨List.foldlRecOn run step (sound_init c) fun _ hs e _ => hs.step e, exact_of _⟩

/-- A device with a resolvable private address, connected in the one central slot. -/
def privateDevice : ConnCompleteEvt := ⟨1, ACL_ROLE_CENTRAL, ⟨BLE_ADDR_RANDOM, fun _ => 0x40⟩⟩

/-- Deleting it by its address frees nothing. -/
theorem privateDevice_not_freed :
    ¬FreesFirst ((init ⟨1, 0, by decide⟩).step (.connEvent privateDevice))
    (fun d => privateDevice.peer = d.peer)
    (((init ⟨1, 0, by decide⟩).step (.connEvent privateDevice)).handle
      (.deleteByPeerMacAddress privateDevice.peer)) := by
  intro h
  have hcon : ((init ⟨1, 0, by decide⟩).step (.connEvent privateDevice)).Connected 0 := by
    show _ ≠ _
    decide
  obtain ⟨hret, -⟩ := h.freed 0 (by decide) hcon (by decide)
    (fun j hj => absurd hj (Nat.not_lt_zero j))
  exact absurd hret (by decide)

end TcBle.Vendor.DevTable
