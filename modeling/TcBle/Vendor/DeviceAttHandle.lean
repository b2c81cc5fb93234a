import TcBle.Vendor.DeviceLookup

/-!
# The attribute handles of a connected device

`dev_char_info_add_peer_att_handle` of `simple_sdp.c` looks for the device by its connection handle
in as many slots as there are central connections, from the first one on, and not at `conn_state`.
A connection behind a slot that was freed may lie past them, and a freed slot has the handle zero.

## What is proved

* `addPeerAttHandle_iff` — in every table that insertions and deletions lead to, a call does what it
  is for exactly when it reaches a connection with the handle, if there is one, and no free slot
  with the same handle before.
-/

namespace TcBle.Vendor.DevTable

open TcBle.Foundation

variable {s : DevTable}

/-- The entry with the attribute handles of `dev`. -/
def withHandles (dev entry : DevCharInfo) : DevCharInfo :=
  { entry with charHandle := dev.charHandle, charHandleValid := 1 }

/-- `dev_char_info_add_peer_att_handle`, and what it returns. -/
def devCharInfoAddPeerAttHandle (dev : DevCharInfo) (s : DevTable) : DevTable × ℕ :=
  match firstIn (fun d => d.connHandle = dev.connHandle) s.connDevList 0 s.centralNum.toNat with
  | some i => (s.setEntry i (withHandles dev (s.connDevList i)), 0)
  | none => (s, 1)

/-- Slot `i` has a central connection with the handle. -/
def CentralAt (s : DevTable) (connHandle : UInt16) (i : ℕ) : Prop :=
  i < s.maxNum ∧ s.Connected i ∧ (s.connDevList i).connRole = ACL_ROLE_CENTRAL ∧
    (s.connDevList i).connHandle = connHandle

/-- **What a call is for**: it succeeds exactly when there is a central connection with the handle,
whose entry then gets the attribute handles. -/
structure SetsHandles (s : DevTable) (dev : DevCharInfo) : Prop where
  /-- When it succeeds. -/
  succeeds_iff : (s.devCharInfoAddPeerAttHandle dev).2 = 0 ↔ ∃ i, s.CentralAt dev.connHandle i
  /-- What it changes. -/
  sets : (s.devCharInfoAddPeerAttHandle dev).2 = 0 → ∃ i, s.CentralAt dev.connHandle i ∧
    (s.devCharInfoAddPeerAttHandle dev).1 = s.setEntry i (withHandles dev (s.connDevList i))
  /-- A call that fails changes nothing. -/
  fails : (s.devCharInfoAddPeerAttHandle dev).2 ≠ 0 → (s.devCharInfoAddPeerAttHandle dev).1 = s

/-- The search reaches a connection with the handle, if there is one, and no free slot with it. -/
structure Reaches (s : DevTable) (connHandle : UInt16) : Prop where
  /-- A connection with the handle is in one of the slots searched. -/
  near : ∀ i, s.CentralAt connHandle i → ∃ j, s.CentralAt connHandle j ∧ j < s.centralNum
  /-- Before a free slot with the handle zero comes a connection with it. -/
  passes : connHandle = 0 → ∀ i : ℕ, i < s.centralNum → ¬s.Connected i →
    ∃ j < i, s.CentralAt connHandle j

/-! ### One call -/

theorem Sound.centralNum_le (h : s.Sound) : s.centralNum ≤ s.centralMax := by
  have hle := List.countP_le_length (l := List.range' 0 s.centralMax)
    (p := fun i => DevCharInfo.Connected (s.connDevList i))
  rw [List.length_range'] at hle
  rw [h.centralNum, countIn]
  omega

/-- A connection in one of the slots searched is a central one. -/
theorem Sound.centralAt (h : s.Sound) {i : ℕ} (hi : i < s.centralNum) (hcon : s.Connected i) :
    s.CentralAt (s.connDevList i).connHandle i := by
  have hle := h.centralNum_le
  have hmax : i < s.maxNum := by
    unfold maxNum
    omega
  refine ⟨hmax, hcon, ?_, rfl⟩
  rcases h.roles i hmax hcon with ⟨hrole, -⟩ | ⟨-, hlo, -⟩
  · exact hrole
  · omega

theorem Clean.connHandle (h : s.Clean) {i : ℕ} (hfree : ¬s.Connected i) :
    (s.connDevList i).connHandle = 0 := by
  rw [h i hfree]
  rfl

/-- What a search finds. -/
theorem addPeerAttHandle_cases (s : DevTable) (dev : DevCharInfo) :
    (∃ i : ℕ, i < s.centralNum ∧ (s.connDevList i).connHandle = dev.connHandle ∧
      (∀ j < i, (s.connDevList j).connHandle ≠ dev.connHandle) ∧
      s.devCharInfoAddPeerAttHandle dev =
        (s.setEntry i (withHandles dev (s.connDevList i)), 0)) ∨
    ((∀ i : ℕ, i < s.centralNum → (s.connDevList i).connHandle ≠ dev.connHandle) ∧
      s.devCharInfoAddPeerAttHandle dev = (s, 1)) := by
  unfold devCharInfoAddPeerAttHandle
  cases hfind : firstIn (fun d : DevCharInfo => d.connHandle = dev.connHandle) s.connDevList 0
      s.centralNum.toNat with
  | some i =>
    obtain ⟨hh, ⟨-, hlt⟩, hfirst⟩ := firstIn_eq_some_iff.mp hfind
    exact Or.inl ⟨i, by omega, hh, fun j hj => hfirst j (Nat.zero_le j) hj, rfl⟩
  | none =>
    refine Or.inr ⟨fun i hi => ?_, rfl⟩
    exact firstIn_eq_none_iff.mp hfind i (Nat.zero_le i) (by omega)

/-- A free slot that gets handles is not as it was. -/
theorem Clean.setEntry_ne (h : s.Clean) {dev : DevCharInfo} {i k : ℕ} (hfree : ¬s.Connected i)
    (hcon : s.Connected k) (entry : DevCharInfo) :
    s.setEntry i (withHandles dev (s.connDevList i)) ≠ s.setEntry k entry := by
  intro heq
  have hne : i ≠ k := by
    rintro rfl
    exact hfree hcon
  have hslot := congrArg (fun t => (t.connDevList i).charHandleValid) heq
  simp only [setEntry_self, setEntry_of_ne hne, h i hfree] at hslot
  exact absurd (show (1 : UInt8) = 0 from hslot) (by simp)

/-- **A call does what it is for** exactly when the search reaches the connection. -/
theorem setsHandles_iff (hs : s.Sound) (hc : s.Clean) (dev : DevCharInfo) :
    s.SetsHandles dev ↔ s.Reaches dev.connHandle := by
  rcases addPeerAttHandle_cases s dev with ⟨i, hi, hh, hfirst, heq⟩ | ⟨hnone, heq⟩
  · constructor
    · intro hsets
      have hcon : s.Connected i := by
        by_contra hfree
        obtain ⟨k, hk, hset⟩ := hsets.sets (by rw [heq])
        rw [heq] at hset
        exact hc.setEntry_ne hfree hk.2.1 _ hset
      have hat : s.CentralAt dev.connHandle i := hh ▸ hs.centralAt hi hcon
      refine ⟨fun _ _ => ⟨i, hat, hi⟩, fun hzero k _ hfree => ⟨i, ?_, hat⟩⟩
      -- the search comes to slot `i` first
      rcases lt_trichotomy k i with hlt | rfl | hlt
      · exact absurd ((hc.connHandle hfree).trans hzero.symm) (hfirst k hlt)
      · exact absurd hcon hfree
      · exact hlt
    · intro hreach
      have hat : s.CentralAt dev.connHandle i := by
        by_cases hcon : s.Connected i
        · exact hh ▸ hs.centralAt hi hcon
        · -- a free slot has the handle zero, and a connection with it would have come first
          obtain ⟨j, hj, hat⟩ := hreach.passes (by rw [← hh, hc.connHandle hcon]) i hi hcon
          exact absurd hat.2.2.2 (hfirst j hj)
      refine ⟨?_, ?_, ?_⟩
      · rw [heq]
        exact iff_of_true rfl ⟨i, hat⟩
      · rw [heq]
        exact fun _ => ⟨i, hat, rfl⟩
      · rw [heq]
        exact fun hne => absurd rfl hne
  · constructor
    · intro hsets
      refine ⟨fun i hat => ?_, fun hzero i hi hfree => ?_⟩
      · have := hsets.succeeds_iff.mpr ⟨i, hat⟩
        rw [heq] at this
        cases this
      · exact absurd ((hc.connHandle hfree).trans hzero.symm) (hnone i hi)
    · intro hreach
      have hno : ¬∃ i, s.CentralAt dev.connHandle i := by
        rintro ⟨i, hat⟩
        obtain ⟨j, hatj, hj⟩ := hreach.near i hat
        exact hnone j hj hatj.2.2.2
      refine ⟨?_, ?_, ?_⟩
      · rw [heq]
        exact iff_of_false Nat.one_ne_zero hno
      · rw [heq]
        exact fun hret => absurd hret Nat.one_ne_zero
      · rw [heq]
        exact fun _ => rfl

/-! ### Runs -/

/-- **The attribute handles go to the right device** in every table that insertions and deletions
lead to, exactly when the search reaches it. -/
theorem addPeerAttHandle_iff (c : DevConfig) (run : List Event) (dev : DevCharInfo) :
    (run.foldl step (init c)).SetsHandles dev ↔
      (run.foldl step (init c)).Reaches dev.connHandle :=
  setsHandles_iff (sound_clean c run).1 (sound_clean c run).2 dev

/-- Two central connections, the first of which is gone. -/
def secondLeft : List Event :=
  [.connEvent ⟨0x80, ACL_ROLE_CENTRAL, ⟨0, fun _ => 1⟩⟩,
    .connEvent ⟨0x81, ACL_ROLE_CENTRAL, ⟨0, fun _ => 2⟩⟩, .deleteByConnhandle 0x80]

/-- What was found of the other one. -/
def secondHandles : DevCharInfo := { DevCharInfo.cleared with connHandle := 0x81 }

/-- **A connection behind a freed slot is not found**. -/
theorem secondLeft_missed :
    ¬∀ (c : DevConfig) (run : List Event) (dev : DevCharInfo),
      (run.foldl step (init c)).SetsHandles dev := by
  intro hall
  have hsets := hall ⟨4, 4, by decide⟩ secondLeft secondHandles
  have hat : (secondLeft.foldl step (init ⟨4, 4, by decide⟩)).CentralAt 0x81 1 := by
    refine ⟨by decide, ?_, by decide, by decide⟩
    show _ ≠ _
    decide
  exact absurd (hsets.succeeds_iff.mpr ⟨1, hat⟩) (by decide)

end TcBle.Vendor.DevTable
