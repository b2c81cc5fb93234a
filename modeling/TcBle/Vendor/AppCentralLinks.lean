import TcBle.Vendor.AppCentral
import Mathlib.Data.List.Perm.Subperm

/-!
# The connections of the central's application

The application knows a connection by its handle: in the table of devices, and in
`central_smp_pending`, `central_sdp_pending` and `central_disconnect_connhandle`, each of which
keeps it from connecting to another device. A handle that stayed in one of them after the end of
its connection would keep it so for good.

## What is proved

* `Tracks.insert`, `Tracks.delete`, `Tracks.setHandles` — the table has the connections, one entry
  for each.
* `Linked.tick` — one step keeps this, and that the pending handles are those of connections.
* `run_linked` — so it is after any run.
-/

namespace TcBle.Vendor

open TcBle.Foundation Run

/-! ### The table -/

namespace DevTable

/-- Slot `i` has the entry of a connection. -/
structure Shows (s : DevTable) (c : ConnCompleteEvt) (i : ℕ) : Prop where
  lt : i < s.maxNum
  connected : s.Connected i
  connHandle : (s.connDevList i).connHandle = c.connHandle
  role : (s.connDevList i).connRole = c.role
  peer : (s.connDevList i).peer = c.peer

/-- **The table has the connections**, each in one slot of its role. -/
structure Tracks (s : DevTable) (live : List ConnCompleteEvt) : Prop where
  /-- The entries are in the slots of their roles. -/
  roles : ∀ i < s.maxNum, s.Connected i → s.RoleSlot (s.connDevList i).connRole i
  /-- The free slots are zero. -/
  clean : s.Clean
  /-- Each connection has an entry. -/
  shown : ∀ c ∈ live, ∃ i, s.Shows c i
  /-- Each entry is that of a connection. -/
  entries : ∀ i < s.maxNum, s.Connected i → ∃ c ∈ live, s.Shows c i
  /-- No two have the same handle. -/
  slots : ∀ i < s.maxNum, ∀ j < s.maxNum, s.Connected i → s.Connected j →
    (s.connDevList i).connHandle = (s.connDevList j).connHandle → i = j
  /-- No handle is zero. -/
  nonzero : ∀ c ∈ live, c.connHandle ≠ 0

variable {s : DevTable} {live : List ConnCompleteEvt}

/-- Slots that are all in use by one role are no more than its connections. -/
theorem Tracks.range_le (h : s.Tracks live) {role : UInt8} (lo : ℕ) {n : ℕ}
    (hall : ∀ i, lo ≤ i → i < lo + n → i < s.maxNum ∧ s.Connected i ∧
      (s.connDevList i).connRole = role) : n ≤ live.countP (·.role = role) := by
  have hin : ∀ {i}, i ∈ List.range' lo n → i < s.maxNum ∧ s.Connected i ∧
      (s.connDevList i).connRole = role := fun hi => by
    rw [List.mem_range'_1] at hi
    exact hall _ hi.1 hi.2
  have hnodup : ((List.range' lo n).map fun i => (s.connDevList i).connHandle).Nodup :=
    (List.nodup_map_iff_inj_on List.nodup_range').mpr fun i hi j hj hsame =>
      h.slots i (hin hi).1 j (hin hj).1 (hin hi).2.1 (hin hj).2.1 hsame
  have hsub : ((List.range' lo n).map fun i => (s.connDevList i).connHandle) ⊆
      (live.filter (·.role = role)).map ConnCompleteEvt.connHandle := by
    intro x hx
    obtain ⟨i, hi, rfl⟩ := List.mem_map.mp hx
    obtain ⟨hlt, hcon, hrole⟩ := hin hi
    obtain ⟨c, hc, hshows⟩ := h.entries i hlt hcon
    refine List.mem_map.mpr ⟨c, List.mem_filter.mpr ⟨hc, ?_⟩, hshows.connHandle.symm⟩
    exact decide_eq_true (hshows.role.symm.trans hrole)
  have hle := (List.subperm_of_subset hnodup hsub).length_le
  rwa [List.length_map, List.length_range', List.length_map, ← List.countP_eq_length_filter]
    at hle

/-- Where there are fewer connections of a role than slots, a slot is free. -/
theorem Tracks.exists_free (h : s.Tracks live) {role : UInt8}
    (hcount : live.countP (·.role = role) < s.slotsOf role) :
    ¬ ∀ i, s.RoleSlot role i → s.Connected i := by
  intro hall
  refine absurd hcount (Nat.not_lt.mpr ?_)
  unfold slotsOf
  have hrole : ∀ i, s.RoleSlot role i → i < s.maxNum ∧ s.Connected i ∧
      (s.connDevList i).connRole = role := by
    intro i hi
    refine ⟨hi.lt, hall i hi, ?_⟩
    rcases h.roles i hi.lt (hall i hi) with ⟨hr, hlt⟩ | ⟨hr, hle, -⟩
    · rcases hi with ⟨rfl, -⟩ | ⟨-, hle, -⟩
      · exact hr
      · omega
    · rcases hi with ⟨-, hlt⟩ | ⟨rfl, -, -⟩
      · omega
      · exact hr
  split_ifs with hc hp
  · exact h.range_le 0 fun i _ hi => hrole i (.inl ⟨hc, by omega⟩)
  · exact h.range_le s.centralMax fun i hlo hi => hrole i (.inr ⟨hp, hlo, hi⟩)
  · exact Nat.zero_le _

/-- The table `t` is `s` with an entry in slot `i`, but for the counters. -/
structure Sets (s : DevTable) (i : ℕ) (entry : DevCharInfo) (t : DevTable) : Prop where
  config : t.toDevConfig = s.toDevConfig
  list : ∀ j, t.connDevList j = if j = i then entry else s.connDevList j

theorem sets_setEntry (s : DevTable) (i : ℕ) (entry : DevCharInfo) :
    s.Sets i entry (s.setEntry i entry) := by
  refine ⟨rfl, fun j => ?_⟩
  by_cases hj : j = i
  · rw [if_pos hj, hj, setEntry_self]
  · rw [if_neg hj, setEntry_of_ne hj]

theorem sets_addCount (s : DevTable) (role : UInt8) (n : ℤ) (i : ℕ) (entry : DevCharInfo) :
    s.Sets i entry ((s.addCount role n).setEntry i entry) := by
  have hset := sets_setEntry (s.addCount role n) i entry
  refine ⟨hset.config.trans ?_, fun j => ?_⟩
  · unfold addCount
    split <;> rfl
  · rw [hset.list, addCount_connDevList]

variable {t : DevTable} {i j : ℕ} {entry : DevCharInfo} {c : ConnCompleteEvt}

theorem Sets.maxNum (h : s.Sets i entry t) : t.maxNum = s.maxNum :=
  congrArg (fun d : DevConfig => d.centralMax + d.periphrMax) h.config

theorem Sets.roleSlot (h : s.Sets i entry t) (role : UInt8) :
    t.RoleSlot role j ↔ s.RoleSlot role j := by
  have hmax : t.centralMax = s.centralMax := congrArg DevConfig.centralMax h.config
  rw [RoleSlot, RoleSlot, h.maxNum, hmax]

theorem Sets.self (h : s.Sets i entry t) : t.connDevList i = entry := by rw [h.list, if_pos rfl]

theorem Sets.other (h : s.Sets i entry t) (hj : j ≠ i) : t.connDevList j = s.connDevList j := by
  rw [h.list, if_neg hj]

theorem Sets.connected_self (h : s.Sets i entry t) : t.Connected i ↔ entry.Connected := by
  rw [Connected, h.self]

theorem Sets.connected_other (h : s.Sets i entry t) (hj : j ≠ i) :
    t.Connected j ↔ s.Connected j := by
  rw [Connected, h.other hj, Connected]

/-- The other slots show what they did. -/
theorem Sets.shows_other (h : s.Sets i entry t) (hj : j ≠ i) : t.Shows c j ↔ s.Shows c j := by
  constructor
  · rintro ⟨hlt, hcon, hhandle, hrole, hpeer⟩
    rw [h.other hj] at hhandle hrole hpeer
    exact ⟨h.maxNum ▸ hlt, (h.connected_other hj).mp hcon, hhandle, hrole, hpeer⟩
  · rintro ⟨hlt, hcon, hhandle, hrole, hpeer⟩
    rw [← h.other hj] at hhandle hrole hpeer
    exact ⟨h.maxNum.symm ▸ hlt, (h.connected_other hj).mpr hcon, hhandle, hrole, hpeer⟩

/-- **A new connection.** -/
theorem Tracks.insert (h : s.Tracks live) (hzero : c.connHandle ≠ 0)
    (hfresh : ∀ c' ∈ live, c'.connHandle ≠ c.connHandle)
    (hcount : live.countP (·.role = c.role) < s.slotsOf c.role) :
    (s.devCharInfoInsertByConnEvent c).1.Tracks (c :: live) := by
  rcases insertEntry_cases c.role c.entry s with ⟨i, hslot, hfree, -, heq⟩ | ⟨hall, -⟩
  · have hset : s.Sets i c.entry (s.devCharInfoInsertByConnEvent c).1 := by
      rw [devCharInfoInsertByConnEvent, heq]
      exact sets_addCount ..
    have hself : (s.devCharInfoInsertByConnEvent c).1.Shows c i :=
      ⟨hset.maxNum.symm ▸ hslot.lt, hset.connected_self.mpr (connected_entry c),
        by rw [hset.self]; rfl, by rw [hset.self]; rfl, by rw [hset.self]; rfl⟩
    -- a slot shown by an older connection is another one, as slot `i` was free
    have hne : ∀ {c' j}, s.Shows c' j → j ≠ i := by
      rintro c' j hshows rfl
      exact hfree hshows.connected
    have hold : ∀ {j}, j < s.maxNum → j ≠ i → (s.devCharInfoInsertByConnEvent c).1.Connected j →
        ((s.devCharInfoInsertByConnEvent c).1.connDevList j).connHandle ≠ c.connHandle := by
      intro j hlt hj hcon
      obtain ⟨c', hc', hshows⟩ := h.entries j hlt ((hset.connected_other hj).mp hcon)
      rw [hset.other hj, hshows.connHandle]
      exact hfresh c' hc'
    refine ⟨fun j hlt hcon => ?_, fun j hcon => ?_, fun c' hc' => ?_, fun j hlt hcon => ?_,
      fun j hj k hk hconj hconk hsame => ?_, ?_⟩
    · rw [hset.roleSlot]
      rw [hset.maxNum] at hlt
      by_cases hj : j = i
      · rw [hj, hset.self]
        exact hslot
      · rw [hset.other hj]
        exact h.roles j hlt ((hset.connected_other hj).mp hcon)
    · have hj : j ≠ i := fun hj => hcon (hj ▸ hself.connected)
      rw [hset.other hj]
      exact h.clean j fun hcon' => hcon ((hset.connected_other hj).mpr hcon')
    · rcases List.mem_cons.mp hc' with rfl | hc'
      · exact ⟨i, hself⟩
      · obtain ⟨j, hshows⟩ := h.shown c' hc'
        exact ⟨j, (hset.shows_other (hne hshows)).mpr hshows⟩
    · rw [hset.maxNum] at hlt
      by_cases hj : j = i
      · exact ⟨c, List.mem_cons_self, hj ▸ hself⟩
      · obtain ⟨c', hc', hshows⟩ := h.entries j hlt ((hset.connected_other hj).mp hcon)
        exact ⟨c', List.mem_cons_of_mem _ hc', (hset.shows_other hj).mpr hshows⟩
    · rw [hset.maxNum] at hj hk
      by_cases hji : j = i
      · by_cases hki : k = i
        · rw [hji, hki]
        · rw [hji, hself.connHandle] at hsame
          exact absurd hsame.symm (hold hk hki hconk)
      · by_cases hki : k = i
        · rw [hki, hself.connHandle] at hsame
          exact absurd hsame (hold hj hji hconj)
        · rw [hset.other hji, hset.other hki] at hsame
          exact h.slots j hj k hk ((hset.connected_other hji).mp hconj)
            ((hset.connected_other hki).mp hconk) hsame
    · rintro c' hc'
      rcases List.mem_cons.mp hc' with rfl | hc'
      · exact hzero
      · exact h.nonzero c' hc'
  · exact absurd hall (h.exists_free hcount)

/-- **A connection ends.** -/
theorem Tracks.delete (h : s.Tracks live) (connHandle : UInt16) :
    (s.devCharInfoDeleteByConnhandle connHandle).1.Tracks
      (live.filter fun c => c.connHandle ≠ connHandle) := by
  have hmem : ∀ {c'}, c' ∈ live.filter (fun c => c.connHandle ≠ connHandle) ↔
      c' ∈ live ∧ c'.connHandle ≠ connHandle := by
    intro c'
    rw [List.mem_filter, decide_eq_true_eq]
  rcases deleteFirst_cases (fun d => d.connHandle = connHandle) s with
    ⟨i, hlt, hcon, hhandle, -, heq⟩ | ⟨hnone, heq⟩
  · have hset : s.Sets i .cleared (s.devCharInfoDeleteByConnhandle connHandle).1 := by
      rw [devCharInfoDeleteByConnhandle, heq]
      exact sets_addCount ..
    have hgone : ¬ (s.devCharInfoDeleteByConnhandle connHandle).1.Connected i := by
      rw [hset.connected_self]
      exact not_connected_cleared
    have hne : ∀ {j}, (s.devCharInfoDeleteByConnhandle connHandle).1.Connected j → j ≠ i := by
      rintro j hj rfl
      exact hgone hj
    refine ⟨fun j hj hconj => ?_, fun j hconj => ?_, fun c' hc' => ?_, fun j hj hconj => ?_,
      fun j hj k hk hconj hconk hsame => ?_, fun c' hc' => h.nonzero c' (hmem.mp hc').1⟩
    · rw [hset.roleSlot, hset.other (hne hconj)]
      exact h.roles j (hset.maxNum ▸ hj) ((hset.connected_other (hne hconj)).mp hconj)
    · by_cases hj : j = i
      · rw [hj, hset.self]
      · rw [hset.other hj]
        exact h.clean j fun hcon' => hconj ((hset.connected_other hj).mpr hcon')
    · obtain ⟨hlive, hother⟩ := hmem.mp hc'
      obtain ⟨j, hshows⟩ := h.shown c' hlive
      have hj : j ≠ i := by
        rintro rfl
        exact hother (hshows.connHandle.symm.trans hhandle)
      exact ⟨j, (hset.shows_other hj).mpr hshows⟩
    · have hj' := hset.maxNum ▸ hj
      have hconj' := (hset.connected_other (hne hconj)).mp hconj
      obtain ⟨c', hc', hshows⟩ := h.entries j hj' hconj'
      refine ⟨c', hmem.mpr ⟨hc', fun heq' => ?_⟩, (hset.shows_other (hne hconj)).mpr hshows⟩
      exact hne hconj (h.slots j hj' i hlt hconj' hcon (by rw [hshows.connHandle, heq', hhandle]))
    · rw [hset.other (hne hconj), hset.other (hne hconk)] at hsame
      exact h.slots j (hset.maxNum ▸ hj) k (hset.maxNum ▸ hk)
        ((hset.connected_other (hne hconj)).mp hconj)
        ((hset.connected_other (hne hconk)).mp hconk) hsame
  · have hall : live.filter (fun c => c.connHandle ≠ connHandle) = live := by
      refine List.filter_eq_self.mpr fun c' hc' => decide_eq_true fun heq' => ?_
      obtain ⟨j, hshows⟩ := h.shown c' hc'
      exact hnone j hshows.lt hshows.connected (hshows.connHandle.trans heq')
    rw [hall, devCharInfoDeleteByConnhandle, heq]
    exact h

/-- **A device's handles** are set: what an entry shows stays. -/
theorem Tracks.setHandles (h : s.Tracks live) {dev : DevCharInfo} (hzero : dev.connHandle ≠ 0) :
    (s.devCharInfoAddPeerAttHandle dev).1.Tracks live := by
  rcases addPeerAttHandle_cases s dev with ⟨i, -, hhandle, -, heq⟩ | ⟨-, heq⟩
  · have hcon : s.Connected i := by
      by_contra hfree
      exact hzero (hhandle.symm.trans (h.clean.connHandle hfree))
    obtain ⟨t, ht⟩ : ∃ t, s.setEntry i (withHandles dev (s.connDevList i)) = t := ⟨_, rfl⟩
    have hset : s.Sets i (withHandles dev (s.connDevList i)) t := ht ▸ sets_setEntry ..
    have hconnected : ∀ {j}, t.Connected j ↔ s.Connected j := by
      intro j
      by_cases hj : j = i
      · rw [hj, hset.connected_self]
        exact iff_of_true hcon hcon
      · exact hset.connected_other hj
    have hsame : ∀ j, (t.connDevList j).connHandle = (s.connDevList j).connHandle ∧
        (t.connDevList j).connRole = (s.connDevList j).connRole ∧
        (t.connDevList j).peer = (s.connDevList j).peer := by
      intro j
      by_cases hj : j = i
      · rw [hj, hset.self]
        exact ⟨rfl, rfl, rfl⟩
      · rw [hset.other hj]
        exact ⟨rfl, rfl, rfl⟩
    have hshows : ∀ {c j}, s.Shows c j → t.Shows c j := fun {c j} hs =>
      ⟨hset.maxNum.symm ▸ hs.lt, hconnected.mpr hs.connected, (hsame j).1.trans hs.connHandle,
        (hsame j).2.1.trans hs.role, (hsame j).2.2.trans hs.peer⟩
    rw [heq, ht]
    refine ⟨fun j hj hconj => ?_, fun j hconj => ?_, fun c hc => ?_, fun j hj hconj => ?_,
      fun j hj k hk hconj hconk heq' => ?_, h.nonzero⟩
    · rw [hset.roleSlot, (hsame j).2.1]
      exact h.roles j (hset.maxNum ▸ hj) (hconnected.mp hconj)
    · have hj : j ≠ i := fun hj => hconj (hconnected.mpr (hj ▸ hcon))
      rw [hset.other hj]
      exact h.clean j fun hcon' => hconj (hconnected.mpr hcon')
    · obtain ⟨j, hs⟩ := h.shown c hc
      exact ⟨j, hshows hs⟩
    · obtain ⟨c, hc, hs⟩ := h.entries j (hset.maxNum ▸ hj) (hconnected.mp hconj)
      exact ⟨c, hc, hshows hs⟩
    · rw [(hsame j).1, (hsame k).1] at heq'
      exact h.slots j (hset.maxNum ▸ hj) k (hset.maxNum ▸ hk) (hconnected.mp hconj)
        (hconnected.mp hconk) heq'
  · rw [heq]
    exact h

theorem tracks_init (config : DevConfig) : (init config).Tracks [] :=
  ⟨fun _ _ hcon => absurd hcon not_connected_cleared, fun _ _ => rfl,
    fun _ hc => absurd hc List.not_mem_nil, fun _ _ hcon => absurd hcon not_connected_cleared,
    fun _ _ _ _ hcon => absurd hcon not_connected_cleared, fun _ hc => absurd hc List.not_mem_nil⟩

/-- A lookup by handle finds a connection. -/
theorem Tracks.of_slot (h : s.Tracks live) {connHandle : UInt16} {i : ℕ}
    (hfind : s.slotOfConnhandle connHandle = some i) :
    ∃ c ∈ live, c.connHandle = connHandle ∧ s.Shows c i := by
  obtain ⟨hlt, hcon, hhandle⟩ := slotOfConnhandle_eq_some hfind
  obtain ⟨c, hc, hshows⟩ := h.entries i hlt hcon
  exact ⟨c, hc, hshows.connHandle.symm.trans hhandle, hshows⟩

end DevTable

/-! ### The pending handles -/

/-- A pending handle is zero, or that of a connection that meets `p`. -/
def HandleOf (live : List ConnCompleteEvt) (p : ConnCompleteEvt → Prop) (connHandle : UInt16) :
    Prop := connHandle = 0 ∨ ∃ c ∈ live, c.connHandle = connHandle ∧ p c

variable {live : List ConnCompleteEvt} {p : ConnCompleteEvt → Prop} {connHandle : UInt16}

theorem HandleOf.cons (h : HandleOf live p connHandle) (c : ConnCompleteEvt) :
    HandleOf (c :: live) p connHandle :=
  h.imp_right fun ⟨c', hc', hp⟩ => ⟨c', List.mem_cons_of_mem c hc', hp⟩

/-- The handle of a connection that ends is taken away. -/
theorem HandleOf.ended (h : HandleOf live p connHandle) (gone : UInt16) :
    HandleOf (live.filter fun c => c.connHandle ≠ gone) p
      (if connHandle = gone then 0 else connHandle) := by
  split_ifs with heq
  · exact .inl rfl
  · refine h.imp_right fun ⟨c, hc, hhandle, hp⟩ => ⟨c, List.mem_filter.mpr ⟨hc, ?_⟩, hhandle, hp⟩
    exact decide_eq_true (hhandle ▸ heq)

/-- **The application and the connections.** -/
structure Linked (w : World) : Prop where
  /-- The table has the connections. -/
  tracks : w.app.table.Tracks w.live
  /-- The device to be paired is connected, as a peripheral. -/
  smp : HandleOf w.live (·.role = ACL_ROLE_CENTRAL) w.app.smpPending
  /-- The device to be asked for its services is connected, and it is the current one. -/
  sdp : HandleOf w.live (fun c => c.role = ACL_ROLE_CENTRAL ∧
    w.app.curSdpDevice.connHandle = c.connHandle ∧ w.app.curSdpDevice.peer = c.peer)
    w.app.sdpPending
  /-- The device to be disconnected is connected. -/
  disconnect : HandleOf w.live (fun _ => True) w.app.disconnectConnhandle
  /-- While a connection is being created, no device is to be paired or asked. -/
  initiating : w.initiating ≠ .no → w.app.smpPending = 0 ∧ w.app.sdpPending = 0
  /-- While a discovery may still be a success, the current device has a handle. -/
  current : w.app.discovering.isSome → w.app.curSdpDevice.connHandle ≠ 0

/-! ### What the functions do -/

namespace Central

variable {s : Central}

/-- An advertisement is looked at only when nothing is pending. -/
theorem advReport_idle {rssi : ℤ} {bonded : Bool}
    (h : s.appLeAdvReportEventHandle rssi bonded = true) :
    s.smpPending = 0 ∧ s.sdpPending = 0 ∧ s.disconnectConnhandle = 0 := by
  unfold appLeAdvReportEventHandle at h
  split_ifs at h with hsmp hsdp hdisc
  exact ⟨not_not.mp hsmp, not_not.mp hsdp, not_not.mp hdisc⟩

/-- A new central connection: its handles are in flash, or it is to be asked for them. -/
theorem needSdp_cases (evt : ConnCompleteEvt) (s : Central) :
    (∃ dev : DevCharInfo, dev.connHandle = evt.connHandle ∧ dev.peer = evt.peer ∧
      s.needSdp evt = { s with
        curSdpDevice := dev, table := (s.table.devCharInfoAddPeerAttHandle dev).1 }) ∨
    (SdpStore.devCharInfoSearchPeerAttHandleByPeerMac s.sector evt.peer s.flash = none ∧
      ∃ dev : DevCharInfo, dev.connHandle = evt.connHandle ∧ dev.peer = evt.peer ∧
        s.needSdp evt = { s with curSdpDevice := dev, sdpPending := evt.connHandle }) := by
  unfold needSdp
  cases hfind : SdpStore.devCharInfoSearchPeerAttHandleByPeerMac s.sector evt.peer s.flash with
  | some found => exact .inl ⟨_, rfl, rfl, rfl⟩
  | none => exact .inr ⟨rfl, _, rfl, rfl, rfl⟩

end Central

namespace Linked

variable {w : World}

/-- A handle that is known as a central's is not zero. -/
theorem isCentral_ne_zero (h : Linked w) {connHandle : UInt16}
    (hcentral : w.app.isCentral connHandle = true) : connHandle ≠ 0 := by
  cases hfind : w.app.table.slotOfConnhandle connHandle with
  | none =>
    rw [Central.isCentral, DevTable.connRole_of_none hfind] at hcentral
    exact absurd (of_decide_eq_true hcentral) (by decide)
  | some i =>
    obtain ⟨c, hc, hhandle, -⟩ := h.tracks.of_slot hfind
    rw [← hhandle]
    exact h.tracks.nonzero c hc

/-- **A central connection is complete**: nothing was pending. -/
theorem centralComplete (h : Linked w) {evt : ConnCompleteEvt}
    (hallowed : w.Allowed (.connectionComplete true evt)) (hrole : evt.role = ACL_ROLE_CENTRAL) :
    Linked (w.link (.connectionComplete true evt)) := by
  obtain ⟨hearlier, hzero, hfresh, hcount⟩ := hallowed rfl
  have hinit : w.initiating ≠ .no := by
    rw [hearlier hrole]
    decide
  obtain ⟨-, hsdp⟩ := h.initiating hinit
  have htracks := h.tracks.insert hzero hfresh hcount
  have hno : (w.link (.connectionComplete true evt)).initiating = .no := if_neg fun hr => hr.2 hrole
  have happ : (w.link (.connectionComplete true evt)).app = { w.app with
      table := (w.app.table.devCharInfoInsertByConnEvent evt).1
      smpPending := evt.connHandle }.needSdp evt := by
    simp only [World.link, Central.handle, Central.appLeConnectionCompleteEventHandle, if_true,
      hrole]
  have hself : evt ∈ (w.link (.connectionComplete true evt)).live := List.mem_cons_self
  rcases Central.needSdp_cases evt { w.app with
      table := (w.app.table.devCharInfoInsertByConnEvent evt).1
      smpPending := evt.connHandle } with ⟨dev, hhandle, hpeer, heq⟩ | ⟨-, dev, hhandle, hpeer, heq⟩
  · rw [heq] at happ
    refine ⟨?_, ?_, ?_, ?_, fun hne => absurd hno hne, ?_⟩
    · rw [happ]
      exact htracks.setHandles (hhandle ▸ hzero)
    · rw [happ]
      exact .inr ⟨evt, hself, rfl, hrole⟩
    · rw [happ]
      exact .inl hsdp
    · rw [happ]
      exact h.disconnect.cons evt
    · rw [happ]
      exact fun _ => hhandle ▸ hzero
  · rw [heq] at happ
    refine ⟨?_, ?_, ?_, ?_, fun hne => absurd hno hne, ?_⟩
    · rw [happ]
      exact htracks
    · rw [happ]
      exact .inr ⟨evt, hself, rfl, hrole⟩
    · rw [happ]
      exact .inr ⟨evt, hself, rfl, hrole, hhandle, hpeer⟩
    · rw [happ]
      exact h.disconnect.cons evt
    · rw [happ]
      exact fun _ => hhandle ▸ hzero

/-- Where the pairing ends, no more is pending. -/
theorem smpFinished (h : Linked w) (connHandle : UInt16) :
    Linked { w with app := w.app.smpFinished connHandle } := by
  unfold Central.smpFinished
  split
  · exact ⟨h.tracks, .inl rfl, h.sdp, h.disconnect, fun hne => ⟨rfl, (h.initiating hne).2⟩,
      h.current⟩
  · exact h

/-- **One event.** -/
theorem link (h : Linked w) {e : LinkEvent} (hallowed : w.Allowed e) : Linked (w.link e) := by
  cases e with
  | advReport rssi bonded created =>
    refine ⟨h.tracks, h.smp, h.sdp, h.disconnect, fun hne => ?_, h.current⟩
    by_cases hcreate : w.app.appLeAdvReportEventHandle rssi bonded ∧ created
    · obtain ⟨hsmp, hsdp, -⟩ := Central.advReport_idle hcreate.1
      exact ⟨hsmp, hsdp⟩
    · refine h.initiating ?_
      rwa [World.link, if_neg hcreate] at hne
  | connectionComplete ok evt =>
    cases ok with
    | true =>
      by_cases hrole : evt.role = ACL_ROLE_CENTRAL
      · exact h.centralComplete hallowed hrole
      · obtain ⟨-, hzero, hfresh, hcount⟩ := hallowed rfl
        have hinit : (w.link (.connectionComplete true evt)).initiating = w.initiating :=
          if_pos ⟨rfl, hrole⟩
        have happ : (w.link (.connectionComplete true evt)).app = { w.app with
            table := (w.app.table.devCharInfoInsertByConnEvent evt).1 } := by
          simp only [World.link, Central.handle, Central.appLeConnectionCompleteEventHandle,
            if_true, hrole, if_false]
        refine ⟨?_, ?_, ?_, ?_, fun hne => ?_, ?_⟩
        · rw [happ]
          exact h.tracks.insert hzero hfresh hcount
        · rw [happ]
          exact h.smp.cons evt
        · rw [happ]
          exact h.sdp.cons evt
        · rw [happ]
          exact h.disconnect.cons evt
        · rw [happ]
          exact h.initiating (hinit ▸ hne)
        · rw [happ]
          exact h.current
    | false =>
      have hno : (w.link (.connectionComplete false evt)).initiating = .no := rfl
      exact ⟨h.tracks, h.smp, h.sdp, h.disconnect, fun hne => absurd hno hne, h.current⟩
  | disconnection connHandle =>
    refine ⟨h.tracks.delete connHandle, h.smp.ended connHandle, h.sdp.ended connHandle,
      h.disconnect.ended connHandle, fun hne => ?_, h.current⟩
    obtain ⟨hsmp, hsdp⟩ := h.initiating hne
    constructor
    · exact (ite_eq_left_iff.mpr fun _ => hsmp)
    · exact (ite_eq_left_iff.mpr fun _ => hsdp)
  | pairingFail connHandle => exact h.smpFinished connHandle
  | securityProcessDone connHandle =>
    have h' := h.smpFinished connHandle
    show Linked { w with app := w.app.securityProcessDone connHandle }
    unfold Central.securityProcessDone
    simp only
    split
    · exact ⟨h'.tracks, h'.smp, h'.sdp, h'.disconnect, h'.initiating, h'.current⟩
    · exact h'
  | attData connHandle chanId opcode =>
    show Linked { w with app := w.app.appGattDataHandler connHandle chanId opcode }
    unfold Central.appGattDataHandler Central.hostAttClientHandler
    split_ifs
    · exact ⟨h.tracks, h.smp, h.sdp, h.disconnect, h.initiating, h.current⟩
    · exact h
    · exact h
    · exact h

/-! ### One step -/

theorem procButton (h : Linked w) (cnt : ℕ) (key0 : UInt8) :
    Linked { w with app := w.app.procButton cnt key0 } := by
  unfold Central.procButton
  split_ifs <;> exact ⟨h.tracks, h.smp, h.sdp, h.disconnect, h.initiating, h.current⟩

/-- The device that is unpaired is connected. -/
theorem procMasterRoleUnpair (h : Linked w) (terminated : Bool) :
    Linked { w with app := w.app.procMasterRoleUnpair terminated } := by
  unfold Central.procMasterRoleUnpair
  split
  · split
    · rename_i i hfind
      split
      · obtain ⟨c, hc, hhandle, -⟩ := h.tracks.of_slot hfind
        exact ⟨h.tracks, h.smp, h.sdp, .inr ⟨c, hc, hhandle, trivial⟩, h.initiating, h.current⟩
      · exact h
    · exact ⟨h.tracks, h.smp, h.sdp, h.disconnect, h.initiating, h.current⟩
  · exact h

theorem procUi (h : Linked w) (t : Tick) : Linked { w with app := w.app.procUi t } := by
  unfold Central.procUi
  cases t.button with
  | none => exact h.procMasterRoleUnpair t.terminated
  | some b => exact (h.procButton b.1 b.2).procMasterRoleUnpair t.terminated

theorem finishService (h : Linked w) : Linked { w with app := w.app.finishService } :=
  ⟨h.tracks, h.smp, .inl rfl, h.disconnect, fun hne => ⟨(h.initiating hne).1, rfl⟩,
    fun hsome => absurd hsome Bool.false_ne_true⟩

/-- The current device is the one that is asked for its services. -/
theorem current_ne_zero (h : Linked w) (hsdp : w.app.sdpPending ≠ 0) :
    w.app.curSdpDevice.connHandle ≠ 0 := by
  rcases h.sdp with hzero | ⟨c, hc, -, -, hcur, -⟩
  · exact absurd hzero hsdp
  · rw [hcur]
    exact h.tracks.nonzero c hc

theorem afterIdle (h : Linked w) (t : Tick) : Linked { w with app := w.app.afterIdle t } := by
  unfold Central.afterIdle
  cases hwait : w.app.discovering with
  | none =>
    simp only [Central.simpleSdpLoop]
    split_ifs with _ hsdp
    · exact ⟨h.tracks, h.smp, h.sdp, h.disconnect, h.initiating, fun _ => h.current_ne_zero hsdp⟩
    · exact h.finishService
    · exact h
  | some handle =>
    have hcur := h.current (by rw [hwait]; rfl)
    simp only
    split_ifs
    · exact h.finishService
    · cases t.next with
      | request opcode =>
        exact ⟨h.tracks, h.smp, h.sdp, h.disconnect, h.initiating, fun _ => hcur⟩
      | success charHandle =>
        exact ⟨h.tracks.setHandles hcur, h.smp, .inl rfl, h.disconnect,
          fun hne => ⟨(h.initiating hne).1, rfl⟩, fun hsome => absurd hsome Bool.false_ne_true⟩
    · exact h

theorem begin (h : Linked w) : Linked w.begin := by
  refine ⟨h.tracks, h.smp, h.sdp, h.disconnect, fun hne => h.initiating fun hno => hne ?_,
    h.current⟩
  rw [World.begin, hno]
  rfl

/-- **One step** of the main loop. -/
theorem tick (h : Linked w) {t : Tick} (hallowed : w.TickAllowed t) : Linked (w.tick t) := by
  have hevents : Linked (t.events.foldl World.link w.begin) :=
    Along.induction (P := fun _ w => Linked w) h.begin (fun _ _ h hC => h.link hC) hallowed
  exact (hevents.procUi t).afterIdle t

end Linked

theorem linked_init (config : DevConfig) (sector : ℕ) (flash : Flash) :
    Linked (World.init config sector flash) :=
  ⟨DevTable.tracks_init config, .inl rfl, .inl rfl, .inl rfl, fun _ => ⟨rfl, rfl⟩,
    fun hsome => absurd hsome Bool.false_ne_true⟩

/-- **No handle stays pending after its connection**, and the table has the connections, after any
run. -/
theorem run_linked (config : DevConfig) (sector : ℕ) (flash : Flash) (ts : List Tick)
    (hallowed : Along World.tick World.TickAllowed (World.init config sector flash) ts) :
    Linked (World.run config sector flash ts) :=
  hallowed.induction (P := fun _ w => Linked w) (linked_init config sector flash)
    fun _ _ h hC => h.tick hC

theorem sampleTicks_allowed (sector : ℕ) (flash : Flash) :
    Along World.tick World.TickAllowed (World.init ⟨1, 1, by decide⟩ sector flash) sampleTicks :=
  ⟨⟨fun _ => rfl, trivial⟩,
    ⟨fun _ => ⟨fun _ => rfl, by decide, fun _ hc => absurd hc List.not_mem_nil,
      show (0 : ℕ) < 1 by decide⟩, trivial⟩,
    ⟨trivial, trivial⟩, ⟨trivial, trivial⟩, trivial⟩

/-- A run in which one device connects. -/
theorem run_linked_one : Linked (World.run ⟨1, 1, by decide⟩ 0x78000 (fun _ => 0xff) sampleTicks) :=
  run_linked ⟨1, 1, by decide⟩ 0x78000 (fun _ => 0xff) sampleTicks (sampleTicks_allowed _ _)

end TcBle.Vendor
