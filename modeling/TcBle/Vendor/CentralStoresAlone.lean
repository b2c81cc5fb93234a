import TcBle.Vendor.CentralStores

/-!
# Each of the central's stores as if it were alone

The areas of the three stores have nothing in common, and each of them reads and writes its own
only: the addresses and the handles always, the paired devices as long as the index of their log
does not wrap around.

## What is proved

* `stores_alone` — in any run each of the three has what its own events alone lead to on a flash of
  its own, and what lies in none of their areas is as it was.
* `stores_persist` — at any point of a run a start gives the same addresses, devices and handles.
-/

namespace TcBle.Vendor

open TcBle.Foundation TcBle.Foundation.Run

/-! ### The addresses -/

section Address

variable {core : McuCore} {addr : ℕ} {s : MacStart} {f g : Flash}

theorem readPublic_congr (h : ∀ i < 8, g (addr + i) = f (addr + i)) :
    readPublic g addr = readPublic f addr := by
  have hzero : g addr = f addr := h 0 (by simp)
  rw [readPublic, hzero, h 1 (by simp), h 2 (by simp), h 3 (by simp), h 4 (by simp), h 5 (by simp)]
  rfl

/-- A start reads the area. -/
theorem blcInitMacAddress_congr (hsector : addr ≠ 0) (h : ∀ i < 8, g (addr + i) = f (addr + i)) :
    (blcInitMacAddress core addr addr s g).2 = (blcInitMacAddress core addr addr s f).2 ∧
      ∀ a, g a = f a → (blcInitMacAddress core addr addr s g).1 a =
        (blcInitMacAddress core addr addr s f).1 a := by
  have h₆ := h 6 (by simp)
  have h₇ := h 7 (by simp)
  have hpub := readPublic_congr h
  rw [blcInitMacAddress_eq core addr s g hsector, blcInitMacAddress_eq core addr s f hsector]
  refine ⟨by simp only [givenPublic, givenHigh, hpub, h₆, h₇], fun a ha => ?_⟩
  have hwith : ∀ b, g b = f b → withPublic core addr s g b = withPublic core addr s f b := by
    intro b hb
    unfold withPublic
    rw [hpub]
    split_ifs
    · exact hb
    · exact Flash.program_congr hb _ _
  show withHigh addr s (withPublic core addr s g) a = withHigh addr s (withPublic core addr s f) a
  unfold withHigh
  rw [hwith _ h₆, hwith _ h₇]
  split_ifs
  · exact Flash.program_congr (hwith a ha) _ _
  · exact hwith a ha

/-- It writes nothing else. -/
theorem blcInitMacAddress_outside (hsector : addr ≠ 0) {a : ℕ} (ha : a < addr ∨ addr + 8 ≤ a) :
    (blcInitMacAddress core addr addr s f).1 a = f a := by
  rw [blcInitMacAddress_eq core addr s f hsector]
  have hpub : withPublic core addr s f a = f a := by
    unfold withPublic
    split_ifs
    · rfl
    · exact f.program_other (by simp; omega)
  refine Eq.trans ?_ hpub
  show withHigh addr s (withPublic core addr s f) a = withPublic core addr s f a
  unfold withHigh
  split_ifs
  · exact Flash.program_other _ (by simp; omega)
  · rfl

end Address

/-! ### The handles -/

namespace SdpStore

variable {sector : ℕ} {f g : Flash}

/-- The units of two flashes with the same area. -/
theorem devAtt_area (h : ∀ a, sector ≤ a → a < sector + FLASH_SDP_ATT_MAX_SIZE → g a = f a)
    {i : ℕ} (hi : i < (log sector).num) :
    (log sector).mark g i = (log sector).mark f i ∧
      devAtt g ((log sector).unit i) = devAtt f ((log sector).unit i) := by
  have hunit : (log sector).unit i = sector + i * 32 := rfl
  have hnum : i < 256 := hi
  have hbytes : ∀ o < 32, g ((log sector).unit i + o) = f ((log sector).unit i + o) := by
    intro o ho
    refine h _ (by omega) ?_
    unfold FLASH_SDP_ATT_MAX_SIZE
    omega
  exact ⟨hbytes 0 (by simp), devAtt_congr hbytes⟩

theorem find_area (h : ∀ a, sector ≤ a → a < sector + FLASH_SDP_ATT_MAX_SIZE → g a = f a)
    (a : PeerAddr) :
    (log sector).find g (unitOf a g) = (log sector).find f (unitOf a f) := by
  refine FlashLog.find_congr (fun i hi => (devAtt_area h hi).1) fun i hi => ?_
  have hflag : g ((log sector).unit i) = f ((log sector).unit i) := (devAtt_area h hi).1
  rw [unitOf, unitOf, hflag, (devAtt_area h hi).2]

/-- The map that a search shows is in the area. -/
theorem lookup_area (h : ∀ a, sector ≤ a → a < sector + FLASH_SDP_ATT_MAX_SIZE → g a = f a) :
    lookup sector g = lookup sector f := by
  funext a
  unfold lookup devCharInfoSearchPeerAttHandleByPeerMac
  rw [find_area h]
  cases hfind : (log sector).find f (unitOf a f) with
  | none => rfl
  | some cur =>
    obtain ⟨i, hi, rfl⟩ := FlashLog.find_unit hfind
    simp only [Option.map_some, (devAtt_area h hi).2]

/-- So are the writes of an event. -/
theorem writes_area (h : ∀ a, sector ≤ a → a < sector + FLASH_SDP_ATT_MAX_SIZE → g a = f a)
    (e : Event) : e.writes sector g = e.writes sector f := by
  have hop : ∀ op : Op, op.writes sector g = op.writes sector f := by
    intro op
    cases op with
    | store pdev =>
      simp only [Op.writes, devCharInfoStorePeerAttHandle]
      rw [FlashLog.firstFree_congr fun i hi => (devAtt_area h hi).1]
    | search a => rfl
    | delete a =>
      simp only [Op.writes, devCharInfoDeletePeerAttHandleByPeerMac]
      rw [find_area h]
  cases e with
  | call op => exact hop op
  | cut op n => exact congrArg (List.take n) (hop op)

/-- They stay in the area. -/
theorem writes_within (e : Event) : ∀ op ∈ e.writes sector f,
    op.Within sector (sector + FLASH_SDP_ATT_MAX_SIZE) := by
  have hunit : ∀ i < (log sector).num, sector ≤ (log sector).unit i ∧
      (log sector).unit i + 32 ≤ sector + FLASH_SDP_ATT_MAX_SIZE := by
    intro i hi
    have hunit : (log sector).unit i = sector + i * 32 := rfl
    have hnum : i < 256 := hi
    unfold FLASH_SDP_ATT_MAX_SIZE
    omega
  have hop : ∀ o : Op, ∀ op ∈ o.writes sector f,
      op.Within sector (sector + FLASH_SDP_ATT_MAX_SIZE) := by
    intro o op hop
    cases o with
    | store pdev =>
      simp only [Op.writes, devCharInfoStorePeerAttHandle] at hop
      cases hfree : (log sector).firstFree f with
      | none => simp [hfree] at hop
      | some cur =>
        rw [hfree] at hop
        obtain ⟨i, hi, rfl⟩ := FlashLog.firstFree_unit hfree
        exact (storeWrites_within pdev _ op hop).mono (hunit i hi).1 (hunit i hi).2
    | search a => exact absurd hop List.not_mem_nil
    | delete a =>
      simp only [Op.writes, devCharInfoDeletePeerAttHandleByPeerMac] at hop
      cases hfind : (log sector).find f (unitOf a f) with
      | none => simp [hfind] at hop
      | some cur =>
        rw [hfind] at hop
        obtain ⟨i, hi, rfl⟩ := FlashLog.find_unit hfind
        rw [List.mem_singleton.mp hop]
        exact ⟨(hunit i hi).1, by have := (hunit i hi).2; rw [List.length_singleton]; omega⟩
  intro op hmem
  cases e with
  | call o => exact hop o op hmem
  | cut o n => exact hop o op (List.mem_of_mem_take hmem)

end SdpStore

namespace Stores

variable {core : McuCore} {L : Layout} {f : Flash}

theorem address_contained (s : Option MacAddresses × Flash) (i : MacStart) :
    (addressSharer core L).Contained s i := by
  have hbytes : ∀ m : Flash, Set.EqOn m s.2 (addressSharer core L).area →
      ∀ o < 8, m (L.sectors.macAddress + o) = s.2 (L.sectors.macAddress + o) :=
    fun m hm o ho => hm ⟨by omega, by omega⟩
  refine ⟨fun m hm => ?_, fun m hm a ha => ?_, fun m hm a ha => ?_⟩
  · exact (blcInitMacAddress_congr L.macAddress_ne (hbytes m hm)).1
  · exact (blcInitMacAddress_congr L.macAddress_ne (hbytes m hm)).2 a (hm ha)
  · refine blcInitMacAddress_outside L.macAddress_ne ?_
    by_contra hin
    exact ha ⟨by omega, by omega⟩

theorem handle_contained (s : Unit × Flash) (e : SdpStore.Event) :
    (handleSharer L).Contained s e := by
  have hwrites : ∀ m : Flash, Set.EqOn m s.2 (handleSharer L).area →
      e.writes L.sectors.simpleSdpAtt m = e.writes L.sectors.simpleSdpAtt s.2 :=
    fun m hm => SdpStore.writes_area (fun a hlo hhi => hm ⟨hlo, hhi⟩) e
  refine ⟨fun _ _ => rfl, fun m hm a ha => ?_, fun m hm a ha => ?_⟩
  · show Flash.replay m (e.writes _ m) a = Flash.replay s.2 (e.writes _ s.2) a
    rw [hwrites m hm]
    exact Flash.replay_congr (hm ha) _
  · refine Flash.replay_other (SdpStore.writes_within e) List.prefix_rfl ?_
    by_contra hin
    exact ha ⟨by omega, by omega⟩

/-! ### The paired devices -/

/-- The pairing table as a sharer's state. -/
def held (p : CustomPair) : Option (ℤ × List (ℕ × MacAddr)) × Flash :=
  (some (p.cfgIdx, p.tbl), p.flash)

/-- What an event leads to. -/
theorem pairing_step {p : CustomPair} (hsector : p.sector = L.sectors.smpStorage)
    (e : CustomPair.Event) : (pairingSharer L).step (held p) e =
      ((p.handle e).map held).getD (none, p.flash) := by
  obtain ⟨sector, hle, flash, cfgIdx, tbl⟩ := p
  obtain rfl : sector = L.sectors.smpStorage := hsector
  unfold pairingSharer held
  change _ = (((pairOf L flash (cfgIdx, tbl)).handle e).map held).getD (none, flash)
  dsimp only [Option.bind_some]
  cases (pairOf L flash (cfgIdx, tbl)).handle e with
  | none => rfl
  | some p => rfl

/-- **An event of the pairing table is contained**, as long as the index does not wrap around. -/
theorem pairing_contained {p : CustomPair} (hsector : p.sector = L.sectors.smpStorage)
    (hb : p.Bounded) {e : CustomPair.Event} (hrange : CustomPair.InRange (some p) e) :
    (pairingSharer L).Contained (held p) e := by
  -- a memory with the same area is that of a pairing table that differs elsewhere only
  have hsame : ∀ m : Flash, Set.EqOn m p.flash (pairingSharer L).area →
      CustomPair.Same p { p with flash := m } := fun m hm =>
    ⟨rfl, fun a hlo hhi => hm ⟨hsector ▸ hlo, hsector ▸ hhi⟩, rfl, rfl⟩
  have hstep : ∀ m : Flash, (pairingSharer L).step ((held p).1, m) e =
      ((CustomPair.handle { p with flash := m } e).map held).getD (none, m) := fun m =>
    pairing_step (p := { p with flash := m }) hsector e
  refine ⟨fun m hm => ?_, fun m hm a ha => ?_, fun m hm a ha => ?_⟩
  case refine_1 =>
    rw [hstep m, pairing_step hsector e]
    have hrel := CustomPair.handle_same (hsame m hm) e
    generalize p.handle e = r at hrel
    generalize CustomPair.handle { p with flash := m } e = r' at hrel
    cases hrel with
    | none => rfl
    | some hrel =>
      simp only [Option.map_some, Option.getD_some, held]
      rw [hrel.cfgIdx, hrel.tbl]
  case refine_2 =>
    rw [hstep m, pairing_step hsector e]
    have hrel := CustomPair.handle_same (hsame m hm) e
    have hinside : ∀ q, p.handle e = some q → q.sector = p.sector := fun q hq =>
      (CustomPair.handle_outside hb hrange hq).sector
    generalize p.handle e = r at hrel hinside
    generalize CustomPair.handle { p with flash := m } e = r' at hrel
    cases hrel with
    | none => exact hm ha
    | some hrel =>
      refine hrel.flash a ?_ ?_
      · rw [hinside _ rfl, hsector]
        exact ha.1
      · rw [hinside _ rfl, hsector]
        exact ha.2
  case refine_3 =>
    rw [hstep m]
    cases hq : CustomPair.handle { p with flash := m } e with
    | none => rfl
    | some q =>
      refine (CustomPair.handle_outside ((hsame m hm).bounded hb) ?_ hq).flash a ?_
      · cases e with
        | add a => exact hrange
        | _ => trivial
      · show a < p.sector ∨ p.sector + _ ≤ a
        rw [hsector]
        by_contra hin
        exact ha ⟨by omega, by omega⟩

/-- A run of the pairing table alone. -/
theorem pairing_run {p : CustomPair} {k : ℕ} (hsector : p.sector = L.sectors.smpStorage)
    (h : p.Holds k) {es : List CustomPair.Event}
    (hrange : Along CustomPair.step CustomPair.InRange (some p) es) :
    Along (pairingSharer L).step (pairingSharer L).Contained (held p) es ∧
      ∃ p' k', es.foldl CustomPair.step (some p) = some p' ∧ p'.Holds k' ∧
        p'.sector = L.sectors.smpStorage ∧ es.foldl (pairingSharer L).step (held p) = held p' := by
  induction es generalizing p k with
  | nil => exact ⟨trivial, p, k, rfl, h, hsector, rfl⟩
  | cons e es ih =>
    obtain ⟨hfirst, hrest⟩ := hrange
    have hok : CustomPair.Ok (some p) := ⟨p, k, rfl, h⟩
    obtain ⟨q, k', hq, hholds⟩ := hok.next hfirst
    have hhandle : p.handle e = some q := hq
    have hnext : (pairingSharer L).step (held p) e = held q := by
      rw [pairing_step hsector, hhandle]
      rfl
    rw [hq] at hrest
    obtain ⟨halong, hend⟩ := ih
      ((CustomPair.handle_outside h.bounded hfirst hhandle).sector.trans hsector) hholds hrest
    refine ⟨⟨pairing_contained hsector h.bounded hfirst, ?_⟩, ?_⟩
    · rw [hnext]
      exact halong
    · rw [List.foldl_cons, List.foldl_cons, hq, hnext]
      exact hend

/-- So is one from an erased sector, which begins with a start. -/
theorem pairing_run_blank (hblank : (pairOf L f (0, [])).Blank) {es : List CustomPair.Event}
    (hrange : Along CustomPair.step CustomPair.InRange (some (pairOf L f (0, [])))
      (.reboot :: es)) :
    Along (pairingSharer L).step (pairingSharer L).Contained (some (0, []), f) (.reboot :: es) ∧
      ∃ p k, (.reboot :: es).foldl CustomPair.step (some (pairOf L f (0, []))) = some p ∧
        p.Holds k ∧ p.sector = L.sectors.smpStorage ∧
        (.reboot :: es).foldl (pairingSharer L).step (some (0, []), f) = held p := by
  obtain ⟨hreboot, hholds⟩ := hblank.reboot
  have hstep : CustomPair.step (some (pairOf L f (0, []))) .reboot =
      some { pairOf L f (0, []) with cfgIdx := -8, tbl := [] } := hreboot
  have hnext : (pairingSharer L).step (held (pairOf L f (0, []))) .reboot =
      held { pairOf L f (0, []) with cfgIdx := -8, tbl := [] } := by
    rw [pairing_step rfl]
    show (((pairOf L f (0, [])).reboot).map held).getD _ = _
    rw [hreboot]
    rfl
  have hbounded : (pairOf L f (0, [])).Bounded :=
    ⟨fun e he => absurd he List.not_mem_nil, Nat.zero_le _, show (-8 : ℤ) ≤ 0 by decide,
      .inl (Int.dvd_zero 8)⟩
  rw [along_cons, hstep] at hrange
  obtain ⟨halong, hend⟩ := pairing_run rfl hholds hrange.2
  refine ⟨⟨pairing_contained (p := pairOf L f (0, [])) rfl hbounded trivial, ?_⟩, ?_⟩
  · rw [show ((some (0, []), f) : Option (ℤ × List (ℕ × MacAddr)) × Flash) =
      held (pairOf L f (0, [])) from rfl, hnext]
    exact halong
  · rw [List.foldl_cons, List.foldl_cons, hstep]
    refine hend.imp fun p hp => hp.imp fun k hk => ⟨hk.1, hk.2.1, hk.2.2.1, ?_⟩
    rw [show ((some (0, []), f) : Option (ℤ × List (ℕ × MacAddr)) × Flash) =
      held (pairOf L f (0, [])) from rfl, hnext]
    exact hk.2.2.2

/-! ### Runs of the central -/

/-- The areas have nothing in common. -/
theorem sharer_disjoint (core : McuCore) (L : Layout) :
    Pairwise fun j k => Disjoint (sharer core L j).area (sharer core L k).area := by
  have hapart := L.apart.pairwise
  simp only [Sectors.areas, List.pairwise_cons, List.mem_cons, List.not_mem_nil, or_false,
    forall_eq_or_imp, forall_eq, FLASH_SMP_PAIRING_MAX_SIZE, FLASH_SDP_ATT_MAX_SIZE] at hapart
  have hdisjoint : ∀ {a b m n : ℕ}, a + m ≤ b ∨ b + n ≤ a →
      Disjoint (Set.Ico a (a + m)) (Set.Ico b (b + n)) := by
    intro a b m n h
    rw [Set.disjoint_left]
    rintro x ⟨hax, hxa⟩ ⟨hbx, hxb⟩
    omega
  intro j k hne
  cases j with
  | addresses =>
    cases k with
    | addresses => exact absurd rfl hne
    | pairing => exact hdisjoint (by unfold FLASH_CUSTOM_PAIRING_MAX_SIZE; omega)
    | handles => exact hdisjoint (by unfold FLASH_SDP_ATT_MAX_SIZE; omega)
  | pairing =>
    cases k with
    | addresses => exact hdisjoint (by unfold FLASH_CUSTOM_PAIRING_MAX_SIZE; omega)
    | pairing => exact absurd rfl hne
    | handles =>
      exact hdisjoint (by unfold FLASH_CUSTOM_PAIRING_MAX_SIZE FLASH_SDP_ATT_MAX_SIZE; omega)
  | handles =>
    cases k with
    | addresses => exact hdisjoint (by unfold FLASH_SDP_ATT_MAX_SIZE; omega)
    | pairing =>
      exact hdisjoint (by unfold FLASH_CUSTOM_PAIRING_MAX_SIZE FLASH_SDP_ATT_MAX_SIZE; omega)
    | handles => exact absurd rfl hne

theorem not_mem_area {a : ℕ} (haddr : a < L.sectors.macAddress ∨ L.sectors.macAddress + 8 ≤ a)
    (hpairing : a < L.sectors.smpStorage ∨
      L.sectors.smpStorage + FLASH_CUSTOM_PAIRING_MAX_SIZE ≤ a)
    (hhandle : a < L.sectors.simpleSdpAtt ∨
      L.sectors.simpleSdpAtt + FLASH_SDP_ATT_MAX_SIZE ≤ a) (k : Keeper) :
    a ∉ (sharer core L k).area := by
  intro hk
  cases k with
  | addresses =>
    obtain ⟨hlo, hhi⟩ : _ ≤ a ∧ a < _ := hk
    omega
  | pairing =>
    obtain ⟨hlo, hhi⟩ : _ ≤ a ∧ a < _ := hk
    omega
  | handles =>
    obtain ⟨hlo, hhi⟩ : _ ≤ a ∧ a < _ := hk
    omega

/-- **The central has what each of the three leads to alone.** -/
structure Alone (core : McuCore) (L : Layout) (f : Flash) (es : List StoresEvent) (c : Stores) :
    Prop where
  /-- The addresses. -/
  addresses : c.addresses = ((es.flatMap StoresEvent.starts).foldl (addressSharer core L).step
    (none, f)).1
  /-- The paired devices. -/
  pairing : ∃ p k, (es.flatMap StoresEvent.pairing).foldl CustomPair.step
      (some (pairOf L f (0, []))) = some p ∧ p.Holds k ∧ c.pairing = some (p.cfgIdx, p.tbl) ∧
        Set.EqOn c.flash p.flash (pairingSharer L).area
  /-- The handles. -/
  handles : Set.EqOn c.flash ((es.flatMap StoresEvent.handles).foldl
    (SdpStore.step L.sectors.simpleSdpAtt) f) (handleSharer L).area
  /-- What lies in none of the areas. -/
  outside : ∀ a, (∀ k, a ∉ (sharer core L k).area) → c.flash a = f a

/-- The handles alone are the flash after their events. -/
theorem foldl_handleSharer (es : List SdpStore.Event) (s : Unit × Flash) :
    (es.foldl (handleSharer L).step s).2 =
      es.foldl (SdpStore.step L.sectors.simpleSdpAtt) s.2 := by
  induction es generalizing s with
  | nil => rfl
  | cons e es ih => exact ih _

/-- A run of the three beside each other. -/
theorem joint_alone {s : MacStart} {run : List StoresEvent}
    (hblank : (pairOf L f (0, [])).Blank)
    (hrange : Along CustomPair.step CustomPair.InRange (some (pairOf L f (0, [])))
      ((StoresEvent.powerOn s :: run).flatMap StoresEvent.pairing)) {c : Stores}
    (hjoint : joint c = ((StoresEvent.powerOn s :: run).flatMap inputs).foldl
      (Shared.step (sharer core L)) (joint (off f))) :
    Alone core L f (.powerOn s :: run) c := by
  obtain ⟨haddresses, hpairing, hhandles⟩ := inputs_run (StoresEvent.powerOn s :: run)
  obtain ⟨hcontained, p, k, hp, hholds, hsector, hend⟩ := pairing_run_blank hblank hrange
  have hrun : ∀ k, Along (sharer core L k).step (sharer core L k).Contained
      ((joint (off f)).1 k, (joint (off f)).2)
      (Shared.inputs k ((StoresEvent.powerOn s :: run).flatMap inputs)) := by
    intro k
    cases k with
    | addresses => exact along_iff.mpr fun _ _ _ _ => address_contained _ _
    | pairing =>
      rw [hpairing]
      exact hcontained
    | handles => exact along_iff.mpr fun _ _ _ _ => handle_contained _ _
  have halone := Shared.run_alone (sharer_disjoint core L) hrun
  have houtside := fun a => Shared.run_outside (sharer_disjoint core L) hrun (a := a)
  rw [← hjoint] at halone houtside
  refine ⟨?_, ⟨p, k, hp, hholds, ?_, ?_⟩, ?_, houtside⟩
  · rw [← haddresses]
    exact (halone .addresses).1
  · have hstate := (halone .pairing).1
    rw [hpairing] at hstate
    exact hstate.trans (congrArg Prod.fst hend)
  · have harea := (halone .pairing).2
    rw [hpairing] at harea
    exact fun a ha => (harea ha).trans (congrFun (congrArg Prod.snd hend) a)
  · have harea := (halone .handles).2
    rw [hhandles] at harea
    exact fun a ha => (harea ha).trans (congrFun (foldl_handleSharer _ _) a)

/-- **So it is after every run** that begins with a start. -/
theorem alone_of_blank (core : McuCore) (L : Layout) (s : MacStart) (run : List StoresEvent)
    (hblank : (pairOf L f (0, [])).Blank)
    (hrange : Along CustomPair.step CustomPair.InRange (some (pairOf L f (0, [])))
      ((StoresEvent.powerOn s :: run).flatMap StoresEvent.pairing)) :
    Alone core L f (.powerOn s :: run)
      ((StoresEvent.powerOn s :: run).foldl (step core L) (off f)) := by
  refine joint_alone hblank hrange ?_
  induction run using List.reverseRecOn with
  | nil =>
    rw [List.flatMap_singleton]
    exact joint_step (c := off f) rfl (.powerOn s)
  | append_singleton run e ih =>
    have hprefix : Along CustomPair.step CustomPair.InRange (some (pairOf L f (0, [])))
        ((StoresEvent.powerOn s :: run).flatMap StoresEvent.pairing) := by
      rw [← List.cons_append, List.flatMap_append, along_append] at hrange
      exact hrange.1
    have hjoint := ih hprefix
    -- the central is out of the endless loop, since the pairing table alone is
    obtain ⟨p, k, -, -, halive, -⟩ := (joint_alone hblank hprefix hjoint).pairing
    rw [← List.cons_append, List.foldl_append, List.flatMap_append, List.foldl_append, ← hjoint,
      List.flatMap_singleton]
    exact joint_step (by rw [halive]; rfl) e

/-! ### The addresses alone -/

/-- The addresses of the last of a row of starts. -/
theorem foldl_addressSharer (starts : List MacStart) (a : Option MacAddresses) :
    (starts.foldl (addressSharer core L).step (a, f)).1 =
      ((macAddresses core L.sectors.macAddress L.sectors.macAddress f starts).getLast?).getD a := by
  induction starts generalizing a f with
  | nil => rfl
  | cons s starts ih =>
    refine (ih _).trans ?_
    rw [macAddresses, List.getLast?_cons]
    rfl

/-- There is a last one of them, after one start at least. -/
theorem getLast?_macAddresses (s : MacStart) (starts : List MacStart) :
    (macAddresses core L.sectors.macAddress L.sectors.macAddress f (s :: starts)).getLast? =
      some ((s :: starts).foldl (addressSharer core L).step (none, f)).1 := by
  rw [foldl_addressSharer]
  cases hlast : (macAddresses core L.sectors.macAddress L.sectors.macAddress f
      (s :: starts)).getLast? with
  | none => simp [macAddresses] at hlast
  | some a => rfl

/-- In a written area, they stay as they are. -/
theorem foldl_addressSharer_written (hwritten : Written f L.sectors.macAddress)
    (starts : List MacStart) :
    starts.foldl (addressSharer core L).step (some (storedAddresses f L.sectors.macAddress), f) =
      (some (storedAddresses f L.sectors.macAddress), f) := by
  induction starts with
  | nil => rfl
  | cons s starts ih =>
    rw [List.foldl_cons]
    refine Eq.trans (congrArg (fun t => starts.foldl (addressSharer core L).step t) ?_) ih
    show ((blcInitMacAddress core _ _ s f).2, (blcInitMacAddress core _ _ s f).1) = _
    rw [blcInitMacAddress_written core _ s f L.macAddress_ne hwritten]

/-- A run from a start that leaves the area written gives the addresses of that start. -/
theorem foldl_addressSharer_cons {s : MacStart}
    (hwritten : Written (blcInitMacAddress core L.sectors.macAddress L.sectors.macAddress s f).1
      L.sectors.macAddress) (starts : List MacStart) :
    ((s :: starts).foldl (addressSharer core L).step (none, f)).1 =
      (blcInitMacAddress core L.sectors.macAddress L.sectors.macAddress s f).2 := by
  have hgiven := blcInitMacAddress_snd core L.sectors.macAddress s f L.macAddress_ne
  rw [List.foldl_cons]
  show (starts.foldl _ ((blcInitMacAddress core _ _ s f).2, _)).1 = _
  rw [hgiven]
  exact congrArg Prod.fst (foldl_addressSharer_written hwritten starts)

/-- The paired devices, in their order. -/
def devices (c : Stores) : Option (List MacAddr) := c.pairing.map fun v => v.2.map Prod.snd

theorem devices_of_pairing {c : Stores} {p : CustomPair}
    (h : c.pairing = some (p.cfgIdx, p.tbl)) : c.devices = some p.devices := by
  rw [devices, h]
  rfl

theorem inRange_reboot (p : Option CustomPair) : CustomPair.InRange p .reboot := by
  cases p with
  | none => trivial
  | some p => trivial

end Stores

open Stores

/-- **Each as if it were alone**: in any run of the central from an erased pairing sector, in which
the index of the pairing log does not wrap around, the addresses are those of its starts, the paired
devices those of its pairings, and the handles found those of its stores, each on a flash of its
own; and what lies in none of the three areas is as it was. -/
theorem stores_alone (core : McuCore) (L : Layout) (f : Flash) (s : MacStart)
    (run : List StoresEvent) (hblank : (pairOf L f (0, [])).Blank)
    (hrange : Along CustomPair.step CustomPair.InRange (some (pairOf L f (0, [])))
      ((StoresEvent.powerOn s :: run).flatMap StoresEvent.pairing)) :
    let es := StoresEvent.powerOn s :: run
    let c := es.foldl (step core L) (off f)
    (macAddresses core L.sectors.macAddress L.sectors.macAddress f
        (es.flatMap StoresEvent.starts)).getLast? = some c.addresses ∧
      (es.flatMap StoresEvent.pairing).foldl CustomPair.step (some (pairOf L f (0, []))) ≠ none ∧
      (∀ p ∈ (es.flatMap StoresEvent.pairing).foldl CustomPair.step (some (pairOf L f (0, []))),
        c.pairing = some (p.cfgIdx, p.tbl) ∧
          ∀ a, L.sectors.smpStorage ≤ a →
            a < L.sectors.smpStorage + FLASH_CUSTOM_PAIRING_MAX_SIZE → c.flash a = p.flash a) ∧
      SdpStore.lookup L.sectors.simpleSdpAtt c.flash = SdpStore.lookup L.sectors.simpleSdpAtt
        ((es.flatMap StoresEvent.handles).foldl (SdpStore.step L.sectors.simpleSdpAtt) f) ∧
      ∀ a, (a < L.sectors.macAddress ∨ L.sectors.macAddress + 8 ≤ a) →
        (a < L.sectors.smpStorage ∨ L.sectors.smpStorage + FLASH_CUSTOM_PAIRING_MAX_SIZE ≤ a) →
        (a < L.sectors.simpleSdpAtt ∨ L.sectors.simpleSdpAtt + FLASH_SDP_ATT_MAX_SIZE ≤ a) →
        c.flash a = f a := by
  intro es c
  obtain ⟨haddresses, ⟨p, k, hp, -, hpair, harea⟩, hhandles, houtside⟩ :=
    alone_of_blank core L s run hblank hrange
  refine ⟨?_, by rw [hp]; exact Option.some_ne_none p, ?_, ?_, ?_⟩
  · rw [show c.addresses = _ from haddresses]
    exact getLast?_macAddresses s (run.flatMap StoresEvent.starts)
  · intro q hq
    obtain rfl : p = q := Option.some.inj (hp.symm.trans hq)
    exact ⟨hpair, fun a hlo hhi => harea ⟨hlo, hhi⟩⟩
  · exact SdpStore.lookup_area fun a hlo hhi => hhandles ⟨hlo, hhi⟩
  · intro a haddr hpairing hhandle
    exact houtside a (not_mem_area haddr hpairing hhandle)

/-- The sectors of a core with a flash of 512 kilobytes. -/
def layout512K : Layout := @Layout.of .c825x 0x1360C8 (sectors512K .c825x) rfl

/-- A device is paired, its handles are stored but for the power that is cut, and the devices are
unpaired. -/
def someRun : List StoresEvent :=
  [.add CustomPair.someDevice, .powerCut (.store (SdpStore.device 1)) 2 zeroStart, .deleteAll]

theorem someRun_inRange : Along CustomPair.step CustomPair.InRange
    (some (pairOf layout512K SdpStore.blank (0, [])))
    ((StoresEvent.powerOn zeroStart :: someRun).flatMap StoresEvent.pairing) := by
  refine ⟨trivial, ?_, trivial, trivial, trivial⟩
  show (_ : ℤ) < _
  decide

/-- The firmware is as it was after this run. -/
theorem stores_alone_someRun :
    ((StoresEvent.powerOn zeroStart :: someRun).foldl (step .c825x layout512K)
      (off SdpStore.blank)).flash 0 = 0xff :=
  (stores_alone .c825x layout512K SdpStore.blank zeroStart someRun (fun _ _ => rfl)
    someRun_inRange).2.2.2.2 0 (.inl (by decide)) (.inl (by decide)) (.inl (by decide))

/-- **Nothing is lost**: where the first start has drawn nothing that looks erased, and the index of
the pairing log does not wrap around, a start at any point of a run gives the addresses of the first
one, and the devices and the handles that there are. -/
theorem stores_persist (core : McuCore) (L : Layout) (f : Flash) (s : MacStart)
    (run : List StoresEvent) (hblank : (pairOf L f (0, [])).Blank)
    (hrange : Along CustomPair.step CustomPair.InRange (some (pairOf L f (0, [])))
      ((StoresEvent.powerOn s :: run).flatMap StoresEvent.pairing))
    (hpublic : ¬(readPublic f L.sectors.macAddress = ffSixByte ∧ drawnPublic core s = ffSixByte))
    (hhigh : ¬(f (L.sectors.macAddress + 6) = 0xff ∧ f (L.sectors.macAddress + 7) = 0xff ∧
      s.valueRand.get 3 = 0xff ∧ s.valueRand.get 4 = 0xff)) (s' : MacStart) :
    let c := (StoresEvent.powerOn s :: run).foldl (step core L) (off f)
    let c' := c.step core L (.powerOn s')
    c.addresses = ((off f).step core L (.powerOn s)).addresses ∧ c'.addresses = c.addresses ∧
      c.devices.isSome ∧ c'.devices = c.devices ∧
      SdpStore.lookup L.sectors.simpleSdpAtt c'.flash =
        SdpStore.lookup L.sectors.simpleSdpAtt c.flash := by
  intro c c'
  have hwritten := (written_iff core L.sectors.macAddress s f L.macAddress_ne).mpr
    ⟨hpublic, hhigh⟩
  -- the start is one more event of the run
  have hrange' : Along CustomPair.step CustomPair.InRange (some (pairOf L f (0, [])))
      ((StoresEvent.powerOn s :: (run ++ [.powerOn s'])).flatMap StoresEvent.pairing) := by
    rw [← List.cons_append, List.flatMap_append, along_append]
    exact ⟨hrange, inRange_reboot _, trivial⟩
  obtain ⟨haddresses, ⟨p, k, hp, hholds, hpair, -⟩, hhandles, -⟩ :=
    alone_of_blank core L s run hblank hrange
  obtain ⟨haddresses', ⟨q, k', hq, -, hpair', -⟩, hhandles', -⟩ :=
    alone_of_blank core L s (run ++ [.powerOn s']) hblank hrange'
  have hc' : (StoresEvent.powerOn s :: (run ++ [.powerOn s'])).foldl (step core L) (off f) =
      c' := by
    rw [← List.cons_append, List.foldl_append]
    rfl
  rw [hc'] at haddresses' hpair' hhandles'
  have hfirst : ∀ starts, ((s :: starts).foldl (addressSharer core L).step (none, f)).1 =
      (blcInitMacAddress core L.sectors.macAddress L.sectors.macAddress s f).2 :=
    foldl_addressSharer_cons hwritten
  have hstart : ((off f).step core L (.powerOn s)).addresses =
      (blcInitMacAddress core L.sectors.macAddress L.sectors.macAddress s f).2 := by
    have := (alone_of_blank core L s [] hblank ⟨trivial, trivial⟩).addresses
    exact this.trans (hfirst [])
  have hsame : c.addresses = (blcInitMacAddress core L.sectors.macAddress L.sectors.macAddress s
      f).2 := haddresses.trans (hfirst _)
  have hdevices : c.devices = some p.devices := devices_of_pairing hpair
  refine ⟨hsame.trans hstart.symm, (haddresses'.trans (hfirst _)).trans hsame.symm, ?_, ?_, ?_⟩
  · rw [hdevices]
    rfl
  · -- the log gives the same devices when it is read back
    obtain ⟨q', hreboot, hrebuild⟩ := hholds.agrees.rebuild
    rw [← List.cons_append, List.flatMap_append, List.foldl_append, hp] at hq
    obtain rfl : q' = q := Option.some.inj (hreboot.symm.trans hq)
    rw [hdevices, ← hrebuild]
    exact devices_of_pairing hpair'
  · rw [SdpStore.lookup_area fun a hlo hhi => hhandles' ⟨hlo, hhi⟩,
      SdpStore.lookup_area fun a hlo hhi => hhandles ⟨hlo, hhi⟩, ← List.cons_append,
      List.flatMap_append, List.flatMap_singleton,
      show StoresEvent.handles (.powerOn s') = [] from rfl, List.append_nil]

/-- The addresses after this run and another start. -/
theorem stores_persist_someRun :
    ((((StoresEvent.powerOn zeroStart :: someRun).foldl (step .c825x layout512K)
      (off SdpStore.blank)).step .c825x layout512K (.powerOn zeroStart)).addresses =
    ((StoresEvent.powerOn zeroStart :: someRun).foldl (step .c825x layout512K)
      (off SdpStore.blank)).addresses) :=
  (stores_persist .c825x layout512K SdpStore.blank zeroStart someRun (fun _ _ => rfl)
    someRun_inRange (fun h => absurd h.2 (by decide)) (fun h => absurd h.2.2.1 (by decide))
    zeroStart).2.1

end TcBle.Vendor
