import TcBle.Vendor.AppCentralLinks

/-!
# What the central's application keeps in flash

A device is asked for its services when its attribute handles are not in flash, and what is found is
stored for the current device, `cur_sdp_device`. Between the question and the answer the main loop
runs, where the device may leave, be unpaired, or another one come.

## What is proved

* `SdpStore.Kept.call` — without power cuts every call for a new device refines the map, and a free
  unit stays erased.
* `Stored.tick` — one step stores only for a device that is not in flash.
* `run_stored` — so does any run, and the flash is the map of what was stored and not deleted.
-/

namespace TcBle.Vendor

open TcBle.Foundation Run

namespace SdpStore

variable {sector k : ℕ} {f : Flash}

/-- The units are in use from the first one on, and the free ones are erased. -/
structure Kept (sector : ℕ) (f : Flash) (k : ℕ) : Prop where
  /-- The units in use. -/
  holds : Holds sector f k
  /-- The free ones. -/
  blank : ∀ a, (log sector).unit k ≤ a → a < (log sector).unit (log sector).num → f a = 0xff

/-- A free unit can take a device. -/
theorem Kept.takes (h : Kept sector f k) (hk : k < (log sector).num) (pdev : DevCharInfo) :
    UnitTakes f pdev ((log sector).unit k) := by
  have hend : (log sector).unit k + 32 ≤ (log sector).unit (log sector).num :=
    FlashLog.unit_add_le hk
  constructor
  · intro i hi
    rw [length_bytes] at hi
    rw [h.blank _ (by omega) (by omega)]
    exact Flash.ff_and _
  · intro j _ i hi
    have hj := j.isLt
    rw [length_u16Bytes] at hi
    rw [h.blank _ (by omega) (by omega)]
    exact Flash.ff_and _

theorem Kept.findsRoom (h : Kept sector f k) (e : Event) : FindsRoom sector f e := by
  intro _ pdev _ cur hcur
  rw [h.holds.firstFree] at hcur
  split_ifs at hcur with hk
  obtain rfl := Option.some.inj hcur
  exact h.takes hk pdev

/-- Writes within a unit leave the units after it erased. -/
theorem Kept.blank_replay (h : Kept sector f k) {ops : List FlashOp} {i j : ℕ} (hij : i < j)
    (hkj : k ≤ j) (hops : ∀ op ∈ ops, op.Within ((log sector).unit i) ((log sector).unit i + 32)) :
    ∀ a, (log sector).unit j ≤ a → a < (log sector).unit (log sector).num →
      f.replay ops a = 0xff := by
  intro a hlo hhi
  have hi : (log sector).unit i + 32 ≤ (log sector).unit j := FlashLog.unit_add_le hij
  have hk : (log sector).unit k ≤ (log sector).unit j :=
    Nat.add_le_add_left (Nat.mul_le_mul_right _ hkj) _
  rw [Flash.replay_other hops (List.prefix_refl ops) (.inr (by omega))]
  exact h.blank a (by omega) hhi

/-- What a call writes: nothing, a store to the first free unit, or the mark of a unit in use. -/
theorem Kept.writes_cases (h : Kept sector f k) (op : Op) :
    op.writes sector f = [] ∨
    (∃ pdev, op = .store pdev ∧ k < (log sector).num ∧
      op.writes sector f = storeWrites pdev ((log sector).unit k)) ∨
    (∃ i < k, Live sector f i ∧
      op.writes sector f = [.write ((log sector).unit i) [ATT_ERASE_MARK]]) := by
  cases op with
  | store pdev =>
    rw [Op.writes, devCharInfoStorePeerAttHandle, h.holds.firstFree]
    by_cases hk : k < (log sector).num
    · rw [if_pos hk]
      exact .inr (.inl ⟨pdev, rfl, hk, rfl⟩)
    · rw [if_neg hk]
      exact .inl rfl
  | search a => exact .inl rfl
  | delete a =>
    rw [Op.writes, devCharInfoDeletePeerAttHandleByPeerMac]
    cases hfind : (log sector).find f (unitOf a f) with
    | none => exact .inl rfl
    | some cur =>
      obtain ⟨i, hi, rfl, hunit⟩ := h.holds.filled.of_find hfind
      exact .inr (.inr ⟨i, hi, (unitOf_unit.mp hunit).1, rfl⟩)

/-- **A call** keeps the units so. -/
theorem Kept.call (h : Kept sector f k) {op : Op} (hnew : OnlyNew sector f (.call op)) :
    Refines sector f (.call op) ∧ ∃ k', Kept sector (step sector f (.call op)) k' := by
  refine ⟨(Ok.step_iff ⟨k, h.holds⟩ hnew).mpr (h.findsRoom (.call op)), ?_⟩
  have hstep : step sector f (.call op) = f.replay (op.writes sector f) := rfl
  rcases h.writes_cases op with hw | ⟨pdev, rfl, hk, hw⟩ | ⟨i, hi, hlive, hw⟩
  · rw [hstep, hw]
    exact ⟨k, h⟩
  · rw [hstep, hw]
    exact ⟨k + 1, (h.holds.afterStore hk (hnew pdev rfl) (h.takes hk pdev)).1,
      h.blank_replay (Nat.lt_succ_self k) (Nat.le_succ k) (storeWrites_within pdev _)⟩
  · rw [hstep, hw]
    refine ⟨k, (h.holds.afterDelete hi hlive).1, h.blank_replay hi (le_refl k) fun op hop => ?_⟩
    rw [List.mem_singleton.mp hop]
    exact ⟨le_refl _, by simp⟩

theorem kept_of_erased (h : f.Erased sector FLASH_SDP_ATT_MAX_SIZE) : Kept sector f 0 := by
  refine ⟨⟨filled_of_erased h, fun i hi => absurd hi (Nat.not_lt_zero i)⟩, fun a hlo hhi => ?_⟩
  have hbase : (log sector).base = sector := rfl
  have hsize : (log sector).num * (log sector).size = FLASH_SDP_ATT_MAX_SIZE := by
    show FLASH_SDP_ATT_MAX_SIZE / 32 * 32 = FLASH_SDP_ATT_MAX_SIZE
    decide
  rw [FlashLog.unit_zero, hbase] at hlo
  rw [FlashLog.unit, hsize, hbase] at hhi
  obtain ⟨i, rfl⟩ := Nat.exists_eq_add_of_le hlo
  exact h i (Nat.lt_of_add_lt_add_left hhi)

/-- A device that is not found is not found after another call for a deletion. -/
theorem search_delete {a b : PeerAddr}
    (hrefines : Refines sector f (.call (.delete b)))
    (hnone : devCharInfoSearchPeerAttHandleByPeerMac sector a f = none) :
    devCharInfoSearchPeerAttHandleByPeerMac sector a (step sector f (.call (.delete b))) =
      none := by
  have hlookup : lookup sector (step sector f (.call (.delete b))) a = none := by
    rcases hrefines with hdone | ⟨hcut, -⟩
    · rw [hdone]
      show Function.update (lookup sector f) b none a = none
      by_cases hab : a = b
      · rw [hab, Function.update_self]
      · rw [Function.update_of_ne hab]
        exact Option.map_eq_none_iff.mpr hnone
    · exact absurd rfl hcut
  exact Option.map_eq_none_iff.mp hlookup

end SdpStore

open SdpStore

variable {sector : ℕ} {f : Flash}

/-- **What is in flash**, since it was `f`. -/
structure Stored (sector : ℕ) (f : Flash) (w : World) : Prop where
  /-- The connections. -/
  linked : Linked w
  /-- Where it is. -/
  sector_eq : w.app.sector = sector
  /-- It is what the calls have made of it. -/
  flash : w.app.flash = w.app.ops.foldl (step sector) f
  /-- Each store was for a device that was not found. -/
  onlyNew : Along (step sector) (OnlyNew sector) f w.app.ops
  /-- Each call was seen as done. -/
  refines : Along (step sector) (SdpStore.Refines sector) f w.app.ops
  /-- The units. -/
  kept : ∃ k, SdpStore.Kept sector w.app.flash k
  /-- The device to be asked for its services is not in flash. -/
  pending : w.app.sdpPending ≠ 0 →
    devCharInfoSearchPeerAttHandleByPeerMac sector w.app.curSdpDevice.peer w.app.flash = none
  /-- A discovery is of a connection. -/
  waits : ∀ connHandle, w.app.discovering = some connHandle → connHandle ≠ 0

/-- When a discovery has its answer, the current device is not in flash, and no other can come. -/
def Answered (sector : ℕ) (w : World) : Prop :=
  w.app.discovering.isSome → w.app.attReqBusy = 0 →
    devCharInfoSearchPeerAttHandleByPeerMac sector w.app.curSdpDevice.peer w.app.flash = none ∧
      w.initiating ≠ .earlier

/-- What no event touches. -/
structure Central.Keeps (s s' : Central) : Prop where
  sector : s'.sector = s.sector
  flash : s'.flash = s.flash
  ops : s'.ops = s.ops
  discovering : s'.discovering = s.discovering

theorem Central.Keeps.refl (s : Central) : s.Keeps s := ⟨rfl, rfl, rfl, rfl⟩

theorem Central.needSdp_keeps (evt : ConnCompleteEvt) (s : Central) : s.Keeps (s.needSdp evt) := by
  rcases needSdp_cases evt s with ⟨dev, -, -, heq⟩ | ⟨-, dev, -, -, heq⟩
  · rw [heq]
    exact ⟨rfl, rfl, rfl, rfl⟩
  · rw [heq]
    exact ⟨rfl, rfl, rfl, rfl⟩

theorem Central.smpFinished_keeps (connHandle : UInt16) (s : Central) :
    s.Keeps (s.smpFinished connHandle) := by
  unfold smpFinished
  split <;> exact ⟨rfl, rfl, rfl, rfl⟩

/-- The end of a pairing leaves the discovery alone. -/
theorem Central.smpFinished_sdp (connHandle : UInt16) (s : Central) :
    (s.smpFinished connHandle).sdpPending = s.sdpPending ∧
      (s.smpFinished connHandle).curSdpDevice = s.curSdpDevice ∧
      (s.smpFinished connHandle).attReqBusy = s.attReqBusy := by
  unfold smpFinished
  split <;> exact ⟨rfl, rfl, rfl⟩

theorem Central.securityProcessDone_sdp (connHandle : UInt16) (s : Central) :
    (s.securityProcessDone connHandle).sdpPending = s.sdpPending ∧
      (s.securityProcessDone connHandle).curSdpDevice = s.curSdpDevice ∧
      (s.securityProcessDone connHandle).attReqBusy = s.attReqBusy := by
  unfold securityProcessDone
  simp only
  split <;> exact smpFinished_sdp connHandle s

theorem Central.handle_keeps (s : Central) (e : LinkEvent) : s.Keeps (s.handle e) := by
  cases e with
  | advReport rssi bonded created => exact .refl s
  | connectionComplete ok evt =>
    simp only [handle, appLeConnectionCompleteEventHandle]
    split_ifs
    · obtain ⟨h₁, h₂, h₃, h₄⟩ := needSdp_keeps evt { s with
        table := (s.table.devCharInfoInsertByConnEvent evt).1, smpPending := evt.connHandle }
      exact ⟨h₁, h₂, h₃, h₄⟩
    · exact ⟨rfl, rfl, rfl, rfl⟩
    · exact .refl s
  | disconnection connHandle => exact ⟨rfl, rfl, rfl, rfl⟩
  | pairingFail connHandle => exact smpFinished_keeps connHandle s
  | securityProcessDone connHandle =>
    obtain ⟨h₁, h₂, h₃, h₄⟩ := smpFinished_keeps connHandle s
    simp only [handle, securityProcessDone]
    split <;> exact ⟨h₁, h₂, h₃, h₄⟩
  | attData connHandle chanId opcode =>
    simp only [handle, appGattDataHandler, hostAttClientHandler]
    split_ifs <;> exact ⟨rfl, rfl, rfl, rfl⟩

namespace Stored

variable {w w' : World}

/-- A call for a device that is not in flash, or that stores none. -/
theorem call (h : Stored sector f w) (op : SdpStore.Op)
    (hnew : OnlyNew sector w.app.flash (.call op)) :
    SdpStore.Refines sector w.app.flash (.call op) ∧
      (w.app.sdpCall op).flash = (w.app.sdpCall op).ops.foldl (step sector) f ∧
      Along (step sector) (OnlyNew sector) f (w.app.sdpCall op).ops ∧
      Along (step sector) (SdpStore.Refines sector) f (w.app.sdpCall op).ops ∧
      ∃ k, SdpStore.Kept sector (w.app.sdpCall op).flash k := by
  obtain ⟨k, hk⟩ := h.kept
  obtain ⟨hrefines, hkept⟩ := hk.call hnew
  refine ⟨hrefines, ?_, ?_, ?_, ?_⟩
  · rw [Central.sdpCall, h.sector_eq, List.foldl_append, ← h.flash]
    rfl
  · rw [Central.sdpCall, along_concat, ← h.flash]
    exact ⟨h.onlyNew, hnew⟩
  · rw [Central.sdpCall, along_concat, ← h.flash]
    exact ⟨h.refines, hrefines⟩
  · rw [Central.sdpCall, h.sector_eq]
    exact hkept

/-- What leaves the flash alone. -/
theorem same (h : Stored sector f w) (hlinked : Linked w') (hkeeps : w.app.Keeps w'.app)
    (hpending : w'.app.sdpPending ≠ 0 → devCharInfoSearchPeerAttHandleByPeerMac sector
      w'.app.curSdpDevice.peer w.app.flash = none) : Stored sector f w' where
  linked := hlinked
  sector_eq := hkeeps.sector.trans h.sector_eq
  flash := by rw [hkeeps.flash, hkeeps.ops, h.flash]
  onlyNew := by rw [hkeeps.ops]; exact h.onlyNew
  refines := by rw [hkeeps.ops]; exact h.refines
  kept := by rw [hkeeps.flash]; exact h.kept
  pending := by rw [hkeeps.flash]; exact hpending
  waits := by rw [hkeeps.discovering]; exact h.waits

/-- What leaves the flash and the discovery alone. -/
theorem sameSdp (h : Stored sector f w) (ha : Answered sector w) (hlinked : Linked w')
    (hkeeps : w.app.Keeps w'.app) (hinit : w'.initiating = w.initiating)
    (hsdp : w'.app.sdpPending = w.app.sdpPending ∧ w'.app.curSdpDevice = w.app.curSdpDevice ∧
      w'.app.attReqBusy = w.app.attReqBusy) : Stored sector f w' ∧ Answered sector w' := by
  obtain ⟨hpending, hcur, hbusy⟩ := hsdp
  refine ⟨h.same hlinked hkeeps ?_, ?_⟩
  · rw [hpending, hcur]
    exact h.pending
  · unfold Answered
    rw [hkeeps.discovering, hbusy, hcur, hkeeps.flash, hinit]
    exact ha

/-- A packet is the answer only to a discovery of a device that is pending. -/
theorem attData (h : Stored sector f w) (ha : Answered sector w) {connHandle chanId : UInt16}
    {opcode : UInt8} (hlinked : Linked (w.link (.attData connHandle chanId opcode)))
    (hkeeps : w.app.Keeps (w.app.handle (.attData connHandle chanId opcode))) :
    Stored sector f (w.link (.attData connHandle chanId opcode)) ∧
      Answered sector (w.link (.attData connHandle chanId opcode)) := by
  by_cases hfor : w.app.isCentral connHandle = true ∧ w.app.sdpPending = connHandle
  · have hpending : w.app.sdpPending ≠ 0 := by
      rw [hfor.2]
      exact h.linked.isCentral_ne_zero hfor.1
    have hno : w.initiating = .no := by
      by_contra hne
      exact hpending (h.linked.initiating hne).2
    have hnone := h.pending hpending
    have hsdp : (w.app.hostAttClientHandler connHandle chanId opcode).sdpPending =
        w.app.sdpPending ∧
        (w.app.hostAttClientHandler connHandle chanId opcode).curSdpDevice =
          w.app.curSdpDevice ∧
        (w.app.hostAttClientHandler connHandle chanId opcode).flash = w.app.flash := by
      unfold Central.hostAttClientHandler
      split <;> exact ⟨rfl, rfl, rfl⟩
    have happ : (w.link (.attData connHandle chanId opcode)).app =
        w.app.hostAttClientHandler connHandle chanId opcode := by
      simp only [World.link, Central.handle, Central.appGattDataHandler, hfor.1, hfor.2, if_true]
    refine ⟨h.same hlinked hkeeps fun _ => ?_, fun _ _ => ⟨?_, ?_⟩⟩
    · rw [happ, hsdp.2.1]
      exact hnone
    · rw [happ, hsdp.2.1, hsdp.2.2]
      exact hnone
    · show w.initiating ≠ .earlier
      rw [hno]
      decide
  · have happ : (w.link (.attData connHandle chanId opcode)).app = w.app := by
      simp only [World.link, Central.handle, Central.appGattDataHandler]
      split_ifs with hc hp
      · exact absurd ⟨hc, hp⟩ hfor
      · rfl
      · rfl
    exact h.sameSdp ha hlinked hkeeps rfl (by rw [happ]; exact ⟨rfl, rfl, rfl⟩)

/-- A central connection is complete: no discovery has its answer. -/
theorem centralComplete (h : Stored sector f w) (ha : Answered sector w) {evt : ConnCompleteEvt}
    (hallowed : w.Allowed (.connectionComplete true evt)) (hrole : evt.role = ACL_ROLE_CENTRAL) :
    Stored sector f (w.link (.connectionComplete true evt)) ∧
      Answered sector (w.link (.connectionComplete true evt)) := by
  have hearlier := (hallowed rfl).1 hrole
  have hsdp := (h.linked.initiating (by rw [hearlier]; decide)).2
  have hlinked := h.linked.centralComplete hallowed hrole
  have hkeeps := w.app.handle_keeps (.connectionComplete true evt)
  have happ : (w.link (.connectionComplete true evt)).app = { w.app with
      table := (w.app.table.devCharInfoInsertByConnEvent evt).1
      smpPending := evt.connHandle }.needSdp evt := by
    simp only [World.link, Central.handle, Central.appLeConnectionCompleteEventHandle, if_true,
      hrole]
  have hbusy : (w.link (.connectionComplete true evt)).app.attReqBusy = w.app.attReqBusy := by
    rw [happ]
    unfold Central.needSdp
    split <;> rfl
  refine ⟨h.same hlinked hkeeps fun hne => ?_, fun hsome hzero => ?_⟩
  · rcases Central.needSdp_cases evt { w.app with
      table := (w.app.table.devCharInfoInsertByConnEvent evt).1
      smpPending := evt.connHandle } with ⟨dev, -, -, heq⟩ | ⟨hnone, dev, -, hpeer, heq⟩
    · rw [happ, heq] at hne
      exact absurd hsdp hne
    · rw [happ, heq, hpeer, ← h.sector_eq]
      exact hnone
  · rw [hbusy] at hzero
    have hwait : w.app.discovering.isSome := by
      rw [← hkeeps.discovering]
      exact hsome
    exact absurd hearlier (ha hwait hzero).2

/-- **One event.** -/
theorem link (h : Stored sector f w) (ha : Answered sector w) {e : LinkEvent}
    (hallowed : w.Allowed e) : Stored sector f (w.link e) ∧ Answered sector (w.link e) := by
  have hlinked := h.linked.link hallowed
  have hkeeps := w.app.handle_keeps e
  cases e with
  | advReport rssi bonded created =>
    refine ⟨h.same hlinked hkeeps h.pending, fun hsome hzero => ?_⟩
    obtain ⟨hnone, hne⟩ := ha hsome hzero
    refine ⟨hnone, ?_⟩
    simp only [World.link]
    split
    · decide
    · exact hne
  | connectionComplete ok evt =>
    cases ok with
    | true =>
      by_cases hrole : evt.role = ACL_ROLE_CENTRAL
      · exact h.centralComplete ha hallowed hrole
      · have hinit : (w.link (.connectionComplete true evt)).initiating = w.initiating :=
          if_pos ⟨rfl, hrole⟩
        have happ : (w.link (.connectionComplete true evt)).app = { w.app with
            table := (w.app.table.devCharInfoInsertByConnEvent evt).1 } := by
          simp only [World.link, Central.handle, Central.appLeConnectionCompleteEventHandle,
            if_true, hrole, if_false]
        refine ⟨h.same hlinked hkeeps ?_, ?_⟩
        · rw [happ]
          exact h.pending
        · unfold Answered
          rw [happ, hinit]
          exact ha
    | false =>
      refine ⟨h.same hlinked hkeeps h.pending, fun hsome hzero => ⟨(ha hsome hzero).1, ?_⟩⟩
      exact (show Initiating.no ≠ .earlier by decide)
  | disconnection connHandle =>
    refine ⟨h.same hlinked hkeeps fun hne => h.pending fun hzero => hne ?_, ha⟩
    exact ite_eq_left_iff.mpr fun _ => hzero
  | pairingFail connHandle =>
    exact h.sameSdp ha hlinked hkeeps rfl (w.app.smpFinished_sdp connHandle)
  | securityProcessDone connHandle =>
    exact h.sameSdp ha hlinked hkeeps rfl (w.app.securityProcessDone_sdp connHandle)
  | attData connHandle chanId opcode => exact h.attData ha hlinked hkeeps

/-! ### One step -/

theorem begin (h : Stored sector f w) (hbusy : w.app.discovering.isSome → w.app.attReqBusy ≠ 0) :
    Stored sector f w.begin ∧ Answered sector w.begin :=
  ⟨h.same h.linked.begin (.refl _) h.pending, fun hsome hzero => absurd hzero (hbusy hsome)⟩

theorem procButton (h : Stored sector f w) (ha : Answered sector w) (cnt : ℕ) (key0 : UInt8) :
    Stored sector f { w with app := w.app.procButton cnt key0 } ∧
      Answered sector { w with app := w.app.procButton cnt key0 } := by
  have hlinked := h.linked.procButton cnt key0
  unfold Central.procButton at hlinked ⊢
  split_ifs at hlinked ⊢ <;> exact ⟨h.same hlinked ⟨rfl, rfl, rfl, rfl⟩ h.pending, ha⟩

/-- A device that is unpaired is deleted from the flash. -/
theorem procMasterRoleUnpair (h : Stored sector f w) (ha : Answered sector w)
    (terminated : Bool) :
    Stored sector f { w with app := w.app.procMasterRoleUnpair terminated } ∧
      Answered sector { w with app := w.app.procMasterRoleUnpair terminated } := by
  have hlinked := h.linked.procMasterRoleUnpair terminated
  unfold Central.procMasterRoleUnpair at hlinked ⊢
  by_cases henable : w.app.unpairEnable ≠ 0
  · simp only [if_pos henable] at hlinked ⊢
    cases hfind : w.app.table.devCharInfoSearchByConnhandle w.app.unpairEnable with
    | none =>
      simp only [hfind] at hlinked ⊢
      exact ⟨h.same hlinked ⟨rfl, rfl, rfl, rfl⟩ h.pending, ha⟩
    | some i =>
      simp only [hfind] at hlinked ⊢
      cases terminated with
      | false => exact ⟨h, ha⟩
      | true =>
        obtain ⟨hrefines, hflash, hnew, hall, hkept⟩ :=
          h.call (.delete (w.app.table.connDevList i).peer) fun pdev hop => by cases hop
        have hstep : ∀ a, devCharInfoSearchPeerAttHandleByPeerMac sector a w.app.flash = none →
            devCharInfoSearchPeerAttHandleByPeerMac sector a (step w.app.sector w.app.flash
              (.call (.delete (w.app.table.connDevList i).peer))) = none := fun a hnone => by
          rw [h.sector_eq]
          exact search_delete hrefines hnone
        refine ⟨⟨hlinked, h.sector_eq, hflash, hnew, hall, hkept, fun hne => ?_, h.waits⟩,
          fun hsome hzero => ?_⟩
        · exact hstep _ (h.pending hne)
        · exact ⟨hstep _ (ha hsome hzero).1, (ha hsome hzero).2⟩
  · simp only [if_neg henable]
    exact ⟨h, ha⟩

theorem procUi (h : Stored sector f w) (ha : Answered sector w) (t : Tick) :
    Stored sector f { w with app := w.app.procUi t } ∧
      Answered sector { w with app := w.app.procUi t } := by
  unfold Central.procUi
  cases t.button with
  | none => exact h.procMasterRoleUnpair ha t.terminated
  | some b =>
    obtain ⟨h', ha'⟩ := h.procButton ha b.1 b.2
    exact h'.procMasterRoleUnpair ha' t.terminated

/-- A request is not answered at first. -/
theorem reqBusy_ne_zero {connHandle : UInt16} (hzero : connHandle ≠ 0) (opcode : UInt8) :
    connHandle.toUInt32 ||| opcode.toUInt32 <<< 16 ≠ 0 := by
  rw [ne_eq, UInt32.or_eq_zero_iff]
  rintro ⟨hhandle, -⟩
  refine hzero (UInt16.toNat_inj.mp ?_)
  rw [← UInt16.toNat_toUInt32, hhandle]
  rfl

theorem finishService (h : Stored sector f w) :
    Stored sector f { w with app := w.app.finishService } ∧
      (w.app.finishService.discovering.isSome → w.app.finishService.attReqBusy ≠ 0) :=
  ⟨⟨h.linked.finishService, h.sector_eq, h.flash, h.onlyNew, h.refines, h.kept,
    fun hne => absurd rfl hne, fun _ heq => by cases heq⟩,
    fun hsome => absurd hsome Bool.false_ne_true⟩

/-- **A discovery is a success**: the device is not in flash. -/
theorem serviceFound (h : Stored sector f w)
    (hnone : devCharInfoSearchPeerAttHandleByPeerMac sector w.app.curSdpDevice.peer w.app.flash =
      none) (charHandle : Fin 8 → UInt16)
    (hlinked : Linked { w with app := w.app.serviceFound charHandle }) :
    Stored sector f { w with app := w.app.serviceFound charHandle } ∧
      ((w.app.serviceFound charHandle).discovering.isSome →
        (w.app.serviceFound charHandle).attReqBusy ≠ 0) := by
  obtain ⟨-, hflash, hnew, hall, hkept⟩ :=
    h.call (.store (Central.withCharHandles charHandle w.app.curSdpDevice))
      fun pdev hop => by cases hop; exact hnone
  exact ⟨⟨hlinked, h.sector_eq, hflash, hnew, hall, hkept, fun hne => absurd rfl hne,
    fun _ heq => by cases heq⟩, fun hsome => absurd hsome Bool.false_ne_true⟩

/-- What the caller of the idle loop does. -/
theorem afterIdle (h : Stored sector f w) (ha : Answered sector w) (t : Tick) :
    Stored sector f { w with app := w.app.afterIdle t } ∧
      ((w.app.afterIdle t).discovering.isSome → (w.app.afterIdle t).attReqBusy ≠ 0) := by
  have hlinked := h.linked.afterIdle t
  unfold Central.afterIdle at hlinked ⊢
  cases hwait : w.app.discovering with
  | none =>
    simp only [hwait, Central.simpleSdpLoop] at hlinked ⊢
    split_ifs at hlinked ⊢ with hservice hsdp
    · refine ⟨⟨hlinked, h.sector_eq, h.flash, h.onlyNew, h.refines, h.kept, h.pending,
        fun connHandle heq => ?_⟩, fun _ => reqBusy_ne_zero hsdp _⟩
      rw [← Option.some.inj heq]
      exact hsdp
    · exact h.finishService
    · exact ⟨h, fun hsome => by simp [hwait] at hsome⟩
  | some connHandle =>
    have hzero := h.waits connHandle hwait
    simp only [hwait] at hlinked ⊢
    split_ifs at hlinked ⊢ with hlate hbusy
    · exact h.finishService
    · cases hnext : t.next with
      | request opcode =>
        simp only [hnext] at hlinked
        refine ⟨⟨hlinked, h.sector_eq, h.flash, h.onlyNew, h.refines, h.kept, h.pending,
          fun connHandle' heq => ?_⟩, fun _ => reqBusy_ne_zero hzero _⟩
        rw [← Option.some.inj heq]
        exact hzero
      | success charHandle =>
        simp only [hnext] at hlinked
        exact h.serviceFound (ha (by rw [hwait]; rfl) hbusy).1 charHandle hlinked
    · exact ⟨h, fun _ => hbusy⟩

/-- **One step** of the main loop. -/
theorem tick (h : Stored sector f w) (hbusy : w.app.discovering.isSome → w.app.attReqBusy ≠ 0)
    {t : Tick} (hallowed : w.TickAllowed t) :
    Stored sector f (w.tick t) ∧
      ((w.tick t).app.discovering.isSome → (w.tick t).app.attReqBusy ≠ 0) := by
  obtain ⟨h₀, ha₀⟩ := h.begin hbusy
  obtain ⟨h₁, ha₁⟩ : Stored sector f (t.events.foldl World.link w.begin) ∧
      Answered sector (t.events.foldl World.link w.begin) :=
    Along.induction (P := fun _ w => Stored sector f w ∧ Answered sector w) ⟨h₀, ha₀⟩
      (fun _ _ h hC => h.1.link h.2 hC) hallowed
  obtain ⟨h₂, ha₂⟩ := h₁.procUi ha₁ t
  exact h₂.afterIdle ha₂ t

end Stored

theorem stored_init (config : DevConfig) (sector : ℕ) (f : Flash)
    (herased : f.Erased sector FLASH_SDP_ATT_MAX_SIZE) :
    Stored sector f (World.init config sector f) where
  linked := linked_init config sector f
  sector_eq := rfl
  flash := rfl
  onlyNew := trivial
  refines := trivial
  kept := ⟨0, kept_of_erased herased⟩
  pending := fun hne => absurd rfl hne
  waits := fun _ hsome => by cases hsome

/-- **What is in flash after any run**: each store was for a device that was not found, and a search
shows the map of what was stored and not deleted. -/
theorem run_stored (config : DevConfig) (sector : ℕ) (f : Flash)
    (herased : f.Erased sector FLASH_SDP_ATT_MAX_SIZE) (ts : List Tick)
    (hallowed : Along World.tick World.TickAllowed (World.init config sector f) ts) :
    Along (step sector) (OnlyNew sector) f (World.run config sector f ts).app.ops ∧
      SpecRun sector f (World.run config sector f ts).app.ops
        (lookup sector (World.run config sector f ts).app.flash) := by
  obtain ⟨h, -⟩ : Stored sector f (World.run config sector f ts) ∧ _ :=
    hallowed.induction (P := fun _ w => Stored sector f w ∧
        (w.app.discovering.isSome → w.app.attReqBusy ≠ 0))
      ⟨stored_init config sector f herased, fun hsome => absurd hsome Bool.false_ne_true⟩
      fun _ _ h hC => h.1.tick h.2 hC
  refine ⟨h.onlyNew, ?_⟩
  rw [h.flash]
  exact SpecRun.of_refines herased h.refines

/-- A run in which the handles of one device are stored. -/
theorem run_stored_one :
    Along (step 0x78000) (OnlyNew 0x78000) (fun _ => 0xff)
        (World.run ⟨1, 1, by decide⟩ 0x78000 (fun _ => 0xff) sampleTicks).app.ops ∧
      SpecRun 0x78000 (fun _ => 0xff)
        (World.run ⟨1, 1, by decide⟩ 0x78000 (fun _ => 0xff) sampleTicks).app.ops
        (lookup 0x78000
          (World.run ⟨1, 1, by decide⟩ 0x78000 (fun _ => 0xff) sampleTicks).app.flash) :=
  run_stored ⟨1, 1, by decide⟩ 0x78000 (fun _ => 0xff) (fun _ _ => rfl) sampleTicks
    (sampleTicks_allowed _ _)

end TcBle.Vendor
