import TcBle.Foundation.FlashLog
import TcBle.Foundation.Run
import TcBle.Vendor.DeviceManage

/-!
# The attribute handles in flash

`simple_sdp.c` keeps the attribute handles of a peer device in flash, so that it need not be asked
for them again. A unit is a `dev_att_t`: its flag, the address of the device and the handles. A
store writes the address and the handles to the first free unit and then the flag; a deletion clears
the flag.

## The model

A function of the source gives the flash writes it makes, in their order, so that a power cut leaves
the first ones. `PEER_SLAVE_USE_RPA_EN` is 0, as in the source. The callback `flash_prot_op_cb` does
not change the flash and is left out.

## What is proved

* `refines_iff` — the flash is a map from addresses to handles, whatever is cut, exactly when no
  store is completed in a unit that an interrupted one has written to and that cannot take the
  address and the handles.
* `SpecRun.of_refines` — the map has the last completed and not deleted store of each address.
-/

namespace TcBle.Vendor

open TcBle.Foundation TcBle.Foundation.Run

/-- `ATT_BOND_MARK`. -/
def ATT_BOND_MARK : UInt8 := 0x5A

/-- `ATT_ERASE_MARK`. -/
def ATT_ERASE_MARK : UInt8 := 0x00

/-- `FLASH_SDP_ATT_MAX_SIZE`. -/
def FLASH_SDP_ATT_MAX_SIZE : ℕ := 2 * 4096

/-- The `u16` at an address. -/
def readU16 (f : Flash) (addr : ℕ) : UInt16 :=
    UInt16.ofNat ((f addr).toNat + (f (addr + 1)).toNat * 2 ^ 8)

/-- The bytes of a `u16`. -/
def u16Bytes (x : UInt16) : List UInt8 := [UInt8.ofNat x.toNat, UInt8.ofNat (x.toNat / 2 ^ 8)]

/-- The bytes of `peer_adrType` and `peer_addr`, which follow each other. -/
def PeerAddr.bytes (a : PeerAddr) : List UInt8 := a.adrType :: List.ofFn a.addr

/-- `dev_att_t`, as it is read from an address. -/
structure DevAtt where
  /-- `flag`. -/
  flag : UInt8
  /-- `adr_type` and `addr`. -/
  peer : PeerAddr
  /-- `char_handle`. -/
  charHandle : Fin 8 → UInt16

/-- The `dev_att_t` at an address: `flag` at 0, `adr_type` at 1, `addr` at 2, `char_handle` at
16. -/
def devAtt (f : Flash) (cur : ℕ) : DevAtt :=
  ⟨f cur, ⟨f (cur + 1), fun i => f (cur + 2 + i)⟩, fun j => readU16 f (cur + 16 + 2 * j)⟩

/-- The handles that are stored: MIC, OTA, Consume Report and Key Report. -/
def storedHandles : List (Fin 8) := [0, 2, 3, 4]

namespace SdpStore

/-- The units of `sizeof(dev_att_t)` = 32 bytes at `flash_sector_simple_sdp_att`. -/
def log (sector : ℕ) : FlashLog := ⟨sector, 32, FLASH_SDP_ATT_MAX_SIZE / 32, by decide⟩

variable (sector : ℕ)

/-- The flash writes of a store in the unit at `cur`. -/
def storeWrites (pdev : DevCharInfo) (cur : ℕ) : List FlashOp :=
  .write (cur + 1) pdev.peer.bytes ::
    (storedHandles.map fun j => FlashOp.write (cur + 16 + 2 * j.val)
      (u16Bytes (pdev.charHandle j))) ++
      [.write cur [ATT_BOND_MARK]]

/-- `dev_char_info_store_peer_att_handle`: its flash writes, and the flash address it returns. -/
def devCharInfoStorePeerAttHandle (pdev : DevCharInfo) (f : Flash) : List FlashOp × Option ℕ :=
  match (log sector).firstFree f with
  | some cur => (storeWrites pdev cur, some cur)
  | none => ([], none)

/-- The unit is that of a device. -/
def unitOf (a : PeerAddr) (f : Flash) (cur : ℕ) : Bool :=
    f cur = ATT_BOND_MARK ∧ (devAtt f cur).peer = a

/-- `dev_char_info_search_peer_att_handle_by_peer_mac`: the flash address, and the `dev_att_t` it
reads. -/
def devCharInfoSearchPeerAttHandleByPeerMac (a : PeerAddr) (f : Flash) : Option (ℕ × DevAtt) :=
  ((log sector).find f (unitOf a f)).map fun cur => (cur, devAtt f cur)

/-- `dev_char_info_delete_peer_att_handle_by_peer_mac`: its flash writes, and what it returns. -/
def devCharInfoDeletePeerAttHandleByPeerMac (a : PeerAddr) (f : Flash) : List FlashOp × ℕ :=
  match (log sector).find f (unitOf a f) with
  | some cur => ([.write cur [ATT_ERASE_MARK]], 0)
  | none => ([], 1)

/-! ### Runs -/

/-- What the callers do. -/
inductive Op where
  /-- The handles of a device are stored. -/
  | store (pdev : DevCharInfo)
  /-- A device is looked for. -/
  | search (a : PeerAddr)
  /-- A device is deleted. -/
  | delete (a : PeerAddr)

/-- The flash writes of an operation. -/
def Op.writes (f : Flash) : Op → List FlashOp
  | .store pdev => (devCharInfoStorePeerAttHandle sector pdev f).1
  | .search _ => []
  | .delete a => (devCharInfoDeletePeerAttHandleByPeerMac sector a f).1

/-- An operation that returns, or that is cut off by a power cut after `n` flash writes. -/
inductive Event where
  /-- The operation returns. -/
  | call (op : Op)
  /-- The power is cut. -/
  | cut (op : Op) (n : ℕ)

/-- The operation. -/
def Event.op : Event → Op
  | .call op => op
  | .cut op _ => op

/-- The flash writes that are made. -/
def Event.writes (f : Flash) : Event → List FlashOp
  | .call op => op.writes sector f
  | .cut op n => (op.writes sector f).take n

/-- One step. -/
def step (f : Flash) (e : Event) : Flash := f.replay (e.writes sector f)

/-- All flash writes are made. -/
def Event.Complete (f : Flash) (e : Event) : Prop := e.writes sector f = e.op.writes sector f

/-! ### The map -/

/-- A map from addresses to handles. -/
abbrev Bonds := PeerAddr → Option (List UInt16)

/-- The handles of a device that are stored. -/
def stored (charHandle : Fin 8 → UInt16) : List UInt16 := storedHandles.map charHandle

/-- The map that a search shows. -/
def lookup (f : Flash) : Bonds := fun a =>
  (devCharInfoSearchPeerAttHandleByPeerMac sector a f).map fun r => stored r.2.charHandle

/-- What a completed operation does to the map: a store that returns an address adds to it. -/
def Op.effect (f : Flash) (m : Bonds) : Op → Bonds
  | .store pdev =>
    if (devCharInfoStorePeerAttHandle sector pdev f).2.isSome then
      Function.update m pdev.peer (some (stored pdev.charHandle))
    else m
  | .search _ => m
  | .delete a => Function.update m a none

/-- **A step refines the map**: its operation is seen as done, or, if it is interrupted, as never
started. -/
def Refines (f : Flash) (e : Event) : Prop :=
  lookup sector (step sector f e) = e.op.effect sector f (lookup sector f) ∨
    ¬e.Complete sector f ∧ lookup sector (step sector f e) = lookup sector f

/-- A store is for a device that is not found, as the callers have it. -/
def OnlyNew (f : Flash) (e : Event) : Prop :=
  ∀ pdev, e.op = .store pdev → devCharInfoSearchPeerAttHandleByPeerMac sector pdev.peer f = none

/-- The unit at `cur` can take the address and the handles. -/
def UnitTakes (f : Flash) (pdev : DevCharInfo) (cur : ℕ) : Prop :=
  f.Takes (cur + 1) pdev.peer.bytes ∧ ∀ j ∈ storedHandles,
    f.Takes (cur + 16 + 2 * j.val) (u16Bytes (pdev.charHandle j))

/-- A store that is completed finds a unit that can take what it stores. -/
def FindsRoom (f : Flash) (e : Event) : Prop :=
  e.Complete sector f → ∀ pdev, e.op = .store pdev → ∀ cur, (log sector).firstFree f = some cur →
    UnitTakes f pdev cur

instance (f : Flash) (e : Event) : Decidable (e.Complete sector f) :=
  inferInstanceAs (Decidable (_ = _))

instance (f : Flash) (pdev : DevCharInfo) (cur : ℕ) : Decidable (UnitTakes f pdev cur) :=
  inferInstanceAs (Decidable (_ ∧ ∀ j ∈ storedHandles, _))

instance (f : Flash) (e : Event) : Decidable (OnlyNew sector f e) :=
  match h : e.op with
  | .store pdev =>
    decidable_of_iff (devCharInfoSearchPeerAttHandleByPeerMac sector pdev.peer f = none)
      ⟨fun hnone _ hop => Op.store.inj (h.symm.trans hop) ▸ hnone, fun hnew => hnew pdev h⟩
  | .search _ => isTrue fun _ hop => Op.noConfusion (h.symm.trans hop)
  | .delete _ => isTrue fun _ hop => Op.noConfusion (h.symm.trans hop)

instance (f : Flash) (e : Event) : Decidable (FindsRoom sector f e) :=
  match h : e.op with
  | .store pdev =>
    decidable_of_iff (e.Complete sector f → ∀ cur ∈ (log sector).firstFree f, UnitTakes f pdev cur)
      ⟨fun htakes hdone _ hop => Op.store.inj (h.symm.trans hop) ▸ htakes hdone,
        fun hroom hdone => hroom hdone pdev h⟩
  | .search _ => isTrue fun _ _ hop => Op.noConfusion (h.symm.trans hop)
  | .delete _ => isTrue fun _ _ hop => Op.noConfusion (h.symm.trans hop)

variable {sector} {f g : Flash} {k : ℕ}

/-! ### What a unit holds -/

theorem length_bytes (a : PeerAddr) : a.bytes.length = 7 := by simp [PeerAddr.bytes]

theorem length_u16Bytes (x : UInt16) : (u16Bytes x).length = 2 := rfl

theorem getD_bytes_succ (a : PeerAddr) (i : Fin 6) : a.bytes.getD (i.val + 1) 0xff = a.addr i := by
  rw [PeerAddr.bytes, List.getD_cons_succ, List.getD_eq_getElem _ _ (by simp), List.getElem_ofFn]

/-- The address of a unit is read from its bytes. -/
theorem peer_eq_iff {cur : ℕ} {a : PeerAddr} :
    (devAtt f cur).peer = a ↔ f.read (cur + 1) a.bytes.length = a.bytes := by
  rw [Flash.read_eq_iff, length_bytes]
  constructor
  · rintro rfl i hi
    cases i with
    | zero => rfl
    | succ i =>
      have hbyte := getD_bytes_succ (devAtt f cur).peer ⟨i, by omega⟩
      rw [hbyte]
      show f (cur + 1 + (i + 1)) = f (cur + 2 + i)
      congr 1
      omega
  · intro h
    have haddr : (devAtt f cur).peer.addr = a.addr := funext fun i => by
      have := h (i.val + 1) (by omega)
      rw [getD_bytes_succ] at this
      exact (congrArg f (by omega)).trans this
    cases a
    exact congrArg₂ PeerAddr.mk (h 0 (by omega)) haddr

/-- So is a handle. -/
theorem readU16_eq_iff {addr : ℕ} {x : UInt16} :
    readU16 f addr = x ↔ f.read addr (u16Bytes x).length = u16Bytes x := by
  have hlo := (f addr).toNat_lt
  have hhi := (f (addr + 1)).toNat_lt
  have hx := x.toNat_lt
  have hread : f.read addr (u16Bytes x).length = [f addr, f (addr + 1)] := rfl
  rw [hread, u16Bytes, List.cons.injEq, List.cons.injEq, ← UInt16.toNat_inj, ← UInt8.toNat_inj,
    ← UInt8.toNat_inj, readU16, UInt16.toNat_ofNat', UInt8.toNat_ofNat', UInt8.toNat_ofNat']
  simp only [and_true]
  omega

/-- What a unit holds depends on its bytes only. -/
theorem devAtt_congr {cur : ℕ} (h : ∀ o < 32, g (cur + o) = f (cur + o)) :
    devAtt g cur = devAtt f cur := by
  have hpeer : (fun i : Fin 6 => g (cur + 2 + i)) = fun i : Fin 6 => f (cur + 2 + i) :=
    funext fun i => by
    rw [Nat.add_assoc, h _ (by omega)]
  have hhandle : (fun j : Fin 8 => readU16 g (cur + 16 + 2 * j)) = fun j :
    Fin 8 => readU16 f (cur + 16 + 2 * j) :=
    funext fun j => by
      unfold readU16
      rw [Nat.add_assoc cur, h _ (by omega), Nat.add_assoc, h _ (by omega)]
  simp only [devAtt]
  rw [hpeer, hhandle, h 1 (by omega), show g cur = f cur from h 0 (by omega)]

/-! ### What a store leaves -/

/-- A store leaves its unit with the address exactly when the unit can take it. -/
theorem storeWrites_peer_iff (pdev : DevCharInfo) (cur : ℕ) :
    (devAtt (f.replay (storeWrites pdev cur)) cur).peer = pdev.peer ↔
      f.Takes (cur + 1) pdev.peer.bytes := by
  rw [peer_eq_iff]
  refine @Flash.replay_readBack_iff [] _ _ _ _
    (fun op hop => absurd hop List.not_mem_nil) fun op hop => ?_
  rw [length_bytes]
  cases List.mem_append.mp hop with
  | inl hhandle =>
    obtain ⟨j, -, rfl⟩ := List.mem_map.mp hhandle
    exact Or.inr (by omega)
  | inr hmark =>
    rw [List.mem_singleton.mp hmark]
    exact Or.inl (by simp)

/-- So with each handle. -/
theorem storeWrites_handle_iff (pdev : DevCharInfo) (cur : ℕ) {j : Fin 8} (hj : j ∈ storedHandles) :
    (devAtt (f.replay (storeWrites pdev cur)) cur).charHandle j = pdev.charHandle j ↔
      f.Takes (cur + 16 + 2 * j.val) (u16Bytes (pdev.charHandle j)) := by
  obtain ⟨before, after, hsplit⟩ := List.append_of_mem hj
  have hnodup : (before ++ j :: after).Nodup := by
    rw [← hsplit]
    decide
  have hne : ∀ i, i ∈ before ∨ i ∈ after → i.val ≠ j.val := by
    rw [List.nodup_append, List.nodup_cons] at hnodup
    obtain ⟨-, ⟨hafter, -⟩, hbefore⟩ := hnodup
    rintro i (hi | hi) heq
    · exact hbefore i hi j List.mem_cons_self (Fin.ext heq)
    · rw [Fin.ext heq] at hi
      exact hafter hi
  have hwrite : ∀ i, i ∈ before ∨ i ∈ after →
    (FlashOp.write (cur + 16 + 2 * i.val) (u16Bytes (pdev.charHandle i))).Leaves
      (cur + 16 + 2 * j.val) (cur + 16 + 2 * j.val + (u16Bytes (pdev.charHandle j)).length) := by
    intro i hi
    have := hne i hi
    rw [FlashOp.leaves_write, length_u16Bytes, length_u16Bytes]
    omega
  rw [show (devAtt (f.replay (storeWrites pdev cur)) cur).charHandle j =
    readU16 (f.replay (storeWrites pdev cur)) (cur + 16 + 2 * j.val) from rfl, readU16_eq_iff,
      storeWrites, hsplit,
    List.map_append, List.map_cons, ← List.cons_append, List.append_assoc, List.cons_append,
      List.cons_append]
  refine @Flash.replay_readBack_iff (_ :: _) _ _ _ _ (fun op hop => ?_) fun op hop => ?_
  · rcases List.mem_cons.mp hop with rfl | hop
    · refine Or.inl ?_
      rw [length_bytes]
      omega
    · obtain ⟨i, hi, rfl⟩ := List.mem_map.mp hop
      exact hwrite i (Or.inl hi)
  · cases List.mem_append.mp hop with
    | inl hop =>
      obtain ⟨i, hi, rfl⟩ := List.mem_map.mp hop
      exact hwrite i (Or.inr hi)
    | inr hop =>
      rw [List.mem_singleton.mp hop]
      refine Or.inl ?_
      rw [List.length_singleton]
      omega

/-- The writes before the flag leave it alone. -/
theorem storeBody_leaves (pdev : DevCharInfo) (cur : ℕ) : ∀ op ∈ (storeWrites pdev cur).dropLast,
    op.Leaves cur (cur + 1) := by
  rw [storeWrites, List.dropLast_concat]
  intro op hop
  rcases List.mem_cons.mp hop with rfl | hop
  · exact Or.inr (le_refl _)
  · obtain ⟨j, -, rfl⟩ := List.mem_map.mp hop
    exact Or.inr (by omega)

/-- A store that is completed sets the flag of a free unit. -/
theorem storeWrites_flag {cur : ℕ} (h : f cur = 0xff) (pdev : DevCharInfo) :
    f.replay (storeWrites pdev cur) cur = ATT_BOND_MARK := by
  have hbody := Flash.replay_leaves (f := f) (storeBody_leaves pdev cur) (le_refl cur)
    (Nat.lt_succ_self cur)
  rw [storeWrites, List.dropLast_concat] at hbody
  rw [storeWrites, Flash.replay_append, Flash.replay_cons, Flash.replay_nil, FlashOp.apply,
    Flash.program_singleton, hbody, h]
  decide

/-- A store writes within its unit. -/
theorem storeWrites_within (pdev : DevCharInfo) (cur : ℕ) :
    ∀ op ∈ storeWrites pdev cur, op.Within cur (cur + 32) := by
  intro op hop
  cases List.mem_append.mp hop with
  | inl hop =>
    rcases List.mem_cons.mp hop with rfl | hop
    · refine ⟨by omega, ?_⟩
      rw [length_bytes]
      omega
    · obtain ⟨j, -, rfl⟩ := List.mem_map.mp hop
      refine ⟨by omega, ?_⟩
      rw [length_u16Bytes]
      omega
  | inr hop =>
    rw [List.mem_singleton.mp hop]
    exact ⟨le_refl _, by simp⟩

/-! ### The units in use -/

/-- What is in unit `i`. -/
def entry (sector : ℕ) (f : Flash) (i : ℕ) : DevAtt := devAtt f ((log sector).unit i)

/-- Unit `i` has a device. -/
def Live (sector : ℕ) (f : Flash) (i : ℕ) : Prop := (entry sector f i).flag = ATT_BOND_MARK

/-- **The invariant**: the first `k` units are used, and no two have the same device. -/
structure Holds (sector : ℕ) (f : Flash) (k : ℕ) : Prop where
  /-- The used units. -/
  filled : (log sector).Filled f k
  /-- Their devices. -/
  unique : ∀ i < k, ∀ j < k, Live sector f i → Live sector f j →
    (entry sector f i).peer = (entry sector f j).peer → i = j

/-- The flash is as the operations leave it. -/
def Ok (sector : ℕ) (f : Flash) : Prop := ∃ k, Holds sector f k

theorem unitOf_unit {a : PeerAddr} {i : ℕ} :
    unitOf a f ((log sector).unit i) = true ↔ Live sector f i ∧ (entry sector f i).peer = a := by
  simp only [unitOf, decide_eq_true_eq]
  rfl

/-- A device that is not found is in none of the used units. -/
theorem search_eq_none_iff (h : (log sector).Filled f k) {a : PeerAddr} :
    devCharInfoSearchPeerAttHandleByPeerMac sector a f = none ↔
      ∀ i < k, Live sector f i → (entry sector f i).peer ≠ a := by
  unfold devCharInfoSearchPeerAttHandleByPeerMac
  rw [Option.map_eq_none_iff, h.find_eq_none]
  refine forall_congr' fun i => forall_congr' fun _ => ?_
  rw [← Bool.not_eq_true, unitOf_unit, not_and]

/-- What a search shows is in a used unit. -/
theorem lookup_eq_some (h : (log sector).Filled f k) {a : PeerAddr} {hs : List UInt16}
    (hfind : lookup sector f a = some hs) : ∃ i < k, Live sector f i ∧ (entry sector f i).peer = a ∧
      stored (entry sector f i).charHandle = hs := by
  unfold lookup devCharInfoSearchPeerAttHandleByPeerMac at hfind
  rw [Option.map_map, Option.map_eq_some_iff] at hfind
  obtain ⟨cur, hcur, hstored⟩ := hfind
  obtain ⟨i, hi, rfl, hunit⟩ := h.of_find hcur
  obtain ⟨hlive, hpeer⟩ := unitOf_unit.mp hunit
  exact ⟨i, hi, hlive, hpeer, hstored⟩

theorem Holds.lookup_eq_some_iff (h : Holds sector f k) {a : PeerAddr} {hs : List UInt16} :
    lookup sector f a = some hs ↔ ∃ i < k, Live sector f i ∧ (entry sector f i).peer = a ∧
      stored (entry sector f i).charHandle = hs := by
  refine ⟨lookup_eq_some h.filled, ?_⟩
  rintro ⟨i, hi, hlive, rfl, rfl⟩
  cases hfind : lookup sector f (entry sector f i).peer with
  | none =>
    exact absurd rfl ((search_eq_none_iff h.filled).mp (Option.map_eq_none_iff.mp hfind) i hi hlive)
  | some hs =>
    obtain ⟨j, hj, hlivej, hpeer, rfl⟩ := lookup_eq_some h.filled hfind
    rw [h.unique j hj i hi hlivej hlive hpeer]

/-- Units that hold the same show the same map. -/
theorem Holds.same (h : Holds sector f k) (hfilled : (log sector).Filled g k)
    (hentry : ∀ i < k, entry sector g i = entry sector f i) :
    Holds sector g k ∧ lookup sector g = lookup sector f := by
  have hlive : ∀ i < k, (Live sector g i ↔ Live sector f i) := by
    intro i hi
    rw [Live, hentry i hi, Live]
  have hg : Holds sector g k := by
    refine ⟨hfilled, fun i hi j hj hlivei hlivej hpeer => ?_⟩
    rw [hentry i hi, hentry j hj] at hpeer
    exact h.unique i hi j hj ((hlive i hi).mp hlivei) ((hlive j hj).mp hlivej) hpeer
  refine ⟨hg, funext fun a => Option.ext fun hs => ?_⟩
  rw [hg.lookup_eq_some_iff, h.lookup_eq_some_iff]
  refine exists_congr fun i => and_congr_right fun hi => ?_
  rw [hlive i hi, hentry i hi]

/-- Writes within one unit leave the others as they are. -/
theorem entry_replay_other {ops : List FlashOp} {i j : ℕ}
    (hops : ∀ op ∈ ops, op.Within ((log sector).unit i)
    ((log sector).unit i + 32)) (hne : j ≠ i) : entry sector (f.replay ops) j =
      entry sector f j := by
  refine devAtt_congr fun o ho => Flash.replay_other hops (List.prefix_refl ops) ?_
  have hsize : (log sector).size = 32 := rfl
  cases lt_or_gt_of_ne hne with
  | inl hlt =>
    have := FlashLog.unit_add_le (L := log sector) hlt
    omega
  | inr hlt =>
    have := FlashLog.unit_add_le (L := log sector) hlt
    omega

theorem mark_eq_flag (i : ℕ) : (log sector).mark f i = (entry sector f i).flag := rfl

/-! ### Storing -/

/-- The flash after a store in unit `i`. -/
def afterStore (sector : ℕ) (pdev : DevCharInfo) (f : Flash) (i : ℕ) : Flash :=
  f.replay (storeWrites pdev ((log sector).unit i))

theorem entry_afterStore_other {pdev : DevCharInfo} {i j : ℕ} (hne : j ≠ i) :
    entry sector (afterStore sector pdev f i) j = entry sector f j :=
  entry_replay_other (storeWrites_within pdev _) hne

/-- A store uses a unit. -/
theorem Filled.afterStore (h : (log sector).Filled f k) (hk : k < (log sector).num)
    (pdev : DevCharInfo) :
    (log sector).Filled (afterStore sector pdev f k) (k + 1) ∧
      Live sector (afterStore sector pdev f k) k := by
  have hflag : (log sector).mark (SdpStore.afterStore sector pdev f k) k = ATT_BOND_MARK :=
    storeWrites_flag (h.unit_free hk le_rfl) pdev
  refine ⟨h.take hk ?_ fun i hi => ?_, hflag⟩
  · rw [hflag]
    decide
  · rw [mark_eq_flag, entry_afterStore_other hi, mark_eq_flag]

/-- The unit holds the device exactly when it can take it. -/
theorem afterStore_entry_iff (pdev : DevCharInfo) (i : ℕ) :
    (entry sector (afterStore sector pdev f i) i).peer = pdev.peer ∧
      stored (entry sector (afterStore sector pdev f i) i).charHandle = stored pdev.charHandle ↔
    UnitTakes f pdev ((log sector).unit i) := by
  refine and_congr (storeWrites_peer_iff pdev _) ?_
  unfold stored
  rw [List.map_inj_left]
  exact forall_congr' fun j => forall_congr' fun hj => storeWrites_handle_iff pdev _ hj

/-- A store in a unit that can take the device, which is a new one. -/
theorem Holds.afterStore (h : Holds sector f k) (hk : k < (log sector).num) {pdev : DevCharInfo}
    (hnew : devCharInfoSearchPeerAttHandleByPeerMac sector pdev.peer f = none)
    (htakes : UnitTakes f pdev ((log sector).unit k)) :
    Holds sector (afterStore sector pdev f k) (k + 1) ∧ lookup sector (afterStore sector pdev f k) =
      Function.update (lookup sector f) pdev.peer (some (stored pdev.charHandle)) := by
  obtain ⟨hfilled, hlive⟩ := Filled.afterStore h.filled hk pdev
  obtain ⟨hpeer, hstored⟩ := (afterStore_entry_iff pdev k).mpr htakes
  have hother : ∀ i < k, entry sector (SdpStore.afterStore sector pdev f k) i = entry sector f i :=
    fun i hi => entry_afterStore_other hi.ne
  have hold : ∀ i < k, Live sector (SdpStore.afterStore sector pdev f k) i →
      Live sector f i := by
    intro i hi hlivei
    rwa [Live, hother i hi] at hlivei
  have hfresh : ∀ i < k, Live sector (SdpStore.afterStore sector pdev f k) i →
      (entry sector (SdpStore.afterStore sector pdev f k) i).peer ≠ pdev.peer := by
    intro i hi hlivei
    rw [hother i hi]
    exact (search_eq_none_iff h.filled).mp hnew i hi (hold i hi hlivei)
  have hg : Holds sector (SdpStore.afterStore sector pdev f k) (k + 1) := by
    refine ⟨hfilled, fun i hi j hj hlivei hlivej hsame => ?_⟩
    rcases Nat.lt_succ_iff_lt_or_eq.mp hi with hik | rfl
    · rcases Nat.lt_succ_iff_lt_or_eq.mp hj with hjk | rfl
      · have hsame' := hsame
        rw [hother i hik, hother j hjk] at hsame'
        exact h.unique i hik j hjk (hold i hik hlivei) (hold j hjk hlivej) hsame'
      · exact absurd (hsame.trans hpeer) (hfresh i hik hlivei)
    · rcases Nat.lt_succ_iff_lt_or_eq.mp hj with hjk | rfl
      · exact absurd (hsame.symm.trans hpeer) (hfresh j hjk hlivej)
      · rfl
  refine ⟨hg, funext fun a => ?_⟩
  by_cases ha : a = pdev.peer
  · rw [ha, Function.update_self]
    exact hg.lookup_eq_some_iff.mpr ⟨k, Nat.lt_succ_self k, hlive, hpeer, hstored⟩
  · rw [Function.update_of_ne ha]
    refine Option.ext fun hs => ?_
    rw [hg.lookup_eq_some_iff, h.lookup_eq_some_iff]
    constructor
    · rintro ⟨i, hi, hlivei, hpeeri, hstoredi⟩
      rcases Nat.lt_succ_iff_lt_or_eq.mp hi with hik | rfl
      · rw [hother i hik] at hpeeri hstoredi
        exact ⟨i, hik, hold i hik hlivei, hpeeri, hstoredi⟩
      · exact absurd (hpeeri.symm.trans hpeer) ha
    · rintro ⟨i, hi, hlivei, hpeeri, hstoredi⟩
      refine ⟨i, hi.trans (Nat.lt_succ_self k), ?_⟩
      rw [Live, hother i hi]
      exact ⟨hlivei, hpeeri, hstoredi⟩

/-- A store that adds to the map went to a unit that can take the device. -/
theorem takes_of_lookup (h : (log sector).Filled f k) (hk : k < (log sector).num)
    {pdev : DevCharInfo}
    (hnew : devCharInfoSearchPeerAttHandleByPeerMac sector pdev.peer f = none)
    (hlookup : lookup sector (afterStore sector pdev f k) pdev.peer =
      some (stored pdev.charHandle)) :
    UnitTakes f pdev ((log sector).unit k) := by
  obtain ⟨i, hi, hlive, hpeer, hstored⟩ := lookup_eq_some (Filled.afterStore h hk pdev).1 hlookup
  rcases Nat.lt_succ_iff_lt_or_eq.mp hi with hik | rfl
  · have hsame : entry sector (afterStore sector pdev f k) i = entry sector f i :=
      entry_afterStore_other hik.ne
    rw [Live, hsame] at hlive
    rw [hsame] at hpeer
    exact absurd hpeer ((search_eq_none_iff h).mp hnew i hik hlive)
  · exact (afterStore_entry_iff pdev i).mp ⟨hpeer, hstored⟩

/-! ### Deleting -/

/-- **A deletion** takes the device from the map. -/
theorem Holds.afterDelete (h : Holds sector f k) {i : ℕ} (hi : i < k) (hlive : Live sector f i) :
    Holds sector (f.replay [.write ((log sector).unit i) [ATT_ERASE_MARK]]) k ∧
      lookup sector (f.replay [.write ((log sector).unit i) [ATT_ERASE_MARK]]) =
        Function.update (lookup sector f) (entry sector f i).peer none := by
  set g := f.replay [.write ((log sector).unit i) [ATT_ERASE_MARK]] with hg
  have hother : ∀ j, j ≠ i → entry sector g j = entry sector f j := fun j hj =>
    entry_replay_other (fun op hop => by
      rw [List.mem_singleton.mp hop]
      exact ⟨le_refl _, by simp⟩) hj
  have hflag : (entry sector g i).flag = ATT_ERASE_MARK := by
    show f.program ((log sector).unit i) [ATT_ERASE_MARK] ((log sector).unit i) = ATT_ERASE_MARK
    rw [Flash.program_singleton]
    exact UInt8.and_zero
  have hdead : ¬Live sector g i := by
    rw [Live, hflag]
    decide
  have hne : ∀ j, Live sector g j → j ≠ i := by
    rintro j hj rfl
    exact hdead hj
  have hold : ∀ j, Live sector g j → Live sector f j := by
    intro j hj
    have := hj
    rwa [Live, hother j (hne j hj)] at this
  have hgh : Holds sector g k := by
    refine ⟨h.filled.remark hi ?_ fun j hj => ?_, fun j hj j' hj' hlivej hlivej' hsame => ?_⟩
    · rw [mark_eq_flag, hflag]
      decide
    · rw [mark_eq_flag, hother j hj, mark_eq_flag]
    · rw [hother j (hne j hlivej), hother j' (hne j' hlivej')] at hsame
      exact h.unique j hj j' hj' (hold j hlivej) (hold j' hlivej') hsame
  refine ⟨hgh, funext fun a => ?_⟩
  by_cases ha : a = (entry sector f i).peer
  · rw [ha, Function.update_self]
    refine Option.map_eq_none_iff.mpr
      ((search_eq_none_iff hgh.filled).mpr fun j hj hlivej hpeer => ?_)
    rw [hother j (hne j hlivej)] at hpeer
    exact hne j hlivej (h.unique j hj i hi (hold j hlivej) hlive hpeer)
  · rw [Function.update_of_ne ha]
    refine Option.ext fun hs => ?_
    rw [hgh.lookup_eq_some_iff, h.lookup_eq_some_iff]
    refine exists_congr fun j => and_congr_right fun hj => ?_
    by_cases hji : j = i
    · rw [hji]
      exact iff_of_false (fun hboth => hdead hboth.1) fun hboth => ha hboth.2.1.symm
    · rw [Live, hother j hji, Live]

/-! ### One step -/

theorem Holds.firstFree (h : Holds sector f k) :
    (log sector).firstFree f = if k < (log sector).num then some ((log sector).unit k) else none :=
      h.filled.firstFree_eq

/-- A store that is interrupted is not seen. -/
theorem Holds.interrupted (h : Holds sector f k) (pdev : DevCharInfo) {n : ℕ}
    (hn : (storeWrites pdev ((log sector).unit k)).take n ≠ storeWrites pdev
      ((log sector).unit k)) :
    Holds sector (f.replay ((storeWrites pdev ((log sector).unit k)).take n)) k ∧
      lookup sector (f.replay ((storeWrites pdev ((log sector).unit k)).take n)) =
        lookup sector f := by
  set ws := storeWrites pdev ((log sector).unit k) with hws
  have hlt : n < ws.length := by
    by_contra hge
    exact hn (List.take_of_length_le (not_lt.mp hge))
  have htake : ws.take n = ws.dropLast.take n := by
    rw [List.dropLast_eq_take, List.take_take, Nat.min_eq_left (by omega)]
  have hbody : ∀ op ∈ ws.take n, op.Leaves ((log sector).unit k) ((log sector).unit k + 1) := by
    intro op hop
    rw [htake] at hop
    exact storeBody_leaves pdev _ op (List.mem_of_mem_take hop)
  have hother : ∀ i, i ≠ k → entry sector (f.replay (ws.take n)) i = entry sector f i := fun i hi =>
    entry_replay_other (fun op hop => storeWrites_within pdev _ op (List.mem_of_mem_take hop)) hi
  refine h.same (h.filled.congr fun i _ => ?_) fun i hi => hother i hi.ne
  by_cases hi : i = k
  · rw [hi]
    exact Flash.replay_leaves hbody (le_refl _) (Nat.lt_succ_self _)
  · rw [mark_eq_flag, hother i hi, mark_eq_flag]

/-- An interrupted operation makes some of its writes, but not all. -/
theorem Event.of_not_complete {e : Event} (h : ¬e.Complete sector f) : ∃ n, step sector f e =
    f.replay ((e.op.writes sector f).take n) ∧
    (e.op.writes sector f).take n ≠ e.op.writes sector f := by
  cases e with
  | call op => exact absurd rfl h
  | cut op n => exact ⟨n, rfl, h⟩

theorem Event.Complete.step {e : Event} (h : e.Complete sector f) :
    SdpStore.step sector f e = f.replay (e.op.writes sector f) := congrArg f.replay h

/-- A step that writes nothing and changes no device of the map. -/
theorem Holds.nothing (h : Holds sector f k) {e : Event} (hwrites : e.op.writes sector f = [])
    (heffect : e.op.effect sector f (lookup sector f) = lookup sector f) :
    Holds sector (step sector f e) k ∧ lookup sector (step sector f e) = lookup sector f ∧
      lookup sector (step sector f e) = e.op.effect sector f (lookup sector f) := by
  have hstep : step sector f e = f := by
    cases e with
    | call op => exact congrArg f.replay hwrites
    | cut op n =>
      exact (congrArg (fun ws => f.replay (ws.take n)) hwrites).trans
        (by rw [List.take_nil, Flash.replay_nil])
  rw [hstep]
  exact ⟨h, rfl, heffect.symm⟩

/-- **What a step is**, when `k` units are used: a completed store in unit `k`, a deletion of a unit
in use, or a step that refines the map without changing it. -/
theorem Holds.step_cases (h : Holds sector f k) (e : Event) :
    (∃ pdev, e.op = .store pdev ∧ k < (log sector).num ∧ e.Complete sector f ∧
      step sector f e = SdpStore.afterStore sector pdev f k) ∨
    (∃ i < k, Live sector f i ∧ e.op = .delete (entry sector f i).peer ∧
      step sector f e = f.replay [.write ((log sector).unit i) [ATT_ERASE_MARK]]) ∨
    (Holds sector (step sector f e) k ∧ Refines sector f e ∧ FindsRoom sector f e) := by
  cases hop : e.op with
  | store pdev =>
    by_cases hk : k < (log sector).num
    · have hfree : (log sector).firstFree f = some ((log sector).unit k) := by
        rw [h.firstFree, if_pos hk]
      have hwrites : e.op.writes sector f = storeWrites pdev ((log sector).unit k) := by
        rw [hop, Op.writes, devCharInfoStorePeerAttHandle, hfree]
      by_cases hc : e.Complete sector f
      · exact Or.inl ⟨pdev, rfl, hk, hc, hc.step.trans (congrArg f.replay hwrites)⟩
      · obtain ⟨n, hstep, hn⟩ := Event.of_not_complete hc
        rw [hwrites] at hstep hn
        obtain ⟨hg, hlookup⟩ := h.interrupted pdev hn
        refine Or.inr
          (Or.inr ⟨by rw [hstep]; exact hg, Or.inr ⟨hc, ?_⟩, fun hcomplete => absurd hcomplete hc⟩)
        rw [hstep]
        exact hlookup
    · have hfree : (log sector).firstFree f = none := by rw [h.firstFree, if_neg hk]
      have hnone : devCharInfoStorePeerAttHandle sector pdev f = ([], none) := by
        rw [devCharInfoStorePeerAttHandle, hfree]
      obtain ⟨hg, -, hrefines⟩ := h.nothing (e := e) (by rw [hop, Op.writes, hnone])
        (by rw [hop, Op.effect, hnone]; rfl)
      refine Or.inr (Or.inr ⟨hg, Or.inl hrefines, fun _ pdev' _ cur hcur => ?_⟩)
      rw [hfree] at hcur
      exact absurd hcur nofun
  | search a =>
    obtain ⟨hg, -, hrefines⟩ := h.nothing (e := e) (by rw [hop]; rfl) (by rw [hop]; rfl)
    exact Or.inr (Or.inr ⟨hg, Or.inl hrefines, fun _ pdev hstore => by
      rw [hop] at hstore; exact absurd hstore nofun⟩)
  | delete a =>
    have hroom : FindsRoom sector f e := by
      intro _ pdev hstore
      rw [hop] at hstore
      exact absurd hstore nofun
    cases hfind : (log sector).find f (unitOf a f) with
    | none =>
      have hlookup : lookup sector f a = none := by
        unfold lookup devCharInfoSearchPeerAttHandleByPeerMac
        rw [hfind]
        rfl
      obtain ⟨hg, -, hrefines⟩ := h.nothing (e := e)
        (by rw [hop, Op.writes, devCharInfoDeletePeerAttHandleByPeerMac, hfind])
        (by rw [hop, Op.effect, ← hlookup, Function.update_eq_self])
      exact Or.inr (Or.inr ⟨hg, Or.inl hrefines, hroom⟩)
    | some cur =>
      obtain ⟨i, hi, rfl, hunit⟩ := h.filled.of_find hfind
      obtain ⟨hlive, rfl⟩ := unitOf_unit.mp hunit
      have hwrites : e.op.writes sector f = [.write ((log sector).unit i) [ATT_ERASE_MARK]] := by
        rw [hop, Op.writes, devCharInfoDeletePeerAttHandleByPeerMac, hfind]
      by_cases hc : e.Complete sector f
      · exact Or.inr (Or.inl ⟨i, hi, hlive, rfl, hc.step.trans (congrArg f.replay hwrites)⟩)
      · obtain ⟨n, hstep, hn⟩ := Event.of_not_complete hc
        rw [hwrites] at hstep hn
        have hzero : n = 0 := by
          by_contra hpos
          exact hn (List.take_of_length_le (Nat.pos_of_ne_zero hpos))
        rw [hzero] at hstep
        have hsame : step sector f e = f := hstep
        refine Or.inr (Or.inr ⟨by rw [hsame]; exact h, Or.inr ⟨hc, by rw [hsame]⟩, hroom⟩)

/-- **One step refines the map** exactly when a store that is completed finds room. -/
theorem Ok.step_iff (h : Ok sector f) {e : Event} (hnew : OnlyNew sector f e) :
    Refines sector f e ↔ FindsRoom sector f e := by
  obtain ⟨k, h⟩ := h
  rcases h.step_cases e with ⟨pdev, hop, hk, hc, hstep⟩ | ⟨i, hi, hlive, hop, hstep⟩ |
    ⟨-, hrefines, hroom⟩
  · have hfree : (log sector).firstFree f = some ((log sector).unit k) := by
      rw [h.firstFree, if_pos hk]
    have heffect : e.op.effect sector f (lookup sector f) =
        Function.update (lookup sector f) pdev.peer (some (stored pdev.charHandle)) := by
      rw [hop, Op.effect, devCharInfoStorePeerAttHandle, hfree]
      rfl
    rw [Refines, hstep, heffect]
    constructor
    · rintro (hlookup | ⟨hnot, -⟩)
      · have hget := congrFun hlookup pdev.peer
        rw [Function.update_self] at hget
        have htakes := takes_of_lookup h.filled hk (hnew pdev hop) hget
        intro _ pdev' hop' cur hcur
        rw [hop, Op.store.injEq] at hop'
        rw [hfree, Option.some.injEq] at hcur
        rw [← hop', ← hcur]
        exact htakes
      · exact absurd hc hnot
    · intro hroom
      exact Or.inl (h.afterStore hk (hnew pdev hop) (hroom hc pdev hop _ hfree)).2
  · refine iff_of_true (Or.inl ?_) fun _ pdev hstore => by
      rw [hop] at hstore; exact absurd hstore nofun
    rw [hstep, hop, Op.effect]
    exact (h.afterDelete hi hlive).2
  · exact iff_of_true hrefines hroom

theorem Ok.next (h : Ok sector f) {e : Event} (hnew : OnlyNew sector f e)
    (hroom : FindsRoom sector f e) :
    Ok sector (step sector f e) := by
  obtain ⟨k, h⟩ := h
  rcases h.step_cases e with ⟨pdev, hop, hk, hc, hstep⟩ | ⟨i, hi, hlive, hop, hstep⟩ | ⟨hg, -, -⟩
  · rw [hstep]
    exact ⟨k + 1,
      (h.afterStore hk (hnew pdev hop) (hroom hc pdev hop _ (by rw [h.firstFree, if_pos hk]))).1⟩
  · rw [hstep]
    exact ⟨k, (h.afterDelete hi hlive).1⟩
  · exact ⟨k, hg⟩

/-! ### Runs -/

theorem filled_of_erased (h : f.Erased sector FLASH_SDP_ATT_MAX_SIZE) :
    (log sector).Filled f 0 := by
  refine FlashLog.filled_zero ?_
  have hsize : (log sector).num * (log sector).size = FLASH_SDP_ATT_MAX_SIZE := by
    show FLASH_SDP_ATT_MAX_SIZE / 32 * 32 = FLASH_SDP_ATT_MAX_SIZE
    decide
  rw [hsize]
  exact h

theorem ok_of_erased (h : f.Erased sector FLASH_SDP_ATT_MAX_SIZE) : Ok sector f :=
  ⟨0, filled_of_erased h, fun i hi => absurd hi (Nat.not_lt_zero i)⟩

/-- An erased sector has no device. -/
theorem lookup_of_erased (h : f.Erased sector FLASH_SDP_ATT_MAX_SIZE) :
    lookup sector f = fun _ => none := by
  funext a
  refine Option.map_eq_none_iff.mpr ((search_eq_none_iff (filled_of_erased h)).mpr ?_)
  exact fun i hi => absurd hi (Nat.not_lt_zero i)

/-- **The flash is a map**: from an erased sector, every step of a run refines the map exactly when
every store that is completed finds room. -/
theorem refines_iff (sector : ℕ) (f : Flash) (run : List Event)
    (herased : f.Erased sector FLASH_SDP_ATT_MAX_SIZE)
    (hnew : Along (step sector) (OnlyNew sector) f run) :
    Along (step sector) (Refines sector) f run ↔ Along (step sector) (FindsRoom sector) f run := by
  have hiff : ∀ g e, Ok sector g → OnlyNew sector g e →
    (Refines sector g e ↔ FindsRoom sector g e) :=
    fun _ _ h hn => h.step_iff hn
  have hnext : ∀ g e, Ok sector g → OnlyNew sector g e → FindsRoom sector g e →
    Ok sector (step sector g e) :=
    fun _ _ h hn hroom => h.next hn hroom
  exact Along.congr hiff hnext (ok_of_erased herased) hnew

/-- The maps that a run may lead to: a completed operation is done, an interrupted one is done or
never started. -/
inductive SpecRun (sector : ℕ) (f : Flash) : List Event → Bonds → Prop where
  /-- At first there is no device. -/
  | start : SpecRun sector f [] fun _ => none
  /-- The operation is done. -/
  | done {run : List Event} {m : Bonds} (e : Event) : SpecRun sector f run m →
      SpecRun sector f (run ++ [e]) (e.op.effect sector (run.foldl (step sector) f) m)
  /-- It is interrupted, as if it had never started. -/
  | interrupted {run : List Event} {m : Bonds} (e : Event) : SpecRun sector f run m →
      ¬e.Complete sector (run.foldl (step sector) f) → SpecRun sector f (run ++ [e]) m

/-- **What a search shows**: the map of the completed operations, when every step refines it. -/
theorem SpecRun.of_refines (herased : f.Erased sector FLASH_SDP_ATT_MAX_SIZE) {run : List Event}
    (h : Along (step sector) (Refines sector) f run) :
    SpecRun sector f run (lookup sector (run.foldl (step sector) f)) := by
  refine Along.induction (P := fun is g => SpecRun sector f is (lookup sector g)) ?_
    (fun is e hspec hrefines => ?_) h
  · rw [lookup_of_erased herased]
    exact .start
  · rcases hrefines with hdone | ⟨hcut, hsame⟩
    · rw [hdone]
      exact .done e hspec
    · rw [hsame]
      exact .interrupted e hspec hcut

/-! ### A store that is cut -/

/-- A device with an address of the bytes `b` and no handles. -/
def device (b : UInt8) : DevCharInfo := { DevCharInfo.cleared with peer := ⟨0, fun _ => b⟩ }

/-- The store of one device is cut after its first write, and another device is stored. -/
def dirtyRun : List Event := [.cut (.store (device 0x0F)) 1, .call (.store (device 0xF0))]

/-- A flash that is erased. -/
def blank : Flash := fun _ => 0xff

/-- Two devices are stored, and the first is deleted; the store of a third is cut after two writes,
and made again; the second is looked for, and a deletion of it is cut before its write. -/
def storesRun : List Event :=
  [.call (.store (device 0x0F)), .call (.store (device 0xF0)), .call (.delete (device 0x0F).peer),
    .cut (.store (device 0x3C)) 2, .call (.store (device 0x3C)), .call (.search (device 0xF0).peer),
    .cut (.delete (device 0xF0).peer) 0]

/-- Each step of it refines the map. -/
theorem refines_one : Along (step 0x78000) (Refines 0x78000) blank storesRun :=
  (refines_iff 0x78000 blank storesRun (fun _ _ => rfl) (by decide +kernel)).mpr (by decide +kernel)

/-- The second device of `dirtyRun` is stored, and not found. -/
theorem dirtyRun_lost : Along (step 0x78000) (OnlyNew 0x78000) blank dirtyRun ∧
    ¬Along (step 0x78000) (Refines 0x78000) blank dirtyRun := by
  refine ⟨⟨fun _ _ => rfl, fun _ _ => rfl, trivial⟩, fun h => ?_⟩
  rcases h.2.1 with hdone | ⟨hcut, -⟩
  · have hget := congrFun hdone (device 0xF0).peer
    exact absurd hget (by decide)
  · exact hcut rfl

end SdpStore

end TcBle.Vendor
