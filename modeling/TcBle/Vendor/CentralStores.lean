import TcBle.Foundation.SharedMemory
import TcBle.Vendor.CustomPairArea
import TcBle.Vendor.FlashSectors

/-!
# What the central keeps in flash

A central without SMP keeps three things in one flash: its device addresses, which `ble_flash.c`
looks for at every start, the paired devices of `custom_pair.c`, which are read back at every start,
and the attribute handles of `simple_sdp.c`.

## The model

The state is the flash and what the start leaves in RAM. A start runs `blc_initMacAddress` and then
`user_master_host_pairing_management_init`, as `user_init_normal` of the central does; the endless
loop of the latter ends only with the next start. The power may be cut while handles are stored or
deleted, and a start follows.

## What is proved

* `joint_step` — a step of the central is a step of some of the three, one after the other.
-/

namespace TcBle.Vendor

open TcBle.Foundation TcBle.Foundation.Run

/-- The flash, and what the starts leave of it. -/
structure Stores where
  /-- The flash. -/
  flash : Flash
  /-- `mac_public` and `mac_random_static`, as the last start has set them. -/
  addresses : Option MacAddresses
  /-- `user_bond_slave_flash_cfg_idx` and the entries of `user_tbl_slaveMac`, or the endless loop of
  the initialisation. -/
  pairing : Option (ℤ × List (ℕ × MacAddr))

/-- What happens to the central. -/
inductive StoresEvent where
  /-- The power is switched on. -/
  | powerOn (s : MacStart)
  /-- The power is cut after `n` flash writes of an operation, and switched on again. -/
  | powerCut (op : SdpStore.Op) (n : ℕ) (s : MacStart)
  /-- A device is paired. -/
  | add (a : PeerAddr)
  /-- A device is unpaired. -/
  | deleteByAdr (a : PeerAddr)
  /-- All devices are unpaired. -/
  | deleteAll
  /-- Handles are stored, looked for or deleted. -/
  | sdp (op : SdpStore.Op)

namespace Stores

/-- The pairing table, on a flash. -/
def pairOf (L : Layout) (f : Flash) (v : ℤ × List (ℕ × MacAddr)) : CustomPair :=
  ⟨L.sectors.smpStorage, L.pairing_le, f, v.1, v.2⟩

/-- The central before its first start. -/
def off (f : Flash) : Stores := ⟨f, none, some (0, [])⟩

variable (core : McuCore) (L : Layout)

/-- A start: the addresses, and then the pairing table, which is empty before. -/
def powerOn (c : Stores) (s : MacStart) : Stores :=
  let r := blcInitMacAddress core L.sectors.macAddress L.sectors.macAddress s c.flash
  match (pairOf L r.1 (0, [])).reboot with
  | some p => ⟨p.flash, r.2, some (p.cfgIdx, p.tbl)⟩
  | none => ⟨r.1, r.2, none⟩

/-- An event of the pairing table. -/
def onPairing (c : Stores) (e : CustomPair.Event) : Stores :=
  match c.pairing.bind fun v => (pairOf L c.flash v).handle e with
  | some p => { c with flash := p.flash, pairing := some (p.cfgIdx, p.tbl) }
  | none => { c with pairing := none }

/-- An event of the handles. -/
def onHandles (c : Stores) (e : SdpStore.Event) : Stores :=
  match c.pairing with
  | some _ => { c with flash := SdpStore.step L.sectors.simpleSdpAtt c.flash e }
  | none => c

/-- What an event does. -/
def step (c : Stores) : StoresEvent → Stores
  | .powerOn s => c.powerOn core L s
  | .powerCut op n s => (c.onHandles L (.cut op n)).powerOn core L s
  | .add a => c.onPairing L (.add a)
  | .deleteByAdr a => c.onPairing L (.deleteByAdr a)
  | .deleteAll => c.onPairing L .deleteAll
  | .sdp op => c.onHandles L (.call op)

end Stores

namespace StoresEvent

/-- What an event is for the handles. -/
def handles : StoresEvent → List SdpStore.Event
  | .powerCut op n _ => [.cut op n]
  | .sdp op => [.call op]
  | _ => []

/-- What it is for the addresses. -/
def starts : StoresEvent → List MacStart
  | .powerOn s => [s]
  | .powerCut _ _ s => [s]
  | _ => []

/-- What it is for the pairing table. -/
def pairing : StoresEvent → List CustomPair.Event
  | .powerOn _ => [.reboot]
  | .powerCut _ _ _ => [.reboot]
  | .add a => [.add a]
  | .deleteByAdr a => [.deleteByAdr a]
  | .deleteAll => [.deleteAll]
  | .sdp _ => []

end StoresEvent

namespace Stores

/-! ### The three that share the flash -/

/-- What is kept in the flash. -/
inductive Keeper where
  /-- The device addresses. -/
  | addresses
  /-- The paired devices. -/
  | pairing
  /-- The attribute handles. -/
  | handles
  deriving DecidableEq

/-- What is in RAM. -/
def Keeper.State : Keeper → Type
  | .addresses => Option MacAddresses
  | .pairing => Option (ℤ × List (ℕ × MacAddr))
  | .handles => Unit

/-- What happens to it. -/
def Keeper.Input : Keeper → Type
  | .addresses => MacStart
  | .pairing => CustomPair.Event
  | .handles => SdpStore.Event

/-- The addresses. -/
def addressSharer (core : McuCore) (L : Layout) :
    Sharer ℕ UInt8 (Option MacAddresses) MacStart where
  area := Set.Ico L.sectors.macAddress (L.sectors.macAddress + 8)
  step := fun s i =>
    let r := blcInitMacAddress core L.sectors.macAddress L.sectors.macAddress i s.2
    (r.2, r.1)

/-- The pairing table. -/
def pairingSharer (L : Layout) :
    Sharer ℕ UInt8 (Option (ℤ × List (ℕ × MacAddr))) CustomPair.Event where
  area := Set.Ico L.sectors.smpStorage (L.sectors.smpStorage + FLASH_CUSTOM_PAIRING_MAX_SIZE)
  step := fun s e =>
    match s.1.bind fun v => (pairOf L s.2 v).handle e with
    | some p => (some (p.cfgIdx, p.tbl), p.flash)
    | none => (none, s.2)

/-- The handles. -/
def handleSharer (L : Layout) : Sharer ℕ UInt8 Unit SdpStore.Event where
  area := Set.Ico L.sectors.simpleSdpAtt (L.sectors.simpleSdpAtt + FLASH_SDP_ATT_MAX_SIZE)
  step := fun s e => ((), SdpStore.step L.sectors.simpleSdpAtt s.2 e)

/-- Each of the three. -/
def sharer (core : McuCore) (L : Layout) : ∀ k : Keeper, Sharer ℕ UInt8 k.State k.Input
  | .addresses => addressSharer core L
  | .pairing => pairingSharer L
  | .handles => handleSharer L

/-- The state of the three. -/
def joint (c : Stores) : (∀ k : Keeper, k.State) × Flash :=
  (fun
    | .addresses => c.addresses
    | .pairing => c.pairing
    | .handles => (), c.flash)

/-- What an event is for the three, in the order it comes to them. -/
def inputs (e : StoresEvent) : List (Σ k : Keeper, k.Input) :=
  e.handles.map (fun i => ⟨.handles, i⟩) ++ e.starts.map (fun i => ⟨.addresses, i⟩) ++
    e.pairing.map fun i => ⟨.pairing, i⟩

variable {core : McuCore} {L : Layout} {f : Flash}

theorem joint_ext {s t : (∀ k : Keeper, k.State) × Flash} (haddr : s.1 .addresses = t.1 .addresses)
    (hpair : s.1 .pairing = t.1 .pairing) (hflash : s.2 = t.2) : s = t := by
  refine Prod.ext (funext fun k => ?_) hflash
  cases k with
  | addresses => exact haddr
  | pairing => exact hpair
  | handles => rfl

/-- The central before a start: the addresses are set, and then the table is read. -/
theorem joint_powerOn {c : Stores} (halive : c.pairing.isSome) (s : MacStart) :
    joint (c.powerOn core L s) = Shared.step (sharer core L)
      (Shared.step (sharer core L) (joint c) ⟨.addresses, s⟩) ⟨.pairing, .reboot⟩ := by
  obtain ⟨v, hv⟩ := Option.isSome_iff_exists.mp halive
  set r := blcInitMacAddress core L.sectors.macAddress L.sectors.macAddress s c.flash with hr
  have hreboot : (pairOf L r.1 v).reboot = (pairOf L r.1 (0, [])).reboot :=
    CustomPair.reboot_ram (pairOf L r.1 (0, [])) v.1 v.2
  have hstep : Shared.step (sharer core L)
      (Shared.step (sharer core L) (joint c) ⟨.addresses, s⟩) ⟨.pairing, .reboot⟩ =
      (Function.update (Function.update (joint c).1 .addresses r.2) .pairing
        ((pairingSharer L).step (some v, r.1) .reboot).1,
        ((pairingSharer L).step (some v, r.1) .reboot).2) := by
    rw [← hv]
    rfl
  have hpairing : (pairingSharer L).step (some v, r.1) .reboot =
      match (pairOf L r.1 (0, [])).reboot with
      | some p => (some (p.cfgIdx, p.tbl), p.flash)
      | none => (none, r.1) := by
    rw [← hreboot]
    rfl
  rw [hstep, hpairing]
  unfold powerOn
  simp only [← hr]
  cases (pairOf L r.1 (0, [])).reboot with
  | none => exact joint_ext rfl rfl rfl
  | some p => exact joint_ext rfl rfl rfl

theorem joint_onPairing (c : Stores) (e : CustomPair.Event) :
    joint (c.onPairing L e) = Shared.step (sharer core L) (joint c) ⟨.pairing, e⟩ := by
  have hstep : Shared.step (sharer core L) (joint c) ⟨.pairing, e⟩ =
      (Function.update (joint c).1 .pairing ((pairingSharer L).step (c.pairing, c.flash) e).1,
        ((pairingSharer L).step (c.pairing, c.flash) e).2) := rfl
  rw [hstep]
  unfold onPairing pairingSharer
  dsimp only
  cases c.pairing.bind fun v => (pairOf L c.flash v).handle e with
  | none => exact joint_ext rfl rfl rfl
  | some p => exact joint_ext rfl rfl rfl

theorem joint_onHandles {c : Stores} (halive : c.pairing.isSome) (e : SdpStore.Event) :
    joint (c.onHandles L e) = Shared.step (sharer core L) (joint c) ⟨.handles, e⟩ := by
  obtain ⟨v, hv⟩ := Option.isSome_iff_exists.mp halive
  unfold onHandles
  rw [hv]
  exact joint_ext rfl hv.symm rfl

/-- **A step** is what it is for the three, one after the other. -/
theorem joint_step {c : Stores} (halive : c.pairing.isSome) (e : StoresEvent) :
    joint (c.step core L e) = (inputs e).foldl (Shared.step (sharer core L)) (joint c) := by
  cases e with
  | powerOn s => exact joint_powerOn halive s
  | powerCut op n s =>
    have halive' : (c.onHandles L (.cut op n)).pairing.isSome := by
      unfold onHandles
      split
      · exact halive
      · exact halive
    refine (joint_powerOn halive' s).trans ?_
    exact congrArg (fun t => Shared.step (sharer core L)
      (Shared.step (sharer core L) t ⟨.addresses, s⟩) ⟨.pairing, .reboot⟩)
      (joint_onHandles halive (.cut op n))
  | add a => exact joint_onPairing c (.add a)
  | deleteByAdr a => exact joint_onPairing c (.deleteByAdr a)
  | deleteAll => exact joint_onPairing c .deleteAll
  | sdp op => exact joint_onHandles halive (.call op)

/-- What a run is for one of the three. -/
theorem inputs_run (run : List StoresEvent) :
    Shared.inputs .addresses (run.flatMap inputs) = run.flatMap StoresEvent.starts ∧
      Shared.inputs .pairing (run.flatMap inputs) = run.flatMap StoresEvent.pairing ∧
      Shared.inputs .handles (run.flatMap inputs) = run.flatMap StoresEvent.handles := by
  rw [Shared.inputs_flatMap, Shared.inputs_flatMap, Shared.inputs_flatMap]
  refine ⟨?_, ?_, ?_⟩
  · exact congrArg (run.flatMap ·) (funext fun e => by cases e <;> rfl)
  · exact congrArg (run.flatMap ·) (funext fun e => by cases e <;> rfl)
  · exact congrArg (run.flatMap ·) (funext fun e => by cases e <;> rfl)

end Stores

end TcBle.Vendor
