import TcBle.Foundation.FlashLog
import TcBle.Vendor.SdpStore

/-!
# The custom pairing table

`custom_pair.c` keeps the paired peripherals in a table of at most four and, for the next start, in
a log in flash. A new device goes behind the last record of the log, and pushes the oldest one out
of a full table; a device that is deleted is marked so in the log. The log is erased and written
anew when it is half full, which is looked at only while the table is read back at the start.

## The model

The entries of the table that are in use are a list. The index of the last record, an `int` in the
source, is an integer that is wrapped around; an index is added to the sector's address as a `u32`.
The endless loop of the initialisation is `none`.
-/

namespace TcBle.Vendor

open TcBle.Foundation

/-- `USER_PAIR_ACL_PERIPHR_MAX_NUM`. -/
def USER_PAIR_ACL_PERIPHR_MAX_NUM : ℕ := 4

/-- `FLASH_CUSTOM_PAIRING_MAX_SIZE`. -/
def FLASH_CUSTOM_PAIRING_MAX_SIZE : ℕ := 4096

/-- `ADR_BOND_MARK`. -/
def ADR_BOND_MARK : UInt8 := 0x5A

/-- `ADR_ERASE_MARK`. -/
def ADR_ERASE_MARK : UInt8 := 0x00

/-- `macAddr_t`. -/
structure MacAddr where
  /-- `bond_mark`. -/
  bondMark : UInt8
  /-- `adr_type` and `address`. -/
  peer : PeerAddr
  deriving DecidableEq

/-- The bytes of a `macAddr_t`. -/
def MacAddr.bytes (d : MacAddr) : List UInt8 := d.bondMark :: d.peer.bytes

/-- The `macAddr_t` at an address. -/
def readMacAddr (f : Flash) (addr : ℕ) : MacAddr :=
    ⟨f addr, ⟨f (addr + 1), fun i => f (addr + 2 + i)⟩⟩

/-- An `int`. -/
def wrapInt (x : ℤ) : ℤ := x.bmod (2 ^ 32)

/-- An `int` that is converted to a `u32`. -/
def toU32 (x : ℤ) : ℕ := (x % 2 ^ 32).toNat

/-- The flash, and what the module keeps of it. -/
structure CustomPair where
  /-- `flash_sector_custom_pairing`. -/
  sector : ℕ
  /-- It is an address of the flash. -/
  sector_le : sector + FLASH_CUSTOM_PAIRING_MAX_SIZE ≤ 2 ^ 24
  /-- The flash. -/
  flash : Flash
  /-- `user_bond_slave_flash_cfg_idx`: where in the sector the last record is. -/
  cfgIdx : ℤ
  /-- `bond_flash_idx` and `bond_device` of the `curNum` entries of `user_tbl_slaveMac`. -/
  tbl : List (ℕ × MacAddr)

namespace CustomPair

/-- The flash address `flash_sector_custom_pairing + idx`. -/
def addr (s : CustomPair) (idx : ℕ) : ℕ := (s.sector + idx) % 2 ^ 32

/-- A record is marked as deleted. -/
def markErased (idx : ℕ) (s : CustomPair) : CustomPair :=
  { s with flash := s.flash.program (s.addr idx) [ADR_ERASE_MARK] }

/-- `user_tbl_slave_mac_delete_by_index`, for an entry in use: the record is marked, and the entries
after it move up. -/
def userTblSlaveMacDeleteByIndex (index : ℕ) (s : CustomPair) : CustomPair :=
  match s.tbl[index]? with
  | some e => { s.markErased e.1 with tbl := s.tbl.eraseIdx index }
  | none => s

/-- A device is written to the log at `cfgIdx`, and gets the next entry. -/
def addRecord (d : MacAddr) (s : CustomPair) : CustomPair :=
  { s with
    flash := s.flash.program (s.addr (toU32 s.cfgIdx)) d.bytes
    tbl := s.tbl ++ [(toU32 s.cfgIdx, d)] }

/-- `user_tbl_slave_mac_add`, and what it returns. -/
def userTblSlaveMacAdd (a : PeerAddr) (s : CustomPair) : CustomPair × ℕ :=
  let s := if s.tbl.length ≥ USER_PAIR_ACL_PERIPHR_MAX_NUM then s.userTblSlaveMacDeleteByIndex 0
    else s
  let s := { s with cfgIdx := wrapInt (s.cfgIdx + 8) }
  if s.cfgIdx ≥ (FLASH_CUSTOM_PAIRING_MAX_SIZE : ℤ) then (s, 0)
    else (s.addRecord ⟨ADR_BOND_MARK, a⟩, 1)

/-- `user_tbl_slave_mac_delete_by_adr`, and what it returns. -/
def userTblSlaveMacDeleteByAdr (a : PeerAddr) (s : CustomPair) : CustomPair × ℕ :=
  match s.tbl.findIdx? fun e => e.2.peer = a with
  | some i => (s.userTblSlaveMacDeleteByIndex i, 1)
  | none => (s, 0)

/-- `user_tbl_slave_mac_delete_all`. -/
def userTblSlaveMacDeleteAll (s : CustomPair) : CustomPair :=
  { s with
    flash := s.tbl.foldl (fun f e => f.program (s.addr e.1) [ADR_ERASE_MARK]) s.flash
    tbl := [] }

/-- `user_bond_slave_flash_clean`: the sector is erased and the table written to its start. -/
def userBondSlaveFlashClean (s : CustomPair) : CustomPair :=
  if s.cfgIdx < (FLASH_CUSTOM_PAIRING_MAX_SIZE / 2 : ℕ) then s
  else
    s.tbl.foldl (fun s e => { s with cfgIdx := wrapInt (s.cfgIdx + 8) }.addRecord e.2)
      { s with
        flash := s.flash.erase s.sector FLASH_CUSTOM_PAIRING_MAX_SIZE
        cfgIdx := -8
        tbl := [] }

/-- The loop of the initialisation over the `n` records from `idx` on. -/
def initLoop (s : CustomPair) : ℕ → ℕ → List (ℕ × MacAddr) → Option (ℕ × List (ℕ × MacAddr))
  | 0, idx, tbl => some (idx, tbl)
  | n + 1, idx, tbl =>
    if s.flash (s.addr idx) = ADR_BOND_MARK then
      if tbl.length < USER_PAIR_ACL_PERIPHR_MAX_NUM then
        initLoop s n (idx + 8) (tbl ++ [(idx, readMacAddr s.flash (s.addr idx))])
      else none
    else if s.flash (s.addr idx) = 0xff then some (idx, tbl)
    else initLoop s n (idx + 8) tbl

/-- `user_master_host_pairing_flash_init`. -/
def userMasterHostPairingFlashInit (s : CustomPair) : Option CustomPair :=
  (s.initLoop (4096 / 8) 0 s.tbl).map fun r =>
  { s with cfgIdx := r.1 - 8, tbl := r.2 }.userBondSlaveFlashClean

/-- A reboot: the table is empty when the initialisation starts. -/
def reboot (s : CustomPair) : Option CustomPair :=
    { s with tbl := [] }.userMasterHostPairingFlashInit

/-! ### Runs -/

/-- What happens to the table. -/
inductive Event where
  /-- A device is added. -/
  | add (a : PeerAddr)
  /-- A device is deleted. -/
  | deleteByAdr (a : PeerAddr)
  /-- All devices are deleted. -/
  | deleteAll
  /-- The sector is cleaned. -/
  | clean
  /-- A reboot. -/
  | reboot

/-- What an event does. -/
def handle (s : CustomPair) : Event → Option CustomPair
  | .add a => some (s.userTblSlaveMacAdd a).1
  | .deleteByAdr a => some (s.userTblSlaveMacDeleteByAdr a).1
  | .deleteAll => some s.userTblSlaveMacDeleteAll
  | .clean => some s.userBondSlaveFlashClean
  | .reboot => s.reboot

/-- One step; a module in its endless loop stays there. -/
def step (s : Option CustomPair) (e : Event) : Option CustomPair := s.bind fun s => s.handle e

end CustomPair

end TcBle.Vendor
