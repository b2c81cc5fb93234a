import TcBle.Foundation.SlotTable
import Mathlib.Data.Fintype.Pi
import Mathlib.Data.Int.Notation

/-!
# The table of connected devices

The table `conn_dev_list` of `device_manage.c`: the central entries come first, the peripheral ones
after them. A connection takes the first free slot of its role, a disconnection clears the slot; the
two counters `acl_conn_central_num` and `acl_conn_periphr_num` are kept beside.

The numbers of slots are those of the configuration. The reserved bytes of an entry are left out,
and so is everything of the events that the table does not keep.
-/

namespace TcBle.Vendor

open TcBle.Foundation

/-- A device address with its type. -/
structure PeerAddr where
  /-- `peer_adrType`. -/
  adrType : UInt8
  /-- `peer_addr`. -/
  addr : Fin 6 → UInt8

instance : DecidableEq PeerAddr := fun a b =>
  decidable_of_iff (a.adrType = b.adrType ∧ a.addr = b.addr)
    ⟨fun h => congrArg₂ PeerAddr.mk h.1 h.2, fun h => ⟨congrArg _ h, congrArg _ h⟩⟩

/-- The type of a random address. -/
def BLE_ADDR_RANDOM : UInt8 := 1

/-- `IS_RESOLVABLE_PRIVATE_ADDR`. -/
def PeerAddr.IsResolvablePrivate (a : PeerAddr) : Prop :=
    a.adrType = BLE_ADDR_RANDOM ∧ a.addr 5 &&& 0xC0 = 0x40

instance (a : PeerAddr) : Decidable a.IsResolvablePrivate := inferInstanceAs (Decidable (_ ∧ _))

/-- The central role. -/
def ACL_ROLE_CENTRAL : UInt8 := 0

/-- The peripheral role. -/
def ACL_ROLE_PERIPHERAL : UInt8 := 1

/-- `INVALID_CONN_IDX`: an insertion that failed. -/
def INVALID_CONN_IDX : ℕ := 0xFF

/-- `dev_char_info_t`. -/
structure DevCharInfo where
  /-- `conn_handle`. -/
  connHandle : UInt16
  /-- `conn_role`. -/
  connRole : UInt8
  /-- `conn_state`: 0 when there is no connection. -/
  connState : UInt8
  /-- `char_handle_valid`. -/
  charHandleValid : UInt8
  /-- `peer_adrType` and `peer_addr`. -/
  peer : PeerAddr
  /-- `peer_RPA`. -/
  peerRPA : UInt8
  /-- `char_handle`. -/
  charHandle : Fin 8 → UInt16
  deriving DecidableEq

namespace DevCharInfo

/-- An entry of zeros. -/
def cleared : DevCharInfo := ⟨0, 0, 0, 0, ⟨0, fun _ => 0⟩, 0, fun _ => 0⟩

/-- The entry is that of a connection. -/
def Connected (d : DevCharInfo) : Prop := d.connState ≠ 0

instance (d : DevCharInfo) : Decidable d.Connected := inferInstanceAs (Decidable (_ ≠ _))

end DevCharInfo

/-- What is used of `hci_le_connectionCompleteEvt_t` and `hci_le_enhancedConnCompleteEvt_t`. -/
structure ConnCompleteEvt where
  /-- `connHandle`. -/
  connHandle : UInt16
  /-- `role`. -/
  role : UInt8
  /-- `peerAddrType` and `peerAddr`. -/
  peer : PeerAddr

/-- The entry of a new connection. -/
def ConnCompleteEvt.entry (pConnEvt : ConnCompleteEvt) : DevCharInfo :=
  { DevCharInfo.cleared with
    connHandle := pConnEvt.connHandle
    connRole := pConnEvt.role
    connState := 1
    peer := pConnEvt.peer }

/-- The configuration. -/
structure DevConfig where
  /-- `ACL_CENTRAL_MAX_NUM`. -/
  centralMax : ℕ
  /-- `ACL_PERIPHR_MAX_NUM`. -/
  periphrMax : ℕ
  /-- An index is never `INVALID_CONN_IDX`. -/
  max_le : centralMax + periphrMax ≤ INVALID_CONN_IDX

/-- The table and its counters. -/
structure DevTable extends DevConfig where
  /-- `conn_dev_list`. -/
  connDevList : ℕ → DevCharInfo
  /-- `acl_conn_central_num`. -/
  centralNum : ℤ
  /-- `acl_conn_periphr_num`. -/
  periphrNum : ℤ

namespace DevTable

/-- `DEVICE_CHAR_INFO_MAX_NUM`. -/
def maxNum (s : DevTable) : ℕ := s.centralMax + s.periphrMax

/-- The table at the start, of zeros. -/
def init (c : DevConfig) : DevTable := ⟨c, fun _ => .cleared, 0, 0⟩

/-! ### Insertion -/

/-- The search of the three insertions: the index of the first free slot of a role, which is
counted. -/
def takeIndex (role : UInt8) (s : DevTable) : DevTable × ℕ :=
  if role = ACL_ROLE_CENTRAL then
    match firstIn (fun d : DevCharInfo => d.connState = 0) s.connDevList 0 s.centralMax with
    | some i => ({ s with centralNum := s.centralNum + 1 }, i)
    | none => (s, INVALID_CONN_IDX)
  else if role = ACL_ROLE_PERIPHERAL then
    match firstIn (fun d : DevCharInfo => d.connState =
      0) s.connDevList s.centralMax s.periphrMax with
    | some i => ({ s with periphrNum := s.periphrNum + 1 }, i)
    | none => (s, INVALID_CONN_IDX)
  else (s, INVALID_CONN_IDX)

/-- An entry is written to the slot found. -/
def insertEntry (role : UInt8) (entry : DevCharInfo) (s : DevTable) : DevTable × ℕ :=
  let (s, index) := s.takeIndex role
  if index ≠ INVALID_CONN_IDX then
    ({ s with connDevList := Function.update s.connDevList index entry }, index)
  else (s, index)

/-- `dev_char_info_insert`. -/
def devCharInfoInsert (dev : DevCharInfo) (s : DevTable) : DevTable × ℕ :=
  s.insertEntry dev.connRole { dev with connState := 1 }

/-- `dev_char_info_insert_by_conn_event`. -/
def devCharInfoInsertByConnEvent (pConnEvt : ConnCompleteEvt) (s : DevTable) : DevTable × ℕ :=
  s.insertEntry pConnEvt.role pConnEvt.entry

/-- `dev_char_info_insert_by_enhanced_conn_event`. -/
def devCharInfoInsertByEnhancedConnEvent (pConnEvt : ConnCompleteEvt) (s : DevTable) :
    DevTable × ℕ :=
  s.insertEntry pConnEvt.role pConnEvt.entry

/-! ### Deletion -/

/-- What the deletions do with the first connected entry that `p` says is the one. -/
def deleteFirst (p : DevCharInfo → Prop) [DecidablePred p] (s : DevTable) : DevTable × ℕ :=
  match firstIn (fun d => d.Connected ∧ p d) s.connDevList 0 s.maxNum with
  | some i =>
    let s := if (s.connDevList i).connRole =
      ACL_ROLE_CENTRAL then { s with centralNum := s.centralNum - 1 }
      else { s with periphrNum := s.periphrNum - 1 }
    ({ s with connDevList := Function.update s.connDevList i .cleared }, 0)
  | none => (s, 1)

/-- `dev_char_info_delete_by_connhandle`. -/
def devCharInfoDeleteByConnhandle (connhandle : UInt16) (s : DevTable) : DevTable × ℕ :=
  s.deleteFirst fun d => d.connHandle = connhandle

/-- The comparison of addresses, where a resolvable private address is not looked at yet. -/
def MacMatch (a : PeerAddr) (d : DevCharInfo) : Prop := ¬a.IsResolvablePrivate ∧ a = d.peer

instance (a : PeerAddr) (d : DevCharInfo) : Decidable (MacMatch a d) :=
    inferInstanceAs (Decidable (_ ∧ _))

/-- `dev_char_info_delete_by_peer_mac_address`. -/
def devCharInfoDeleteByPeerMacAddress (a : PeerAddr) (s : DevTable) : DevTable × ℕ :=
    s.deleteFirst (MacMatch a)

/-! ### Lookup -/

/-- The first slot of a connection with a handle. -/
def slotOfConnhandle (connhandle : UInt16) (s : DevTable) : Option ℕ :=
  firstIn (fun d : DevCharInfo => d.connHandle = connhandle ∧ d.Connected) s.connDevList 0 s.maxNum

/-- `dev_char_info_search_by_connhandle`: the slot of the entry found. -/
def devCharInfoSearchByConnhandle (connhandle : UInt16) (s : DevTable) : Option ℕ :=
    s.slotOfConnhandle connhandle

/-- `dev_char_info_search_by_peer_mac_address`, which does not look at `conn_state`. -/
def devCharInfoSearchByPeerMacAddress (a : PeerAddr) (s : DevTable) : Option ℕ :=
  firstIn (MacMatch a) s.connDevList 0 s.maxNum

/-- `dev_char_info_is_connection_state_by_conn_handle`. -/
def devCharInfoIsConnectionStateByConnHandle (connhandle : UInt16) (s : DevTable) : Bool :=
  (s.slotOfConnhandle connhandle).isSome

/-- `dev_char_get_conn_role_by_connhandle`: 2 when there is no such connection. -/
def devCharGetConnRoleByConnhandle (connhandle : UInt16) (s : DevTable) : ℕ :=
  match s.slotOfConnhandle connhandle with
  | some i => (s.connDevList i).connRole.toNat
  | none => 2

/-- `dev_char_get_conn_index_by_connhandle`. -/
def devCharGetConnIndexByConnhandle (connhandle : UInt16) (s : DevTable) : ℕ :=
  (s.slotOfConnhandle connhandle).getD INVALID_CONN_IDX

/-! ### Runs -/

/-- What happens to the table. -/
inductive Event where
  /-- `dev_char_info_insert`. -/
  | insert (dev : DevCharInfo)
  /-- A connection complete event. -/
  | connEvent (pConnEvt : ConnCompleteEvt)
  /-- An enhanced connection complete event. -/
  | enhancedConnEvent (pConnEvt : ConnCompleteEvt)
  /-- A deletion by handle. -/
  | deleteByConnhandle (connhandle : UInt16)
  /-- A deletion by address. -/
  | deleteByPeerMacAddress (a : PeerAddr)

/-- What an event does to the table, and what the function returns. -/
def handle (s : DevTable) : Event → DevTable × ℕ
  | .insert dev => s.devCharInfoInsert dev
  | .connEvent pConnEvt => s.devCharInfoInsertByConnEvent pConnEvt
  | .enhancedConnEvent pConnEvt => s.devCharInfoInsertByEnhancedConnEvent pConnEvt
  | .deleteByConnhandle connhandle => s.devCharInfoDeleteByConnhandle connhandle
  | .deleteByPeerMacAddress a => s.devCharInfoDeleteByPeerMacAddress a

/-- One step. -/
def step (s : DevTable) (e : Event) : DevTable := (s.handle e).1

end DevTable

end TcBle.Vendor
