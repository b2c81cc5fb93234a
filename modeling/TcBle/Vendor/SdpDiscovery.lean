import TcBle.HciTransport.Common
import Mathlib.Order.Nat

/-!
# Service discovery

`host_att_discoveryService` of `simple_sdp.c` asks a peer for its characteristics, from handle 1 on
and then from the last handle the peer has told, until it gets another answer than a
`READ_BY_TYPE_RSP`. For each HID report it then asks for the report reference. An answer is copied
to the 256 bytes of `dat`, as many bytes as its own length field says.

## The model

One step of the discovery is one request: what is done until the next request, with what the stack
delivers while the request is waited for. The waiting goes round and round the main loop, and in
each round some packets are delivered; the rounds end when the time is over or the idle function
says so. What of `dat` is read and written is kept as `top`, the first offset past all of it.
-/

namespace TcBle.Vendor

open TcBle.HciTransport

/-- `ATT_OP_FIND_INFORMATION_REQ`. -/
def ATT_OP_FIND_INFORMATION_REQ : ℕ := 0x04

/-- `ATT_OP_FIND_INFO_RSP`. -/
def ATT_OP_FIND_INFO_RSP : UInt8 := 0x05

/-- `ATT_OP_READ_BY_TYPE_REQ`. -/
def ATT_OP_READ_BY_TYPE_REQ : ℕ := 0x08

/-- `ATT_OP_READ_BY_TYPE_RSP`. -/
def ATT_OP_READ_BY_TYPE_RSP : UInt8 := 0x09

/-- `ATT_OP_READ_REQ`. -/
def ATT_OP_READ_REQ : ℕ := 0x0A

/-- `ATT_OP_READ_RSP`. -/
def ATT_OP_READ_RSP : UInt8 := 0x0B

/-- `GATT_UUID_PRIMARY_SERVICE`. -/
def GATT_UUID_PRIMARY_SERVICE : ℕ := 0x2800

/-- `GATT_UUID_CHARACTER`. -/
def GATT_UUID_CHARACTER : ℕ := 0x2803

/-- `GATT_UUID_REPORT_REF`. -/
def GATT_UUID_REPORT_REF : ℕ := 0x2908

/-- `CHARACTERISTIC_UUID_HID_REPORT`. -/
def CHARACTERISTIC_UUID_HID_REPORT : ℕ := 0x2A4D

/-- A packet that the stack delivers. -/
structure AttPacket where
  /-- `connHandle`. -/
  connHandle : ℕ
  /-- The bytes it points to: `type`, `rf_len`, `l2capLen` at 2, `chanId` at 4, `opcode` at 6. -/
  p : Mem

/-- Its length field. -/
def AttPacket.l2capLen (pkt : AttPacket) : ℕ := u16At (adv pkt.p 2)

/-- The rounds of the main loop while a request is waited for, each with the packets it delivers. -/
abbrev Rounds := List (List AttPacket)

/-- `att_db_uuid16_t`. -/
structure AttDbUuid16 where
  /-- `property`. -/
  property : UInt8
  /-- `handle`. -/
  handle : ℕ
  /-- `uuid`. -/
  uuid : ℕ
  /-- `ref`. -/
  ref : ℕ

/-- `att_db_uuid128_t`. -/
structure AttDbUuid128 where
  /-- `property`. -/
  property : UInt8
  /-- `handle`. -/
  handle : ℕ
  /-- `uuid`. -/
  uuid : List UInt8

/-- The next request, if there is one. -/
inductive SdpPhase where
  /-- The characteristics. -/
  | chars
  /-- The descriptors of entry `i` of `p16`. -/
  | findInfo (i : ℕ)
  /-- The report reference of entry `i`. -/
  | readRef (i : ℕ)
  /-- `BLE_SUCCESS`. -/
  | success
  /-- `GATT_ERR_SERVICE_DISCOVERY_TIMEOUT`. -/
  | timeout
  deriving DecidableEq

/-- The discovery. -/
structure Discovery where
  /-- The connection handle. -/
  handle : ℕ
  /-- The number of entries of `p16`. -/
  n16 : ℕ
  /-- The number of entries of `p128`. -/
  n128 : ℕ
  /-- `dat`, which `p_att_response` points to. -/
  dat : Mem
  /-- The first offset past what of `dat` was read or written. -/
  top : ℕ
  /-- `host_att_req_busy`. -/
  busy : ℕ
  /-- The start handle `s`. -/
  s : ℕ
  /-- The `i16` entries of `p16`. -/
  p16 : List AttDbUuid16
  /-- The `i128` entries of `p128`. -/
  p128 : List AttDbUuid128
  /-- What comes next. -/
  phase : SdpPhase

namespace Discovery

/-- At the start; what `dat` holds is left open. -/
def init (handle n16 n128 : ℕ) (dat : Mem) : Discovery :=
    ⟨handle, n16, n128, dat, 0, 0, 1, [], [], .chars⟩

/-! ### Waiting for an answer -/

/-- The packet is taken for the answer to the request that `busy` stands for. -/
def Matches (busy : ℕ) (pkt : AttPacket) : Prop :=
  pkt.connHandle &&& 7 = busy &&& 7 ∧ u16At (adv pkt.p 4) = 4 ∧
    ((pkt.p 6).toNat = 1 ∨ (pkt.p 6).toNat = busy >>> 16 ||| 1)

instance (busy : ℕ) (pkt : AttPacket) : Decidable (Matches busy pkt) :=
    inferInstanceAs (Decidable (_ ∧ _ ∧ _))

/-- `host_att_client_handler`: the answer is copied to `dat`. -/
def hostAttClientHandler (e : Discovery) (pkt : AttPacket) : Discovery :=
  if Matches e.busy pkt then
    { e with
      dat := memcpy e.dat 0 (bytes pkt.p (pkt.l2capLen + 6))
      top := max e.top (pkt.l2capLen + 6)
      busy := 0 }
  else e

/-- The loop of `host_att_service_wait_event`; it returns whether the time is over. -/
def waitLoop : Rounds → Discovery → Discovery × Bool
  | [], e => (e, true)
  | round :: rounds, e => if e.busy = 0 then (e, false)
    else waitLoop rounds (round.foldl hostAttClientHandler e)

/-- `host_att_req_busy` for a request. -/
def reqBusy (op : ℕ) (e : Discovery) : ℕ := e.handle ||| op <<< 16

/-- A request: its opcode is written to `dat`, where `host_att_service_wait_event` finds it. -/
def request (op : ℕ) (e : Discovery) : Discovery :=
  { e with
    dat := memcpy e.dat 6 [UInt8.ofNat op]
    top := max e.top 7
    busy := e.reqBusy op }

/-- A request, and `host_att_service_wait_event`. -/
def hostAttServiceWaitEvent (op : ℕ) (rounds : Rounds) (e : Discovery) : Discovery × Bool :=
    waitLoop rounds (e.request op)

/-! ### The answers -/

/-- The answer's length field. -/
def l2capLen (e : Discovery) : ℕ := u16At (adv e.dat 2)

/-- A characteristic with a UUID of 16 bytes at offset `pd`. -/
def char128 (pd : ℕ) (e : Discovery) : Discovery :=
  let s := u16At (adv e.dat (pd + 3))
  let e := { e with s := s, top := max e.top (pd + 5) }
  if e.p128.length < e.n128 then
    { e with
      p128 := e.p128 ++ [⟨e.dat (pd + 2), s, bytes (adv e.dat (pd + 5)) 16⟩]
      top := max e.top (pd + 21) }
  else e

/-- A characteristic with a UUID of two bytes. -/
def char16 (pd : ℕ) (e : Discovery) : Discovery :=
  let s := u16At (adv e.dat (pd + 3))
  let e := { e with s := s, top := max e.top (pd + 5) }
  if e.p16.length < e.n16 then
    { e with
      p16 := e.p16 ++ [⟨e.dat (pd + 2), s, u16At (adv e.dat (pd + 5)), 0⟩]
      top := max e.top (pd + 7) }
  else e

/-- The loop over the characteristics of `size` bytes each. The source counts the length field of
the answer down, which is not looked at any more afterwards. -/
def charLoop (size : ℕ) (char : ℕ → Discovery → Discovery) (l2capLen pd : ℕ) (e : Discovery) :
    Discovery :=
  if _h : 0 < size ∧ size < l2capLen then charLoop size char (l2capLen - size) (pd + size)
    (char pd e) else e
termination_by l2capLen
decreasing_by omega

/-- What is done with a `READ_BY_TYPE_RSP`. -/
def readByTypeRsp (e : Discovery) : Discovery :=
  if e.dat 7 = 21 then charLoop 21 char128 e.l2capLen 8 e
  else if e.dat 7 = 7 then charLoop 7 char16 e.l2capLen 8 e
  else e

/-- The loop over the descriptors, which ends at the next characteristic or service, or at a report
reference. It returns whether it found one, and the first offset past what it read. -/
def findRef (dat : Mem) (n pd top : ℕ) : Bool × ℕ :=
  if h : 0 < n then
    let uuid := u16At (adv dat (pd + 2))
    if uuid = GATT_UUID_CHARACTER ∨ uuid = GATT_UUID_PRIMARY_SERVICE then (false, max top (pd + 4))
    else if uuid = GATT_UUID_REPORT_REF then (true, max top (pd + 4))
    else findRef dat (n - 4) (pd + 4) (max top (pd + 4))
  else (false, top)
termination_by n
decreasing_by omega

/-! ### The discovery -/

/-- The next entry of `p16`, from `i` on, that is a HID report. -/
def nextReport (i : ℕ) (e : Discovery) : SdpPhase :=
  match (List.range' i (e.p16.length - i)).find? fun j =>
      (e.p16[j]?.map AttDbUuid16.uuid) = some CHARACTERISTIC_UUID_HID_REPORT with
  | some j => .findInfo j
  | none => .success

/-- What follows the answer to a request for characteristics. -/
def charsAnswer (e : Discovery) : Discovery :=
  if e.dat 6 ≠ ATT_OP_READ_BY_TYPE_RSP then { e with phase := e.nextReport 0 }
  else { e with top := max e.top 8 }.readByTypeRsp

/-- What follows the answer to a request for the descriptors of entry `i`. -/
def findInfoAnswer (i : ℕ) (e : Discovery) : Discovery :=
  if e.dat 6 = ATT_OP_FIND_INFO_RSP ∧ e.dat 7 = 1 then
    let r := findRef e.dat (e.l2capLen - 2) 8 (max e.top 8)
    { e with top := r.2, phase := if r.1 then .readRef i else e.nextReport (i + 1) }
  else { e with top := max e.top 8, phase := e.nextReport (i + 1) }

/-- What follows the answer to a request for the report reference of entry `i`. -/
def readRefAnswer (i : ℕ) (e : Discovery) : Discovery :=
  if e.dat 6 = ATT_OP_READ_RSP then
    { e with
      top := max e.top 9
      p16 := e.p16.modify i fun entry => { entry with ref := u16At (adv e.dat 7) }
      phase := e.nextReport (i + 1) }
  else { e with phase := e.nextReport (i + 1) }

/-- A request, and what follows its answer, or the time-out. -/
def ask (op : ℕ) (answer : Discovery → Discovery) (rounds : Rounds) (e : Discovery) : Discovery :=
  let r := e.hostAttServiceWaitEvent op rounds
  if r.2 then { r.1 with phase := .timeout } else answer r.1

/-- One request of `host_att_discoveryService`, its answer, and what comes next. -/
def step (e : Discovery) (rounds : Rounds) : Discovery :=
  match e.phase with
  | .chars => e.ask ATT_OP_READ_BY_TYPE_REQ charsAnswer rounds
  | .findInfo i => e.ask ATT_OP_FIND_INFORMATION_REQ (findInfoAnswer i) rounds
  | .readRef i => e.ask ATT_OP_READ_REQ (readRefAnswer i) rounds
  | .success | .timeout => e

/-- The discovery has returned. -/
def Done (e : Discovery) : Prop := e.phase = .success ∨ e.phase = .timeout

end Discovery

end TcBle.Vendor
