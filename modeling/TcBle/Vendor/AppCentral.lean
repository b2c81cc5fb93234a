import TcBle.Vendor.DeviceAttHandle
import TcBle.Vendor.SdpStore
import TcBle.Foundation.Run

/-!
# The central's application

`app.c` and `app_ui.c` of the central demo, with the part of `simple_sdp.c` that starts and ends a
service discovery. The application connects to one device after the other: while one has still to
be paired or asked for its services, or is being disconnected, advertisements are passed over. The
discovery waits for its answers inside of the main loop, by running the main loop's idle part again.

## The model

One step is one run of `main_idle_loop`: the events the stack delivers in it, the button, the
unpairing, and then what its caller does, `main_loop` or the wait for an answer. What the discovery
makes of an answer is `Next`: another request, or the end with some handles. The keys and the audio
of a device, the LEDs, the log and the battery are left out.

A `World` has the controller beside: the connections, and whether one is being created. What the
controller may do is `Allowed`.
-/

namespace TcBle.Vendor

open TcBle.Foundation Run

/-- `BTN_PAIR`. -/
def BTN_PAIR : UInt8 := 0x01

/-- `BTN_UNPAIR`. -/
def BTN_UNPAIR : UInt8 := 0x02

/-- The application. -/
structure Central where
  /-- `conn_dev_list` and its counters. -/
  table : DevTable
  /-- `flash_sector_simple_sdp_att`. -/
  sector : ℕ
  /-- The flash. -/
  flash : Flash
  /-- What was done to the attribute handles in flash so far. -/
  ops : List SdpStore.Event
  /-- `central_smp_pending`. -/
  smpPending : UInt16
  /-- `central_sdp_pending`. -/
  sdpPending : UInt16
  /-- `central_disconnect_connhandle`. -/
  disconnectConnhandle : UInt16
  /-- `central_unpair_enable`. -/
  unpairEnable : UInt16
  /-- `central_pairing_enable`. -/
  pairingEnable : Bool
  /-- `cur_sdp_device`. -/
  curSdpDevice : DevCharInfo
  /-- `main_service` is `app_service_discovery`. -/
  mainService : Bool
  /-- The connection that a discovery waits for. -/
  discovering : Option UInt16
  /-- `p_att_response` has been set. -/
  attResponse : Bool
  /-- `host_att_req_busy`. -/
  attReqBusy : UInt32

/-- What the stack delivers. -/
inductive LinkEvent where
  /-- An advertisement; `bonded` is what `blc_smp_searchBondingSlaveDevice_by_PeerMacAddress` says,
  and `created` whether `blc_ll_createConnection` would succeed. -/
  | advReport (rssi : ℤ) (bonded created : Bool)
  /-- A connection complete event; `ok` is `status == BLE_SUCCESS`. -/
  | connectionComplete (ok : Bool) (pConnEvt : ConnCompleteEvt)
  /-- A disconnection. -/
  | disconnection (connHandle : UInt16)
  /-- `GAP_EVT_SMP_PAIRING_FAIL`. -/
  | pairingFail (connHandle : UInt16)
  /-- `GAP_EVT_SMP_SECURITY_PROCESS_DONE`. -/
  | securityProcessDone (connHandle : UInt16)
  /-- A packet of the attribute protocol. -/
  | attData (connHandle chanId : UInt16) (opcode : UInt8)

/-- What a discovery does when it has an answer. -/
inductive Next where
  /-- It sends another request. -/
  | request (opcode : UInt8)
  /-- It returns `BLE_SUCCESS`, with these handles. -/
  | success (charHandle : Fin 8 → UInt16)

/-- What happens in a step. -/
structure Tick where
  /-- What the stack delivers in `blc_sdk_main_loop`. -/
  events : List LinkEvent
  /-- When the buttons have changed: how many are pressed, and the first one. -/
  button : Option (ℕ × UInt8)
  /-- Whether `blc_ll_disconnect` would succeed. -/
  terminated : Bool
  /-- Whether the time for an answer is over. -/
  late : Bool
  /-- What the discovery does when it has an answer. -/
  next : Next

namespace Central

/-! ### The events -/

/-- A call of one of the functions for the attribute handles in flash. -/
def sdpCall (op : SdpStore.Op) (s : Central) : Central :=
  { s with flash := SdpStore.step s.sector s.flash (.call op), ops := s.ops ++ [.call op] }

/-- `app_le_adv_report_event_handle`: whether it calls `blc_ll_createConnection`. -/
def appLeAdvReportEventHandle (rssi : ℤ) (bonded : Bool) (s : Central) : Bool :=
  if s.smpPending ≠ 0 then false
  else if s.sdpPending ≠ 0 then false
  else if s.disconnectConnhandle ≠ 0 then false
  else
    let userManualPairing := s.pairingEnable && decide (rssi > -56)
    bonded || userManualPairing

/-- The handles that are kept in flash are those of `charHandle`. -/
def withCharHandles (charHandle : Fin 8 → UInt16) (dev : DevCharInfo) : DevCharInfo :=
  { dev with
    charHandle := fun j => if j ∈ storedHandles then charHandle j else dev.charHandle j }

/-- The part of `app_le_connection_complete_event_handle` for the discovery. -/
def needSdp (pConnEvt : ConnCompleteEvt) (s : Central) : Central :=
  let dev : DevCharInfo :=
    { DevCharInfo.cleared with connHandle := pConnEvt.connHandle, peer := pConnEvt.peer }
  match SdpStore.devCharInfoSearchPeerAttHandleByPeerMac s.sector pConnEvt.peer s.flash with
  | some (_, devAtt) =>
    let dev := withCharHandles devAtt.charHandle dev
    { s with curSdpDevice := dev, table := (s.table.devCharInfoAddPeerAttHandle dev).1 }
  | none => { s with curSdpDevice := dev, sdpPending := pConnEvt.connHandle }

/-- `app_le_connection_complete_event_handle`. -/
def appLeConnectionCompleteEventHandle (ok : Bool) (pConnEvt : ConnCompleteEvt) (s : Central) :
    Central :=
  if ok then
    let s := { s with table := (s.table.devCharInfoInsertByConnEvent pConnEvt).1 }
    if pConnEvt.role = ACL_ROLE_CENTRAL then
      needSdp pConnEvt { s with smpPending := pConnEvt.connHandle }
    else s
  else s

/-- `app_disconnect_event_handle`. -/
def appDisconnectEventHandle (connHandle : UInt16) (s : Central) : Central :=
  { s with
    smpPending := if s.smpPending = connHandle then 0 else s.smpPending
    sdpPending := if s.sdpPending = connHandle then 0 else s.sdpPending
    disconnectConnhandle :=
      if s.disconnectConnhandle = connHandle then 0 else s.disconnectConnhandle
    table := (s.table.devCharInfoDeleteByConnhandle connHandle).1 }

/-- `dev_char_get_conn_role_by_connhandle(connHandle) == ACL_ROLE_CENTRAL`. -/
def isCentral (connHandle : UInt16) (s : Central) : Bool :=
  s.table.devCharGetConnRoleByConnhandle connHandle = ACL_ROLE_CENTRAL.toNat

/-- What the two events of the pairing do to `central_smp_pending`. -/
def smpFinished (connHandle : UInt16) (s : Central) : Central :=
  if s.isCentral connHandle ∧ s.smpPending = connHandle then { s with smpPending := 0 } else s

/-- The branch `GAP_EVT_SMP_SECURITY_PROCESS_DONE` of `app_host_event_callback`. -/
def securityProcessDone (connHandle : UInt16) (s : Central) : Central :=
  let s := s.smpFinished connHandle
  if s.sdpPending = connHandle then { s with mainService := true } else s

/-- `host_att_client_handler`. -/
def hostAttClientHandler (connHandle chanId : UInt16) (opcode : UInt8) (s : Central) : Central :=
  if s.attResponse ∧ connHandle.toUInt32 &&& 7 = s.attReqBusy &&& 7 ∧ chanId = 0x04 ∧
      (opcode = 0x01 ∨ opcode.toUInt32 = s.attReqBusy >>> 16 ||| 1) then
    { s with attReqBusy := 0 }
  else s

/-- `app_gatt_data_handler`, as far as the discovery is concerned. -/
def appGattDataHandler (connHandle chanId : UInt16) (opcode : UInt8) (s : Central) : Central :=
  if s.isCentral connHandle then
    if s.sdpPending = connHandle then s.hostAttClientHandler connHandle chanId opcode else s
  else s

/-- What an event does to the application. -/
def handle (s : Central) : LinkEvent → Central
  | .advReport _ _ _ => s
  | .connectionComplete ok pConnEvt => s.appLeConnectionCompleteEventHandle ok pConnEvt
  | .disconnection connHandle => s.appDisconnectEventHandle connHandle
  | .pairingFail connHandle => s.smpFinished connHandle
  | .securityProcessDone connHandle => s.securityProcessDone connHandle
  | .attData connHandle chanId opcode => s.appGattDataHandler connHandle chanId opcode

/-! ### The button -/

/-- `proc_button`, when the buttons have changed. -/
def procButton (cnt : ℕ) (key0 : UInt8) (s : Central) : Central :=
  if cnt = 2 then s
  else if cnt = 1 then
    if key0 = BTN_PAIR then { s with pairingEnable := true }
    else if key0 = BTN_UNPAIR then
      if s.table.centralNum ≠ 0 ∧ s.disconnectConnhandle = 0 then
        { s with unpairEnable := (s.table.connDevList 0).connHandle }
      else s
    else s
  else { s with pairingEnable := false, unpairEnable := 0 }

/-- `proc_master_role_unpair`. -/
def procMasterRoleUnpair (terminated : Bool) (s : Central) : Central :=
  if s.unpairEnable ≠ 0 then
    match s.table.devCharInfoSearchByConnhandle s.unpairEnable with
    | some i =>
      if terminated then
        { s with disconnectConnhandle := s.unpairEnable, unpairEnable := 0 }.sdpCall
          (.delete (s.table.connDevList i).peer)
      else s
    | none => { s with unpairEnable := 0 }
  else s

/-- What is done in `main_idle_loop` after the events. -/
def procUi (t : Tick) (s : Central) : Central :=
  (t.button.elim s fun b => s.procButton b.1 b.2).procMasterRoleUnpair t.terminated

/-! ### The discovery -/

/-- `host_att_service_wait_event`, up to its loop. -/
def hostAttServiceWaitEvent (handle : UInt16) (opcode : UInt8) (s : Central) : Central :=
  { s with
    discovering := some handle
    attResponse := true
    attReqBusy := handle.toUInt32 ||| opcode.toUInt32 <<< 16 }

/-- The end of `app_service_discovery`, and of `simple_sdp_loop`. -/
def finishService (s : Central) : Central :=
  { s with sdpPending := 0, mainService := false, discovering := none }

/-- `simple_sdp_loop`, up to the first wait of `app_service_discovery`. -/
def simpleSdpLoop (s : Central) : Central :=
  if s.mainService then
    if s.sdpPending ≠ 0 then s.hostAttServiceWaitEvent s.sdpPending 0x08 else s.finishService
  else s

/-- `app_service_discovery` when the discovery is a success. -/
def serviceFound (charHandle : Fin 8 → UInt16) (s : Central) : Central :=
  let dev := withCharHandles charHandle s.curSdpDevice
  let s := { s with
    curSdpDevice := dev
    table := (s.table.devCharInfoAddPeerAttHandle dev).1 }
  (s.sdpCall (.store dev)).finishService

/-- What the caller of `main_idle_loop` does: `main_loop`, or the loop of
`host_att_service_wait_event`. -/
def afterIdle (t : Tick) (s : Central) : Central :=
  match s.discovering with
  | none => s.simpleSdpLoop
  | some handle =>
    if t.late then s.finishService
    else if s.attReqBusy = 0 then
      match t.next with
      | .request opcode => s.hostAttServiceWaitEvent handle opcode
      | .success charHandle => s.serviceFound charHandle
    else s

end Central

/-! ### The controller beside -/

/-- How many connections of a role the table has slots for. -/
def DevTable.slotsOf (s : DevTable) (role : UInt8) : ℕ :=
  if role = ACL_ROLE_CENTRAL then s.centralMax
  else if role = ACL_ROLE_PERIPHERAL then s.periphrMax else 0

/-- Whether a connection is being created. -/
inductive Initiating where
  /-- No. -/
  | no
  /-- Since this run of `main_idle_loop`. -/
  | fresh
  /-- Since an earlier one. -/
  | earlier
  deriving DecidableEq

/-- The application and the controller. -/
structure World where
  /-- The application. -/
  app : Central
  /-- The connections. -/
  live : List ConnCompleteEvt
  /-- Whether a connection is being created. -/
  initiating : Initiating

namespace World

/-- What an event does. -/
def link (w : World) (e : LinkEvent) : World where
  app := w.app.handle e
  live :=
    match e with
    | .connectionComplete true pConnEvt => pConnEvt :: w.live
    | .disconnection connHandle => w.live.filter fun c => c.connHandle ≠ connHandle
    | _ => w.live
  initiating :=
    match e with
    | .advReport rssi bonded created =>
      if w.app.appLeAdvReportEventHandle rssi bonded ∧ created then .fresh else w.initiating
    | .connectionComplete ok pConnEvt =>
      if ok ∧ pConnEvt.role ≠ ACL_ROLE_CENTRAL then w.initiating else .no
    | _ => w.initiating

/-- **What the controller does**: it creates one connection at a time, and is not ready with it in
the run of `main_idle_loop` that has asked for it; a new connection has a handle of its own, not
zero; and there are no more connections of a role than `blc_ll_setMaxConnectionNumber` allows. -/
def Allowed (w : World) : LinkEvent → Prop
  | .advReport _ _ created => created → w.initiating = .no
  | .connectionComplete ok pConnEvt => ok →
    (pConnEvt.role = ACL_ROLE_CENTRAL → w.initiating = .earlier) ∧ pConnEvt.connHandle ≠ 0 ∧
      (∀ c ∈ w.live, c.connHandle ≠ pConnEvt.connHandle) ∧
        w.live.countP (·.role = pConnEvt.role) < w.app.table.slotsOf pConnEvt.role
  | _ => True

/-- A run of `main_idle_loop` begins. -/
def begin (w : World) : World :=
  { w with initiating := if w.initiating = .fresh then .earlier else w.initiating }

/-- One step. -/
def tick (w : World) (t : Tick) : World :=
  let w := t.events.foldl link w.begin
  { w with app := (w.app.procUi t).afterIdle t }

/-- The events of a step are such as the controller delivers. -/
def TickAllowed (w : World) (t : Tick) : Prop := Along link Allowed w.begin t.events

/-- After a reset. -/
def init (config : DevConfig) (sector : ℕ) (flash : Flash) : World where
  app :=
    { table := .init config, sector, flash, ops := [], smpPending := 0, sdpPending := 0,
      disconnectConnhandle := 0, unpairEnable := 0, pairingEnable := false,
      curSdpDevice := .cleared, mainService := false, discovering := none, attResponse := false,
      attReqBusy := 0 }
  live := []
  initiating := .no

/-- A run. -/
def run (config : DevConfig) (sector : ℕ) (flash : Flash) (ts : List Tick) : World :=
  ts.foldl tick (init config sector flash)

end World

/-! ### A run -/

/-- A step in which one thing happens. -/
def tickOf (e : LinkEvent) : Tick where
  events := [e]
  button := none
  terminated := true
  late := false
  next := .success fun _ => 0x10

/-- A peer that is bonded is found, connects, is paired, and answers. -/
def sampleTicks : List Tick :=
  [tickOf (.advReport (-40) true true),
    tickOf (.connectionComplete true ⟨0x80, ACL_ROLE_CENTRAL, ⟨0, fun _ => 1⟩⟩),
    tickOf (.securityProcessDone 0x80), tickOf (.attData 0x80 0x04 0x09)]

end TcBle.Vendor
