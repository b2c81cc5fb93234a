import TcBle.Foundation.Segments
import TcBle.HciTransport.Common

/-!
# The OTA client

`app_ota_client.c`: a central sends a firmware image from its flash to a peripheral, in data PDUs
of `OTA_PDU_LENGTH` bytes with an index each, and ends with a command that tells the last index.

## The model

The state machine of `app_proc_ota_update`, one step each time it is called. What the library's
functions answer comes with the call. `sent` are the write commands of the update that runs; `crc16`
is in the library, and a parameter. The image does not change while it is sent. LEDs and logs are
left out, and with them what `app_ota_set_result` is called with.
-/

namespace TcBle.Vendor

open TcBle.HciTransport TcBle.Foundation.Segments

/-- The configuration. -/
structure OtaConfig where
  /-- A PDU has `16 * n` bytes. -/
  n : ℕ
  /-- They are at least 16. -/
  one_le : 1 ≤ n
  /-- They are at most 240. -/
  le_fifteen : n ≤ 15
  /-- `MCU_CORE_TYPE == MCU_CORE_9518`. -/
  core9518 : Bool
  /-- `OTA_LEGACY_PROTOCOL`. -/
  legacyProtocol : Bool
  /-- `OTA_FW_VERSION_EXCHANGE_ENABLE`. -/
  versionExchange : Bool
  /-- `OTA_FW_VERSION_COMPARE_ENABLE`. -/
  versionCompare : Bool
  /-- `ACL_MASTER_TX_FIFO_NUM`. -/
  aclMasterTxFifoNum : ℕ
  /-- It is at least 8. -/
  eight_le : 8 ≤ aclMasterTxFifoNum
  /-- `crc16`. -/
  crc16 : List UInt8 → UInt16

namespace OtaConfig

/-- `OTA_PDU_LENGTH`. -/
def otaPduLength (c : OtaConfig) : ℕ := 16 * c.n

/-- `FW_SIZE_MIN`. -/
def fwSizeMin : ℕ := 0x04000

/-- `FW_SIZE_MAX`. -/
def fwSizeMax (c : OtaConfig) : ℕ := if c.core9518 then 0x7F000 else 0x20000

end OtaConfig

/-- `OTA_TIMEOUT_S`. -/
def otaTimeoutS : ℕ := 100

/-- The steps of an update. -/
inductive OtaFlow where
  /-- `OTA_STEP_0_IDLE`. -/
  | idle
  /-- `OTA_STEP_1_CHECK_FW`. -/
  | checkFw
  /-- `OTA_STEP_2_UPDATE_CONN`. -/
  | updateConn
  /-- `OTA_STEP_3_REQ_OTA_HANDLE`. -/
  | reqOtaHandle
  /-- `OTA_STEP_4_WAIT_OTA_HANDLE`. -/
  | waitOtaHandle
  /-- `OTA_STEP_5_REQ_FW_VERSION`. -/
  | reqFwVersion
  /-- `OTA_STEP_6_WAIT_FW_VERSION`. -/
  | waitFwVersion
  /-- `OTA_STEP_7_OTA_START`. -/
  | otaStart
  /-- `OTA_STEP_8_OTA_DATA`. -/
  | otaData
  /-- `OTA_STEP_9_OTA_END`. -/
  | otaEnd
  /-- `OTA_STEP_10_WAIT_OTA_RESULT`. -/
  | waitOtaResult
  deriving DecidableEq

/-- A data PDU. -/
structure OtaPdu where
  /-- `adr_index`. -/
  adrIndex : UInt16
  /-- The data part. -/
  data : List UInt8
  /-- The check of both. -/
  crc16 : UInt16
  deriving DecidableEq

/-- A data PDU, with its check. -/
def OtaConfig.otaPdu (c : OtaConfig) (adrIndex : UInt16) (data : List UInt8) : OtaPdu :=
  ⟨adrIndex, data, c.crc16 ([adrIndex.toUInt8, (adrIndex >>> 8).toUInt8] ++ data)⟩

/-- A write command to the peer's OTA attribute. -/
inductive OtaCmd where
  /-- `CMD_OTA_FW_VERSION_REQ`. -/
  | fwVersionReq (versionNum : UInt16) (versionCompare : Bool)
  /-- `CMD_OTA_START`. -/
  | start
  /-- `CMD_OTA_START_EXT`. -/
  | startExt (pduLength : ℕ) (versionCompare : Bool)
  /-- A data PDU. -/
  | data (pdu : OtaPdu)
  /-- `CMD_OTA_END`. -/
  | stop (adrIndexMax adrIndexMaxXor : UInt16)
  deriving DecidableEq

/-- `ota_client_t`, and what was sent. -/
structure OtaClient where
  /-- `ota_update_flow`. -/
  otaUpdateFlow : OtaFlow
  /-- `version_compare`. -/
  versionCompare : Bool
  /-- `last_valid_pdu_len`. -/
  lastValidPduLen : UInt8
  /-- `ota_attHandle`. -/
  otaAttHandle : UInt16
  /-- `ota_connHandle`. -/
  otaConnHandle : UInt16
  /-- `cur_adr_index`. -/
  curAdrIndex : UInt16
  /-- `last_adr_index`. -/
  lastAdrIndex : UInt16
  /-- `new_fw_version_num`. -/
  newFwVersionNum : UInt16
  /-- `ota_new_fw_addr`. -/
  otaNewFwAddr : UInt32
  /-- `firmware_size`. -/
  firmwareSize : UInt32
  /-- `ota_start_tick`. -/
  otaStartTick : UInt32
  /-- `wait_result_begin_tick`. -/
  waitResultBeginTick : UInt32
  /-- The static `push_ota_data_tick`. -/
  pushOtaDataTick : UInt32
  /-- What was sent in the update that runs. -/
  sent : List OtaCmd

/-- What a call of `app_proc_ota_update` finds. -/
structure OtaPoll where
  /-- `clock_time()`. -/
  now : UInt32
  /-- `blc_ll_updateConnection` succeeds. -/
  updateConnection : Bool
  /-- `blc_gatt_pushReadByTypeRequest` succeeds. -/
  pushReadByTypeRequest : Bool
  /-- `blc_gatt_pushWriteCommand` succeeds. -/
  pushWriteCommand : Bool
  /-- `blc_ll_getTxFifoNumber`. -/
  txFifoNumber : ℕ

namespace OtaClient

/-- `flash_read_page`. -/
def flashReadPage (flash : UInt32 → UInt8) (addr : UInt32) (len : ℕ) : List UInt8 :=
  window (fun i => flash (addr + UInt32.ofNat i)) 0 len

/-- The size of the image at `addr`, which the image tells. -/
def sizeAt (flash : UInt32 → UInt8) (addr : UInt32) : UInt32 :=
  UInt32.ofNat (u32At fun i => flash (addr + 0x00018 + UInt32.ofNat i))

section

variable (c : OtaConfig) (flash : UInt32 → UInt8)

/-- `app_updateOtaFlow`. -/
def appUpdateOtaFlow (flow : OtaFlow) (s : OtaClient) : OtaClient :=
  { s with otaUpdateFlow := flow }

/-- `app_ota_reset`. -/
def appOtaReset (s : OtaClient) : OtaClient :=
  { s.appUpdateOtaFlow .idle with otaStartTick := 0, otaNewFwAddr := 0, otaConnHandle := 0,
                                  curAdrIndex := 0, sent := [] }

/-- `app_ota_set_result`. -/
def appOtaSetResult (s : OtaClient) : OtaClient := s.appOtaReset

/-- `app_key_trigger_ota_start`. -/
def appKeyTriggerOtaStart (newFwAddr : UInt32) (connHandle : UInt16) (s : OtaClient) : OtaClient :=
  if s.otaUpdateFlow = .idle then
    { s with otaNewFwAddr := newFwAddr, otaConnHandle := connHandle }.appUpdateOtaFlow .checkFw
  else s

/-- `app_ota_process_read_by_type_response`. -/
def appOtaProcessReadByTypeResponse (handle : UInt16) (s : OtaClient) : OtaClient :=
  if s.otaUpdateFlow = .waitOtaHandle then
    { s with otaAttHandle := handle }.appUpdateOtaFlow .reqFwVersion
  else s

/-- `app_ota_process_handle_value_notify` with `CMD_OTA_FW_VERSION_RSP`. -/
def processVersionRsp (handle : UInt16) (versionAccept : Bool) (s : OtaClient) : OtaClient :=
  if c.legacyProtocol then s
  else if s.otaUpdateFlow ≠ .idle ∧ handle = s.otaAttHandle then
    if s.otaUpdateFlow = .waitFwVersion then
      if s.versionCompare && !versionAccept then s.appOtaSetResult
      else s.appUpdateOtaFlow .otaStart
    else s
  else s

/-- `app_ota_process_handle_value_notify` with `CMD_OTA_RESULT`. -/
def processOtaResult (handle : UInt16) (s : OtaClient) : OtaClient :=
  if c.legacyProtocol then s
  else if s.otaUpdateFlow ≠ .idle ∧ handle = s.otaAttHandle then
    if s.otaUpdateFlow = .waitOtaResult then s.appOtaSetResult else s
  else s

/-- `app_process_ota_connection_terminate`. -/
def appProcessOtaConnectionTerminate (connHandle : UInt16) (s : OtaClient) : OtaClient :=
  if connHandle = s.otaConnHandle then
    if s.otaUpdateFlow ≠ .idle then s.appOtaSetResult else s
  else s

/-- A write command that was pushed. -/
def push (cmd : OtaCmd) (s : OtaClient) : OtaClient := { s with sent := s.sent ++ [cmd] }

/-- `OTA_STEP_1_CHECK_FW`. -/
def checkFw (s : OtaClient) : OtaClient :=
  let s := { s with firmwareSize := sizeAt flash s.otaNewFwAddr, newFwVersionNum := 1 }
  let size := s.firmwareSize.toNat
  if size < OtaConfig.fwSizeMin ∨ c.fwSizeMax < size then s.appOtaSetResult
  else
    let s := { s with lastAdrIndex := UInt16.ofNat (size / c.otaPduLength)
                      lastValidPduLen := UInt8.ofNat (size % c.otaPduLength) }
    let s := if s.lastValidPduLen = 0 then
      { s with lastValidPduLen := UInt8.ofNat c.otaPduLength } else s
    s.appUpdateOtaFlow .updateConn

/-- `OTA_STEP_5_REQ_FW_VERSION`. -/
def reqFwVersion (p : OtaPoll) (s : OtaClient) : OtaClient :=
  if c.versionExchange && !c.legacyProtocol then
    let s := { s with versionCompare := c.versionCompare }
    if p.pushWriteCommand then
      (s.push (.fwVersionReq s.newFwVersionNum c.versionCompare)).appUpdateOtaFlow .waitFwVersion
    else s
  else s.appUpdateOtaFlow .otaStart

/-- `OTA_STEP_7_OTA_START`. -/
def otaStart (p : OtaPoll) (s : OtaClient) : OtaClient :=
  if p.pushWriteCommand then
    { (s.push (if c.legacyProtocol then .start
      else .startExt c.otaPduLength c.versionCompare)).appUpdateOtaFlow .otaData with
        otaStartTick := p.now ||| 1 }
  else s

/-- The data part of the PDU that is next. -/
def pduData (s : OtaClient) : List UInt8 :=
  let addr := s.otaNewFwAddr + UInt32.ofNat (s.curAdrIndex.toNat * c.otaPduLength)
  if s.curAdrIndex = s.lastAdrIndex then
    let align16MakeupLen := 16 - (s.lastValidPduLen &&& 15).toNat
    flashReadPage flash addr s.lastValidPduLen.toNat ++ List.replicate align16MakeupLen 0xFF
  else flashReadPage flash addr c.otaPduLength

/-- `OTA_STEP_8_OTA_DATA`. -/
def otaData (p : OtaPoll) (s : OtaClient) : OtaClient :=
  if !clockTimeExceed p.now s.otaStartTick 50000 then s
  else if !clockTimeExceed p.now s.pushOtaDataTick 500 then s
  else
    let s := { s with pushOtaDataTick := p.now }
    if (c.aclMasterTxFifoNum : ℤ) - 4 ≤ p.txFifoNumber then s
    else if s.curAdrIndex ≤ s.lastAdrIndex then
      if p.pushWriteCommand then
        { s.push (.data (c.otaPdu s.curAdrIndex (s.pduData c flash))) with
            curAdrIndex := s.curAdrIndex + 1 }
      else s
    else s.appUpdateOtaFlow .otaEnd

/-- `OTA_STEP_9_OTA_END`. -/
def otaEnd (p : OtaPoll) (s : OtaClient) : OtaClient :=
  if p.pushWriteCommand then
    let s := (s.push (.stop s.lastAdrIndex (s.lastAdrIndex ^^^ 0xFFFF))).appUpdateOtaFlow
      .waitOtaResult
    { s with waitResultBeginTick := p.now ||| 1 }
  else s

/-- `OTA_STEP_10_WAIT_OTA_RESULT`. -/
def waitOtaResult (p : OtaPoll) (s : OtaClient) : OtaClient :=
  if c.legacyProtocol then
    if p.txFifoNumber = 0 then s.appOtaSetResult
    else if s.waitResultBeginTick ≠ 0 ∧
        clockTimeExceed p.now s.waitResultBeginTick 3000000 then s.appOtaSetResult
    else s
  else s

/-- `app_proc_ota_update` without its timeout. -/
def procOtaFlow (p : OtaPoll) (s : OtaClient) : OtaClient :=
  match s.otaUpdateFlow with
  | .checkFw => s.checkFw c flash
  | .updateConn => if p.updateConnection then s.appUpdateOtaFlow .reqOtaHandle else s
  | .reqOtaHandle => if p.pushReadByTypeRequest then s.appUpdateOtaFlow .waitOtaHandle else s
  | .reqFwVersion => s.reqFwVersion c p
  | .otaStart => s.otaStart c p
  | .otaData => s.otaData c flash p
  | .otaEnd => s.otaEnd p
  | .waitOtaResult => s.waitOtaResult c p
  | .idle | .waitOtaHandle | .waitFwVersion => s

/-- `app_proc_ota_update`. -/
def appProcOtaUpdate (p : OtaPoll) (s : OtaClient) : OtaClient :=
  if s.otaStartTick ≠ 0 ∧ clockTimeExceed p.now s.otaStartTick (otaTimeoutS * 1000000) then
    s.appOtaSetResult
  else s.procOtaFlow c flash p

/-- `app_process_ota_mainloop`. -/
def appProcessOtaMainloop (p : OtaPoll) (s : OtaClient) : OtaClient :=
  if s.otaUpdateFlow ≠ .idle then s.appProcOtaUpdate c flash p else s

/-- What can happen. -/
inductive Event where
  /-- A key starts an update. -/
  | trigger (newFwAddr : UInt32) (connHandle : UInt16)
  /-- The main loop comes around. -/
  | poll (p : OtaPoll)
  /-- The peer tells the handle of its OTA attribute. -/
  | readByTypeRsp (handle : UInt16)
  /-- The peer tells whether it takes the version. -/
  | versionRsp (handle : UInt16) (versionAccept : Bool)
  /-- The peer tells the result. -/
  | otaResult (handle : UInt16)
  /-- The connection is lost. -/
  | terminate (connHandle : UInt16)

/-- A step. -/
def step (s : OtaClient) : Event → OtaClient
  | .trigger newFwAddr connHandle => s.appKeyTriggerOtaStart newFwAddr connHandle
  | .poll p => s.appProcessOtaMainloop c flash p
  | .readByTypeRsp handle => s.appOtaProcessReadByTypeResponse handle
  | .versionRsp handle versionAccept => s.processVersionRsp c handle versionAccept
  | .otaResult handle => s.processOtaResult c handle
  | .terminate connHandle => s.appProcessOtaConnectionTerminate connHandle

/-- The client after boot. -/
def boot : OtaClient where
  otaUpdateFlow := .idle
  versionCompare := false
  lastValidPduLen := 0
  otaAttHandle := 0
  otaConnHandle := 0
  curAdrIndex := 0
  lastAdrIndex := 0
  newFwVersionNum := 0
  otaNewFwAddr := 0
  firmwareSize := 0
  otaStartTick := 0
  waitResultBeginTick := 0
  pushOtaDataTick := 0
  sent := []

/-- The client after a run. -/
def after (run : List Event) : OtaClient := run.foldl (step c flash) boot

end

/-- The data PDUs that were sent. -/
def pdus (s : OtaClient) : List OtaPdu :=
  s.sent.filterMap fun | .data pdu => some pdu | _ => none

/-- The last index that was announced. -/
def announced (s : OtaClient) : List UInt16 :=
  s.sent.filterMap fun | .stop adrIndexMax _ => some adrIndexMax | _ => none

end OtaClient

end TcBle.Vendor
