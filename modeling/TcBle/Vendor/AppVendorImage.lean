import TcBle.Foundation.Run
import TcBle.HciTransport.Common
import TcBle.Vendor.AppEsl
import Mathlib.Logic.Function.Basic

/-!
# The commands of the vendor image

`eslp_esl_demo/vendor_image/app_vendor_image.c`: the texts, the price, the bar code and the picture
that the label shows, and the vendor-specific commands of the control point that change and read
them. The upper nibble of the first parameter byte is the category, the lower one the operation.

## The model

The memory of the module is what each of its arrays points to, so a write past the end of an array
shows in the bytes after it. `parameters` of a command is the memory it is parsed from, and the
bytes that a response writes to the buffer are listed from its first one on. Responses are written
where `rsp` is not `NULL`. A command too short to have an operation is answered by the caller in
`app_esl.c`.

## What is proved

* `find_handlers`, `find_catData` — the two tables, entry by entry.
* `handleVendorCmd_eq` — the handlers do what the command asks of one byte array per category.
* `vendorCommands_behave_iff` — the arrays of every run are those that the commands ask for, nothing
  is written outside them, and the responses are well formed as long as no read of fourteen or
  fifteen bytes is answered.
-/

namespace TcBle.Vendor

open TcBle.Foundation.Run TcBle.HciTransport

/-! ### The arrays -/

/-- The byte arrays that `cat_data` names. -/
inductive VendorArray where
  /-- `product_name`. -/
  | productName
  /-- `product_price`. -/
  | productPrice
  /-- `product_desc`. -/
  | productDesc
  /-- `bar_code`. -/
  | barCode
  /-- `bar_code_num`. -/
  | barCodeNum
  /-- `pic`. -/
  | pic
  /-- `currency_code`. -/
  | currencyCode
  /-- `product_price_major`. -/
  | productPriceMajor
  /-- `product_price_minor`. -/
  | productPriceMinor
  /-- `unit_of_measure`. -/
  | unitOfMeasure
  deriving DecidableEq

/-- `sizeof` of the array. -/
def VendorArray.size : VendorArray → ℕ
  | .productName => 24
  | .productPrice => 12
  | .productDesc => 24
  | .barCode => 24
  | .barCodeNum => 12
  | .pic => 2
  | .currencyCode => 4
  | .productPriceMajor => 5
  | .productPriceMinor => 3
  | .unitOfMeasure => 12

/-- `app_vendor_image_cmd_opcode_cat_t`. -/
inductive VendorCat where
  /-- `APP_VENDOR_IMAGE_CMD_OPCODE_CAT_PRODUCT_NAME`. -/
  | productName
  /-- `APP_VENDOR_IMAGE_CMD_OPCODE_CAT_UNIT_OF_MEASURE`. -/
  | unitOfMeasure
  /-- `APP_VENDOR_IMAGE_CMD_OPCODE_CAT_PRODUCT_DESCRIPTION`. -/
  | productDescription
  /-- `APP_VENDOR_IMAGE_CMD_OPCODE_CAT_BAR_CODE`. -/
  | barCode
  /-- `APP_VENDOR_IMAGE_CMD_OPCODE_CAT_BAR_CODE_NUM`. -/
  | barCodeNum
  /-- `APP_VENDOR_IMAGE_CMD_OPCODE_CAT_PIC`. -/
  | pic
  /-- `APP_VENDOR_IMAGE_CMD_OPCODE_CAT_PIC_DATA`. -/
  | picData
  /-- `APP_VENDOR_IMAGE_CMD_OPCODE_CAT_CURRENCY_CODE`. -/
  | currencyCode
  /-- `APP_VENDOR_IMAGE_CMD_OPCODE_CAT_PRICE_MAJOR`. -/
  | priceMajor
  /-- `APP_VENDOR_IMAGE_CMD_OPCODE_CAT_PRICE_MINOR`. -/
  | priceMinor
  /-- `APP_VENDOR_IMAGE_CMD_OPCODE_CAT_PRODUCT_PRICE`. -/
  | productPrice
  deriving DecidableEq

/-- The value of the enumerator. -/
def VendorCat.code : VendorCat → UInt8
  | .productName => 0
  | .unitOfMeasure => 1
  | .productDescription => 2
  | .barCode => 3
  | .barCodeNum => 4
  | .pic => 5
  | .picData => 6
  | .currencyCode => 7
  | .priceMajor => 8
  | .priceMinor => 9
  | .productPrice => 10

/-- `app_vendor_cat_data_t`. -/
structure AppVendorCatData where
  /-- `cat`. -/
  cat : VendorCat
  /-- The array at `data`. -/
  data : VendorArray
  /-- `dataLength`. -/
  dataLength : ℕ

/-- `cat_data`. -/
def catData : List AppVendorCatData := [
  ⟨.productName, .productName, VendorArray.size .productName - 1⟩,
  ⟨.productPrice, .productPrice, VendorArray.size .productPrice - 1⟩,
  ⟨.productDescription, .productDesc, VendorArray.size .productDesc - 1⟩,
  ⟨.barCode, .barCode, VendorArray.size .barCode⟩,
  ⟨.barCodeNum, .barCodeNum, VendorArray.size .barCodeNum - 1⟩,
  ⟨.pic, .pic, VendorArray.size .pic⟩,
  ⟨.currencyCode, .currencyCode, VendorArray.size .currencyCode - 1⟩,
  ⟨.priceMajor, .productPriceMajor, VendorArray.size .productPriceMajor - 1⟩,
  ⟨.priceMinor, .productPriceMinor, VendorArray.size .productPriceMinor - 1⟩,
  ⟨.unitOfMeasure, .unitOfMeasure, VendorArray.size .unitOfMeasure - 1⟩]

/-- The memory of the module: what each array points to. -/
abbrev VendorStore := VendorArray → Mem

/-! ### The handlers -/

/-- `OPCODE_OP`. -/
def OPCODE_OP (opcode : UInt8) : UInt8 := 0x0F &&& opcode

/-- `OPCODE_CAT`. -/
def OPCODE_CAT (opcode : UInt8) : UInt8 := (opcode &&& 0xF0) >>> 4

/-- `app_vendor_image_cmd_opcode_op_t`. -/
inductive VendorOp where
  /-- `APP_VENDOR_IMAGE_CMD_OPCODE_OP_CLEAR`. -/
  | clear
  /-- `APP_VENDOR_IMAGE_CMD_OPCODE_OP_PATCH`. -/
  | patch
  /-- `APP_VENDOR_IMAGE_CMD_OPCODE_OP_GET_LENGTH`. -/
  | getLength
  /-- `APP_VENDOR_IMAGE_CMD_OPCODE_OP_GET_DATA`. -/
  | getData
  /-- `APP_VENDOR_IMAGE_CMD_OPCODE_OP_PATCH_V2`. -/
  | patchV2
  /-- `APP_VENDOR_IMAGE_CMD_OPCODE_OP_GET_DATA_V2`. -/
  | getDataV2
  deriving DecidableEq

/-- The value of the enumerator. -/
def VendorOp.code : VendorOp → UInt8
  | .clear => 0
  | .patch => 1
  | .getLength => 2
  | .getData => 3
  | .patchV2 => 4
  | .getDataV2 => 5

/-- `APP_VENDOR_IMAGE_RSP_OPCODE`. -/
def APP_VENDOR_IMAGE_RSP_OPCODE : UInt8 := 0x00

/-- `APP_VENDOR_IMAGE_RSP_STATUS_SUCCESS`. -/
def APP_VENDOR_IMAGE_RSP_STATUS_SUCCESS : UInt8 := 0

/-- `APP_VENDOR_IMAGE_RSP_STATUS_INVALID_PARAMETERS`. -/
def APP_VENDOR_IMAGE_RSP_STATUS_INVALID_PARAMETERS : UInt8 := 1

/-- `BLC_ESLSS_VENDOR_SPECIFIC_RESPONSE_OPCODE`, as it is stored in the `u8`. -/
def vendorSpecificResponseOpcode (payloadLength : ℕ) : UInt8 :=
  UInt8.ofNat (0x0F ||| ((payloadLength - 1) <<< 4))

/-- `app_vendor_fill_response`: the bytes written to the response, which is there if `rsp`. -/
def appVendorFillResponse (rsp : Bool) (reqOpcode status : UInt8) (params : List UInt8) :
    Option (List UInt8) :=
  if rsp then
    some (vendorSpecificResponseOpcode (3 + params.length) :: APP_VENDOR_IMAGE_RSP_OPCODE ::
      reqOpcode :: status :: params)
  else none

/-- A handler of `op_handler`: the arrays after it, and what it writes to the response. -/
abbrev OpHandler := VendorStore → Mem → UInt8 → Bool → VendorStore × Option (List UInt8)

/-- The search of `cat_data` that every handler makes. -/
def findCatData (opcode : UInt8) : Option AppVendorCatData :=
  catData.find? fun d => d.cat.code = OPCODE_CAT opcode

/-- `app_vendor_image_handle_clear`. -/
def appVendorImageHandleClear : OpHandler := fun s cmd _ rsp =>
  match findCatData (cmd 0) with
  | some data =>
    (Function.update s data.data
        (memcpy (s data.data) 0 (List.replicate data.dataLength (cmd 1))),
      appVendorFillResponse rsp (cmd 0) APP_VENDOR_IMAGE_RSP_STATUS_SUCCESS [])
  | none =>
    (s, appVendorFillResponse rsp (cmd 0) APP_VENDOR_IMAGE_RSP_STATUS_INVALID_PARAMETERS [])

/-- `app_vendor_image_handle_get_length`. -/
def appVendorImageHandleGetLength : OpHandler := fun s cmd _ rsp =>
  match findCatData (cmd 0) with
  | some data =>
    (s, appVendorFillResponse rsp (cmd 0) APP_VENDOR_IMAGE_RSP_STATUS_SUCCESS
      [UInt8.ofNat data.dataLength, UInt8.ofNat (data.dataLength >>> 8)])
  | none =>
    (s, appVendorFillResponse rsp (cmd 0) APP_VENDOR_IMAGE_RSP_STATUS_INVALID_PARAMETERS [])

/-- What the two patch handlers do with the offset they read and the size of their header. -/
def handlePatchAt (offset : ℕ) (hdrLength : UInt8) : OpHandler := fun s cmd cmdLength rsp =>
  match findCatData (cmd 0) with
  | none =>
    (s, appVendorFillResponse rsp (cmd 0) APP_VENDOR_IMAGE_RSP_STATUS_INVALID_PARAMETERS [])
  | some data =>
    let patchLength := (cmdLength - hdrLength).toNat
    if data.dataLength < patchLength + offset then
      (s, appVendorFillResponse rsp (cmd 0) APP_VENDOR_IMAGE_RSP_STATUS_INVALID_PARAMETERS [])
    else
      (Function.update s data.data
          (memcpy (s data.data) offset (bytes (adv cmd hdrLength.toNat) patchLength)),
        appVendorFillResponse rsp (cmd 0) APP_VENDOR_IMAGE_RSP_STATUS_SUCCESS [])

/-- `app_vendor_image_handle_patch`. -/
def appVendorImageHandlePatch : OpHandler := fun s cmd cmdLength rsp =>
  handlePatchAt (cmd 1).toNat 2 s cmd cmdLength rsp

/-- `app_vendor_image_handle_patch_v2`. -/
def appVendorImageHandlePatchV2 : OpHandler := fun s cmd cmdLength rsp =>
  handlePatchAt (u16At (adv cmd 1)) 3 s cmd cmdLength rsp

/-- What the two read handlers do with the offset and the length they read. -/
def handleGetDataAt (offset len : ℕ) : OpHandler := fun s cmd _ rsp =>
  match findCatData (cmd 0) with
  | none =>
    (s, appVendorFillResponse rsp (cmd 0) APP_VENDOR_IMAGE_RSP_STATUS_INVALID_PARAMETERS [])
  | some data =>
    if data.dataLength < offset + len ∨ 15 < len then
      (s, appVendorFillResponse rsp (cmd 0) APP_VENDOR_IMAGE_RSP_STATUS_INVALID_PARAMETERS [])
    else
      (s, appVendorFillResponse rsp (cmd 0) APP_VENDOR_IMAGE_RSP_STATUS_SUCCESS
        (bytes (adv (s data.data) offset) len))

/-- `app_vendor_image_handle_get_data`. -/
def appVendorImageHandleGetData : OpHandler := fun s cmd cmdLength rsp =>
  handleGetDataAt (cmd 1).toNat (cmd 2).toNat s cmd cmdLength rsp

/-- `app_vendor_image_handle_get_data_v2`. -/
def appVendorImageHandleGetDataV2 : OpHandler := fun s cmd cmdLength rsp =>
  handleGetDataAt (u16At (adv cmd 1)) (cmd 3).toNat s cmd cmdLength rsp

/-- `app_vendor_op_handlers_t`. -/
structure AppVendorOpHandlers where
  /-- `opcode`. -/
  opcode : VendorOp
  /-- `handler`. -/
  handler : OpHandler
  /-- `minCmdLength`. -/
  minCmdLength : UInt8
  /-- `maxCmdLength`. -/
  maxCmdLength : UInt8

/-- `handlers`, with the sizes of the packed structures. -/
def handlers : List AppVendorOpHandlers := [
  ⟨.clear, appVendorImageHandleClear, 2, 2⟩,
  ⟨.patch, appVendorImageHandlePatch, 2, 2 + 15⟩,
  ⟨.getLength, appVendorImageHandleGetLength, 1, 1⟩,
  ⟨.getData, appVendorImageHandleGetData, 3, 3⟩,
  ⟨.getDataV2, appVendorImageHandleGetDataV2, 4, 4⟩,
  ⟨.patchV2, appVendorImageHandlePatchV2, 3, 3 + 14⟩]

/-- `blc_eslss_controlPointCommandVendorSpecific_t`. -/
structure VendorCommand where
  /-- `hdr.opcode`. -/
  opcode : UInt8
  /-- `hdr.eslId`. -/
  eslId : UInt8
  /-- The memory at `parameters`. -/
  parameters : Mem

/-- `commandLength`. -/
def VendorCommand.commandLength (c : VendorCommand) : UInt8 := (c.opcode &&& 0xF0) >>> 4

/-- `app_vendor_image_handle_vendor_cmd`, `none` where it returns `false`. -/
def appVendorImageHandleVendorCmd (s : VendorStore) (c : VendorCommand) :
    Option (VendorStore × Option (List UInt8)) :=
  let rsp : Bool := c.eslId ≠ eslIdBroadcast
  if c.commandLength < 1 then none
  else
    match handlers.find? fun h => h.opcode.code = OPCODE_OP (c.parameters 0) with
    | none =>
      some (s, appVendorFillResponse rsp (c.parameters 0)
        APP_VENDOR_IMAGE_RSP_STATUS_INVALID_PARAMETERS [])
    | some h =>
      if c.commandLength < h.minCmdLength ∨ h.maxCmdLength < c.commandLength then
        some (s, appVendorFillResponse rsp (c.parameters 0)
          APP_VENDOR_IMAGE_RSP_STATUS_INVALID_PARAMETERS [])
      else some (h.handler s c.parameters c.commandLength rsp)

/-- `BLC_ESLSS_CONTROL_POINT_RESPONSE_OPCODE_ERROR`. -/
def BLC_ESLSS_CONTROL_POINT_RESPONSE_OPCODE_ERROR : UInt8 := 0x00

/-- `BLC_ESLSS_ERROR_CODE_INVALID_OPCODE`. -/
def BLC_ESLSS_ERROR_CODE_INVALID_OPCODE : UInt8 := 0x02

/-- The vendor-specific case of `app_esl_handleControlPointCmds`: the arrays after it, and what was
written to the response. -/
def handleVendorSpecific (s : VendorStore) (c : VendorCommand) :
    VendorStore × Option (List UInt8) :=
  (appVendorImageHandleVendorCmd s c).getD (s,
    some [BLC_ESLSS_CONTROL_POINT_RESPONSE_OPCODE_ERROR, BLC_ESLSS_ERROR_CODE_INVALID_OPCODE])

/-! ### One byte array per category -/

/-- How many bytes of the array the commands reach: the texts keep their terminator. -/
def VendorArray.dataLength (x : VendorArray) : ℕ :=
  if x = .barCode ∨ x = .pic then x.size else x.size - 1

/-- The contents of the arrays. -/
abbrev VendorArrays := VendorArray → List UInt8

/-- What the arrays hold. -/
def arraysOf (s : VendorStore) : VendorArrays := fun x => bytes (s x) x.dataLength

/-- The array with `data` in place of what it has at `offset`. -/
def patched (a : List UInt8) (offset : ℕ) (data : List UInt8) : List UInt8 :=
  a.take offset ++ data ++ a.drop (offset + data.length)

/-- What a command asks of an array. -/
inductive VendorRequest where
  /-- Every byte becomes `pattern`. -/
  | clear (array : VendorArray) (pattern : UInt8)
  /-- The bytes from `offset` on become `data`. -/
  | patch (array : VendorArray) (offset : ℕ) (data : List UInt8)
  /-- The length of the array. -/
  | getLength (array : VendorArray)
  /-- The `len` bytes from `offset` on. -/
  | getData (array : VendorArray) (offset len : ℕ)

/-- What the request is answered, if it is in range. -/
def VendorRequest.answer (a : VendorArrays) : VendorRequest → Option (List UInt8)
  | .clear _ _ => some []
  | .patch x offset data => if offset + data.length ≤ (a x).length then some [] else none
  | .getLength x => some [UInt8.ofNat (a x).length, UInt8.ofNat ((a x).length / 2 ^ 8)]
  | .getData x offset len =>
    if offset + len ≤ (a x).length ∧ len ≤ 15 then some (((a x).drop offset).take len) else none

/-- The arrays after the request. -/
def VendorRequest.effect (a : VendorArrays) : VendorRequest → VendorArrays
  | .clear x pattern => Function.update a x (List.replicate (a x).length pattern)
  | .patch x offset data =>
    if offset + data.length ≤ (a x).length then Function.update a x (patched (a x) offset data)
    else a
  | .getLength _ => a
  | .getData _ _ _ => a

/-- The array of a category, given by its number. -/
def arrayOf (opcode : UInt8) : Option VendorArray :=
  match (OPCODE_CAT opcode).toNat with
  | 0 => some .productName
  | 1 => some .unitOfMeasure
  | 2 => some .productDesc
  | 3 => some .barCode
  | 4 => some .barCodeNum
  | 5 => some .pic
  | 7 => some .currencyCode
  | 8 => some .productPriceMajor
  | 9 => some .productPriceMinor
  | 10 => some .productPrice
  | _ => none

/-- The operation, given by its number. -/
def opOf (opcode : UInt8) : Option VendorOp :=
  match (OPCODE_OP opcode).toNat with
  | 0 => some .clear
  | 1 => some .patch
  | 2 => some .getLength
  | 3 => some .getData
  | 4 => some .patchV2
  | 5 => some .getDataV2
  | _ => none

/-- What `length` bytes of parameters ask of the array, by the two layouts of the offset. -/
def VendorOp.request (p : Mem) (x : VendorArray) : VendorOp → ℕ → Option VendorRequest
  | .clear, 2 => some (.clear x (p 1))
  | .patch, length + 2 => some (.patch x (p 1).toNat (bytes (adv p 2) length))
  | .getLength, 1 => some (.getLength x)
  | .getData, 3 => some (.getData x (p 1).toNat (p 2).toNat)
  | .patchV2, length + 3 => some (.patch x (u16At (adv p 1)) (bytes (adv p 3) length))
  | .getDataV2, 4 => some (.getData x (u16At (adv p 1)) (p 3).toNat)
  | _, _ => none

/-- The response that says what a request was answered. -/
def responseOf (reqOpcode : UInt8) : Option (List UInt8) → List UInt8
  | some params =>
    vendorSpecificResponseOpcode (3 + params.length) :: 0 :: reqOpcode :: 0 :: params
  | none => [vendorSpecificResponseOpcode 3, 0, reqOpcode, 1]

namespace VendorCommand

/-- What the command asks for, where its parameters say. -/
def request (c : VendorCommand) : Option VendorRequest :=
  (opOf (c.parameters 0)).bind fun op =>
    (arrayOf (c.parameters 0)).bind fun x => op.request c.parameters x c.commandLength.toNat

/-- What the command is answered, `none` for an error. -/
def answer (a : VendorArrays) (c : VendorCommand) : Option (List UInt8) :=
  c.request.bind (VendorRequest.answer a)

/-- The arrays after the command. -/
def effect (a : VendorArrays) (c : VendorCommand) : VendorArrays :=
  (c.request.map (VendorRequest.effect a)).getD a

/-- The response to the command, if it is addressed. -/
def reply (a : VendorArrays) (c : VendorCommand) : List UInt8 :=
  if c.commandLength = 0 then [0x00, 0x02] else responseOf (c.parameters 0) (c.answer a)

end VendorCommand

/-! ### Arrays and memory -/

section

variable (p : Mem) {n pos : ℕ}

/-- What is written inside the array is written in place. -/
theorem bytes_memcpy_patched {data : List UInt8} (h : pos + data.length ≤ n) :
    bytes (memcpy p pos data) n = patched (bytes p n) pos data := by
  refine List.ext_getElem (by simp [patched]; omega) fun i hi _ => ?_
  have hin : i < n := by simpa using hi
  rw [← List.getD_eq_getElem _ 0 hi, getD_bytes _ hin]
  simp only [patched]
  rw [List.getElem_append]
  by_cases hdata : i < pos + data.length
  · have hlen : i < ((bytes p n).take pos ++ data).length := by simp; omega
    rw [dif_pos hlen, List.getElem_append]
    by_cases hpos : i < pos
    · rw [dif_pos (by simp; omega), List.getElem_take, memcpy, if_neg (by omega)]
      simp [bytes]
    · have hmin : min pos n = pos := by omega
      rw [dif_neg (by simp; omega), memcpy, if_pos (by omega),
        List.getD_eq_getElem _ _ (by omega)]
      simp [hmin]
  · have hlen : ¬ i < ((bytes p n).take pos ++ data).length := by simp; omega
    rw [dif_neg hlen, memcpy_of_outside p (.inr (by omega)), List.getElem_drop]
    simp only [bytes, List.getElem_map, List.getElem_range, List.length_append, List.length_take,
      List.length_map, List.length_range]
    congr 1
    omega

/-- What is read inside the array is a piece of it. -/
theorem bytes_adv_eq {len : ℕ} (h : pos + len ≤ n) :
    bytes (adv p pos) len = ((bytes p n).drop pos).take len := by
  refine List.ext_getElem (by simp; omega) fun i hi _ => ?_
  simp [bytes, adv, Nat.add_comm]

/-- A cleared array. -/
theorem bytes_memcpy_replicate (b : UInt8) :
    bytes (memcpy p 0 (List.replicate n b)) n = List.replicate n b := by
  have h : 0 + (List.replicate n b).length ≤ n := by simp
  rw [bytes_memcpy_patched p h]
  simp [patched]

end

/-! ### The tables -/

/-- **The categories**: `cat_data` has the array of each, with the length the commands reach. -/
theorem find_catData (opcode : UInt8) :
    (findCatData opcode).map (fun d => (d.data, d.dataLength)) =
      (arrayOf opcode).map fun x => (x, x.dataLength) := by
  have table : ∀ n < 256,
      (findCatData (UInt8.ofNat n)).map (fun d => (d.data, d.dataLength)) =
        (arrayOf (UInt8.ofNat n)).map fun x => (x, x.dataLength) := by decide +kernel
  have h := table opcode.toNat opcode.toNat_lt
  rwa [UInt8.ofNat_toNat] at h

/-- The entry of an operation. -/
def VendorOp.handlers : VendorOp → AppVendorOpHandlers
  | .clear => ⟨.clear, appVendorImageHandleClear, 2, 2⟩
  | .patch => ⟨.patch, appVendorImageHandlePatch, 2, 2 + 15⟩
  | .getLength => ⟨.getLength, appVendorImageHandleGetLength, 1, 1⟩
  | .getData => ⟨.getData, appVendorImageHandleGetData, 3, 3⟩
  | .patchV2 => ⟨.patchV2, appVendorImageHandlePatchV2, 3, 3 + 14⟩
  | .getDataV2 => ⟨.getDataV2, appVendorImageHandleGetDataV2, 4, 4⟩

/-- **The operations**: `handlers` has the entry of each. -/
theorem find_handlers (opcode : UInt8) :
    (handlers.find? fun h => h.opcode.code = OPCODE_OP opcode) =
      (opOf opcode).map VendorOp.handlers := by
  have hop : (handlers.find? fun h => h.opcode.code = OPCODE_OP opcode).map (·.opcode) =
      opOf opcode := by
    have table : ∀ n < 256, (handlers.find? fun h =>
        h.opcode.code = OPCODE_OP (UInt8.ofNat n)).map (·.opcode) = opOf (UInt8.ofNat n) := by
      decide +kernel
    have h := table opcode.toNat opcode.toNat_lt
    rwa [UInt8.ofNat_toNat] at h
  have hmem : ∀ h ∈ handlers, h.opcode.handlers = h := by simp [handlers, VendorOp.handlers]
  rw [← hop, Option.map_map]
  cases hfind : handlers.find? fun h => h.opcode.code = OPCODE_OP opcode with
  | none => rfl
  | some h => simp [hmem h (List.mem_of_find?_eq_some hfind)]

/-- What the search of `cat_data` gives. -/
theorem findCatData_cases (opcode : UInt8) :
    (arrayOf opcode = none ∧ findCatData opcode = none) ∨
      ∃ d, arrayOf opcode = some d.data ∧ findCatData opcode = some d ∧
        d.dataLength = d.data.dataLength := by
  have h := find_catData opcode
  cases harray : arrayOf opcode with
  | none =>
    rw [harray] at h
    exact .inl ⟨rfl, Option.map_eq_none_iff.mp h⟩
  | some x =>
    rw [harray] at h
    obtain ⟨d, hd, hx⟩ := Option.map_eq_some_iff.mp h
    obtain ⟨rfl, hlen⟩ := Prod.mk.inj hx
    exact .inr ⟨d, rfl, hd, hlen⟩

/-! ### The handlers -/

@[simp] theorem length_arraysOf (s : VendorStore) (x : VendorArray) :
    (arraysOf s x).length = x.dataLength := length_bytes _ _

/-- One array written. -/
theorem arraysOf_update (s : VendorStore) (x : VendorArray) (p : Mem) :
    arraysOf (Function.update s x p) = Function.update (arraysOf s) x (bytes p x.dataLength) := by
  funext y
  by_cases hy : y = x
  · subst hy
    simp [arraysOf]
  · simp [arraysOf, hy]

/-- Between `s` and `s'` no byte outside the arrays changes. -/
def Untouched (s s' : VendorStore) : Prop := ∀ x i, x.dataLength ≤ i → s' x i = s x i

theorem untouched_update (s : VendorStore) (x : VendorArray) {pos : ℕ} {data : List UInt8}
    (h : pos + data.length ≤ x.dataLength) :
    Untouched s (Function.update s x (memcpy (s x) pos data)) := by
  intro y i hi
  by_cases hy : y = x
  · subst hy
    rw [Function.update_self, memcpy_of_outside _ (.inr (by omega))]
  · rw [Function.update_of_ne hy]

/-- The handler's result is what the arrays, asked `q`, come to. -/
structure Does (s : VendorStore) (q : Option VendorRequest) (reqOpcode : UInt8) (rsp : Bool)
    (result : VendorStore × Option (List UInt8)) : Prop where
  /-- The arrays are those after the request, -/
  arrays : arraysOf result.1 = (q.map (VendorRequest.effect (arraysOf s))).getD (arraysOf s)
  /-- nothing else is written, -/
  untouched : Untouched s result.1
  /-- and the response is the answer. -/
  response : result.2 =
    if rsp then some (responseOf reqOpcode (q.bind (VendorRequest.answer (arraysOf s)))) else none

section

variable (s : VendorStore) (cmd : Mem) (length : UInt8) (rsp : Bool)

/-- A request that is refused. -/
theorem does_refused {q : Option VendorRequest} (reqOpcode : UInt8)
    (heffect : (q.map (VendorRequest.effect (arraysOf s))).getD (arraysOf s) = arraysOf s)
    (hanswer : q.bind (VendorRequest.answer (arraysOf s)) = none) :
    Does s q reqOpcode rsp (s, appVendorFillResponse rsp reqOpcode
      APP_VENDOR_IMAGE_RSP_STATUS_INVALID_PARAMETERS []) where
  arrays := heffect.symm
  untouched := fun _ _ _ => rfl
  response := by
    rw [hanswer]
    rfl

theorem does_clear :
    Does s ((arrayOf (cmd 0)).bind fun x => some (.clear x (cmd 1))) (cmd 0) rsp
      (appVendorImageHandleClear s cmd length rsp) := by
  rw [appVendorImageHandleClear]
  obtain ⟨harray, hfind⟩ | ⟨d, harray, hfind, hlen⟩ := findCatData_cases (cmd 0)
  · rw [harray, hfind]
    exact does_refused s rsp (cmd 0) rfl rfl
  · rw [harray, hfind]
    refine ⟨?_, ?_, rfl⟩
    · simp only [hlen, arraysOf_update, bytes_memcpy_replicate]
      simp [VendorRequest.effect]
    · exact untouched_update s d.data (by simp [hlen])

theorem does_getLength :
    Does s ((arrayOf (cmd 0)).bind fun x => some (.getLength x)) (cmd 0) rsp
      (appVendorImageHandleGetLength s cmd length rsp) := by
  rw [appVendorImageHandleGetLength]
  obtain ⟨harray, hfind⟩ | ⟨d, harray, hfind, hlen⟩ := findCatData_cases (cmd 0)
  · rw [harray, hfind]
    exact does_refused s rsp (cmd 0) rfl rfl
  · rw [harray, hfind]
    refine ⟨rfl, fun _ _ _ => rfl, ?_⟩
    simp [hlen, VendorRequest.answer, Nat.shiftRight_eq_div_pow, appVendorFillResponse,
      responseOf, APP_VENDOR_IMAGE_RSP_OPCODE, APP_VENDOR_IMAGE_RSP_STATUS_SUCCESS]

theorem does_patchAt (offset : ℕ) (hdrLength : UInt8) :
    Does s ((arrayOf (cmd 0)).bind fun x =>
        some (.patch x offset (bytes (adv cmd hdrLength.toNat) (length - hdrLength).toNat)))
      (cmd 0) rsp (handlePatchAt offset hdrLength s cmd length rsp) := by
  rw [handlePatchAt]
  obtain ⟨harray, hfind⟩ | ⟨d, harray, hfind, hlen⟩ := findCatData_cases (cmd 0)
  · rw [harray, hfind]
    exact does_refused s rsp (cmd 0) rfl rfl
  · rw [harray, hfind]
    simp only [hlen]
    split_ifs with hrange
    · refine does_refused s rsp (cmd 0) ?_ ?_
      · simp [VendorRequest.effect]
        omega
      · simp [VendorRequest.answer]
        omega
    · have hin : offset + (bytes (adv cmd hdrLength.toNat) (length - hdrLength).toNat).length ≤
          d.data.dataLength := by
        rw [length_bytes]
        omega
      refine ⟨?_, untouched_update s d.data hin, ?_⟩
      · rw [arraysOf_update, bytes_memcpy_patched _ hin]
        simp only [Option.bind_some, Option.map_some, Option.getD_some, VendorRequest.effect,
          length_arraysOf, if_pos hin]
        rfl
      · simp only [Option.bind_some, VendorRequest.answer, length_arraysOf,
          if_pos hin]
        rfl

theorem does_getDataAt (offset len : ℕ) :
    Does s ((arrayOf (cmd 0)).bind fun x => some (.getData x offset len)) (cmd 0) rsp
      (handleGetDataAt offset len s cmd length rsp) := by
  rw [handleGetDataAt]
  obtain ⟨harray, hfind⟩ | ⟨d, harray, hfind, hlen⟩ := findCatData_cases (cmd 0)
  · rw [harray, hfind]
    exact does_refused s rsp (cmd 0) rfl rfl
  · rw [harray, hfind]
    simp only [hlen]
    split_ifs with hrange
    · refine does_refused s rsp (cmd 0) rfl ?_
      simp [VendorRequest.answer]
      omega
    · refine ⟨rfl, fun _ _ _ => rfl, ?_⟩
      have hin : offset + len ≤ d.data.dataLength ∧ len ≤ 15 := by omega
      simp only [Option.bind_some, VendorRequest.answer, length_arraysOf,
        if_pos hin]
      rw [bytes_adv_eq _ hin.1]
      rfl

omit s rsp in
/-- Parameters of a length that the operation does not have. -/
theorem request_eq_none {op : VendorOp} (x : VendorArray)
    (h : length < op.handlers.minCmdLength ∨ op.handlers.maxCmdLength < length)
    (hlength : length.toNat < 16) : op.request cmd x length.toNat = none := by
  rw [UInt8.lt_iff_toNat_lt, UInt8.lt_iff_toNat_lt] at h
  generalize length.toNat = n at h hlength ⊢
  have hmax : ¬ op.handlers.maxCmdLength.toNat < n ∨ op.handlers.maxCmdLength.toNat < 16 := by
    omega
  unfold VendorOp.request
  -- in the cases that ask for something the length is in range
  split
  case h_7 => rfl
  all_goals
    revert h hmax
    simp only [VendorOp.handlers, UInt8.reduceToNat, UInt8.reduceAdd]
    omega

omit s cmd length rsp in
/-- The only length of an operation without data. -/
theorem eq_of_inRange {length n : UInt8} (h : ¬ (length < n ∨ n < length)) : length = n := by
  obtain ⟨hmin, hmax⟩ := not_or.mp h
  exact UInt8.le_antisymm (UInt8.not_lt.mp hmax) (UInt8.not_lt.mp hmin)

omit s cmd length rsp in
/-- The header and the data of an operation. -/
theorem toNat_eq_of_inRange {length n m : UInt8} (h : ¬ (length < n ∨ m < length)) :
    length.toNat = (length - n).toNat + n.toNat := by
  obtain ⟨hmin, -⟩ := not_or.mp h
  have hle := UInt8.not_lt.mp hmin
  rw [UInt8.toNat_sub_of_le _ _ hle, Nat.sub_add_cancel (UInt8.le_iff_toNat_le.mp hle)]

/-- The handler of an operation, with parameters of its length. -/
theorem does_handler {op : VendorOp}
    (h : ¬ (length < op.handlers.minCmdLength ∨ op.handlers.maxCmdLength < length)) :
    Does s ((arrayOf (cmd 0)).bind fun x => op.request cmd x length.toNat) (cmd 0) rsp
      (op.handlers.handler s cmd length rsp) := by
  cases op with
  | clear =>
    obtain rfl := eq_of_inRange h
    exact does_clear s cmd 2 rsp
  | patch =>
    rw [toNat_eq_of_inRange h]
    exact does_patchAt s cmd length rsp (cmd 1).toNat 2
  | getLength =>
    obtain rfl := eq_of_inRange h
    exact does_getLength s cmd 1 rsp
  | getData =>
    obtain rfl := eq_of_inRange h
    exact does_getDataAt s cmd 3 rsp (cmd 1).toNat (cmd 2).toNat
  | patchV2 =>
    rw [toNat_eq_of_inRange h]
    exact does_patchAt s cmd length rsp (u16At (adv cmd 1)) 3
  | getDataV2 =>
    obtain rfl := eq_of_inRange h
    exact does_getDataAt s cmd 4 rsp (u16At (adv cmd 1)) (cmd 3).toNat

end

/-! ### A command -/

theorem commandLength_lt (c : VendorCommand) : c.commandLength.toNat < 16 := by
  have h := c.opcode.toNat_lt
  rw [VendorCommand.commandLength, UInt8.toNat_shiftRight]
  have hand : (c.opcode &&& 0xF0).toNat ≤ c.opcode.toNat := by
    rw [UInt8.toNat_and]
    exact Nat.and_le_left
  rw [show (4 : UInt8).toNat % 8 = 4 from rfl, Nat.shiftRight_eq_div_pow]
  omega

/-- **The handlers do what the command asks of one byte array per category.** -/
theorem handleVendorCmd_eq (s : VendorStore) (c : VendorCommand) (h : c.commandLength ≠ 0) :
    ∃ result, appVendorImageHandleVendorCmd s c = some result ∧
      Does s c.request (c.parameters 0) (c.eslId ≠ eslIdBroadcast) result := by
  have hpos : ¬ c.commandLength < 1 := by
    have h' : c.commandLength.toNat ≠ 0 := fun h₀ => h (UInt8.toNat_inj.mp h₀)
    rw [UInt8.lt_iff_toNat_lt]
    simpa using by omega
  rw [appVendorImageHandleVendorCmd, if_neg hpos, find_handlers, VendorCommand.request]
  cases hop : opOf (c.parameters 0) with
  | none => exact ⟨_, rfl, does_refused s _ _ rfl rfl⟩
  | some op =>
    simp only [Option.map_some, Option.bind_some]
    split_ifs with hlength
    · have hnone : ((arrayOf (c.parameters 0)).bind fun x =>
          op.request c.parameters x c.commandLength.toNat) = none := by
        cases arrayOf (c.parameters 0) with
        | none => rfl
        | some x => exact request_eq_none _ _ x hlength (commandLength_lt c)
      rw [hnone]
      exact ⟨_, rfl, does_refused s _ _ rfl rfl⟩
    · exact ⟨_, rfl, does_handler s c.parameters c.commandLength _ hlength⟩

/-- A command without an operation asks for nothing. -/
theorem request_of_commandLength {c : VendorCommand} (h : c.commandLength = 0) :
    c.request = none := by
  rw [VendorCommand.request, h]
  cases opOf (c.parameters 0) with
  | none => rfl
  | some op =>
    cases arrayOf (c.parameters 0) with
    | none => rfl
    | some x => cases op <;> rfl

/-! ### Responses -/

/-- `BLC_ESLS_CMD_RSP_MAX_LENGTH`, the size of the response buffer. -/
def cmdRspMaxLength : ℕ := 17

/-- The number of parameter bytes that the length nibble says: it has one less, as
`BLC_ESLSS_VENDOR_SPECIFIC_RESPONSE_OPCODE` computes it. -/
def responseParameters (opcode : UInt8) : ℕ := ((opcode &&& 0xF0) >>> 4).toNat + 1

/-- The response has at most sixteen parameter bytes, fits its buffer, and its opcode says how many
parameter bytes there are. -/
def WellFormed : List UInt8 → Prop
  | [] => False
  | opcode :: params =>
    params.length ≤ 16 ∧ (opcode :: params).length ≤ cmdRspMaxLength ∧
      responseParameters opcode = params.length

instance : DecidablePred WellFormed
  | [] => inferInstanceAs (Decidable False)
  | _ :: _ => inferInstanceAs (Decidable (_ ∧ _))

/-- The length nibble holds what a response of up to sixteen bytes needs. -/
theorem responseParameters_opcode {n : ℕ} (h : n < 14) :
    responseParameters (vendorSpecificResponseOpcode (3 + n)) = 3 + n := by
  have table : ∀ n < 14, responseParameters (vendorSpecificResponseOpcode (3 + n)) = 3 + n := by
    decide
  exact table n h

/-- A response is well formed unless more than thirteen bytes are answered. -/
theorem wellFormed_responseOf_iff (reqOpcode : UInt8) (answer : Option (List UInt8)) :
    WellFormed (responseOf reqOpcode answer) ↔ ∀ params ∈ answer, params.length < 14 := by
  cases answer with
  | none => simp [responseOf, WellFormed, cmdRspMaxLength,
      show responseParameters (vendorSpecificResponseOpcode 3) = 3 from rfl]
  | some params =>
    simp only [responseOf, WellFormed, cmdRspMaxLength, List.length_cons,
      Option.mem_def, Option.some.injEq, forall_eq']
    constructor
    · rintro ⟨hparams, -, -⟩
      omega
    · intro h
      refine ⟨by omega, by omega, ?_⟩
      rw [responseParameters_opcode h]
      omega

/-! ### Runs -/

/-- A command handled. -/
def vendorStep (s : VendorStore) (c : VendorCommand) : VendorStore := (handleVendorSpecific s c).1

/-- The command is answered as it should. -/
structure Answers (s : VendorStore) (c : VendorCommand) : Prop where
  /-- An addressed command has its reply, -/
  addressed : c.eslId ≠ eslIdBroadcast →
    (handleVendorSpecific s c).2 = some (c.reply (arraysOf s))
  /-- a broadcast one with an operation has none, -/
  broadcast : c.eslId = eslIdBroadcast → c.commandLength ≠ 0 →
    (handleVendorSpecific s c).2 = none
  /-- a command that is refused changes nothing, -/
  refused : c.answer (arraysOf s) = none → vendorStep s c = s
  /-- and what is written to the response is well formed. -/
  wellFormed : ∀ response ∈ (handleVendorSpecific s c).2, WellFormed response

/-- The run of commands is one on byte arrays, and every command is answered. -/
structure Behaves (s : VendorStore) (cs : List VendorCommand) : Prop where
  /-- The arrays are those that the commands make, -/
  arrays : arraysOf (cs.foldl vendorStep s) = cs.foldl VendorCommand.effect (arraysOf s)
  /-- nothing outside them is written, -/
  untouched : Untouched s (cs.foldl vendorStep s)
  /-- and every command is answered. -/
  answers : Along vendorStep Answers s cs

/-- The command is an addressed read, in range, of fourteen or fifteen bytes. -/
def VendorCommand.Overflows (c : VendorCommand) : Prop :=
  c.eslId ≠ eslIdBroadcast ∧
    ∃ x offset len, c.request = some (.getData x offset len) ∧ offset + len ≤ x.dataLength ∧
      14 ≤ len ∧ len ≤ 15

/-- What a command can do: the caller's error, or what the arrays come to. -/
theorem handleVendorSpecific_cases (s : VendorStore) (c : VendorCommand) :
    (c.commandLength = 0 ∧ handleVendorSpecific s c = (s, some [0x00, 0x02])) ∨
      c.commandLength ≠ 0 ∧ Does s c.request (c.parameters 0)
        (c.eslId ≠ eslIdBroadcast) (handleVendorSpecific s c) := by
  by_cases h : c.commandLength = 0
  · refine .inl ⟨h, ?_⟩
    rw [handleVendorSpecific, appVendorImageHandleVendorCmd, h]
    rfl
  · obtain ⟨result, hresult, hdoes⟩ := handleVendorCmd_eq s c h
    rw [handleVendorSpecific, hresult]
    exact .inr ⟨h, hdoes⟩

/-- A command makes of the arrays what it should. -/
theorem arraysOf_vendorStep (s : VendorStore) (c : VendorCommand) :
    arraysOf (vendorStep s c) = c.effect (arraysOf s) := by
  rw [vendorStep, VendorCommand.effect]
  obtain ⟨h, hhandle⟩ | ⟨-, hdoes⟩ := handleVendorSpecific_cases s c
  · rw [hhandle, request_of_commandLength h]
    rfl
  · exact hdoes.arrays

/-- A command writes nothing outside the arrays. -/
theorem untouched_vendorStep (s : VendorStore) (c : VendorCommand) :
    Untouched s (vendorStep s c) := by
  rw [vendorStep]
  obtain ⟨-, hhandle⟩ | ⟨-, hdoes⟩ := handleVendorSpecific_cases s c
  · rw [hhandle]
    exact fun _ _ _ => rfl
  · exact hdoes.untouched

/-- The memory is the arrays and what is outside them. -/
theorem store_ext {s s' : VendorStore} (h : arraysOf s' = arraysOf s) (hout : Untouched s s') :
    s' = s := by
  funext x i
  by_cases hi : i < x.dataLength
  · rw [← getD_bytes (s' x) hi 0, ← getD_bytes (s x) hi 0]
    exact congrArg (fun a => (a x).getD i 0) h
  · exact hout x i (by omega)

/-- A request that is refused leaves the arrays as they are. -/
theorem effect_of_answer_none {a : VendorArrays} {c : VendorCommand} (h : c.answer a = none) :
    c.effect a = a := by
  rw [VendorCommand.answer] at h
  rw [VendorCommand.effect]
  cases hreq : c.request with
  | none => rfl
  | some q =>
    rw [hreq, Option.bind_some] at h
    rw [Option.map_some, Option.getD_some]
    cases q with
    | clear x pattern => simp [VendorRequest.answer] at h
    | patch x offset data =>
      have hrange : ¬ offset + data.length ≤ (a x).length := by
        intro hle
        simp [VendorRequest.answer, hle] at h
      simp [VendorRequest.effect, hrange]
    | getLength x => rfl
    | getData x offset len => rfl

/-- Only a read answers more than two bytes, and then those it asks for. -/
theorem answer_long_iff (s : VendorStore) (c : VendorCommand) :
    (∃ params ∈ c.answer (arraysOf s), 14 ≤ params.length) ↔
      ∃ x offset len, c.request = some (.getData x offset len) ∧ offset + len ≤ x.dataLength ∧
        14 ≤ len ∧ len ≤ 15 := by
  rw [VendorCommand.answer]
  constructor
  · rintro ⟨params, hparams, hlong⟩
    obtain ⟨q, hq, hanswer⟩ := Option.bind_eq_some_iff.mp hparams
    cases q with
    | clear x pattern =>
      obtain rfl : [] = params := Option.some.inj hanswer
      simp at hlong
    | patch x offset data =>
      simp only [VendorRequest.answer, Option.ite_none_right_eq_some, Option.some.injEq] at hanswer
      obtain ⟨-, rfl⟩ := hanswer
      simp at hlong
    | getLength x =>
      obtain rfl := Option.some.inj hanswer
      simp at hlong
    | getData x offset len =>
      simp only [VendorRequest.answer, length_arraysOf, Option.ite_none_right_eq_some,
        Option.some.injEq] at hanswer
      obtain ⟨⟨hrange, hlen⟩, rfl⟩ := hanswer
      simp only [List.length_take, List.length_drop, length_arraysOf] at hlong
      exact ⟨x, offset, len, hq, hrange, by omega, hlen⟩
  · rintro ⟨x, offset, len, hq, hrange, hlong, hlen⟩
    refine ⟨((arraysOf s x).drop offset).take len, ?_, ?_⟩
    · simp [hq, VendorRequest.answer, hrange, hlen]
    · simp only [List.length_take, List.length_drop, length_arraysOf]
      omega

/-- **A command is answered as it should exactly if it does not overflow.** -/
theorem answers_iff (s : VendorStore) (c : VendorCommand) : Answers s c ↔ ¬ c.Overflows := by
  have hrefused : c.answer (arraysOf s) = none → vendorStep s c = s := fun h =>
    store_ext (by rw [arraysOf_vendorStep, effect_of_answer_none h]) (untouched_vendorStep s c)
  obtain ⟨hlength, hhandle⟩ | ⟨hlength, hdoes⟩ := handleVendorSpecific_cases s c
  · constructor
    · rintro - ⟨-, x, offset, len, hreq, -⟩
      rw [request_of_commandLength hlength] at hreq
      cases hreq
    · intro _
      refine ⟨fun _ => ?_, fun _ h => absurd hlength h, hrefused, ?_⟩
      · rw [hhandle, VendorCommand.reply, if_pos hlength]
      · rw [hhandle]
        simp only [Option.mem_def, Option.some.injEq, forall_eq']
        decide
  · have hreply : responseOf (c.parameters 0) (c.answer (arraysOf s)) = c.reply (arraysOf s) := by
      rw [VendorCommand.reply, if_neg hlength]
    have hresponse := hdoes.response
    constructor
    · rintro h ⟨haddr, hover⟩
      have hwell := h.wellFormed _ (h.addressed haddr)
      rw [← hreply, wellFormed_responseOf_iff] at hwell
      obtain ⟨params, hparams, hlong⟩ := (answer_long_iff s c).mpr hover
      exact absurd (hwell params hparams) (by omega)
    · intro hover
      refine ⟨fun haddr => ?_, fun hcast _ => ?_, hrefused, fun response hresp => ?_⟩
      · rw [hresponse, if_pos (by simpa using haddr)]
        exact congrArg some hreply
      · rw [hresponse, if_neg (by simpa using hcast)]
      · rw [hresponse, Option.mem_def, Option.ite_none_right_eq_some] at hresp
        obtain ⟨haddr, hresp⟩ := hresp
        obtain rfl := Option.some.inj hresp
        refine (wellFormed_responseOf_iff _ _).mpr fun params hparams => ?_
        by_contra hlong
        exact hover ⟨by simpa using haddr, (answer_long_iff s c).mp ⟨params, hparams, by omega⟩⟩

/-- **A response fits its buffer exactly if the command does not overflow.** -/
theorem response_fits_iff (s : VendorStore) (c : VendorCommand) :
    (∀ response ∈ (handleVendorSpecific s c).2, response.length ≤ cmdRspMaxLength) ↔
      ¬ c.Overflows := by
  constructor
  · rintro h ⟨haddr, hover⟩
    obtain ⟨params, hparams, hlong⟩ := (answer_long_iff s c).mpr hover
    obtain ⟨hlength, -⟩ | ⟨-, hdoes⟩ := handleVendorSpecific_cases s c
    · obtain ⟨x, offset, len, hreq, -⟩ := hover
      rw [request_of_commandLength hlength] at hreq
      cases hreq
    · have hresponse := hdoes.response
      rw [if_pos (by simpa using haddr), ← VendorCommand.answer, Option.mem_def.mp hparams]
        at hresponse
      have hfits := h _ hresponse
      simp only [responseOf, List.length_cons, cmdRspMaxLength] at hfits
      omega
  · intro hover response hresponse
    have hwell := ((answers_iff s c).mpr hover).wellFormed response hresponse
    cases response with
    | nil => exact hwell.elim
    | cons opcode params => exact hwell.2.1

/-- The arrays of a run. -/
theorem arraysOf_foldl (s : VendorStore) (cs : List VendorCommand) :
    arraysOf (cs.foldl vendorStep s) = cs.foldl VendorCommand.effect (arraysOf s) := by
  induction cs generalizing s with
  | nil => rfl
  | cons c cs ih =>
    rw [List.foldl_cons, List.foldl_cons, ih, arraysOf_vendorStep]

/-- A run writes nothing outside the arrays. -/
theorem untouched_foldl (s : VendorStore) (cs : List VendorCommand) :
    Untouched s (cs.foldl vendorStep s) := by
  induction cs generalizing s with
  | nil => exact fun _ _ _ => rfl
  | cons c cs ih =>
    intro x i hi
    rw [List.foldl_cons, ih (vendorStep s c) x i hi, untouched_vendorStep s c x i hi]

/-- **Runs of commands**: they are runs on one byte array per category, and every response is well
formed, exactly as long as no addressed read of fourteen or fifteen bytes is in range. -/
theorem vendorCommands_behave_iff (s : VendorStore) (cs : List VendorCommand) :
    Behaves s cs ↔ ∀ c ∈ cs, ¬ c.Overflows := by
  have hanswers : Along vendorStep Answers s cs ↔ ∀ c ∈ cs, ¬ c.Overflows := by
    induction cs generalizing s with
    | nil => simp
    | cons c cs ih => rw [along_cons, answers_iff, ih, List.forall_mem_cons]
  constructor
  · intro h
    exact hanswers.mp h.answers
  · intro h
    exact ⟨arraysOf_foldl s cs, untouched_foldl s cs, hanswers.mpr h⟩

/-- The first fifteen bytes of the product name are read. -/
theorem vendorCommands_misbehave :
    ¬ Behaves (fun _ _ => 0) [⟨0x3F, 1, buffer [0x03, 0, 15] fun _ => 0⟩] := by
  intro h
  refine (answers_iff _ _).mp h.answers.1 ⟨by decide, .productName, 0, 15, ?_⟩
  exact ⟨rfl, by decide, by decide, by decide⟩

/-- The response to it, of nineteen bytes. -/
example : ((handleVendorSpecific (fun _ _ => 0) ⟨0x3F, 1, buffer [0x03, 0, 15] fun _ => 0⟩).2.map
    fun response => (response.length, response.head?)) = some (19, some 0x1F) := by decide

end TcBle.Vendor
