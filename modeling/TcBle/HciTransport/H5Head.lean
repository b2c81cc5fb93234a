import TcBle.Foundation.Crc
import TcBle.HciTransport.Common

/-!
# The packets of H5

The header of `hci_h5.c`, its checksum, and the data-integrity check. A packet is its
header, its payload and, when the header says so, two bytes of check.

The header's checksum byte is checked in place; the field `headCheckSum`, which nothing
reads, is left out.

## What is proved

* `hciH5UnpackHeader_packHeader` — a header is read back as it was written, but for the
  length, of which only the low eight bits are written.
* `hciH5IsCheckSumValid_packHeader` — it passes its own checksum.
* `hciH5Head_roundTrip_iff` — which headers come back as they were, read or written.
* `hciH5CcittCrc16Calc_injective` — different initial values give different checks of the
  same bytes.
-/

namespace TcBle.HciTransport

open TcBle.Foundation

/-! ### Constants -/

/-- `HCI_H5_PKT_TYPE_ACK`. -/
def hciH5PktTypeAck : ℕ := 0
/-- `HCI_H5_PKT_TYPE_CMD`. -/
def hciH5PktTypeCmd : ℕ := 1
/-- `HCI_H5_PKT_TYPE_ACL`. -/
def hciH5PktTypeAcl : ℕ := 2
/-- `HCI_H5_PKT_TYPE_SCO`. -/
def hciH5PktTypeSco : ℕ := 3
/-- `HCI_H5_PKT_TYPE_EVT`. -/
def hciH5PktTypeEvt : ℕ := 4
/-- `HCI_H5_PKT_TYPE_LINK_CTRL`. -/
def hciH5PktTypeLinkCtrl : ℕ := 15

/-- `HCI_H5_MSG_SYNC`. -/
def hciH5MsgSync : ℕ := 0x7E01
/-- `HCI_H5_MSG_SYNC_RSP`. -/
def hciH5MsgSyncRsp : ℕ := 0x7D02
/-- `HCI_H5_MSG_CONFIG`. -/
def hciH5MsgConfig : ℕ := 0xFC03
/-- `HCI_H5_MSG_CONFIG_RSP`. -/
def hciH5MsgConfigRsp : ℕ := 0x7B04

/-! ### The header -/

/-- `HciH5Head_t`. -/
structure HciH5Head where
  /-- Sequence number. -/
  seqNum : ℕ
  /-- Acknowledgement number. -/
  ackNum : ℕ
  /-- Data integrity check present. -/
  crc : ℕ
  /-- Reliable packet. -/
  reliable : ℕ
  /-- Packet type. -/
  pktType : ℕ
  /-- Payload length. -/
  payloadLen : ℕ
  deriving DecidableEq

/-- The fields fit their places in the header. -/
structure HciH5Head.Fits (h : HciH5Head) : Prop where
  /-- Three bits. -/
  seqNum : h.seqNum < 8
  /-- Three bits. -/
  ackNum : h.ackNum < 8
  /-- One bit. -/
  crc : h.crc < 2
  /-- One bit. -/
  reliable : h.reliable < 2
  /-- Four bits. -/
  pktType : h.pktType < 16

/-- `HCI_H5_CheckSumCalc`. -/
def hciH5CheckSumCalc (p : List UInt8) : UInt8 := ~~~(p.getD 0 0 + p.getD 1 0 + p.getD 2 0)

/-- The first three bytes that `HCI_H5_PackHeader` writes. -/
def hciH5HeadBytes (h : HciH5Head) : List UInt8 :=
  let tmp := h.pktType ||| ((h.payloadLen <<< 4) &&& 0x0fff)
  [UInt8.ofNat (h.seqNum ||| h.ackNum <<< 3 ||| h.crc <<< 6 ||| h.reliable <<< 7),
    UInt8.ofNat tmp, UInt8.ofNat (tmp >>> 8)]

/-- `HCI_H5_PackHeader`. -/
def hciH5PackHeader (h : HciH5Head) : List UInt8 :=
  hciH5HeadBytes h ++ [hciH5CheckSumCalc (hciH5HeadBytes h)]

/-- `HCI_H5_UnpackHeader`. -/
def hciH5UnpackHeader (pPacket : Mem) : HciH5Head :=
  let head := u32At pPacket
  { seqNum := head % 2 ^ 3
    ackNum := head / 2 ^ 3 % 2 ^ 3
    crc := head / 2 ^ 6 % 2
    reliable := head / 2 ^ 7 % 2
    pktType := head / 2 ^ 8 % 2 ^ 4
    payloadLen := head / 2 ^ 12 % 2 ^ 12 }

/-- `HCI_H5_IsCheckSumValid`. -/
def hciH5IsCheckSumValid (p : Mem) : Bool :=
  ((p 0).toNat + (p 1).toNat + (p 2).toNat + (p 3).toNat) % 256 = 0xFF

/-- `HCI_H5_IsReliablePacket`. -/
def hciH5IsReliablePacket (type : ℕ) : Bool :=
  type = hciH5PktTypeCmd ∨ type = hciH5PktTypeAcl ∨ type = hciH5PktTypeEvt

@[simp] theorem length_packHeader (h : HciH5Head) : (hciH5PackHeader h).length = 4 := rfl

/-- The first byte of a header. -/
theorem headByte_zero {s a c r : ℕ} (hs : s < 8) (ha : a < 8) (hc : c < 2) (hr : r < 2) :
    s ||| a <<< 3 ||| c <<< 6 ||| r <<< 7 = s + a * 8 + c * 64 + r * 128 := by
  have hall : ∀ s < 8, ∀ a < 8, ∀ c < 2, ∀ r < 2,
      s ||| a <<< 3 ||| c <<< 6 ||| r <<< 7 = s + a * 8 + c * 64 + r * 128 := by decide
  exact hall s hs a ha c hc r hr

/-- The second and third bytes of a header, as one number. -/
theorem headWord {t len : ℕ} (ht : t < 16) :
    t ||| ((len <<< 4) &&& 0x0fff) = t + len % 256 * 16 := by
  have hmask : (len <<< 4) &&& 0x0fff = (len % 256) <<< 4 := by
    rw [show 0x0fff = 2 ^ 12 - 1 from rfl, Nat.and_two_pow_sub_one_eq_mod, Nat.shiftLeft_eq,
      Nat.shiftLeft_eq]
    omega
  rw [hmask, Nat.or_comm, ← Nat.shiftLeft_add_eq_or_of_lt (by omega), Nat.shiftLeft_eq]
  omega

variable {h : HciH5Head} {p : Mem}

/-- The bytes of a header, as numbers. -/
theorem toNat_headBytes (hfits : h.Fits) (hp : bytes p 4 = hciH5PackHeader h) :
    (p 0).toNat = h.seqNum + h.ackNum * 8 + h.crc * 64 + h.reliable * 128 ∧
      (p 1).toNat = (h.pktType + h.payloadLen % 256 * 16) % 256 ∧
      (p 2).toNat = (h.pktType + h.payloadLen % 256 * 16) / 256 := by
  have hget : ∀ i < 4, p i = (hciH5PackHeader h).getD i 0 := by
    intro i hi
    rw [← hp, getD_bytes p hi]
  obtain ⟨hs, ha, hc, hr, ht⟩ := hfits
  refine ⟨?_, ?_, ?_⟩
  · rw [hget 0 (by simp)]
    simp only [hciH5PackHeader, hciH5HeadBytes, List.cons_append, List.getD_cons_zero,
      UInt8.toNat_ofNat']
    rw [headByte_zero hs ha hc hr]
    omega
  · rw [hget 1 (by simp)]
    simp only [hciH5PackHeader, hciH5HeadBytes, List.cons_append, List.getD_cons_succ,
      List.getD_cons_zero, UInt8.toNat_ofNat']
    rw [headWord ht]
  · rw [hget 2 (by simp)]
    simp only [hciH5PackHeader, hciH5HeadBytes, List.cons_append, List.getD_cons_succ,
      List.getD_cons_zero, UInt8.toNat_ofNat']
    rw [headWord ht, Nat.shiftRight_eq_div_pow]
    omega

/-- **A header is read back as it was written**, but for the length, of which only the low
eight bits are written. -/
theorem hciH5UnpackHeader_packHeader (hfits : h.Fits) (hp : bytes p 4 = hciH5PackHeader h) :
    hciH5UnpackHeader p = { h with payloadLen := h.payloadLen % 256 } := by
  obtain ⟨h0, h1, h2⟩ := toNat_headBytes hfits hp
  obtain ⟨hs, ha, hc, hr, ht⟩ := hfits
  have h3 : (p 3).toNat < 256 := (p 3).toNat_lt
  simp only [hciH5UnpackHeader, u32At, h0, h1, h2]
  congr 1 <;> omega

/-- A header passes its own checksum. -/
theorem hciH5IsCheckSumValid_packHeader (hp : bytes p 4 = hciH5PackHeader h) :
    hciH5IsCheckSumValid p = true := by
  have hget : ∀ i < 4, p i = (hciH5PackHeader h).getD i 0 := by
    intro i hi
    rw [← hp, getD_bytes p hi]
  have h3 : p 3 = ~~~(p 0 + p 1 + p 2) := by
    rw [hget 3 (by simp), hget 0 (by simp), hget 1 (by simp), hget 2 (by simp)]
    rfl
  have hnot : (p 3).toNat = 255 - (p 0 + p 1 + p 2).toNat := by
    rw [h3]
    exact UInt8.toNat_not _
  simp only [UInt8.toNat_add] at hnot
  simp only [hciH5IsCheckSumValid, decide_eq_true_eq, hnot]
  omega

/-- The header that a receiver reads fits. -/
theorem fits_unpackHeader (p : Mem) : (hciH5UnpackHeader p).Fits := by
  constructor <;> simp only [hciH5UnpackHeader] <;> omega

/-- What is packed of a header that was read: its first two bytes, and the low nibble of the
third. -/
theorem hciH5HeadBytes_unpackHeader (p : Mem) :
    hciH5HeadBytes (hciH5UnpackHeader p) = [p 0, p 1, UInt8.ofNat ((p 2).toNat % 2 ^ 4)] := by
  obtain ⟨hs, ha, hc, hr, ht⟩ := fits_unpackHeader p
  have hbyte : ∀ i, (p i).toNat < 256 := fun i => (p i).toNat_lt
  have h0 := hbyte 0
  have h1 := hbyte 1
  have h2 := hbyte 2
  simp only [hciH5HeadBytes, headByte_zero hs ha hc hr, headWord ht, Nat.shiftRight_eq_div_pow,
    List.cons.injEq, and_true]
  simp only [← UInt8.toNat_inj, UInt8.toNat_ofNat', hciH5UnpackHeader, u32At]
  refine ⟨?_, ?_, ?_⟩ <;> omega

/-- The checksum byte of a header that passes is the one that its first three bytes get. -/
theorem checkSum_of_valid (hvalid : hciH5IsCheckSumValid p = true) :
    hciH5CheckSumCalc [p 0, p 1, p 2] = p 3 := by
  simp only [hciH5IsCheckSumValid, decide_eq_true_eq] at hvalid
  have h3 : (p 3).toNat < 256 := (p 3).toNat_lt
  have hnot : (~~~(p 0 + p 1 + p 2)).toNat = 255 - (p 0 + p 1 + p 2).toNat := UInt8.toNat_not _
  rw [← UInt8.toNat_inj]
  simp only [hciH5CheckSumCalc, List.getD_cons_zero, List.getD_cons_succ, hnot, UInt8.toNat_add]
  omega

/-- **A header is read back as it was written** when its length has eight bits, and only
then; **a header that passes is written as it was read** when the high nibble of its third
byte is zero, and only then. -/
theorem hciH5Head_roundTrip_iff (h : HciH5Head) (hfits : h.Fits) (p : Mem) :
    (bytes p 4 = hciH5PackHeader h →
      ((hciH5IsCheckSumValid p = true ∧ hciH5UnpackHeader p = h) ↔ h.payloadLen < 2 ^ 8)) ∧
      (hciH5IsCheckSumValid p = true →
        (hciH5PackHeader (hciH5UnpackHeader p) = bytes p 4 ↔ (p 2).toNat < 2 ^ 4)) := by
  refine ⟨?_, ?_⟩
  · intro hp
    rw [hciH5UnpackHeader_packHeader hfits hp]
    constructor
    · rintro ⟨-, hlen⟩
      have : h.payloadLen % 256 = h.payloadLen := congrArg HciH5Head.payloadLen hlen
      omega
    · intro hlen
      have hmod : h.payloadLen % 256 = h.payloadLen := Nat.mod_eq_of_lt hlen
      refine ⟨hciH5IsCheckSumValid_packHeader hp, ?_⟩
      rw [hmod]
  · intro hvalid
    have h2 : (p 2).toNat < 256 := (p 2).toNat_lt
    have hbytes : bytes p 4 = [p 0, p 1, p 2] ++ [p 3] := rfl
    rw [hciH5PackHeader, hciH5HeadBytes_unpackHeader, hbytes]
    constructor
    · intro heq
      have hnibble := (List.append_inj heq rfl).1
      simp only [List.cons.injEq, true_and, and_true, ← UInt8.toNat_inj,
        UInt8.toNat_ofNat'] at hnibble
      omega
    · intro hlt
      rw [Nat.mod_eq_of_lt hlt, UInt8.ofNat_toNat, checkSum_of_valid hvalid]

/-- A buffer with the header of a reliable event of four bytes: number 5, acknowledgement 2,
with a check. -/
def eventHead : Mem := buffer [0xD5, 0x44, 0x00, 0xE6] fun _ => 0

theorem eventHead_roundTrip :
    (hciH5IsCheckSumValid eventHead = true ∧ hciH5UnpackHeader eventHead = ⟨5, 2, 1, 1, 4, 4⟩) ∧
      hciH5PackHeader (hciH5UnpackHeader eventHead) = bytes eventHead 4 := by
  have hfits : (⟨5, 2, 1, 1, 4, 4⟩ : HciH5Head).Fits := by constructor <;> decide
  obtain ⟨hwrite, hread⟩ := hciH5Head_roundTrip_iff _ hfits eventHead
  have hvalid : hciH5IsCheckSumValid eventHead = true := by decide
  exact ⟨(hwrite (by decide)).mpr (by decide), (hread hvalid).mpr (by decide)⟩

/-- A length of 256 is read back as zero. -/
theorem payloadLen_lost :
    ¬ ∀ h : HciH5Head, h.Fits → h.payloadLen < 2 ^ 12 → ∀ p, bytes p 4 = hciH5PackHeader h →
      hciH5IsCheckSumValid p = true ∧ hciH5UnpackHeader p = h := by
  intro hall
  have h := (hall ⟨0, 0, 0, 1, 2, 256⟩ (by constructor <;> decide) (by decide)
    (buffer (hciH5PackHeader ⟨0, 0, 0, 1, 2, 256⟩) fun _ => 0) (by decide)).2
  revert h
  decide

/-! ### The data-integrity check -/

/-- One round of the bit loop of `HCI_H5_CcittCrc16Calc`. -/
def hciH5CrcBit (crc : BitVec 16) : BitVec 16 :=
  if crc &&& 1#16 = 1#16 then (crc >>> 1) ^^^ 0x8408#16 else crc >>> 1

/-- `HCI_H5_CcittCrc16Calc`. -/
def hciH5CcittCrc16Calc (crc : BitVec 16) : List UInt8 → BitVec 16
  | [] => crc
  | b :: pPacket => hciH5CcittCrc16Calc (hciH5CrcBit^[8] (crc ^^^ b.toBitVec.setWidth 16)) pPacket

theorem hciH5CrcBit_eq (crc : BitVec 16) : hciH5CrcBit crc = Crc.shift 0x8408#16 crc :=
  (Crc.shift_eq_ite _ (by simp) crc).symm

/-- The check is that of the library with the polynomial `0x8408`. -/
theorem hciH5CcittCrc16Calc_eq (crc : BitVec 16) (pPacket : List UInt8) :
    hciH5CcittCrc16Calc crc pPacket = Crc.crc 0x8408#16 crc pPacket := by
  induction pPacket generalizing crc with
  | nil => rfl
  | cons b pPacket ih =>
    rw [hciH5CcittCrc16Calc, ih, Crc.crc_cons, funext hciH5CrcBit_eq]
    rfl

/-- **Different initial values give different checks** of the same bytes. -/
theorem hciH5CcittCrc16Calc_injective (pPacket : List UInt8) :
    Function.Injective fun crc => hciH5CcittCrc16Calc crc pPacket := by
  have hinj := Crc.crc_injective (show (0x8408#16).msb = true by decide) pPacket
  intro c d hcd
  simp only [hciH5CcittCrc16Calc_eq] at hcd
  exact hinj hcd

/-- The two bytes of a check, as they are sent. -/
def hciH5CrcBytes (crc : BitVec 16) : List UInt8 := [⟨(crc >>> 8).setWidth 8⟩, ⟨crc.setWidth 8⟩]

/-- The two bytes determine the check. -/
theorem hciH5CrcBytes_injective : Function.Injective hciH5CrcBytes := by
  intro c d h
  simp only [hciH5CrcBytes, List.cons.injEq, UInt8.ofBitVec.injEq, and_true] at h
  obtain ⟨hhigh, hlow⟩ := h
  refine BitVec.eq_of_getLsbD_eq fun i hi => ?_
  by_cases h8 : i < 8
  · have := congrArg (fun x => x.getLsbD i) hlow
    simpa [BitVec.getLsbD_setWidth, h8] using this
  · have := congrArg (fun x => x.getLsbD (i - 8)) hhigh
    simpa [BitVec.getLsbD_setWidth, BitVec.getLsbD_ushiftRight, show i - 8 < 8 by omega,
      show 8 + (i - 8) = i by omega] using this

end TcBle.HciTransport
