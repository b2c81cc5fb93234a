import TcBle.HciTransport.Common

/-!
# SLIP framing

`hci_slip.c`: a packet goes over the UART between two delimiters `0xC0`, with the bytes
that mean something to the framing replaced by two-byte sequences.

## The model

`hciSlipEncodePacket` is what the encode buffer holds. `slipDecode` is the loop of
`HCI_Slip_DecodePacket` over the bytes between the delimiters: what has been written to
the decode buffer, and whether the loop ran to its end. The byte after a lone `0xDB` at
the end is the delimiter, with which it makes no escape sequence.

## What is proved

* `slipDecode_encode` — the decoder undoes the encoder, for packets that fit the decode
  buffer.
-/

namespace TcBle.HciTransport

/-- `SLIP_DELIMITER`. -/
def slipDelimiter : UInt8 := 0xC0
/-- `SLIP_ESCAPE`. -/
def slipEscape : UInt8 := 0xDB
/-- `SLIP_INVALID_UNENCODED`. -/
def slipInvalidUnencoded : UInt8 := 0x00

/-- `slipEscapeTbl`: the second byte of the escape sequence, and what it stands for. -/
def slipEscapeTbl : List (UInt8 × UInt8) := [(0xDC, 0xC0), (0xDD, 0xDB), (0xDE, 0x11), (0xDF, 0x13)]

/-- `HCI_Slip_GetUnencoded` of the sequence `0xDB`, `b`. -/
def hciSlipGetUnencoded (b : UInt8) : UInt8 :=
  match slipEscapeTbl.find? fun e => e.1 = b with
  | some e => e.2
  | none => slipInvalidUnencoded

/-- `HCI_SLip_GetEscapeCode`: the second byte of the sequence for `b`. -/
def hciSlipGetEscapeCode (b : UInt8) : UInt8 :=
  match slipEscapeTbl.find? fun e => e.2 = b with
  | some e => e.1
  | none => 0x00

/-- One round of the loop of `HCI_Slip_EncodePacket`. -/
def slipEncodeByte (oofEnable : Bool) (b : UInt8) : List UInt8 :=
  if b = 0xC0 ∨ b = 0xDB ∨ b = 0x11 ∨ b = 0x13 then
    if oofEnable = false ∧ (b = 0x11 ∨ b = 0x13) then [b] else [slipEscape, hciSlipGetEscapeCode b]
  else [b]

/-- `HCI_Slip_EncodePacket`. -/
def hciSlipEncodePacket (oofEnable : Bool) (pPacket : List UInt8) : List UInt8 :=
  slipDelimiter :: (pPacket.flatMap (slipEncodeByte oofEnable) ++ [slipDelimiter])

/-- The loop of `HCI_Slip_DecodePacket`, with `room` bytes left in the decode buffer. -/
def slipDecode : ℕ → List UInt8 → List UInt8 × Bool
  | _, [] => ([], true)
  | 0, _ :: _ => ([], false)
  | room + 1, b :: rest =>
    if b = slipEscape then
      match rest with
      | [] => ([], false)
      | c :: rest =>
        if hciSlipGetUnencoded c = slipInvalidUnencoded then ([], false)
        else
          let r := slipDecode room rest
          (hciSlipGetUnencoded c :: r.1, r.2)
    else
      let r := slipDecode room rest
      (b :: r.1, r.2)

/-- What `HCI_Slip_DecodePacket` gives to the H5 packet handler, for a packet with its
delimiters. -/
def slipDecoded (room : ℕ) (pPacket : List UInt8) : Option (List UInt8) :=
  if pPacket.length < 6 then none
  else
    let r := slipDecode room (pPacket.drop 1).dropLast
    if r.2 then some r.1 else none

/-- One encoded byte is decoded to itself. -/
theorem slipDecode_encodeByte (oofEnable : Bool) (b : UInt8) (room : ℕ) (rest : List UInt8) :
    slipDecode (room + 1) (slipEncodeByte oofEnable b ++ rest) =
      (b :: (slipDecode room rest).1, (slipDecode room rest).2) := by
  have escaped : ∀ c, hciSlipGetUnencoded c = b → b ≠ slipInvalidUnencoded →
      slipDecode (room + 1) ([slipEscape, c] ++ rest) =
        (b :: (slipDecode room rest).1, (slipDecode room rest).2) := by
    intro c hc hb
    simp [slipDecode, hc, hb]
  have plain : b ≠ slipEscape → slipDecode (room + 1) ([b] ++ rest) =
      (b :: (slipDecode room rest).1, (slipDecode room rest).2) := by
    intro hb
    simp [slipDecode, hb]
  unfold slipEncodeByte
  split_ifs with hspecial hoof
  · refine plain ?_
    rintro rfl
    exact absurd hoof.2 (by decide)
  · rcases hspecial with rfl | rfl | rfl | rfl <;> exact escaped _ (by decide) (by decide)
  · refine plain ?_
    rintro rfl
    exact absurd (Or.inr (Or.inl rfl)) hspecial

/-- **The decoder undoes the encoder**, for packets that fit the decode buffer. -/
theorem slipDecode_encode (oofEnable : Bool) {pPacket : List UInt8} {room : ℕ}
    (h : pPacket.length ≤ room) :
    slipDecode room (pPacket.flatMap (slipEncodeByte oofEnable)) = (pPacket, true) := by
  induction pPacket generalizing room with
  | nil => simp [slipDecode]
  | cons b pPacket ih =>
    cases room with
    | zero => simp at h
    | succ room =>
      rw [List.flatMap_cons, slipDecode_encodeByte, ih (by simpa using h)]

/-- Packets that do not fit are not decoded. -/
theorem slipDecode_encode_overflow (oofEnable : Bool) {pPacket : List UInt8} {room : ℕ}
    (h : room < pPacket.length) :
    (slipDecode room (pPacket.flatMap (slipEncodeByte oofEnable))).2 = false := by
  induction pPacket generalizing room with
  | nil => simp at h
  | cons b pPacket ih =>
    cases room with
    | zero =>
      rw [List.flatMap_cons]
      have hne : slipEncodeByte oofEnable b ≠ [] := by
        unfold slipEncodeByte
        split_ifs <;> simp
      cases hb : slipEncodeByte oofEnable b with
      | nil => exact absurd hb hne
      | cons c cs => rfl
    | succ room =>
      rw [List.flatMap_cons, slipDecode_encodeByte]
      exact ih (by simpa using h)

/-- An encoded packet is at least as long as the packet and its two delimiters. -/
theorem length_le_encodePacket (oofEnable : Bool) (pPacket : List UInt8) :
    pPacket.length + 2 ≤ (hciSlipEncodePacket oofEnable pPacket).length := by
  have hbody : pPacket.length ≤ (pPacket.flatMap (slipEncodeByte oofEnable)).length := by
    induction pPacket with
    | nil => exact Nat.le_refl _
    | cons b pPacket ih =>
      have hone : 1 ≤ (slipEncodeByte oofEnable b).length := by
        unfold slipEncodeByte
        split_ifs <;> simp
      rw [List.flatMap_cons, List.length_append, List.length_cons]
      omega
  rw [hciSlipEncodePacket, List.length_cons, List.length_append, List.length_singleton]
  omega

end TcBle.HciTransport
