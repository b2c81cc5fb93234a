import TcBle.HciTransport.H5Sequence

/-!
# The data-integrity check of a sender and a receiver

`HCI_H5_Send` starts the check of a packet from `0xFFFF`, `HCI_H5_DecodeDataPdu` from
`0x0000`. Different initial values give different checks of the same bytes, whatever the
bytes are, so a receiver never takes a packet that was sent with the check
(`crc_never_agrees`), although it is the same code.
-/

namespace TcBle.HciTransport.H5

open TcBle.Foundation

/-- The endpoint with the data-integrity check negotiated, its UART free, and the given
numbers. -/
def withCrc (seq ack : Fin 8) (e : H5) : H5 :=
  { e with txSeq := seq, txAck := ack, isUartTxDone := true
           config := { e.config with dataIntgrtChkType := 1 } }

/-- The packet that `s` sends is handed over by `r`, with its payload unchanged. -/
def Delivers (s r : H5) (p : TxPkt) (now : UInt32) : Prop :=
  ∃ w, (s.hciH5Send p.hciType.code p.payload).1.out = s.out ++ [w] ∧
    (r.hciSlipDecodePacket w now).handed =
      r.handed ++ [⟨⟨p.hciType.code, p.payload⟩, hciH5IsReliablePacket p.hciType.code⟩]

variable {s : H5} {p : TxPkt} {seq ack : Fin 8}

/-- The packet that is framed, with its check. -/
theorem framed_withCrc : ((s.withCrc seq ack).framed p.hciType.code p.payload) =
    (hciH5PackHeader ((s.withCrc seq ack).txHead p.hciType.code p.payload) ++ p.payload) ++
      hciH5CrcBytes (hciH5CcittCrc16Calc 0xFFFF#16
        (hciH5PackHeader ((s.withCrc seq ack).txHead p.hciType.code p.payload) ++ p.payload)) := by
  have hcrc : ((s.withCrc seq ack).txHead p.hciType.code p.payload).crc = 1 := by
    simp [txHead, HciType.code_ne, withCrc]
  rw [framed_eq p.fits, txBuf]
  simp only [hcrc, ne_eq, Nat.one_ne_zero, not_false_eq_true, if_true]

theorem bytes_append_left {f g : List UInt8} {q : Mem} (h : bytes q (f ++ g).length = f ++ g) :
    bytes q f.length = f := by
  rw [List.length_append, bytes_add] at h
  exact (List.append_inj h (length_bytes _ _)).1

theorem bytes_append_right {f g : List UInt8} {q : Mem} (h : bytes q (f ++ g).length = f ++ g) :
    bytes (adv q f.length) g.length = g := by
  rw [List.length_append, bytes_add] at h
  exact (List.append_inj h (length_bytes _ _)).2

/-- **A receiver does not take a packet that was sent with the check.** -/
theorem not_takesData_withCrc (r : H5) (buf : Mem) :
    ¬ r.TakesData (buffer ((s.withCrc seq ack).framed p.hciType.code p.payload) buf)
      ((s.withCrc seq ack).framed p.hciType.code p.payload).length := by
  intro h
  have hfits := p.fits
  have hcrc := h.crc
  rw [framed_withCrc] at hcrc
  generalize hf :
    hciH5PackHeader ((s.withCrc seq ack).txHead p.hciType.code p.payload) ++ p.payload = f at hcrc
  have hflen : f.length = 4 + p.payload.length := by
    rw [← hf, List.length_append, length_packHeader]
  have hbuf := bytes_buffer (f ++ hciH5CrcBytes (hciH5CcittCrc16Calc 0xFFFF#16 f)) buf
  generalize buffer (f ++ hciH5CrcBytes (hciH5CcittCrc16Calc 0xFFFF#16 f)) buf = q at hcrc hbuf
  -- the header says that there is a check
  have hhead : bytes q 4 = hciH5PackHeader
    ((s.withCrc seq ack).txHead p.hciType.code p.payload) := by
    have hleft := bytes_append_left hbuf
    rw [← hf] at hleft
    exact bytes_append_left hleft
  have hone : (hciH5UnpackHeader q).crc ≠ 0 := by
    rw [hciH5UnpackHeader_packHeader
      (txHead_fits (HciType.code_lt _) seq.isLt ack.isLt Nat.one_lt_two _) hhead]
    simp [txHead, HciType.code_ne, withCrc]
  have hbad := hcrc hone
  -- and the check is the wrong one
  have hlen : subU32
    (f ++ hciH5CrcBytes (hciH5CcittCrc16Calc 0xFFFF#16 f)).length hciH5CrcLen % 2 ^ 16 =
      f.length := by
    rw [List.length_append, hflen]
    simp only [hciH5CrcBytes, List.length_cons, List.length_nil, hciH5CrcLen]
    rw [subU32_of_le (by omega) (by omega)]
    omega
  simp only [crcBad, hlen, bytes_append_left hbuf, ne_eq, decide_eq_false_iff_not, not_not] at hbad
  have hright := bytes_append_right hbuf
  rw [show (hciH5CrcBytes (hciH5CcittCrc16Calc 0xFFFF#16 f)).length = 2 from rfl] at hright
  rw [hright] at hbad
  exact absurd (hciH5CcittCrc16Calc_injective f (hciH5CrcBytes_injective hbad)) (by simp)

/-- A packet of the controller is neither an acknowledgement nor about the link. -/
theorem pktType_withCrc (buf : Mem) : (hciH5UnpackHeader
    (buffer ((s.withCrc seq ack).framed p.hciType.code p.payload) buf)).pktType =
      p.hciType.code := by
  have hbuf := bytes_buffer ((s.withCrc seq ack).framed p.hciType.code p.payload) buf
  rw [framed_withCrc] at hbuf ⊢
  rw [hciH5UnpackHeader_packHeader
    (txHead_fits (HciType.code_lt _) seq.isLt ack.isLt Nat.one_lt_two _)
    (bytes_append_left (bytes_append_left hbuf))]
  rfl

/-- **No packet that is sent with the data-integrity check is delivered**, whatever its
payload, its type and its numbers: the receiver discards it and nothing but its decode
buffer changes. -/
theorem crc_never_agrees (s r : H5) (seq ack : Fin 8) (p : TxPkt) (now : UInt32) :
    ¬ Delivers (s.withCrc seq ack) r p now ∧
      ∃ w buf, ((s.withCrc seq ack).hciH5Send p.hciType.code p.payload).1.out = s.out ++ [w] ∧
        r.hciSlipDecodePacket w now = r.withBuf buf := by
  have hout : ((s.withCrc seq ack).hciH5Send p.hciType.code p.payload).1.out =
      s.out ++ [(s.withCrc seq ack).txPkt p.hciType.code p.payload] := by
    rw [hciH5Send_eq]
    rfl
  have hfour : 4 ≤ ((s.withCrc seq ack).framed p.hciType.code p.payload).length := by
    rw [framed_withCrc]
    simp only [List.length_append, length_packHeader]
    omega
  have hdiscard : ∃ buf, r.hciSlipDecodePacket
    ((s.withCrc seq ack).txPkt p.hciType.code p.payload) now =
      r.withBuf buf := by
    obtain ⟨buf, hbuf⟩ := slipDecodePacket_encode hfour (s.withCrc seq ack).oofEnable now r
    rw [txPkt, hbuf]
    split_ifs
    · rcases pakcetHandler_cases
        (r.withBuf (buffer ((s.withCrc seq ack).framed p.hciType.code p.payload) buf))
        (buffer ((s.withCrc seq ack).framed p.hciType.code p.payload) buf)
        ((s.withCrc seq ack).framed p.hciType.code p.payload).length now with heq | hack | hlink |
          hdata
      · exact ⟨_, heq⟩
      · exact absurd hack.2.1 (by rw [pktType_withCrc]; exact (HciType.code_ne _).1)
      · exact absurd hlink.2 (by rw [pktType_withCrc]; exact (HciType.code_ne _).2)
      · exact absurd hdata (not_takesData_withCrc _ buf)
    · exact ⟨buf, rfl⟩
  obtain ⟨buf, hbuf⟩ := hdiscard
  refine ⟨?_, _, buf, hout, hbuf⟩
  rintro ⟨w, hw, hhanded⟩
  have hw' : w = (s.withCrc seq ack).txPkt p.hciType.code p.payload := by
    have := List.append_cancel_left (hw.symm.trans hout)
    simpa using this
  rw [hw', hbuf] at hhanded
  simp [withBuf] at hhanded

/-- **The check of a packet is not what the receiver compares it with**: an event with two
bytes of payload, between two endpoints that have negotiated the check. -/
theorem crc_disagrees :
    ¬ ∀ (s r : H5) (seq ack : Fin 8) (p : TxPkt) (now : UInt32), r.linkState = .active →
      r.config.dataIntgrtChkType = 1 → Delivers (s.withCrc seq ack) r p now := by
  intro h
  have hdel := h idleEndpoint { idleEndpoint.withCrc 0 0 with linkState := .active } 0 0
    ⟨.event, [0x0E, 0x00], by decide⟩ 0 rfl rfl
  exact (crc_never_agrees _ _ 0 0 ⟨.event, [0x0E, 0x00], by decide⟩ 0).1 hdel

end TcBle.HciTransport.H5
