import TcBle.HciTransport.H5Step

/-!
# What is on a wire

Every SLIP packet that an endpoint gives to its UART is a data packet, an acknowledgement
or a link message, with the numbers the endpoint had when it was sent. The numbers on
the wire are three bits long; an `Item` has the full ones.

## What is proved

* `unpackHeader_framed` — the header of what is framed is read back.
* `payload_framed` — so is the payload, when the length fits the header.
* `recv_data`, `recv_ack` and `recv_link` — what an endpoint does with each kind of packet
  that another endpoint sent.
-/

namespace TcBle.HciTransport.H5

open TcBle.Foundation

/-! ### Framing -/

/-- The endpoint's numbers fit the header. -/
structure Numbered (e : H5) : Prop where
  /-- Three bits. -/
  txSeq : e.txSeq < 8
  /-- Three bits. -/
  txAck : e.txAck < 8
  /-- One bit. -/
  crc : e.config.dataIntgrtChkType < 2

variable {e : H5}

/-- How long what is framed is. -/
theorem length_framed (h5Type : ℕ) {pPacket : List UInt8} (hfits : pPacket.length + 6 < 2 ^ 16)
    (e : H5) :
    (e.framed h5Type pPacket).length =
      4 + pPacket.length + if (e.txHead h5Type pPacket).crc ≠ 0 then 2 else 0 := by
  rw [framed_eq hfits, txBuf]
  split_ifs <;> simp [hciH5CrcBytes, Nat.add_assoc]

/-- A packet that is framed is not shorter than its header. -/
theorem four_le_framed (h5Type : ℕ) {pPacket : List UInt8} (hfits : pPacket.length + 6 < 2 ^ 16)
    (e : H5) : 4 ≤ (e.framed h5Type pPacket).length := by
  rw [length_framed h5Type hfits]
  omega

/-- The start of what is framed. -/
theorem bytes_framed (h5Type : ℕ) {pPacket : List UInt8} (hfits : pPacket.length + 6 < 2 ^ 16)
    (e : H5)
    (buf : Mem) : bytes (buffer (e.framed h5Type pPacket) buf) (4 + pPacket.length) =
      hciH5PackHeader (e.txHead h5Type pPacket) ++ pPacket := by
  have hlen : 4 + pPacket.length =
    (hciH5PackHeader (e.txHead h5Type pPacket) ++ pPacket).length := by
    rw [List.length_append, length_packHeader]
  have hbuf := bytes_buffer (e.framed h5Type pPacket) buf
  rw [framed_eq hfits] at hbuf ⊢
  rw [hlen]
  unfold txBuf at hbuf ⊢
  simp only at hbuf ⊢
  split_ifs at hbuf ⊢
  · rw [List.length_append, bytes_add] at hbuf
    exact (List.append_inj hbuf (length_bytes _ _)).1
  · exact hbuf

/-- **The header of what is framed is read back**, but for the length, of which the low eight
bits are. -/
theorem unpackHeader_framed (h : Numbered e) {h5Type : ℕ} (ht : h5Type < 16) {pPacket : List UInt8}
    (hfits : pPacket.length + 6 < 2 ^ 16) (buf : Mem) :
    hciH5UnpackHeader (buffer (e.framed h5Type pPacket) buf) =
      { e.txHead h5Type pPacket with payloadLen := pPacket.length % 256 } := by
  have hbytes := bytes_framed h5Type hfits e buf
  rw [bytes_add] at hbytes
  have hhead := (List.append_inj hbytes (by simp)).1
  rw [hciH5UnpackHeader_packHeader (txHead_fits ht h.txSeq h.txAck h.crc pPacket) hhead]
  have hlen : (e.txHead h5Type pPacket).payloadLen % 256 = pPacket.length % 256 := by
    simp only [txHead]
    omega
  rw [hlen]

/-- **The payload is read back**, when the receiver finds the length right. -/
theorem payload_framed (h : Numbered e) {h5Type : ℕ} (ht : h5Type < 16) {pPacket : List UInt8}
    (hfits : pPacket.length + 6 < 2 ^ 16) {buf : Mem}
    (hwf : WellFormed (buffer (e.framed h5Type pPacket) buf) (e.framed h5Type pPacket).length) :
    bytes (adv (buffer (e.framed h5Type pPacket) buf) hciH5HeadLen)
      (hciH5UnpackHeader (buffer (e.framed h5Type pPacket) buf)).payloadLen = pPacket := by
  have hlen := hwf.2
  have hbytes := bytes_framed h5Type hfits e buf
  rw [unpackHeader_framed h ht hfits, length_framed h5Type hfits, lenOk] at hlen
  have hshort : pPacket.length % 256 = pPacket.length := by
    unfold hciH5HeadLen hciH5CrcLen at hlen
    simp only at hlen
    split_ifs at hlen <;> simp only [decide_eq_true_eq] at hlen <;> omega
  rw [unpackHeader_framed h ht hfits, hshort, hciH5HeadLen]
  rw [bytes_add] at hbytes
  exact (List.append_inj hbytes (by simp)).2

/-- The message of a framed link message. -/
theorem linkMsg_framed {msg : ℕ} {rest : List UInt8} (hmsg : msg < 2 ^ 16) (hrest : rest.length ≤ 1)
    (e : H5) (buf : Mem) :
    let q := buffer (e.framed hciH5PktTypeLinkCtrl (linkMsg msg rest)) buf
    u16At (adv q hciH5HeadLen) = msg ∧ ∀ b ∈ rest, q (hciH5HeadLen + 2) = b := by
  have hfits : (linkMsg msg rest).length + 6 < 2 ^ 16 := by
    simp only [linkMsg, List.length_cons]
    omega
  have hbytes := bytes_framed hciH5PktTypeLinkCtrl hfits e buf
  rw [bytes_add] at hbytes
  have hmsgBytes := (List.append_inj hbytes (by simp)).2
  intro q
  have hget : ∀ i (hi : i < (linkMsg msg rest).length),
    q (4 + i) = (linkMsg msg rest).getD i 0 := by
    intro i hi
    rw [← hmsgBytes, getD_bytes _ hi, adv, Nat.add_comm]
  have h0 := hget 0 (by simp [linkMsg])
  have h1 := hget 1 (by simp [linkMsg])
  simp only [linkMsg, List.getD_cons_zero, List.getD_cons_succ] at h0 h1
  constructor
  · simp only [u16At, adv, hciH5HeadLen, Nat.zero_add]
    rw [show 1 + 4 = 4 + 1 from rfl, h1, h0, UInt8.toNat_ofNat', UInt8.toNat_ofNat']
    omega
  · intro b hb
    obtain ⟨c, rfl⟩ : ∃ c, rest = [c] := by
      cases rest with
      | nil => cases hb
      | cons c cs =>
        have hnil : cs = [] := List.length_eq_zero_iff.mp (by rw [List.length_cons] at hrest; omega)
        exact ⟨c, by rw [hnil]⟩
    have h2 := hget 2 (by simp [linkMsg])
    rw [hciH5HeadLen, h2, List.mem_singleton.mp hb]
    rfl

/-! ### Items -/

/-- A packet on a wire, with full numbers. -/
inductive Item where
  /-- Data packet number `seq`, with an acknowledgement. -/
  | data (seq : ℕ) (p : TxPkt) (num : ℕ)
  /-- An acknowledgement. -/
  | ack (num : ℕ)
  /-- A link message. -/
  | link (msg : ℕ) (rest : List UInt8)

/-- The SLIP packet `w` is item `it`, as an endpoint with the numbers of `e` sends it. -/
def Item.SentBy (e : H5) (w : List UInt8) : Item → Prop
  | .data seq p num => e.txSeq = seq % 8 ∧ e.txAck = num % 8 ∧ w = e.txPkt p.hciType.code p.payload
  | .ack num => e.txAck = num % 8 ∧ w = e.txPkt hciH5PktTypeAck []
  | .link msg rest => msg < 2 ^ 16 ∧ rest.length ≤ 1 ∧
    w = e.txPkt hciH5PktTypeLinkCtrl (linkMsg msg rest)

/-- The SLIP packet `w` is item `it`. -/
def Item.Is (it : Item) (w : List UInt8) : Prop := ∃ e : H5, Numbered e ∧ it.SentBy e w

/-- The data packets among the items, with their numbers. -/
def Item.datas (its : List Item) : List (ℕ × TxPkt) :=
  its.filterMap fun it => match it with
    | .data seq p _ => some (seq, p)
    | _ => none

/-- The acknowledgements among the items: data packets have one as well. -/
def Item.acks (its : List Item) : List ℕ :=
  its.filterMap fun it => match it with
    | .data _ _ num => some num
    | .ack num => some num
    | .link _ _ => none

/-! ### Receiving -/

/-- A packet that was framed: it is dropped, or the packet handler gets it. -/
theorem recv_framed (s : H5) (h5Type : ℕ) {pPacket : List UInt8}
    (hfits : pPacket.length + 6 < 2 ^ 16)
    (now : UInt32) (e : H5) : ∃ buf,
      e.hciSlipDecodePacket (s.txPkt h5Type pPacket) now = e.withBuf buf ∨
      e.hciSlipDecodePacket (s.txPkt h5Type pPacket) now =
        (e.withBuf (buffer (s.framed h5Type pPacket) buf)).hciH5PakcetHandler
          (buffer (s.framed h5Type pPacket) buf) (s.framed h5Type pPacket).length now := by
  obtain ⟨buf, hbuf⟩ := slipDecodePacket_encode (four_le_framed h5Type hfits s) s.oofEnable now e
  rw [txPkt, hbuf]
  split_ifs
  · exact ⟨buf, Or.inr rfl⟩
  · exact ⟨buf, Or.inl rfl⟩

/-- **A link message** is dropped, or taken. -/
theorem recv_link {msg : ℕ} {rest : List UInt8} {w : List UInt8} (h : (Item.link msg rest).Is w)
    (now : UInt32) (e : H5) : ∃ q, e.hciSlipDecodePacket w now = e.withBuf q ∨
      (u16At (adv q hciH5HeadLen) = msg ∧ (∀ b ∈ rest, q (hciH5HeadLen + 2) = b) ∧
        e.hciSlipDecodePacket w now = (e.withBuf q).hciH5DecodeLinkPdu q now) := by
  obtain ⟨s, hs, hmsg, hrest, rfl⟩ := h
  have hfits : (linkMsg msg rest).length + 6 < 2 ^ 16 := by
    simp only [linkMsg, List.length_cons]
    omega
  obtain ⟨buf, hdrop | hrecv⟩ := recv_framed s hciH5PktTypeLinkCtrl hfits now e
  · exact ⟨buf, Or.inl hdrop⟩
  · have hread := linkMsg_framed hmsg hrest s buf
    have htype : (hciH5UnpackHeader
        (buffer (s.framed hciH5PktTypeLinkCtrl (linkMsg msg rest)) buf)).pktType =
          hciH5PktTypeLinkCtrl := by
      rw [unpackHeader_framed hs (by decide) hfits]
      rfl
    generalize buffer (s.framed hciH5PktTypeLinkCtrl (linkMsg msg rest)) buf =
      q at hread htype hrecv
    refine ⟨q, ?_⟩
    rcases pakcetHandler_cases (e.withBuf q) q _ now with heq | ⟨-, hack, -⟩ | ⟨hwf, hlink⟩ | hdata
    · exact Or.inl (hrecv.trans heq)
    · exact absurd (htype.symm.trans hack) (by decide)
    · exact Or.inr ⟨hread.1, hread.2, hrecv.trans (pakcetHandler_of_link hwf hlink now _)⟩
    · exact absurd htype (ne_of_isDataType hdata.isData).2

/-- **An acknowledgement** is dropped, or taken by an active endpoint. -/
theorem recv_ack {num : ℕ} {w : List UInt8} (h : (Item.ack num).Is w) (now : UInt32) (e : H5) :
    ∃ q, e.hciSlipDecodePacket w now = e.withBuf q ∨
      (e.linkState = .active ∧
        e.hciSlipDecodePacket w now =
        { e.withBuf q with rxAck := num % 8 }.hciH5ReSendCheck now) := by
  obtain ⟨s, hs, hack, rfl⟩ := h
  have hfits : ([] : List UInt8).length + 6 < 2 ^ 16 := by decide
  obtain ⟨buf, hdrop | hrecv⟩ := recv_framed s hciH5PktTypeAck hfits now e
  · exact ⟨buf, Or.inl hdrop⟩
  · have hhead := unpackHeader_framed hs (show hciH5PktTypeAck < 16 by decide) hfits buf
    generalize buffer (s.framed hciH5PktTypeAck []) buf = q at hhead hrecv
    have htype : (hciH5UnpackHeader q).pktType = hciH5PktTypeAck := by rw [hhead]; rfl
    have hread : (hciH5UnpackHeader q).ackNum = num % 8 := by rw [hhead]; exact hack
    refine ⟨q, ?_⟩
    rcases pakcetHandler_cases (e.withBuf q) q _ now with heq | ⟨hwf, htype', hactive⟩ |
      ⟨-, hlink⟩ | hdata
    · exact Or.inl (hrecv.trans heq)
    · refine Or.inr ⟨hactive, ?_⟩
      rw [hrecv, pakcetHandler_of_ack hwf htype' hactive, hread]
    · exact absurd (htype.symm.trans hlink) (by decide)
    · exact absurd htype (ne_of_isDataType hdata.isData).1

/-- **A reliable data packet** is dropped, or taken by an active endpoint. -/
theorem recv_data {seq num : ℕ} {p : TxPkt} (hrel : hciH5IsReliablePacket p.hciType.code = true)
    {w : List UInt8} (h : (Item.data seq p num).Is w) (now : UInt32) (e : H5) :
    ∃ q, e.hciSlipDecodePacket w now = e.withBuf q ∨
      (e.linkState = .active ∧ (hciH5UnpackHeader q).seqNum = seq % 8 ∧
        (hciH5UnpackHeader q).ackNum = num % 8 ∧ rxPkt q = ⟨p.hciType.code, p.payload⟩ ∧
        e.hciSlipDecodePacket w now =
          ({ e.withBuf q with owed := true }.receiveSeq (hciH5UnpackHeader q) q now).receiveAck
            (hciH5UnpackHeader q) now) := by
  obtain ⟨s, hs, hseq, hnum, rfl⟩ := h
  obtain ⟨buf, hdrop | hrecv⟩ := recv_framed s p.hciType.code p.fits now e
  · exact ⟨buf, Or.inl hdrop⟩
  · have hhead := unpackHeader_framed hs p.hciType.code_lt p.fits buf
    have hpay := @payload_framed s hs _ p.hciType.code_lt _ p.fits buf
    generalize buffer (s.framed p.hciType.code p.payload) buf = q at hhead hpay hrecv
    have htype : (hciH5UnpackHeader q).pktType = p.hciType.code := by rw [hhead]; rfl
    have hone : (hciH5UnpackHeader q).reliable ≠ 0 := by
      rw [hhead]
      simp [txHead, hrel]
    refine ⟨q, ?_⟩
    rcases pakcetHandler_cases (e.withBuf q) q _ now with heq | ⟨-, hack, -⟩ | ⟨-, hlink⟩ | hdata
    · exact Or.inl (hrecv.trans heq)
    · exact absurd (htype.symm.trans hack) p.hciType.code_ne.1
    · exact absurd (htype.symm.trans hlink) p.hciType.code_ne.2
    · refine Or.inr ⟨hdata.active, ?_, ?_, ?_, ?_⟩
      · rw [hhead]
        simpa [txHead, hrel] using hseq
      · rw [hhead]
        exact hnum
      · rw [rxPkt, htype, hpay hdata.wellFormed]
      · rw [hrecv, pakcetHandler_of_takesData hdata, if_pos hone]

end TcBle.HciTransport.H5
