import TcBle.Foundation.Run
import TcBle.HciTransport.H5Frame
import TcBle.HciTransport.H5Net

/-!
# Link establishment

Each side of a link becomes active on the `CONFIG_RSP` of the other, and takes for its
configuration the smaller of its own values and of those in the message. The messages
may be sent again or lost, either side may be reset, and data may flow meanwhile.

## What is proved

* `linked_run` — in every state of every run from `HCI_H5_Init`, an endpoint that is active
  has the configuration negotiated from the two local ones (`negotiated`).
* `active_agree` — so two active endpoints agree, and exceed neither local configuration.
-/

namespace TcBle.HciTransport

open TcBle.Foundation

/-- A local configuration: its values fit the configuration byte. -/
structure LocalConfig where
  /-- The values. -/
  config : HciH5Config
  /-- Three bits. -/
  slidWinSize : config.slidWinSize < 8
  /-- One bit. -/
  oofFlowCtrl : config.oofFlowCtrl < 2
  /-- One bit. -/
  dataIntgrtChkType : config.dataIntgrtChkType < 2
  /-- Three bits. -/
  version : config.version < 8

/-- The configuration negotiated from two local ones. -/
def negotiated (c d : HciH5Config) : HciH5Config where
  slidWinSize := min c.slidWinSize d.slidWinSize
  oofFlowCtrl := c.oofFlowCtrl &&& d.oofFlowCtrl
  dataIntgrtChkType := c.dataIntgrtChkType &&& d.dataIntgrtChkType
  version := min c.version d.version

theorem negotiated_comm (c d : HciH5Config) : negotiated c d = negotiated d c := by
  simp only [negotiated, min_comm, Nat.and_comm]

/-- No value exceeds that of `d`. -/
structure HciH5Config.Within (c d : HciH5Config) : Prop where
  /-- The sliding window. -/
  slidWinSize : c.slidWinSize ≤ d.slidWinSize
  /-- Flow control. -/
  oofFlowCtrl : c.oofFlowCtrl ≤ d.oofFlowCtrl
  /-- The check. -/
  dataIntgrtChkType : c.dataIntgrtChkType ≤ d.dataIntgrtChkType
  /-- The version. -/
  version : c.version ≤ d.version

theorem negotiated_within (c d : HciH5Config) : (negotiated c d).Within c :=
  ⟨min_le_left _ _, Nat.and_le_left, Nat.and_le_left, min_le_left _ _⟩

/-- The values in the configuration byte. -/
theorem configByte_toNat (c : LocalConfig) : (H5.configByte c.config).toNat =
    c.config.slidWinSize + c.config.oofFlowCtrl * 8 + c.config.dataIntgrtChkType * 16 +
      c.config.version * 32 := by
  have hall : ∀ s < 8, ∀ o < 2, ∀ d < 2, ∀ v < 8,
      s ||| o <<< 3 ||| d <<< 4 ||| v <<< 5 = s + o * 8 + d * 16 + v * 32 := by decide
  have hv := c.version
  have hs := c.slidWinSize
  have ho := c.oofFlowCtrl
  have hd := c.dataIntgrtChkType
  rw [H5.configByte, hall _ hs _ ho _ hd _ hv, UInt8.toNat_ofNat']
  omega

namespace H5

/-! ### What is sent -/

/-- The packet, when it is a `CONFIG_RSP`, has the configuration `me`. -/
def HonestFrame (me : HciH5Config) (f : List UInt8) : Prop :=
  ∀ buf, (hciH5UnpackHeader (buffer f buf)).pktType = hciH5PktTypeLinkCtrl →
    u16At (adv (buffer f buf) hciH5HeadLen) = hciH5MsgConfigRsp →
      buffer f buf (hciH5HeadLen + 2) = configByte me

/-- The same of a SLIP packet. -/
def Honest (me : HciH5Config) (w : List UInt8) : Prop :=
  ∃ oofEnable f, w = hciSlipEncodePacket oofEnable f ∧ 4 ≤ f.length ∧ HonestFrame me f

/-- The invariant of an endpoint with the local configuration `me`, linked to one with
`peer`. -/
structure LinkOk (me peer : HciH5Config) (e : H5) : Prop where
  /-- Its local configuration. -/
  hciH5Config : e.hciH5Config = me
  /-- Its numbers are three bits long. -/
  txSeq : e.txSeq < 8
  /-- Its numbers are three bits long. -/
  txAck : e.txAck < 8
  /-- Its numbers are three bits long. -/
  rxAck : e.rxAck < 8
  /-- The check is on or off. -/
  crc : e.config.dataIntgrtChkType < 2
  /-- The negotiated configuration. -/
  active : e.linkState = .active → e.config = negotiated me peer

/-- From `e` to `e'` the invariant is kept, and only honest packets are sent. -/
def LinkStep (me peer : HciH5Config) (e e' : H5) : Prop :=
    LinkOk me peer e' ∧ Emits (Honest me) e e'

variable {me peer : HciH5Config} {e e' : H5}

theorem LinkOk.stay (h : LinkOk me peer e) : LinkStep me peer e e := ⟨h, .of_out_eq rfl⟩

theorem LinkStep.trans {e₁ e₂ e₃ : H5} (h : LinkStep me peer e₁ e₂) (h' : LinkStep me peer e₂ e₃) :
    LinkStep me peer e₁ e₃ := ⟨h'.1, h.2.trans h'.2⟩

theorem LinkOk.numbered (h : LinkOk me peer e) : Numbered e := ⟨h.txSeq, h.txAck, h.crc⟩

/-- The type in the header of what is framed. -/
theorem pktType_framed (h : LinkOk me peer e) {h5Type : ℕ} (ht : h5Type < 16) {pPacket : List UInt8}
    (hfits : pPacket.length + 6 < 2 ^ 16) (buf : Mem) :
    (hciH5UnpackHeader (buffer (e.framed h5Type pPacket) buf)).pktType = h5Type := by
  rw [unpackHeader_framed h.numbered ht hfits]
  rfl

/-- A packet that is not about the link is honest. -/
theorem honest_other (h : LinkOk me peer e) {h5Type : ℕ} (ht : h5Type < 16)
    (hne : h5Type ≠ hciH5PktTypeLinkCtrl) {pPacket : List UInt8}
    (hfits : pPacket.length + 6 < 2 ^ 16) :
    Honest me (e.txPkt h5Type pPacket) := by
  refine ⟨e.oofEnable, _, rfl, four_le_framed _ hfits e, fun buf htype => ?_⟩
  rw [pktType_framed h ht hfits buf] at htype
  exact absurd htype hne

/-- So is a packet of the TX FIFO. -/
theorem honest_data (h : LinkOk me peer e) (p : TxPkt) :
    Honest me (e.txPkt p.hciType.code p.payload) :=
  honest_other h p.hciType.code_lt p.hciType.code_ne.2 p.fits

/-- A link message is honest, when it is not a `CONFIG_RSP` or has the local configuration. -/
theorem honest_link {msg : ℕ} {rest : List UInt8} (hmsg : msg < 2 ^ 16) (hrest : rest.length ≤ 1)
    (hrsp : msg = hciH5MsgConfigRsp → rest = [configByte me]) (e : H5) :
    Honest me (e.txPkt hciH5PktTypeLinkCtrl (linkMsg msg rest)) := by
  have hfits : (linkMsg msg rest).length + 6 < 2 ^ 16 := by
    simp only [linkMsg, List.length_cons]
    omega
  refine ⟨e.oofEnable, _, rfl, four_le_framed _ hfits e, fun buf _ hread => ?_⟩
  obtain ⟨hmsg', hbyte⟩ := linkMsg_framed hmsg hrest e buf
  exact hbyte _ (by simp [hrsp (hmsg'.symm.trans hread)])

/-! ### Sending -/

theorem linkStep_send (h : LinkOk me peer e) {h5Type : ℕ} {pPacket : List UInt8}
    (hhonest : Honest me (e.txPkt h5Type pPacket)) :
    LinkStep me peer e (e.hciH5Send h5Type pPacket).1 := by
  have hk := kept_send h5Type pPacket e
  refine ⟨⟨hk.hciH5Config.trans h.hciH5Config, ?_, hk.txAck ▸ h.txAck, hk.rxAck ▸ h.rxAck,
    hk.config ▸ h.crc, fun hactive => ?_⟩, emits_send hhonest⟩
  · rw [hciH5Send_eq]
    simp only
    split_ifs
    · omega
    · exact h.txSeq
  · rw [hk.config]
    exact h.active (hk.linkState ▸ hactive)

theorem linkStep_sendLink (h : LinkOk me peer e) {msg : ℕ} {rest : List UInt8} (hmsg : msg < 2 ^ 16)
    (hrest : rest.length ≤ 1) (hrsp : msg = hciH5MsgConfigRsp → rest = [configByte me]) :
    LinkStep me peer e (e.sendLink msg rest) := linkStep_send h (honest_link hmsg hrest hrsp e)

theorem linkStep_sendSync (h : LinkOk me peer e) : LinkStep me peer e e.hciH5SendSync :=
  linkStep_sendLink h (by decide) (by decide) fun hm => absurd hm (by decide)

theorem linkStep_sendSyncRsp (h : LinkOk me peer e) : LinkStep me peer e e.hciH5SendSyncRsp :=
  linkStep_sendLink h (by decide) (by decide) fun hm => absurd hm (by decide)

theorem linkStep_sendConfig (h : LinkOk me peer e) : LinkStep me peer e e.hciH5SendConfig :=
  linkStep_sendLink h (by decide) (Nat.le_refl _) fun hm => absurd hm (by decide)

theorem linkStep_sendConfigRsp (h : LinkOk me peer e) : LinkStep me peer e e.hciH5SendConfigRsp :=
  linkStep_sendLink h (by decide) (Nat.le_refl _) fun _ => by rw [h.hciH5Config]

theorem linkStep_sendPureAck (h : LinkOk me peer e) : LinkStep me peer e e.hciH5SendPureAck :=
  linkStep_send h (honest_other h (by decide) (by decide) (by decide))

theorem linkStep_sendData (h : LinkOk me peer e) (now : UInt32) :
    LinkStep me peer e (e.hciH5SendData now) := by
  unfold hciH5SendData
  split_ifs
  · exact h.stay
  · exact h.stay
  · have hopen : LinkOk me peer { e with txSlidWinSize := e.txSlidWinSize + 1 } :=
      ⟨h.hciH5Config, h.txSeq, h.txAck, h.rxAck, h.crc, h.active⟩
    have hsend := linkStep_send hopen (honest_data hopen
      (e.hciTxFifo.get ((e.hciTxFifo.rptr + e.txSlidWinSize) % 2 ^ 8)))
    obtain ⟨⟨hcfg, hseq, hack, hrx, hcrc, hactive⟩, hout⟩ := hsend
    simp only
    split_ifs
    · exact ⟨⟨hcfg, hseq, hack, hrx, hcrc, hactive⟩, hout⟩
    · exact ⟨⟨hcfg, Nat.mod_lt _ (by simp), hack, hrx, hcrc, hactive⟩, hout⟩

theorem linkStep_resendStart (h : LinkOk me peer e) (now : UInt32) :
    LinkStep me peer e (e.hciH5ResendStart now) := by
  have hstart : LinkOk me peer { e with txSeq := e.rxAck, txSlidWinSize := 0 } :=
    ⟨h.hciH5Config, h.rxAck, h.txAck, h.rxAck, h.crc, h.active⟩
  exact ⟨(linkStep_sendData hstart now).1, (linkStep_sendData hstart now).2⟩

theorem linkStep_poll (h : LinkOk me peer e) (now : UInt32) :
    LinkStep me peer e (e.hciH5Poll now) := by
  have hticks : ∀ {txTick rxTick resendTick : UInt32}, LinkOk me peer
      { e with txTick := txTick, rxTick := rxTick, resendTick := resendTick } :=
    ⟨h.hciH5Config, h.txSeq, h.txAck, h.rxAck, h.crc, h.active⟩
  unfold hciH5Poll
  split
  · split_ifs
    · obtain ⟨⟨hcfg, hseq, hack, hrx, hcrc, hactive⟩, hout⟩ := linkStep_sendSync h
      exact ⟨⟨hcfg, hseq, hack, hrx, hcrc, hactive⟩, hout⟩
    · exact h.stay
  · split_ifs
    · obtain ⟨⟨hcfg, hseq, hack, hrx, hcrc, hactive⟩, hout⟩ := linkStep_sendConfig h
      exact ⟨⟨hcfg, hseq, hack, hrx, hcrc, hactive⟩, hout⟩
    · exact h.stay
  · have hdata : LinkStep me peer e (e.pollData now) := by
      unfold pollData
      split_ifs
      · exact ⟨(linkStep_resendStart hticks now).1, (linkStep_resendStart hticks now).2⟩
      · exact h.stay
      · exact ⟨(linkStep_resendStart hticks now).1, (linkStep_resendStart hticks now).2⟩
      · exact h.stay
      · exact linkStep_sendData h now
    refine hdata.trans ?_
    obtain ⟨⟨hcfg, hseq, hack, hrx, hcrc, hactive⟩, -⟩ := hdata
    unfold pollAck
    split_ifs
    · have htick : LinkOk me peer { e.pollData now with rxTick := 0 } :=
        ⟨hcfg, hseq, hack, hrx, hcrc, hactive⟩
      obtain ⟨⟨hcfg, hseq, hack, hrx, hcrc, hactive⟩, hout⟩ := linkStep_sendPureAck htick
      exact ⟨⟨hcfg, hseq, hack, hrx, hcrc, hactive⟩, hout⟩
    · exact LinkOk.stay ⟨hcfg, hseq, hack, hrx, hcrc, hactive⟩

/-! ### Receiving -/

/-- A number read from a header is three bits long. -/
theorem ackNum_lt (q : Mem) : (hciH5UnpackHeader q).ackNum < 8 := Nat.mod_lt _ (by decide)

theorem linkStep_receiveAck (h : LinkOk me peer e) (q : Mem) (now : UInt32) :
    LinkStep me peer e (e.receiveAck (hciH5UnpackHeader q) now) := by
  unfold receiveAck releaseSent
  split
  · exact ⟨⟨h.hciH5Config, h.txSeq, h.txAck, ackNum_lt q, h.crc, h.active⟩, .of_out_eq rfl⟩
  · exact ⟨⟨h.hciH5Config, h.txSeq, h.txAck, h.rxAck, h.crc, h.active⟩, .of_out_eq rfl⟩

theorem linkStep_receiveSeq (h : LinkOk me peer e) (head : HciH5Head) (q : Mem) (now : UInt32) :
    LinkStep me peer e (e.receiveSeq head q now) := by
  have hcount : LinkOk me peer { e with txAck := (e.txAck + 1) % 8
                                        rxSlidWinSize := (e.rxSlidWinSize + 1) % 2 ^ 8
                                        rxTick := now ||| 1 } :=
    ⟨h.hciH5Config, h.txSeq, Nat.mod_lt _ (by simp), h.rxAck, h.crc, h.active⟩
  unfold receiveSeq countReceived
  simp only
  split_ifs
  · obtain ⟨⟨hcfg, hseq, hack, hrx, hcrc, hactive⟩, hout⟩ := linkStep_sendPureAck hcount
    exact ⟨⟨hcfg, hseq, hack, hrx, hcrc, hactive⟩, hout⟩
  · obtain ⟨hcfg, hseq, hack, hrx, hcrc, hactive⟩ := hcount
    exact ⟨⟨hcfg, hseq, hack, hrx, hcrc, hactive⟩, .of_out_eq rfl⟩
  · exact h.stay

/-- A link message: the configuration taken is the one negotiated when the message is honest. -/
theorem linkStep_decodeLinkPdu {c d : LocalConfig} (h : LinkOk c.config d.config e) {q : Mem}
    (hcfg : u16At (adv q hciH5HeadLen) = hciH5MsgConfigRsp →
      q (hciH5HeadLen + 2) = configByte d.config)
    (now : UInt32) : LinkStep c.config d.config e (e.hciH5DecodeLinkPdu q now) := by
  have hreset : LinkOk c.config d.config ({ e with linkState := .idle }.hciH5Reset now) :=
    ⟨h.hciH5Config, Nat.zero_lt_succ _, Nat.zero_lt_succ _, Nat.zero_lt_succ _, h.crc,
      fun hactive => by cases hactive⟩
  have hinit : LinkOk c.config d.config { e with linkState := .init } :=
    ⟨h.hciH5Config, h.txSeq, h.txAck, h.rxAck, h.crc, fun hactive => by cases hactive⟩
  unfold hciH5DecodeLinkPdu
  cases e.linkState with
  | idle =>
    simp only
    split_ifs
    · exact linkStep_sendSyncRsp h
    · exact ⟨(linkStep_sendConfig hinit).1, (linkStep_sendConfig hinit).2⟩
    · exact linkStep_sendSync h
  | init =>
    simp only
    split_ifs with h₁ h₂ h₃
    · exact linkStep_sendSyncRsp h
    · exact linkStep_sendConfigRsp h
    · have hbyte := hcfg h₃
      have hneg : (e.activate (q (hciH5HeadLen + 2)).toNat now).config =
        negotiated c.config d.config := by
        have hs := d.slidWinSize
        have ho := d.oofFlowCtrl
        have hd := d.dataIntgrtChkType
        have hv := d.version
        rw [hbyte, configByte_toNat]
        simp only [activate, setConfig, hciH5Reset, h.hciH5Config, negotiated]
        congr 2 <;> omega
      refine ⟨⟨h.hciH5Config, Nat.zero_lt_succ _, Nat.zero_lt_succ _, Nat.zero_lt_succ _, ?_,
        fun _ => hneg⟩, .of_out_eq rfl⟩
      rw [hneg]
      exact Nat.and_le_left.trans_lt c.dataIntgrtChkType
    · exact h.stay
  | active =>
    simp only
    split_ifs
    · exact linkStep_sendConfigRsp h
    · exact ⟨(linkStep_sendSyncRsp hreset).1, (linkStep_sendSyncRsp hreset).2⟩
    · exact h.stay

/-- Any packet: the invariant is kept when it is honest. -/
theorem linkStep_pakcetHandler {c d : LocalConfig} (h : LinkOk c.config d.config e) {q : Mem}
    (hcfg : (hciH5UnpackHeader q).pktType = hciH5PktTypeLinkCtrl →
      u16At (adv q hciH5HeadLen) = hciH5MsgConfigRsp → q (hciH5HeadLen + 2) = configByte d.config)
    (len : ℕ) (now : UInt32) : LinkStep c.config d.config e (e.hciH5PakcetHandler q len now) := by
  rcases pakcetHandler_cases e q len now with heq | ⟨hwf, hack, hactive⟩ | ⟨hwf, hlink⟩ | hdata
  · rw [heq]
    exact h.stay
  · rw [pakcetHandler_of_ack hwf hack hactive]
    unfold hciH5ReSendCheck releaseSent
    split
    · exact ⟨⟨h.hciH5Config, h.txSeq, h.txAck, ackNum_lt q, h.crc, h.active⟩, .of_out_eq rfl⟩
    · exact ⟨⟨h.hciH5Config, h.txSeq, h.txAck, ackNum_lt q, h.crc, h.active⟩, .of_out_eq rfl⟩
  · rw [pakcetHandler_of_link hwf hlink]
    exact linkStep_decodeLinkPdu h (hcfg hlink) now
  · rw [pakcetHandler_of_takesData hdata]
    split_ifs
    · have howed : LinkOk c.config d.config { e with owed := true } :=
        ⟨h.hciH5Config, h.txSeq, h.txAck, h.rxAck, h.crc, h.active⟩
      have hseq := linkStep_receiveSeq howed (hciH5UnpackHeader q) q now
      obtain ⟨hok, hout⟩ := hseq.trans (linkStep_receiveAck hseq.1 q now)
      exact ⟨hok, hout⟩
    · exact ⟨⟨h.hciH5Config, h.txSeq, Nat.mod_lt _ (by simp), h.rxAck, h.crc, h.active⟩,
        .of_out_eq rfl⟩

/-- Any honest SLIP packet. -/
theorem linkStep_decodePacket {c d : LocalConfig} (h : LinkOk c.config d.config e) {w : List UInt8}
    (hw : Honest d.config w) (now : UInt32) :
    LinkStep c.config d.config e (e.hciSlipDecodePacket w now) := by
  obtain ⟨oofEnable, f, rfl, hlen, hf⟩ := hw
  obtain ⟨buf, hbuf⟩ := slipDecodePacket_encode hlen oofEnable now e
  have hbufOk : ∀ b, LinkOk c.config d.config (e.withBuf b) :=
    fun b => ⟨h.hciH5Config, h.txSeq, h.txAck, h.rxAck, h.crc, h.active⟩
  rw [hbuf]
  split_ifs
  · obtain ⟨hok, hout⟩ := linkStep_pakcetHandler (hbufOk _) (hf buf) f.length now
    exact ⟨hok, hout⟩
  · exact ⟨hbufOk buf, .of_out_eq rfl⟩

end H5

/-! ### Runs -/

namespace H5Net

/-- The window of a link. -/
def linkWindow (c : Side → LocalConfig) : ℕ :=
  min (c .left).config.slidWinSize (c .right).config.slidWinSize

theorem linkWindow_lt (c : Side → LocalConfig) : linkWindow c < 8 :=
  (min_le_left _ _).trans_lt (c .left).slidWinSize

theorem negotiated_window (c : Side → LocalConfig) (s : Side) :
    (negotiated (c s).config (c s.peer).config).slidWinSize = linkWindow c := by
  cases s with
  | left => rfl
  | right => exact min_comm _ _

/-- Two endpoints after `HCI_H5_Init`, with their FIFOs, their decode buffers and the time. -/
def linkInit (c : Side → LocalConfig) (rx : Side → RingBuffer RxPkt) (tx : Side → RingBuffer TxPkt)
    (size : Side → ℕ) (buf : Side → Mem) (now : Side → UInt32) : H5Net where
  side s := H5.hciH5Init (c s).config (rx s) (tx s) (size s) (buf s) (now s)
  wire _ := []

/-- The invariant of the runs: both endpoints keep theirs, and the wires carry honest
packets. -/
structure Linked (c : Side → LocalConfig) (n : H5Net) : Prop where
  /-- The endpoints. -/
  side : ∀ s, H5.LinkOk (c s).config (c s.peer).config (n.side s)
  /-- Nothing given to the UART is waiting for the wire. -/
  out : ∀ s, (n.side s).out = []
  /-- The wires. -/
  wire : ∀ s, ∀ w ∈ n.wire s, H5.Honest (c s).config w

variable {c : Side → LocalConfig} {n : H5Net}

/-- An endpoint that makes a step keeps the invariant. -/
theorem Linked.set (h : Linked c n) (s : Side) {e : H5}
    (he : H5.LinkStep (c s).config (c s.peer).config (n.side s) e) : Linked c (n.set s e) := by
  obtain ⟨⟨hcfg, hseq, hack, hrx, hcrc, hactive⟩, ws, hout, hws⟩ := he
  rw [h.out s, List.nil_append] at hout
  refine ⟨fun t => ?_, fun t => ?_, fun t => ?_⟩
  · rcases Side.eq_or_eq_peer s t with rfl | rfl
    · rw [set_side_self]
      exact ⟨hcfg, hseq, hack, hrx, hcrc, hactive⟩
    · rw [set_side_peer]
      exact h.side _
  · rcases Side.eq_or_eq_peer s t with rfl | rfl
    · rw [set_side_self]
    · rw [set_side_peer]
      exact h.out _
  · rcases Side.eq_or_eq_peer s t with rfl | rfl
    · rw [set_wire_self, hout]
      intro w hw
      exact (List.mem_append.mp hw).elim (h.wire _ w) (hws w)
    · rw [set_wire_peer]
      exact h.wire _

/-- A wire that loses a packet keeps the invariant. -/
theorem Linked.setWire (h : Linked c n) (s : Side) {ws : List (List UInt8)} (hws : ws ⊆ n.wire s) :
    Linked c (n.setWire s ws) := by
  refine ⟨h.side, h.out, fun t => ?_⟩
  rcases Side.eq_or_eq_peer s t with rfl | rfl
  · rw [setWire_wire_self]
    exact fun w hw => h.wire _ w (hws hw)
  · rw [setWire_wire_peer]
    exact h.wire _

/-- One thing that happens keeps the invariant. -/
theorem Linked.step (h : Linked c n) (i : H5Input) : Linked c (n.step i) := by
  cases i with
  | poll s now => exact h.set s (H5.linkStep_poll (h.side s) now)
  | recv s now =>
    simp only [H5Net.step]
    split
    · exact h
    · rename_i p ps hp
      have htail : Linked c (n.setWire s.peer ps) :=
        h.setWire s.peer (by rw [hp]; exact List.subset_cons_self _ _)
      have hhonest := h.wire s.peer p (by simp [hp])
      exact htail.set s (H5.linkStep_decodePacket (h.side s) hhonest now)
  | lose s => exact h.setWire s.peer (List.tail_sublist _).subset
  | txDone s =>
    have hok := h.side s
    exact h.set s ⟨⟨hok.hciH5Config, hok.txSeq, hok.txAck, hok.rxAck, hok.crc, hok.active⟩,
      .of_out_eq rfl⟩
  | queue s p =>
    have hok := h.side s
    refine h.set s ?_
    unfold H5.queue
    split_ifs
    · exact ⟨⟨hok.hciH5Config, hok.txSeq, hok.txAck, hok.rxAck, hok.crc, hok.active⟩,
        .of_out_eq rfl⟩
    · exact hok.stay
  | handle s =>
    have hok := h.side s
    refine h.set s ?_
    unfold H5.hciRxHandler
    split_ifs
    · exact hok.stay
    · exact ⟨⟨hok.hciH5Config, hok.txSeq, hok.txAck, hok.rxAck, hok.crc, hok.active⟩,
        .of_out_eq rfl⟩

/-- **Every run from `HCI_H5_Init` keeps the invariant.** -/
theorem linked_run (c : Side → LocalConfig) (rx : Side → RingBuffer RxPkt)
    (tx : Side → RingBuffer TxPkt)
    (size : Side → ℕ) (buf : Side → Mem) (now : Side → UInt32) (is : List H5Input) :
    Linked c ((linkInit c rx tx size buf now).run is) := by
  have htrue : Run.Along step (fun _ _ => True) (linkInit c rx tx size buf now) is :=
    Run.along_iff.mpr fun _ _ _ _ => trivial
  refine htrue.induction (P := fun _ n => Linked c n) ?_ fun is i h _ => h.step i
  refine ⟨fun s => ?_, fun _ => rfl, fun _ w hw => by cases hw⟩
  exact ⟨rfl, Nat.zero_lt_succ _, Nat.zero_lt_succ _, Nat.zero_lt_succ _, Nat.zero_lt_succ _,
    fun hactive => by cases hactive⟩

/-- **Two active endpoints have the same configuration, and it exceeds neither local one.** -/
theorem active_agree (c : Side → LocalConfig) (rx : Side → RingBuffer RxPkt)
    (tx : Side → RingBuffer TxPkt)
    (size : Side → ℕ) (buf : Side → Mem) (now : Side → UInt32) (is : List H5Input)
    (hactive : ∀ s, (((linkInit c rx tx size buf now).run is).side s).linkState = .active) :
    (((linkInit c rx tx size buf now).run is).side .left).config =
        (((linkInit c rx tx size buf now).run is).side .right).config ∧
      ∀ s t, (((linkInit c rx tx size buf now).run is).side s).config.Within (c t).config := by
  have h := linked_run c rx tx size buf now is
  have hneg : ∀ s, (((linkInit c rx tx size buf now).run is).side s).config =
      negotiated (c s).config (c s.peer).config := fun s => (h.side s).active (hactive s)
  refine ⟨?_, fun s t => ?_⟩
  · rw [hneg .left, hneg .right]
    exact negotiated_comm _ _
  · rw [hneg s]
    rcases Side.eq_or_eq_peer s t with rfl | rfl
    · exact negotiated_within _ _
    · rw [negotiated_comm]
      exact negotiated_within _ _

/-- Local configurations with different windows, and the check wanted by one side only. -/
def smallConfig : Side → LocalConfig
  | .left => ⟨⟨4, 0, 1, 0⟩, by decide, by decide, by decide, by decide⟩
  | .right => ⟨⟨2, 0, 0, 0⟩, by decide, by decide, by decide, by decide⟩

/-- Two endpoints after `HCI_H5_Init`, with eight slots in each FIFO. -/
def smallInit : H5Net :=
  linkInit smallConfig (fun _ => ⟨8, eight_dvd, fun _ => ⟨0, []⟩, 0, 0⟩)
    (fun _ => ⟨8, eight_dvd, fun _ => ⟨.event, [], TxPkt.fits_nil⟩, 0, 0⟩) (fun _ => 64)
    (fun _ _ => 0) fun _ => 0

/-- An event of one byte. -/
def byteEvent (b : UInt8) : TxPkt := ⟨.event, [b], by simp⟩

/-- A handshake in which one message is lost: the right side becomes active, then the left. -/
def handshake : List H5Input :=
  [.poll .left 5000000, .recv .right 5000000, .txDone .left, .txDone .right, .recv .left 5000000,
    .lose .right, .txDone .left, .poll .right 5000000, .recv .left 5000000, .txDone .left,
    .txDone .right, .recv .right 5000000, .recv .left 5000000, .recv .right 5000000, .txDone .left,
    .txDone .right, .poll .left 10000000, .recv .right 10000000, .recv .left 10000000]

/-- After the handshake both sides are active, with the smaller window and no check. -/
theorem handshake_agree :
    ((smallInit.run handshake).side .left).config = ((smallInit.run handshake).side .right).config ∧
      ∀ s t, ((smallInit.run handshake).side s).config.Within (smallConfig t).config :=
  active_agree smallConfig _ _ _ _ _ handshake (by
    intro s
    cases s <;> decide +kernel)

end H5Net

end TcBle.HciTransport
