import TcBle.Audio.AdpcmSession
import TcBle.Foundation.CyclicRing
import TcBle.Foundation.Run

/-!
# The encoder of the microphone

`application/audio/tl_audio.c`, `RCU_PROJECT`, in the ADPCM modes: `proc_mic_encoder` encodes one half of
`buffer_mic` whenever the microphone writes the other one, into a ring of four packets, from which
`mic_encoder_data_buffer` gives the oldest one. In the modes over GATT the oldest packet makes room for a
new one; with the HID service a new one waits.

## The model

`get_mic_wr_ptr()` and what `buffer_mic` holds are arguments. The suppression of noise and the filters,
which no application of the repository switches on, are left out, and so are the modes with SBC.

A run (`MicRun`) writes down the units of samples that were encoded, their frames, and the packets that
were taken.

## What is proved

* `MicRun.Kept.step` — the ring holds the newest frames, and what was taken are frames before them.
* `micRun_sent` — the packets of any run are frames of its units, in order, none twice, and none is lost
  while there is room; each is decoded to what the encoder rebuilds of its unit.
-/

namespace TcBle.Audio

open TcBle.Foundation TcBle.Foundation.CyclicRing TcBle.HciTransport

/-! ### The sizes -/

namespace Format

/-- `TL_MIC_ADPCM_UNIT_SIZE`. -/
def micAdpcmUnitSize : Format → ℕ
  | .gattTelink => 248
  | .googleV0p4 => 256
  | .googleV1p0 | .hid => 240

/-- `ADPCM_PACKET_LEN`. -/
def adpcmPacketLen : Format → ℕ
  | .gattTelink => 128
  | .googleV0p4 => 136
  | .googleV1p0 | .hid => 120

/-- `TL_MIC_BUFFER_SIZE`. -/
def micBufferSize : Format → ℕ
  | .gattTelink => 992
  | .googleV0p4 => 1024
  | .googleV1p0 | .hid => 960

/-- What a frame takes of its packet. -/
def frameLen : Format → ℕ
  | .gattTelink => 128
  | .googleV0p4 => 134
  | .googleV1p0 | .hid => 120

theorem frameLen_le (f : Format) : f.frameLen ≤ f.adpcmPacketLen := by
  cases f <;> decide

/-- Half of the buffer is one unit. -/
theorem half_eq (f : Format) : f.micBufferSize >>> 2 = f.micAdpcmUnitSize := by
  cases f <;> rfl

theorem four_dvd_unitSize (f : Format) : 4 ∣ f.micAdpcmUnitSize := by
  cases f <;> decide

end Format

/-! ### The encoder -/

/-- `TL_MIC_PACKET_BUFFER_NUM`. -/
def micPacketBufferNum : ℕ := 4

/-- The encoder. -/
structure MicEncoder where
  /-- `buffer_mic_rptr`. -/
  bufferMicRptr : ℕ
  /-- `buffer_mic_pkt_wptr`. -/
  bufferMicPktWptr : UInt8
  /-- `buffer_mic_pkt_rptr`. -/
  bufferMicPktRptr : UInt8
  /-- `buffer_mic_enc`, as bytes. -/
  bufferMicEnc : Mem
  /-- `predict` and `predict_idx`. -/
  adpcm : AdpcmState
  /-- `adpcm_serial_num`, of GATT Google. -/
  adpcmSerialNum : UInt16

namespace MicEncoder

variable (f : Format) (s : MicEncoder)

/-- Where the packet of a counter lies. -/
def packetAt (ptr : UInt8) : ℕ := (ptr &&& 3).toNat * f.adpcmPacketLen

/-- The samples that the microphone is ahead: `l`. -/
def ahead (micWptr : ℕ) : ℕ :=
  if micWptr ≥ s.bufferMicRptr then micWptr - s.bufferMicRptr else 0xffff

/-- The packets in the ring: `pkts`. -/
def pkts : UInt8 := (s.bufferMicPktWptr - s.bufferMicPktRptr) &&& 7

/-- `proc_mic_encoder` encodes. -/
def Encodes (micWptr : ℕ) : Prop :=
  s.ahead micWptr ≥ f.micBufferSize >>> 2 ∧ (f = .hid → s.pkts < 4)

instance (micWptr : ℕ) : Decidable (s.Encodes f micWptr) := inferInstanceAs (Decidable (_ ∧ _))

/-- The samples that it encodes. -/
def unit (bufferMic : ℕ → Int16) : List Int16 :=
  (List.range f.micAdpcmUnitSize).map fun i => bufferMic (s.bufferMicRptr + i)

/-- `mic_to_adpcm_split`, of these samples. -/
def encoded (bufferMic : ℕ → Int16) : Encoded :=
  encodeFrame f.adpcmPacketLen s.adpcmSerialNum f s.adpcm (s.unit f bufferMic)

/-- `proc_mic_encoder`, the encoding. -/
def encodeUnit (bufferMic : ℕ → Int16) : MicEncoder where
  bufferMicRptr := if s.bufferMicRptr ≠ 0 then 0 else f.micBufferSize >>> 2
  bufferMicPktWptr := s.bufferMicPktWptr + 1
  bufferMicPktRptr := s.bufferMicPktRptr
  bufferMicEnc :=
    memcpy s.bufferMicEnc (packetAt f s.bufferMicPktWptr) (s.encoded f bufferMic).frame
  adpcm := (s.encoded f bufferMic).trace.endState
  adpcmSerialNum := s.adpcmSerialNum + 1

/-- `proc_mic_encoder`, when there are more packets than the ring has room for. -/
def dropOldest : MicEncoder :=
  if s.pkts > 4 then { s with bufferMicPktRptr := s.bufferMicPktRptr + 1 } else s

/-- `proc_mic_encoder`. -/
def procMicEncoder (micWptr : ℕ) (bufferMic : ℕ → Int16) : MicEncoder :=
  if s.Encodes f micWptr then
    if f = .hid then s.encodeUnit f bufferMic else (s.encodeUnit f bufferMic).dropOldest
  else s

/-- `mic_encoder_data_buffer`. -/
def micEncoderDataBuffer : Option Mem :=
  if s.bufferMicPktRptr = s.bufferMicPktWptr then none
  else some (adv s.bufferMicEnc (packetAt f s.bufferMicPktRptr))

/-- `mic_encoder_data_read_ok`. -/
def micEncoderDataReadOk : MicEncoder := { s with bufferMicPktRptr := s.bufferMicPktRptr + 1 }

end MicEncoder

/-! ### Runs -/

/-- What happens to the encoder. -/
inductive MicEvent where
  /-- `proc_mic_encoder` is called. -/
  | proc (micWptr : ℕ) (bufferMic : ℕ → Int16)
  /-- The packet of `mic_encoder_data_buffer` is handed over, which works or does not. -/
  | send (ok : Bool)

/-- A run of the encoder. -/
structure MicRun where
  /-- The encoder. -/
  encoder : MicEncoder
  /-- The units that were encoded. -/
  units : List (List Int16)
  /-- Their frames. -/
  frames : List (List UInt8)
  /-- The packets that were handed over. -/
  sent : List (List UInt8)

namespace MicRun

variable (f : Format)

/-- It begins, with nothing written down. -/
def begin (s : MicEncoder) : MicRun := ⟨s, [], [], []⟩

/-- One step. -/
def step (r : MicRun) : MicEvent → MicRun
  | .proc micWptr bufferMic =>
    { r with
      encoder := r.encoder.procMicEncoder f micWptr bufferMic
      units := if r.encoder.Encodes f micWptr then r.units ++ [r.encoder.unit f bufferMic]
        else r.units
      frames := if r.encoder.Encodes f micWptr then
          r.frames ++ [(r.encoder.encoded f bufferMic).frame]
        else r.frames }
  | .send ok =>
    match r.encoder.micEncoderDataBuffer f with
    | none => r
    | some p =>
      if ok then
        { r with
          encoder := r.encoder.micEncoderDataReadOk
          sent := r.sent ++ [bytes p f.adpcmPacketLen] }
      else r

/-- Some steps. -/
def run (s : MicEncoder) (es : List MicEvent) : MicRun := es.foldl (step f) (begin s)

end MicRun

/-! ### The frames -/

/-- A unit, encoded from the serial number and the state of the codec. -/
def encodeUnitFrom (f : Format) (c : UInt16 × AdpcmState) (ps : List Int16) : Encoded :=
  encodeFrame f.adpcmPacketLen c.1 f c.2 ps

/-- The serial number and the state behind a unit. -/
def codecNext (f : Format) (c : UInt16 × AdpcmState) (ps : List Int16) : UInt16 × AdpcmState :=
  (c.1 + 1, (encodeUnitFrom f c ps).trace.endState)

/-- Units, encoded one after the other. -/
def encodedUnits (f : Format) : UInt16 × AdpcmState → List (List Int16) → List Encoded
  | _, [] => []
  | c, ps :: units => encodeUnitFrom f c ps :: encodedUnits f (codecNext f c ps) units

/-- One more unit. -/
theorem encodedUnits_concat (f : Format) (c : UInt16 × AdpcmState) (units : List (List Int16))
    (ps : List Int16) :
    encodedUnits f c (units ++ [ps]) =
      encodedUnits f c units ++ [encodeUnitFrom f (units.foldl (codecNext f) c) ps] := by
  induction units generalizing c with
  | nil => rfl
  | cons qs units ih => rw [List.cons_append, encodedUnits, ih, encodedUnits]; rfl

@[simp] theorem length_encodedUnits (f : Format) (c : UInt16 × AdpcmState)
    (units : List (List Int16)) : (encodedUnits f c units).length = units.length := by
  induction units generalizing c with
  | nil => rfl
  | cons ps units ih => rw [encodedUnits, List.length_cons, ih, List.length_cons]

theorem length_packCodes (store : UInt16 → UInt16) {codes : List UInt16} (h : 4 ∣ codes.length) :
    (packCodes store codes).length * 4 = codes.length := by
  induction codes using quads with
  | short codes hshort =>
    obtain rfl := eq_nil_of_short hshort h
    rfl
  | quad a b c d codes ih =>
    rw [List.length_cons, List.length_cons, List.length_cons, List.length_cons] at h
    rw [packCodes, List.length_cons, Nat.succ_mul, ih (by omega)]
    simp only [List.length_cons]

/-- A frame is its header and half a byte for each sample. -/
theorem length_micBody (store : UInt16 → UInt16) (header : List UInt8) (s : AdpcmState)
    {ps : List Int16} (hps : 4 ∣ ps.length) :
    (micBody store header s ps).frame.length = header.length + ps.length / 2 := by
  have hcodes := Lockstep.length_codes encodeSample s ps
  have hpack := length_packCodes store (hcodes ▸ hps)
  have htwo : ∀ ws : List UInt16, (ws.flatMap wordBytes).length = ws.length * 2 := fun ws => by
    induction ws with
    | nil => rfl
    | cons w ws ih =>
      rw [List.flatMap_cons, List.length_append, ih, List.length_cons, wordBytes]
      simp only [List.length_cons, List.length_nil]
      omega
  rw [micBody, micLoop_eq store hps (Nat.dvd_zero 4)]
  simp only [List.length_append, htwo]
  omega

/-- A frame of a unit fills what it takes of its packet. -/
theorem length_frame (f : Format) (adpcmSerialNum : UInt16) (s : AdpcmState) {ps : List Int16}
    (hps : ps.length = f.micAdpcmUnitSize) :
    (encodeFrame f.adpcmPacketLen adpcmSerialNum f s ps).frame.length = f.frameLen := by
  have hfour : 4 ∣ ps.length := hps ▸ f.four_dvd_unitSize
  cases f <;>
    simp only [encodeFrame, micToAdpcmSplitTelink, micToAdpcmSplitGoogle, micToAdpcmSplitHid,
      length_micBody _ _ _ hfour, hps] <;>
    rfl

namespace MicEncoder

variable {f : Format} {s : MicEncoder}

@[simp] theorem length_unit (bufferMic : ℕ → Int16) :
    (s.unit f bufferMic).length = f.micAdpcmUnitSize := by
  rw [unit, List.length_map, List.length_range]

/-! ### The ring -/

/-- The frames in the ring. -/
def Ring (f : Format) (s : MicEncoder) (items : List (List UInt8)) : Prop :=
  Holds micPacketBufferNum (2 ^ 8)
    (fun k => (slot s.bufferMicEnc f.adpcmPacketLen k).take f.frameLen)
    s.bufferMicPktWptr.toNat s.bufferMicPktRptr.toNat items

theorem packetAt_eq (f : Format) (ptr : UInt8) :
    packetAt f ptr = ptr.toNat % micPacketBufferNum * f.adpcmPacketLen :=
  congrArg (· * f.adpcmPacketLen)
    ((UInt8.toNat_and ptr 3).trans (Nat.and_two_pow_sub_one_eq_mod ptr.toNat 2))

theorem toNat_pkts (s : MicEncoder) : s.pkts.toNat =
    (s.bufferMicPktWptr.toNat + (2 ^ 8 - s.bufferMicPktRptr.toNat)) % 2 ^ 8 % 8 := by
  rw [pkts, UInt8.toNat_and, UInt8.toNat_sub, Nat.add_comm]
  exact Nat.and_two_pow_sub_one_eq_mod _ 3

/-- Writing a frame changes one slot. -/
theorem slots_encodeUnit (bufferMic : ℕ → Int16) :
    (fun k => (slot (s.encodeUnit f bufferMic).bufferMicEnc f.adpcmPacketLen k).take f.frameLen) =
      Function.update (fun k => (slot s.bufferMicEnc f.adpcmPacketLen k).take f.frameLen)
        (s.bufferMicPktWptr.toNat % micPacketBufferNum) (s.encoded f bufferMic).frame := by
  have hlen : (s.encoded f bufferMic).frame.length = f.frameLen :=
    length_frame f s.adpcmSerialNum s.adpcm (length_unit bufferMic)
  have hle := hlen.trans_le f.frameLen_le
  funext k
  show (slot (memcpy _ (packetAt f s.bufferMicPktWptr) _) _ k).take _ = _
  rw [packetAt_eq]
  by_cases hk : k = s.bufferMicPktWptr.toNat % micPacketBufferNum
  · rw [hk, Function.update_self, slot_memcpy_self _ _ hle, List.take_left' hlen]
  · rw [Function.update_of_ne hk, slot_memcpy_of_ne _ hle hk]

/-- `pkts` counts the frames. -/
theorem Ring.pkts {items : List (List UInt8)} (h : s.Ring f items) :
    s.pkts.toNat = items.length := by
  have hroom : items.length ≤ 4 := h.room
  rw [toNat_pkts, h.count (hroom.trans_lt (by decide)), Nat.mod_eq_of_lt (by omega)]

/-- **An encoded unit** goes behind the frames, of which the ring keeps the last four. -/
theorem Ring.procMicEncoder {items : List (List UInt8)} (h : s.Ring f items) {micWptr : ℕ}
    (henc : s.Encodes f micWptr) (bufferMic : ℕ → Int16) :
    (s.procMicEncoder f micWptr bufferMic).Ring f
      ((items ++ [(s.encoded f bufferMic).frame]).drop (items.length - 3)) := by
  have hroom : items.length ≤ 4 := h.room
  have hpkts := h.pkts
  have hslots := slots_encodeUnit (f := f) (s := s) bufferMic
  have hwptr : (s.encodeUnit f bufferMic).bufferMicPktWptr.toNat =
      (s.bufferMicPktWptr.toNat + 1) % 2 ^ 8 := UInt8.toNat_add _ _
  have hdvd : micPacketBufferNum ∣ 2 ^ 8 := by decide
  rw [MicEncoder.procMicEncoder, if_pos henc]
  by_cases hlt : items.length < micPacketBufferNum
  · have hpush := h.push hdvd hlt (s.encoded f bufferMic).frame
    rw [← hslots, ← hwptr] at hpush
    have hring : (s.encodeUnit f bufferMic).Ring f
        (items ++ [(s.encoded f bufferMic).frame]) := hpush
    have hkeep : (s.encodeUnit f bufferMic).dropOldest = s.encodeUnit f bufferMic := by
      refine if_neg (UInt8.not_lt.mpr (UInt8.le_iff_toNat_le.mpr ?_))
      rw [hring.pkts, List.length_append]
      exact hlt
    have hzero : items.length - 3 = 0 := Nat.sub_eq_zero_of_le (Nat.le_of_lt_succ hlt)
    rw [hkeep, ite_self, hzero, List.drop_zero]
    exact hring
  · -- the ring is full: with the HID service nothing is encoded, and otherwise the oldest one goes
    have hfull : items.length = micPacketBufferNum := le_antisymm hroom (not_lt.mp hlt)
    have hmode : f ≠ .hid := by
      intro hhid
      have hless := UInt8.lt_iff_toNat_lt.mp (henc.2 hhid)
      rw [hpkts, hfull] at hless
      exact absurd hless (by decide)
    have hshove := h.shove hdvd (by decide) hfull (s.encoded f bufferMic).frame
    rw [← hslots, ← hwptr] at hshove
    have hfive : (s.encodeUnit f bufferMic).pkts > 4 := by
      have hcount := h.count (hfull.trans_lt (by decide))
      have hr := h.rptr_lt
      refine UInt8.lt_iff_toNat_lt.mpr ?_
      rw [toNat_pkts, hwptr]
      show 4 < ((s.bufferMicPktWptr.toNat + 1) % 2 ^ 8 +
        (2 ^ 8 - s.bufferMicPktRptr.toNat)) % 2 ^ 8 % 8
      rw [hfull] at hcount
      unfold micPacketBufferNum at hcount
      omega
    have hdrop : (items ++ [(s.encoded f bufferMic).frame]).drop (items.length - 3) =
        items.tail ++ [(s.encoded f bufferMic).frame] := by
      rw [hfull, ← List.drop_one, List.drop_append_of_le_length (by rw [hfull]; decide)]
      rfl
    rw [if_neg hmode, dropOldest, if_pos hfive, hdrop]
    exact hshove

/-- **The packet that is given** holds the oldest frame, and taking it takes that one away. -/
theorem Ring.micEncoderDataBuffer {items : List (List UInt8)} (h : s.Ring f items) :
    (items = [] ∧ s.micEncoderDataBuffer f = none) ∨
      ∃ frame rest p, items = frame :: rest ∧ s.micEncoderDataBuffer f = some p ∧
        (bytes p f.adpcmPacketLen).take f.frameLen = frame ∧
        s.micEncoderDataReadOk.Ring f rest := by
  have hroom : items.length ≤ 4 := h.room
  have hempty := h.eq_nil_iff (hroom.trans_lt (by decide))
  rw [UInt8.toNat_inj] at hempty
  cases items with
  | nil => exact Or.inl ⟨rfl, if_pos (hempty.mpr rfl).symm⟩
  | cons frame rest =>
    have hne : s.bufferMicPktRptr ≠ s.bufferMicPktWptr := fun heq =>
      List.cons_ne_nil _ _ (hempty.mp heq.symm)
    refine Or.inr ⟨frame, rest, _, rfl, if_neg hne, ?_, ?_⟩
    · rw [packetAt_eq]
      exact h.slots 0 (Nat.zero_lt_succ _)
    · have hdrop := h.drop (n := 1) (show micPacketBufferNum ∣ 2 ^ 8 by decide)
        (Nat.succ_le_succ (Nat.zero_le _))
      have hrptr : s.micEncoderDataReadOk.bufferMicPktRptr.toNat =
          (s.bufferMicPktRptr.toNat + 1) % 2 ^ 8 := UInt8.toNat_add _ _
      rw [← hrptr] at hdrop
      exact hdrop

end MicEncoder

/-! ### What the packets carry -/

/-- The decoder's traces for packets that come in order, when it starts in the state `t`. -/
def decodedPackets (f : Format) : AdpcmState → List (List UInt8 × Mem) → List Trace
  | _, [] => []
  | t, (packet, rest) :: packets =>
    let d := decodeFrame f t (buffer packet rest) f.micAdpcmUnitSize
    d :: decodedPackets f d.endState packets

/-- A packet holds the frame of an encoded unit, and where that has a header, any decoder gives the
encoder's trace. -/
structure Carries (f : Format) (packet : List UInt8) (e : Encoded) : Prop where
  /-- The frame. -/
  frame : packet.take f.frameLen = e.frame
  /-- The decoder. -/
  decoded : f.header = true → ∀ t rest,
    decodeFrame f t (buffer packet rest) f.micAdpcmUnitSize = e.trace

/-- A packet is its frame, and what lies behind it. -/
theorem buffer_of_take {packet data : List UInt8} {n : ℕ} (h : packet.take n = data)
    (rest : Mem) : buffer packet rest = buffer data (buffer packet rest) := by
  funext i
  rw [buffer_apply data, ← h]
  by_cases hi : i < (packet.take n).length
  · have hlen : i < packet.length := hi.trans_le (List.length_take_le' _ _)
    rw [buffer_apply, List.getD_eq_getElem _ _ hlen, List.getD_eq_getElem _ _ hi,
      List.getElem_take]
  · rw [List.getD_eq_default _ _ (not_lt.mp hi)]

theorem decodeFrame_packet (f : Format) {c : UInt16 × AdpcmState} (hc : c.2.InRange)
    {ps : List Int16} (hps : ps.length = f.micAdpcmUnitSize) {packet : List UInt8}
    (hpacket : packet.take f.frameLen = (encodeUnitFrom f c ps).frame) {t : AdpcmState}
    (ht : f.header = false → t = c.2) (rest : Mem) :
    decodeFrame f t (buffer packet rest) f.micAdpcmUnitSize = (encodeUnitFrom f c ps).trace := by
  rw [buffer_of_take hpacket, ← hps]
  exact decodeFrame_encodeFrame _ _ f hc ht (hps ▸ f.four_dvd_unitSize) _

theorem codecNext_inRange {f : Format} {c : UInt16 × AdpcmState} (hc : c.2.InRange)
    {ps : List Int16} (hps : ps.length = f.micAdpcmUnitSize) : (codecNext f c ps).2.InRange :=
  encodeFrame_endState _ _ f hc (hps ▸ f.four_dvd_unitSize)

/-- Each frame of encoded units is carried by the packets that begin with it. -/
theorem carries_of_mem {f : Format} {c : UInt16 × AdpcmState} (hc : c.2.InRange)
    {units : List (List Int16)} (hunits : ∀ u ∈ units, u.length = f.micAdpcmUnitSize)
    {e : Encoded} (he : e ∈ encodedUnits f c units) {packet : List UInt8}
    (hpacket : packet.take f.frameLen = e.frame) : Carries f packet e := by
  induction units generalizing c with
  | nil => cases he
  | cons ps units ih =>
    have hps := hunits ps List.mem_cons_self
    rcases List.mem_cons.mp he with rfl | he
    · refine ⟨hpacket, fun hheader t rest => decodeFrame_packet f hc hps hpacket ?_ rest⟩
      rw [hheader]
      exact fun h => absurd h (by decide)
    · exact ih (codecNext_inRange hc hps) (fun u hu => hunits u (List.mem_cons_of_mem _ hu)) he

/-- Packets that begin with the frames carry them. -/
theorem forall_carries {f : Format} {packets : List (List UInt8)} {es : List Encoded}
    (hcarries : ∀ e ∈ es, ∀ packet : List UInt8, packet.take f.frameLen = e.frame →
      Carries f packet e)
    (hframes : packets.map (List.take f.frameLen) = es.map Encoded.frame) :
    List.Forall₂ (Carries f) packets es := by
  induction es generalizing packets with
  | nil =>
    rw [List.map_nil, List.map_eq_nil_iff] at hframes
    rw [hframes]
    exact .nil
  | cons e es ih =>
    obtain ⟨packet, rest, rfl, htake, hrest⟩ := List.map_eq_cons_iff.mp hframes
    exact .cons (hcarries e List.mem_cons_self packet htake)
      (ih (fun e he => hcarries e (List.mem_cons_of_mem _ he)) hrest)

/-- **Packets without a gap** are decoded to the encoder's traces, in every format, by a decoder that
starts in the encoder's state. -/
theorem decodedPackets_eq {f : Format} {c : UInt16 × AdpcmState} (hc : c.2.InRange)
    {units : List (List Int16)} (hunits : ∀ u ∈ units, u.length = f.micAdpcmUnitSize)
    {packets : List (List UInt8 × Mem)}
    (hpackets : (packets.map fun p => p.1.take f.frameLen) <+:
      (encodedUnits f c units).map Encoded.frame) :
    decodedPackets f c.2 packets =
      ((encodedUnits f c units).take packets.length).map Encoded.trace := by
  induction packets generalizing c units with
  | nil => rfl
  | cons p packets ih =>
    obtain ⟨packet, rest⟩ := p
    cases units with
    | nil =>
      rw [List.map_cons, encodedUnits, List.map_nil, List.prefix_nil] at hpackets
      exact absurd hpackets (List.cons_ne_nil _ _)
    | cons ps units =>
      rw [List.map_cons, encodedUnits, List.map_cons, List.cons_prefix_cons] at hpackets
      have hps := hunits ps List.mem_cons_self
      have hd := decodeFrame_packet f hc hps hpackets.1 (fun _ => rfl) rest
      have hrest := ih (codecNext_inRange hc hps)
        (fun u hu => hunits u (List.mem_cons_of_mem _ hu)) hpackets.2
      rw [decodedPackets, hd, encodedUnits, List.length_cons, List.take_succ_cons, List.map_cons,
        ← hrest]
      rfl

/-! ### What a run keeps -/

namespace MicRun

variable {f : Format} {s₀ : MicEncoder} {r : MicRun}

/-- The serial number and the state of the codec. -/
def codec (s : MicEncoder) : UInt16 × AdpcmState := (s.adpcmSerialNum, s.adpcm)

/-- What holds after any steps. -/
structure Kept (f : Format) (s₀ : MicEncoder) (r : MicRun) : Prop where
  /-- The sizes of the units. -/
  units : ∀ u ∈ r.units, u.length = f.micAdpcmUnitSize
  /-- The state of the codec. -/
  codec : codec r.encoder = r.units.foldl (codecNext f) (codec s₀)
  /-- The frames are those of the units. -/
  frames : r.frames = (encodedUnits f (MicRun.codec s₀) r.units).map Encoded.frame
  /-- The ring holds the newest, and what was taken are some of the others. -/
  ring : ∃ gone items, r.frames = gone ++ items ∧ r.encoder.Ring f items ∧
    (r.sent.map (List.take f.frameLen)).Sublist gone

/-- A step that loses nothing: there is room in the ring when a unit is encoded. -/
def Roomy (f : Format) (r : MicRun) : MicEvent → Prop
  | .proc micWptr _ => r.encoder.Encodes f micWptr → r.encoder.pkts < 4
  | .send _ => True

/-- All that is not in the ring was taken. -/
def Lossless (f : Format) (r : MicRun) : Prop :=
  ∃ items, r.frames = r.sent.map (List.take f.frameLen) ++ items ∧ r.encoder.Ring f items

theorem codec_procMicEncoder {s : MicEncoder} {micWptr : ℕ} (henc : s.Encodes f micWptr)
    (bufferMic : ℕ → Int16) : MicRun.codec (s.procMicEncoder f micWptr bufferMic) =
      codecNext f (MicRun.codec s) (s.unit f bufferMic) := by
  rw [MicEncoder.procMicEncoder, if_pos henc]
  split
  · rfl
  · rw [MicEncoder.dropOldest]
    split <;> rfl

theorem begin_kept (hempty : s₀.bufferMicPktRptr = s₀.bufferMicPktWptr) :
    Kept f s₀ (begin s₀) ∧ Lossless f (begin s₀) := by
  have hring : s₀.Ring f [] := by
    rw [MicEncoder.Ring, hempty]
    exact holds_nil (UInt8.toNat_lt _)
  refine ⟨⟨?_, rfl, rfl, [], [], rfl, hring, List.Sublist.refl _⟩, [], rfl, hring⟩
  exact fun u hu => absurd hu List.not_mem_nil

theorem Kept.step (h : Kept f s₀ r) (e : MicEvent) : Kept f s₀ (r.step f e) := by
  obtain ⟨gone, items, hframes, hring, hsent⟩ := h.ring
  cases e with
  | proc micWptr bufferMic =>
    rw [MicRun.step]
    by_cases henc : r.encoder.Encodes f micWptr
    · rw [if_pos henc, if_pos henc]
      have hnext := codec_procMicEncoder henc bufferMic
      rw [h.codec] at hnext
      have hframe : (r.encoder.encoded f bufferMic).frame =
          (encodeUnitFrom f (r.units.foldl (codecNext f) (MicRun.codec s₀))
            (r.encoder.unit f bufferMic)).frame := by rw [← h.codec]; rfl
      refine ⟨fun u hu => ?_, ?_, ?_, ?_⟩
      · rcases List.mem_append.mp hu with hu | hu
        · exact h.units u hu
        · rw [List.mem_singleton.mp hu, MicEncoder.length_unit]
      · rw [List.foldl_append]
        exact hnext
      · show r.frames ++ _ = _
        rw [encodedUnits_concat, List.map_append, ← h.frames, hframe]
        rfl
      · refine ⟨gone ++ (items ++ [(r.encoder.encoded f bufferMic).frame]).take (items.length - 3),
          _, ?_, hring.procMicEncoder henc bufferMic, hsent.trans (List.sublist_append_left _ _)⟩
        rw [List.append_assoc, List.take_append_drop, ← List.append_assoc, ← hframes]
    · rw [if_neg henc, if_neg henc, MicEncoder.procMicEncoder, if_neg henc]
      exact h
  | send ok =>
    rcases hring.micEncoderDataBuffer with ⟨-, hnone⟩ | ⟨frame, rest, p, rfl, hsome, htake, hnext⟩
    · rw [MicRun.step, hnone]
      exact h
    · rw [MicRun.step, hsome]
      cases ok with
      | false => exact h
      | true =>
        refine ⟨h.units, h.codec, h.frames, gone ++ [frame], rest, ?_, hnext, ?_⟩
        · rw [hframes, List.append_assoc]
          rfl
        · show ((r.sent ++ [bytes p f.adpcmPacketLen]).map (List.take f.frameLen)).Sublist _
          rw [List.map_append, List.map_singleton, htake]
          exact hsent.append (List.Sublist.refl _)

theorem Lossless.step (h : Lossless f r) {e : MicEvent} (hroomy : r.Roomy f e) :
    Lossless f (r.step f e) := by
  obtain ⟨items, hframes, hring⟩ := h
  cases e with
  | proc micWptr bufferMic =>
    rw [MicRun.step]
    by_cases henc : r.encoder.Encodes f micWptr
    · have hlt := UInt8.lt_iff_toNat_lt.mp (hroomy henc)
      rw [hring.pkts] at hlt
      have hzero : items.length - 3 = 0 := Nat.sub_eq_zero_of_le (Nat.le_of_lt_succ hlt)
      have hnext := hring.procMicEncoder henc bufferMic
      rw [hzero, List.drop_zero] at hnext
      rw [if_pos henc, if_pos henc]
      refine ⟨_, ?_, hnext⟩
      rw [hframes, List.append_assoc]
    · rw [if_neg henc, if_neg henc, MicEncoder.procMicEncoder, if_neg henc]
      exact ⟨items, hframes, hring⟩
  | send ok =>
    rcases hring.micEncoderDataBuffer with ⟨-, hnone⟩ | ⟨frame, rest, p, rfl, hsome, htake, hnext⟩
    · rw [MicRun.step, hnone]
      exact ⟨items, hframes, hring⟩
    · rw [MicRun.step, hsome]
      cases ok with
      | false => exact ⟨_, hframes, hring⟩
      | true =>
        refine ⟨rest, ?_, hnext⟩
        show r.frames = (r.sent ++ [bytes p f.adpcmPacketLen]).map (List.take f.frameLen) ++ rest
        rw [hframes, List.map_append, List.map_singleton, htake, List.append_assoc]
        rfl

theorem kept_run (hempty : s₀.bufferMicPktRptr = s₀.bufferMicPktWptr) (es : List MicEvent) :
    Kept f s₀ (run f s₀ es) :=
  List.foldlRecOn es _ (begin_kept hempty).1 fun _ h e _ => h.step e

theorem lossless_run (hempty : s₀.bufferMicPktRptr = s₀.bufferMicPktWptr) {es : List MicEvent}
    (hroomy : Foundation.Run.Along (step f) (Roomy f) (begin s₀) es) :
    Lossless f (run f s₀ es) :=
  hroomy.induction (P := fun _ r => Lossless f r) (begin_kept hempty).2 fun _ _ h he => h.step he

end MicRun

open MicRun

/-- **The packets of any run** are frames of its units, in order and none twice, and those with a
header are decoded to what the encoder rebuilds. When there is always room in the ring, nothing is
lost but what is in it, and a decoder that starts in the encoder's state decodes every packet. -/
theorem micRun_sent (f : Format) (s : MicEncoder)
    (hempty : s.bufferMicPktRptr = s.bufferMicPktWptr) (hrange : s.adpcm.InRange)
    (es : List MicEvent) (r : MicRun) (hr : r = run f s es) :
    (∃ picked, picked.Sublist (encodedUnits f (codec s) r.units) ∧
      List.Forall₂ (Carries f) r.sent picked) ∧
    (Foundation.Run.Along (step f) (Roomy f) (begin s) es →
      r.units.length ≤ r.sent.length + micPacketBufferNum ∧
      ∀ packets : List (List UInt8 × Mem), packets.map Prod.fst = r.sent →
        decodedPackets f s.adpcm packets =
          ((encodedUnits f (codec s) r.units).take r.sent.length).map Encoded.trace) := by
  subst hr
  have hkept := kept_run (f := f) hempty es
  constructor
  · obtain ⟨gone, items, hframes, -, hsent⟩ := hkept.ring
    have hsub : ((run f s es).sent.map (List.take f.frameLen)).Sublist
        ((encodedUnits f (codec s) (run f s es).units).map Encoded.frame) := by
      rw [← hkept.frames, hframes]
      exact hsent.trans (List.sublist_append_left _ _)
    obtain ⟨picked, hpicked, heq⟩ := List.sublist_map_iff.mp hsub
    exact ⟨picked, hpicked, forall_carries (fun e he packet =>
      carries_of_mem hrange hkept.units (hpicked.subset he)) heq⟩
  · intro hroomy
    obtain ⟨items, hframes, hring⟩ := lossless_run hempty hroomy
    have hroom : items.length ≤ micPacketBufferNum := hring.room
    have hlen := congrArg List.length hframes
    rw [hkept.frames, List.length_map, length_encodedUnits, List.length_append,
      List.length_map] at hlen
    refine ⟨by omega, fun packets hpackets => ?_⟩
    have hprefix : (packets.map fun p => p.1.take f.frameLen) <+:
        (encodedUnits f (codec s) (run f s es).units).map Encoded.frame := by
      rw [← hkept.frames, hframes, ← hpackets, List.map_map]
      exact List.prefix_append _ _
    have hcount : (run f s es).sent.length = packets.length := by rw [← hpackets, List.length_map]
    rw [hcount]
    exact decodedPackets_eq (c := codec s) hrange hkept.units hprefix

/-- The encoder, switched on. -/
def micBoot (f : Format) : MicEncoder where
  bufferMicRptr := 0
  bufferMicPktWptr := 0
  bufferMicPktRptr := 0
  bufferMicEnc := fun _ => 0
  adpcm := encoderInit f
  adpcmSerialNum := 0

/-- Six units, with the first packet taken after the second: the ring runs over. -/
def sixUnits : List MicEvent :=
  [.proc 248 fun _ => 100, .proc 0 fun _ => -100, .send true, .proc 248 fun _ => 200,
    .proc 0 fun _ => -200, .proc 248 fun _ => 300, .proc 0 fun _ => -300, .send true]

/-- The packets that are taken are the first and the third. -/
theorem sixUnits_sent :
    ∃ picked, picked.Sublist (encodedUnits .gattTelink (codec (micBoot .gattTelink))
        (run .gattTelink (micBoot .gattTelink) sixUnits).units) ∧
      List.Forall₂ (Carries .gattTelink) (run .gattTelink (micBoot .gattTelink) sixUnits).sent
        picked :=
  (micRun_sent .gattTelink (micBoot .gattTelink) rfl ⟨by decide, by decide, by decide, by decide⟩
    sixUnits _ rfl).1

end TcBle.Audio
