import Mathlib.Tactic.IntervalCases
import TcBle.Audio.Adpcm
import TcBle.Foundation.Nibbles

/-!
# ADPCM frames

What the encoder packs into a frame, the decoder takes out of it: four codes a word, two a byte,
the first in the low nibble, or in the high one in the formats that swap them.

## What is proved

* `micLoop_eq` and `pcmLoop_packed` — the loops of the two sides are the encoder's and the
  decoder's rounds over the codes, and the frame is the codes.
* `pcmBody_packed` — from any state of the decoder.
* `frame_lockstep` — in each of the four formats the decoder gives the encoder's predictors, and
  ends in its state.
-/

namespace TcBle.Audio

open TcBle.HciTransport TcBle.Foundation TcBle.Foundation.Nibbles

/-! ### The packing -/

/-- The encoder and the decoder of one sample. -/
theorem inStep :
    Lockstep.InStep encodeSample fun s (code : UInt16) => decodeSample s code.toUInt8 :=
  decodeSample_encodeSample

/-- The words of the codes. -/
def packCodes (store : UInt16 → UInt16) : List UInt16 → List UInt16
  | a :: b :: c :: d :: codes => store (ofNibbles a b c d) :: packCodes store codes
  | _ => []

/-- Induction on a list, by four items. -/
theorem quads {α : Type*} {P : List α → Prop} (short : ∀ l, l.length < 4 → P l)
    (quad : ∀ a b c d l, P l → P (a :: b :: c :: d :: l)) : ∀ l : List α, P l
  | [] => short [] (by simp)
  | [a] => short [a] (by simp)
  | [a, b] => short [a, b] (by simp)
  | [a, b, c] => short [a, b, c] (by simp)
  | a :: b :: c :: d :: l => quad a b c d l (quads short quad l)

/-- A short list whose items come by four is empty. -/
theorem eq_nil_of_short {α : Type*} {l : List α} (hlt : l.length < 4) (h : 4 ∣ l.length) : l = [] :=
  List.length_eq_zero_iff.mp (Nat.eq_zero_of_dvd_of_lt h hlt)

/-- **The encoder's loop** writes the codes, and goes through the states of its rounds. -/
theorem micLoop_eq (store : UInt16 → UInt16) {ps : List Int16} (hps : 4 ∣ ps.length) {i : ℕ}
    (hi : 4 ∣ i) (code16 : UInt16) (s : AdpcmState) :
    micLoop store i code16 s ps =
      (packCodes store (Lockstep.codes encodeSample s ps), Lockstep.states encodeSample s ps) := by
  have mask : ∀ k, k &&& 3 = k % 4 := fun k => Nat.and_two_pow_sub_one_eq_mod k 2
  induction ps using quads generalizing i code16 s with
  | short ps hshort =>
    obtain rfl := eq_nil_of_short hshort hps
    rfl
  | quad a b c d ps ih =>
    rw [List.length_cons, List.length_cons, List.length_cons, List.length_cons] at hps
    have h0 : ¬ i &&& 3 = 3 := by rw [mask]; omega
    have h1 : ¬ (i + 1) &&& 3 = 3 := by rw [mask]; omega
    have h2 : ¬ (i + 1 + 1) &&& 3 = 3 := by rw [mask]; omega
    have h3 : (i + 1 + 1 + 1) &&& 3 = 3 := by rw [mask]; omega
    rw [micLoop, if_neg h0, micLoop, if_neg h1, micLoop, if_neg h2, micLoop, if_pos h3,
      shiftIn_four (code_lt _ _) (code_lt _ _) (code_lt _ _) (code_lt _ _),
      ih (by omega) (by omega)]
    rfl

/-- The decoder's round over a byte is the one over its low nibble. -/
theorem decode_low {a b : UInt16} (ha : a.toNat < 16) {x : UInt8}
    (hx : x.toNat = a.toNat + b.toNat * 2 ^ 4) (s : AdpcmState) :
    decodeSample s x = decodeSample s a.toUInt8 := by
  rw [← low_and ha hx, decodeSample_and]

/-- After a shift it is the one over the high nibble. -/
theorem decode_high {a b : UInt16} (ha : a.toNat < 16) (hb : b.toNat < 16) {x : UInt8}
    (hx : x.toNat = a.toNat + b.toNat * 2 ^ 4) (s : AdpcmState) :
    decodeSample s (x >>> 4) = decodeSample s b.toUInt8 := by
  rw [high_shift ha hb hx]

/-- The first bytes pointed to. -/
theorem bytes_cons_iff {p : Mem} {x : UInt8} {l : List UInt8} :
    bytes p (x :: l).length = x :: l ↔ p 0 = x ∧ bytes (adv p 1) l.length = l := by
  rw [List.length_cons, Nat.add_comm, bytes_add]
  simp [bytes]

/-- **The decoder's loop** over a packed frame goes through its rounds over the codes. `load` takes
back what `store` does to the bytes of a word. -/
theorem pcmLoop_packed {load : UInt8 → UInt8} {store : UInt16 → UInt16}
    (hload : ∀ w, (wordBytes (store w)).map load = wordBytes w) {codes : List UInt16}
    (hcodes : 4 ∣ codes.length) (hlt : ∀ c ∈ codes, c.toNat < 16) {p : Mem}
    (hp : bytes p ((packCodes store codes).flatMap wordBytes).length =
      (packCodes store codes).flatMap wordBytes) {i : ℕ} (hi : 2 ∣ i) (s : AdpcmState) :
    pcmLoop load codes.length i (adv p 1) (load (p 0)) s =
      Lockstep.replay (fun s code => decodeSample s code.toUInt8) s codes := by
  have mask : ∀ k, k &&& 1 = k % 2 := fun k => Nat.and_two_pow_sub_one_eq_mod k 1
  induction codes using quads generalizing p i s with
  | short codes hshort =>
    obtain rfl := eq_nil_of_short hshort hcodes
    rfl
  | quad a b c d codes ih =>
    rw [List.length_cons, List.length_cons, List.length_cons, List.length_cons] at hcodes
    have hword := hload (ofNibbles a b c d)
    obtain ⟨ha, hb, hc, hd, hlt⟩ : a.toNat < 16 ∧ b.toNat < 16 ∧ c.toNat < 16 ∧ d.toNat < 16 ∧
        ∀ c ∈ codes, c.toNat < 16 := by simpa using hlt
    simp only [wordBytes, List.map_cons, List.map_nil, List.cons.injEq] at hword
    rw [packCodes, List.flatMap_cons, wordBytes, List.cons_append, List.cons_append,
      List.nil_append, bytes_cons_iff, bytes_cons_iff, adv_adv] at hp
    -- the two bytes of the word, as the decoder has them after `load`
    have hlow : (load (p 0)).toNat = a.toNat + b.toNat * 2 ^ 4 := by
      rw [hp.1, hword.1]
      exact lowByte_ofNibbles ha hb hc hd
    have hhigh : (load (adv p 1 0)).toNat = c.toNat + d.toNat * 2 ^ 4 := by
      rw [hp.2.1, hword.2.1]
      exact highByte_ofNibbles ha hb hc hd
    have h0 : ¬ i &&& 1 ≠ 0 := by rw [mask]; omega
    have h1 : (i + 1) &&& 1 ≠ 0 := by rw [mask]; omega
    have h2 : ¬ (i + 1 + 1) &&& 1 ≠ 0 := by rw [mask]; omega
    have h3 : (i + 1 + 1 + 1) &&& 1 ≠ 0 := by rw [mask]; omega
    have hnext := fun t => ih (by omega) hlt hp.2.2 (i := i + 1 + 1 + 1 + 1) (by omega) t
    rw [List.length_cons, List.length_cons, List.length_cons, List.length_cons, pcmLoop, if_neg h0,
      pcmLoop, if_pos h1, pcmLoop, if_neg h2, pcmLoop, if_pos h3, adv_adv, decode_low ha hlow,
      decode_high ha hb hlow, decode_low hc hhigh, decode_high hc hd hhigh]
    simp only [Lockstep.replay_cons, List.cons.injEq, true_and]
    exact hnext _

/-- What a buffer holds after its first bytes. -/
theorem bytes_after (header l : List UInt8) (rest : Mem) :
    bytes (adv (buffer (header ++ l) rest) header.length) l.length = l := by
  have hbytes := bytes_buffer (header ++ l) rest
  rw [List.length_append, bytes_add] at hbytes
  exact (List.append_inj' hbytes (by simp)).2

variable {load : UInt8 → UInt8} {store : UInt16 → UInt16}
  (hload : ∀ w, (wordBytes (store w)).map load = wordBytes w)

include hload

/-- The decoder over the encoder's frame, from any state of its own. -/
theorem pcmBody_packed (header : List UInt8) (s t : AdpcmState) {ps : List Int16}
    (hps : 4 ∣ ps.length) (rest : Mem) :
    pcmBody load (adv (buffer (micBody store header s ps).frame rest) header.length) ps.length t =
      { start := t,
        states := Lockstep.replay (fun s code => decodeSample s code.toUInt8) t
          (Lockstep.codes encodeSample s ps) } := by
  have hlen := Lockstep.length_codes encodeSample s ps
  have hlt : ∀ c ∈ Lockstep.codes encodeSample s ps, c.toNat < 16 :=
    Lockstep.forall_codes (fun s di => code_lt s di) s ps
  have hp := bytes_after header
    ((packCodes store (Lockstep.codes encodeSample s ps)).flatMap wordBytes) rest
  rw [micBody, micLoop_eq store hps (Nat.dvd_zero 4)]
  rw [pcmBody, ← hlen, pcmLoop_packed hload (hlen ▸ hps) hlt hp (Nat.dvd_zero 2)]

/-- From the encoder's state the two go in lockstep. -/
theorem body_lockstep (header : List UInt8) (s : AdpcmState) {ps : List Int16}
    (hps : 4 ∣ ps.length) (rest : Mem) :
    pcmBody load (adv (buffer (micBody store header s ps).frame rest) header.length) ps.length s =
      (micBody store header s ps).trace := by
  rw [pcmBody_packed hload header s s hps rest, inStep.replay, micBody,
    micLoop_eq store hps (Nat.dvd_zero 4)]

omit hload

theorem load_id (w : UInt16) : (wordBytes (id w)).map id = wordBytes w := List.map_id _

/-- `swapByte` takes back what `swapWord` does. -/
theorem load_swap (w : UInt16) : (wordBytes (swapWord w)).map swapByte = wordBytes w := by
  have hlow : swapByte (swapWord w).toUInt8 = w.toUInt8 := by
    apply UInt8.toBitVec_inj.mp
    ext i hi
    interval_cases i <;> simp [swapWord, swapByte]
  have hhigh : swapByte (swapWord w >>> 8).toUInt8 = (w >>> 8).toUInt8 := by
    apply UInt8.toBitVec_inj.mp
    ext i hi
    interval_cases i <;> simp [swapWord, swapByte]
  rw [wordBytes, wordBytes, List.map_cons, List.map_cons, List.map_nil, hlow, hhigh]

/-! ### The headers -/

/-- A word that lies in memory is read back. -/
theorem wordAt_eq {p : Mem} {k : ℕ} {w : UInt16} (h : p (2 * k) = w.toUInt8)
    (h' : p (2 * k + 1) = (w >>> 8).toUInt8) : wordAt p k = w := by
  rw [wordAt, h, h', word_of_bytes]

/-- A predictor in range is an `s16`. -/
theorem predict_toInt16 {s : AdpcmState} (hs : s.InRange) :
    (Int16.ofInt s.predict).toUInt16.toInt16.toInt = s.predict := by
  have hge := hs.predict_ge
  have hle := hs.predict_le
  rw [Int16.toInt16_toUInt16, Int16.toInt_ofInt_of_le (by omega) (by omega)]

/-- An index in range is one of 89 values. -/
theorem AdpcmState.InRange.idx {s : AdpcmState} (hs : s.InRange) :
    ∃ k : Fin 89, s.predictIdx = (k.val : ℤ) := by
  have hge := hs.idx_nonneg
  have hle := hs.idx_le
  exact ⟨⟨s.predictIdx.toNat, by omega⟩, by simp [hge]⟩

/-- The low byte of a word. -/
theorem word_and_ff (x y : UInt8) :
    (x.toUInt16 ||| (y.toUInt16 <<< 8)) &&& (0xff : UInt16) = x.toUInt16 := by
  apply UInt16.toBitVec_inj.mp
  ext i hi
  interval_cases i <;> simp

/-- The high byte of a word. -/
theorem word_high (x y : UInt8) :
    (((x.toUInt16 ||| (y.toUInt16 <<< 8)) &&& (0xff00 : UInt16)) >>> 8).toUInt8 = y := by
  apply UInt8.toBitVec_inj.mp
  ext i hi
  interval_cases i <;> simp

/-- The header of GATT Telink gives the state back. -/
theorem telinkHeader_eq (adpcmPacketLen : ℕ) {s : AdpcmState} (hs : s.InRange) (ps : List Int16)
    (rest : Mem) :
    telinkHeader (buffer (micToAdpcmSplitTelink adpcmPacketLen s ps true).frame rest) = s := by
  obtain ⟨k, hk⟩ := hs.idx
  have hidx : ∀ k : Fin 89, ((Int8.ofInt k.val).toUInt8.toUInt16.toNat : ℤ) = k.val := by decide
  have hpredict : wordAt (buffer (micToAdpcmSplitTelink adpcmPacketLen s ps true).frame rest) 0 =
      (Int16.ofInt s.predict).toUInt16 := by
    apply wordAt_eq <;> simp [buffer_apply, micToAdpcmSplitTelink, micBody, wordBytes]
  have hindex : wordAt (buffer (micToAdpcmSplitTelink adpcmPacketLen s ps true).frame rest) 1 &&&
      (0xff : UInt16) = (Int8.ofInt s.predictIdx).toUInt8.toUInt16 := by
    rw [wordAt, word_and_ff]
    simp [buffer_apply, micToAdpcmSplitTelink, micBody, wordBytes]
  refine AdpcmState.ext ?_ ?_
  · rw [telinkHeader, hpredict, predict_toInt16 hs]
  · rw [telinkHeader, hindex, hk, hidx k]

/-- The header of GATT Google 0.4 gives the state back. -/
theorem googleHeader_eq (adpcmSerialNum : UInt16) {s : AdpcmState} (hs : s.InRange)
    (ps : List Int16) (rest : Mem) :
    googleHeader (buffer (micToAdpcmSplitGoogle adpcmSerialNum s ps .v0p4).1.frame rest) = s := by
  obtain ⟨k, hk⟩ := hs.idx
  have hhigh : ∀ p w : UInt16,
      (((adpcmAndroidId ||| (p &&& (0xff00 : UInt16))) &&& (0xff00 : UInt16)) |||
        (((p &&& (0x00ff : UInt16)) ||| ((w <<< 8) &&& (0xff00 : UInt16))) &&&
          (0x00ff : UInt16))) = p := by
    intro p w
    apply UInt16.toBitVec_inj.mp
    ext i hi
    interval_cases i <;> simp [adpcmAndroidId]
  have hlow : ∀ p w : UInt16, ((((p &&& (0x00ff : UInt16)) |||
      ((w <<< 8) &&& (0xff00 : UInt16))) &&& (0xff00 : UInt16)) >>> 8).toUInt8 = w.toUInt8 := by
    intro p w
    apply UInt8.toBitVec_inj.mp
    ext i hi
    interval_cases i <;> simp
  have hidx : ∀ k : Fin 89, (Int16.ofInt k.val).toUInt16.toUInt8.toInt8.toInt = k.val := by decide
  have hword1 : wordAt (buffer (micToAdpcmSplitGoogle adpcmSerialNum s ps .v0p4).1.frame rest) 1 =
      adpcmAndroidId ||| ((Int16.ofInt s.predict).toUInt16 &&& (0xff00 : UInt16)) := by
    apply wordAt_eq <;> simp [buffer_apply, micToAdpcmSplitGoogle, micBody, wordBytes]
  have hword2 : wordAt (buffer (micToAdpcmSplitGoogle adpcmSerialNum s ps .v0p4).1.frame rest) 2 =
      ((Int16.ofInt s.predict).toUInt16 &&& (0x00ff : UInt16)) |||
        (((Int16.ofInt s.predictIdx).toUInt16 <<< 8) &&& (0xff00 : UInt16)) := by
    apply wordAt_eq <;> simp [buffer_apply, micToAdpcmSplitGoogle, micBody, wordBytes]
  refine AdpcmState.ext ?_ ?_
  · rw [googleHeader, hword1, hword2, hhigh, predict_toInt16 hs]
  · rw [googleHeader, hword2, hlow, hk, hidx k]

/-! ### The four formats -/

/-- The formats of `adpcm.c`. -/
inductive Format where
  /-- GATT Telink. -/
  | gattTelink
  /-- GATT Google, version 0.4. -/
  | googleV0p4
  /-- GATT Google, version 1.0. -/
  | googleV1p0
  /-- The HID service. -/
  | hid
  deriving DecidableEq

/-- The frame has the state in a header. -/
def Format.header : Format → Bool
  | .gattTelink | .googleV0p4 => true
  | .googleV1p0 | .hid => false

/-- The encoder of a format, which starts a frame at every call. -/
def encodeFrame (adpcmPacketLen : ℕ) (adpcmSerialNum : UInt16) (f : Format) (s : AdpcmState)
    (ps : List Int16) : Encoded :=
  match f with
  | .gattTelink => micToAdpcmSplitTelink adpcmPacketLen s ps true
  | .googleV0p4 => (micToAdpcmSplitGoogle adpcmSerialNum s ps .v0p4).1
  | .googleV1p0 => (micToAdpcmSplitGoogle adpcmSerialNum s ps .v1p0).1
  | .hid => micToAdpcmSplitHid s ps

/-- The decoder of a format, whose state is `s` where the format sends none. -/
def decodeFrame (f : Format) (s : AdpcmState) (ps : Mem) (len : ℕ) : Trace :=
  match f with
  | .gattTelink => adpcmToPcmTelink ps len
  | .googleV0p4 => adpcmToPcmGoogleV0p4 ps len
  | .googleV1p0 => adpcmToPcmGoogleV1p0 s ps len
  | .hid => adpcmToPcmHid s ps len

/-- The decoder gives the encoder's trace. -/
theorem decodeFrame_encodeFrame (adpcmPacketLen : ℕ) (adpcmSerialNum : UInt16) (f : Format)
    {s t : AdpcmState} (hs : s.InRange) (ht : f.header = false → t = s) {ps : List Int16}
    (hps : 4 ∣ ps.length) (rest : Mem) :
    decodeFrame f t (buffer (encodeFrame adpcmPacketLen adpcmSerialNum f s ps).frame rest)
      ps.length = (encodeFrame adpcmPacketLen adpcmSerialNum f s ps).trace := by
  cases f with
  | gattTelink =>
    rw [decodeFrame, adpcmToPcmTelink, encodeFrame, telinkHeader_eq adpcmPacketLen hs]
    exact body_lockstep load_id _ s hps rest
  | googleV0p4 =>
    rw [decodeFrame, adpcmToPcmGoogleV0p4, encodeFrame, googleHeader_eq adpcmSerialNum hs]
    exact body_lockstep load_swap _ s hps rest
  | googleV1p0 =>
    obtain rfl := ht rfl
    exact body_lockstep load_swap [] t hps rest
  | hid =>
    obtain rfl := ht rfl
    exact body_lockstep load_swap [] t hps rest

/-- The encoder's states are in range. -/
theorem encodeFrame_inRange (adpcmPacketLen : ℕ) (adpcmSerialNum : UInt16) (f : Format)
    (s : AdpcmState) {ps : List Int16} (hps : 4 ∣ ps.length) :
    ∀ t ∈ (encodeFrame adpcmPacketLen adpcmSerialNum f s ps).trace.states, t.InRange := by
  have hbody : ∀ store header, ∀ t ∈ (micBody store header s ps).trace.states, t.InRange := by
    intro store header
    rw [micBody, micLoop_eq store hps (Nat.dvd_zero 4)]
    exact Lockstep.forall_states encodeSample_inRange s ps
  cases f <;> exact hbody _ _

/-- **A frame in lockstep**: in each format the decoder, from the header or from the encoder's
state, writes the encoder's predictors, stays in range, and ends in the encoder's state. -/
theorem frame_lockstep (adpcmPacketLen : ℕ) (adpcmSerialNum : UInt16) (f : Format)
    (s t : AdpcmState) (hs : s.InRange) (ht : f.header = false → t = s) (ps : List Int16)
    (hps : 4 ∣ ps.length) (rest : Mem) :
    let e := (encodeFrame adpcmPacketLen adpcmSerialNum f s ps).trace
    let d := decodeFrame f t
      (buffer (encodeFrame adpcmPacketLen adpcmSerialNum f s ps).frame rest) ps.length
    d.predicts = e.predicts ∧ d.predicts.length = ps.length ∧
      (∀ u ∈ e.states, u.InRange) ∧ (∀ u ∈ d.states, u.InRange) ∧ d.endState = e.endState := by
  intro e d
  have hde : d = e := decodeFrame_encodeFrame adpcmPacketLen adpcmSerialNum f hs ht hps rest
  have hrange := encodeFrame_inRange adpcmPacketLen adpcmSerialNum f s hps
  have hlen : ∀ store header, (micBody store header s ps).trace.predicts.length = ps.length := by
    intro store header
    rw [micBody, micLoop_eq store hps (Nat.dvd_zero 4), Trace.predicts, List.length_map,
      Lockstep.length_states]
  rw [hde]
  refine ⟨rfl, ?_, hrange, hrange, rfl⟩
  cases f <;> exact hlen _ _

/-- Four loud samples over GATT Telink, for a decoder that was elsewhere. -/
theorem fourSamples_lockstep :
    let s : AdpcmState := { predict := -100, predictIdx := 88 }
    let ps : List Int16 := [1000, -1000, 32767, -32768]
    let e := (encodeFrame 128 7 .gattTelink s ps).trace
    let d := decodeFrame .gattTelink { predict := 5, predictIdx := 3 }
      (buffer (encodeFrame 128 7 .gattTelink s ps).frame fun _ => 0) ps.length
    d.predicts = e.predicts ∧ d.predicts.length = ps.length ∧
      (∀ u ∈ e.states, u.InRange) ∧ (∀ u ∈ d.states, u.InRange) ∧ d.endState = e.endState :=
  frame_lockstep 128 7 .gattTelink { predict := -100, predictIdx := 88 }
    { predict := 5, predictIdx := 3 } ⟨by decide, by decide, by decide, by decide⟩ (by decide)
    [1000, -1000, 32767, -32768] (by decide) fun _ => 0

end TcBle.Audio
