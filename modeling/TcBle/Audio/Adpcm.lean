import Mathlib.Data.Int.Bitwise
import TcBle.Foundation.Lockstep
import TcBle.HciTransport.Common

/-!
# The ADPCM codec

`adpcm.c`: the remote control sends each sample of its microphone as a code of four bits, the
difference to a predictor in steps of a table, and the dongle adds the differences up again.
There are four frame formats: Telink's over GATT, Google's versions 0.4 and 1.0 over GATT, and
the one of the HID service.

## The model

`encodeSample` is one round of the encoder's loop up to the index of the step table, without
the packing, and `decodeSample` one round of the decoder's; `micLoop` and `pcmLoop` are the
loops with the packing, for all formats, with the nibble order of the format as a parameter.
The samples a decoder writes are the predictors of the states `pcmLoop` gives, one after each
sample; `micLoop` gives the encoder's states in the same way. Four samples make one `u16` of
codes, which lies in memory with the low byte first.

## What is proved

* `decodeSample_encodeSample` — the code of a sample leads the decoder from the encoder's state
  to the encoder's next state.
* `encodeSample_inRange` — which is in range again.
-/

namespace TcBle.Audio

open TcBle.HciTransport (Mem adv bytes buffer)

/-- `idxtbl`. -/
def idxtbl : List ℤ := [-1, -1, -1, -1, 2, 4, 6, 8, -1, -1, -1, -1, 2, 4, 6, 8]

/-- `steptbl`. -/
def steptbl : List ℤ := [
  7, 8, 9, 10, 11, 12, 13, 14, 16, 17,
  19, 21, 23, 25, 28, 31, 34, 37, 41, 45,
  50, 55, 60, 66, 73, 80, 88, 97, 107, 118,
  130, 143, 157, 173, 190, 209, 230, 253, 279, 307,
  337, 371, 408, 449, 494, 544, 598, 658, 724, 796,
  876, 963, 1060, 1166, 1282, 1411, 1552, 1707, 1878, 2066,
  2272, 2499, 2749, 3024, 3327, 3660, 4026, 4428, 4871, 5358,
  5894, 6484, 7132, 7845, 8630, 9493, 10442, 11487, 12635, 13899,
  15289, 16818, 18500, 20350, 22385, 24623, 27086, 29794, 32767]

/-- What the encoder and the decoder keep of the samples so far: `predict` and `predict_idx`. -/
@[ext] structure AdpcmState where
  predict : ℤ
  predictIdx : ℤ
  deriving DecidableEq

/-- The predictor is an `s16` and the index one of the step table. -/
structure AdpcmState.InRange (s : AdpcmState) : Prop where
  predict_ge : -32768 ≤ s.predict
  predict_le : s.predict ≤ 32767
  idx_nonneg : 0 ≤ s.predictIdx
  idx_le : s.predictIdx ≤ 88

/-- `steptbl[predict_idx]`. -/
def stepAt (predictIdx : ℤ) : ℤ := steptbl.getD predictIdx.toNat 0

/-- The predictor after a difference, kept in the range of an `s16`. -/
def clampPredict (predict : ℤ) : ℤ :=
  if predict > 32767 then 32767 else if predict < -32768 then -32768 else predict

/-- The index after a change, kept in the table. -/
def clampIdx (predictIdx : ℤ) : ℤ :=
  if predictIdx < 0 then 0 else if predictIdx > 88 then 88 else predictIdx

/-- The variables of the encoder's inner loop. -/
structure Quantizer where
  step : ℤ
  diff : ℤ
  diffq : ℤ
  code : UInt16

/-- One round of the encoder's inner loop, for the bit `j` of the code. -/
def quantizeBit (q : Quantizer) (j : UInt16) : Quantizer :=
  if q.diff ≥ q.step then
    { step := q.step >>> 1, diff := q.diff - q.step, diffq := q.diffq + q.step, code := q.code + j }
  else { q with step := q.step >>> 1 }

/-- The encoder's inner loop `for (j=4; j>0; j=j>>1)`, from the sign and the size of the
difference. -/
def quantize (s : AdpcmState) (di : Int16) : Quantizer :=
  let step := stepAt s.predictIdx
  let diff := di.toInt - s.predict
  [4, 2, 1].foldl quantizeBit
    { step, diff := if diff ≥ 0 then diff else -diff, diffq := step >>> 3,
      code := if diff ≥ 0 then 0 else 8 }

/-- One round of the encoder's loop: the code of a sample, and the state after it. -/
def encodeSample (s : AdpcmState) (di : Int16) : UInt16 × AdpcmState :=
  let q := quantize s di
  (q.code,
    { predict := clampPredict (if q.code ≥ 8 then s.predict - q.diffq else s.predict + q.diffq)
      predictIdx := clampIdx (s.predictIdx + idxtbl.getD q.code.toNat 0) })

/-- One round of the decoder's loop, for the code in the low four bits of `code`. -/
def decodeSample (s : AdpcmState) (code : UInt8) : AdpcmState :=
  let step := stepAt s.predictIdx
  let diffq := step >>> 3
  let diffq := if code &&& 4 ≠ 0 then diffq + step else diffq
  let step := step >>> 1
  let diffq := if code &&& 2 ≠ 0 then diffq + step else diffq
  let step := step >>> 1
  let diffq := if code &&& 1 ≠ 0 then diffq + step else diffq
  { predict := clampPredict (if code &&& 8 ≠ 0 then s.predict - diffq else s.predict + diffq)
    predictIdx := clampIdx (s.predictIdx + idxtbl.getD (code &&& (15 : UInt8)).toNat 0) }

/-- The encoder's loop, from sample `i` on: the words written to `pd`, and the states after the
samples. `store` is what a full `code16` goes through before it is written. -/
def micLoop (store : UInt16 → UInt16) :
    ℕ → UInt16 → AdpcmState → List Int16 → List UInt16 × List AdpcmState
  | _, _, _, [] => ([], [])
  | i, code16, s, di :: ps =>
    let e := encodeSample s di
    let code16 := (code16 >>> 4) ||| (e.1 <<< 12)
    if i &&& 3 = 3 then
      let r := micLoop store (i + 1) (store code16) e.2 ps
      (store code16 :: r.1, e.2 :: r.2)
    else
      let r := micLoop store (i + 1) code16 e.2 ps
      (r.1, e.2 :: r.2)

/-- The decoder's loop, with `len` samples left, from sample `i` on: the states after the samples.
`pcode` points to the next byte, and `load` is what a byte goes through once it is read. -/
def pcmLoop (load : UInt8 → UInt8) : ℕ → ℕ → Mem → UInt8 → AdpcmState → List AdpcmState
  | 0, _, _, _, _ => []
  | len + 1, i, pcode, code, s =>
    let s := decodeSample s code
    s :: if i &&& 1 ≠ 0 then pcmLoop load len (i + 1) (adv pcode 1) (load (pcode 0)) s
      else pcmLoop load len (i + 1) pcode (code >>> 4) s

/-- The words of Google's format and of the HID service: the nibbles of each byte change places. -/
def swapWord (w : UInt16) : UInt16 :=
  ((w &&& 0x0f) <<< 4) ||| ((w &&& 0xf0) >>> 4) ||| ((w &&& 0x0f00) <<< 4) |||
    ((w &&& 0xf000) >>> 4)

/-- The bytes of these formats, as the decoder reads them. -/
def swapByte (b : UInt8) : UInt8 :=
  ((b >>> 4) &&& (0x0f : UInt8)) ||| ((b <<< 4) &&& (0xf0 : UInt8))

/-- A `u16` in memory. -/
def wordBytes (w : UInt16) : List UInt8 := [w.toUInt8, (w >>> 8).toUInt8]

/-- `ps[k]` of a pointer to `u16`. -/
def wordAt (p : Mem) (k : ℕ) : UInt16 := (p (2 * k)).toUInt16 ||| ((p (2 * k + 1)).toUInt16 <<< 8)

/-- The states of a call of the encoder or the decoder: the one it starts from, and the states after
the samples. -/
structure Trace where
  start : AdpcmState
  states : List AdpcmState
  deriving DecidableEq

/-- `predict` after each sample, which is what the decoder writes to `pd`. -/
def Trace.predicts (t : Trace) : List ℤ := t.states.map AdpcmState.predict

/-- The state after the call. -/
def Trace.endState (t : Trace) : AdpcmState := t.states.getLastD t.start

/-- What a call of `mic_to_adpcm_split` leaves: the bytes written, and the states. -/
structure Encoded where
  frame : List UInt8
  trace : Trace

/-- The body all formats share. `code16` is 0 at every call. -/
def micBody (store : UInt16 → UInt16) (header : List UInt8) (s : AdpcmState) (ps : List Int16) :
    Encoded :=
  let r := micLoop store 0 0 s ps
  { frame := header ++ r.1.flatMap wordBytes, trace := { start := s, states := r.2 } }

/-- The decoder from the state `s` on, with the codes at `pcode`. The first byte is read before the
loop. -/
def pcmBody (load : UInt8 → UInt8) (pcode : Mem) (len : ℕ) (s : AdpcmState) : Trace :=
  { start := s, states := pcmLoop load len 0 (adv pcode 1) (load (pcode 0)) s }

/-- `mic_to_adpcm_split` for GATT Telink. Without `start` the words go where the last call ended. -/
def micToAdpcmSplitTelink (adpcmPacketLen : ℕ) (s : AdpcmState) (ps : List Int16) (start : Bool) :
    Encoded :=
  micBody id
    (if start then
      wordBytes (Int16.ofInt s.predict).toUInt16 ++
        [(Int8.ofInt s.predictIdx).toUInt8, UInt8.ofNat (adpcmPacketLen - 4)]
    else []) s ps

/-- `ADPCM_ANDROID_ID`. -/
def adpcmAndroidId : UInt16 := 0x00

/-- The values of `start` for GATT Google. -/
inductive GoogleStart where
  /-- `GOOGLE_AUDIO_V0P4`. -/
  | v0p4
  /-- `GOOGLE_AUDIO_V1P0`. -/
  | v1p0
  /-- Any other value. -/
  | other
  deriving DecidableEq

/-- `mic_to_adpcm_split` for GATT Google, and `adpcm_serial_num` after it. -/
def micToAdpcmSplitGoogle (adpcmSerialNum : UInt16) (s : AdpcmState) (ps : List Int16)
    (start : GoogleStart) : Encoded × UInt16 :=
  let predict := (Int16.ofInt s.predict).toUInt16
  let predictIdx := (Int16.ofInt s.predictIdx).toUInt16
  let header := match start with
    | .v0p4 =>
      wordBytes (((adpcmSerialNum >>> 8) &&& (0x00ff : UInt16)) |||
          ((adpcmSerialNum <<< 8) &&& (0xff00 : UInt16))) ++
        (wordBytes (adpcmAndroidId ||| (predict &&& (0xff00 : UInt16))) ++
          wordBytes ((predict &&& (0x00ff : UInt16)) |||
            ((predictIdx <<< 8) &&& (0xff00 : UInt16))))
    | _ => []
  (micBody swapWord header s ps, adpcmSerialNum + 1)

/-- `mic_to_adpcm_split` for the HID service. -/
def micToAdpcmSplitHid (s : AdpcmState) (ps : List Int16) : Encoded := micBody swapWord [] s ps

/-- The state in the header of GATT Telink. -/
def telinkHeader (ps : Mem) : AdpcmState :=
  { predict := (wordAt ps 0).toInt16.toInt, predictIdx := (wordAt ps 1 &&& (0xff : UInt16)).toNat }

/-- `adpcm_to_pcm` for GATT Telink. -/
def adpcmToPcmTelink (ps : Mem) (len : ℕ) : Trace := pcmBody id (adv ps 4) len (telinkHeader ps)

/-- The state in the header of GATT Google, version 0.4. -/
def googleHeader (ps : Mem) : AdpcmState :=
  { predict :=
      ((wordAt ps 1 &&& (0xff00 : UInt16)) ||| (wordAt ps 2 &&& (0x00ff : UInt16))).toInt16.toInt
    predictIdx := ((wordAt ps 2 &&& (0xff00 : UInt16)) >>> 8).toUInt8.toInt8.toInt }

/-- `adpcm_to_pcm` for GATT Google, version 0.4. -/
def adpcmToPcmGoogleV0p4 (ps : Mem) (len : ℕ) : Trace :=
  pcmBody swapByte (adv ps 6) len (googleHeader ps)

/-- `adpcm_to_pcm` for GATT Google, version 1.0: the state is kept from frame to frame. -/
def adpcmToPcmGoogleV1p0 (s : AdpcmState) (ps : Mem) (len : ℕ) : Trace := pcmBody swapByte ps len s

/-- `adpcm_to_pcm` for the HID service: the state is kept from frame to frame. -/
def adpcmToPcmHid (s : AdpcmState) (ps : Mem) (len : ℕ) : Trace := pcmBody swapByte ps len s

/-! ### One sample -/

/-- The code with these bits. -/
def codeOf (b8 b4 b2 b1 : Bool) : UInt16 :=
  (if b8 then 8 else 0) + (if b4 then 4 else 0) + (if b2 then 2 else 0) + (if b1 then 1 else 0)

/-- The difference that the bits stand for. -/
def diffqOf (step : ℤ) (b4 b2 b1 : Bool) : ℤ :=
  step >>> 3 + (if b4 then step else 0) + (if b2 then step >>> 1 else 0) +
    (if b1 then step >>> 1 >>> 1 else 0)

/-- A round of the encoder's inner loop decides one bit. -/
theorem quantizeBit_eq (q : Quantizer) (j : UInt16) : ∃ b : Bool, ∃ diff, quantizeBit q j =
    { step := q.step >>> 1, diff, diffq := q.diffq + (if b then q.step else 0),
      code := q.code + (if b then j else 0) } := by
  by_cases hb : q.diff ≥ q.step
  · exact ⟨true, q.diff - q.step, by simp [quantizeBit, hb]⟩
  · exact ⟨false, q.diff, by simp [quantizeBit, hb]⟩

/-- The three rounds decide three bits. -/
theorem quantizeBits_eq (q : Quantizer) : ∃ b4 b2 b1 : Bool, ∃ step diff,
    [4, 2, 1].foldl quantizeBit q =
      { step, diff,
        diffq := q.diffq + (if b4 then q.step else 0) + (if b2 then q.step >>> 1 else 0) +
          (if b1 then q.step >>> 1 >>> 1 else 0),
        code := q.code + (if b4 then 4 else 0) + (if b2 then 2 else 0) +
          (if b1 then 1 else 0) } := by
  obtain ⟨b4, diff4, h4⟩ := quantizeBit_eq q 4
  obtain ⟨b2, diff2, h2⟩ := quantizeBit_eq (quantizeBit q 4) 2
  obtain ⟨b1, diff1, h1⟩ := quantizeBit_eq (quantizeBit (quantizeBit q 4) 2) 1
  refine ⟨b4, b2, b1, q.step >>> 1 >>> 1 >>> 1, diff1, ?_⟩
  rw [List.foldl_cons, List.foldl_cons, List.foldl_cons, List.foldl_nil, h1, h2, h4]

/-- The four bits of a sample's code, and the difference they stand for. -/
theorem quantize_eq (s : AdpcmState) (di : Int16) : ∃ b8 b4 b2 b1 : Bool,
    (quantize s di).code = codeOf b8 b4 b2 b1 ∧
      (quantize s di).diffq = diffqOf (stepAt s.predictIdx) b4 b2 b1 := by
  obtain ⟨b8, hb8⟩ : ∃ b8 : Bool, (if di.toInt - s.predict ≥ 0 then (0 : UInt16) else 8) =
      if b8 then 8 else 0 := by
    by_cases hsign : di.toInt - s.predict ≥ 0
    · exact ⟨false, by rw [if_pos hsign]; rfl⟩
    · exact ⟨true, by rw [if_neg hsign]; rfl⟩
  rw [quantize, hb8]
  obtain ⟨b4, b2, b1, step, diff, h⟩ := quantizeBits_eq
    { step := stepAt s.predictIdx,
      diff := if di.toInt - s.predict ≥ 0 then di.toInt - s.predict else -(di.toInt - s.predict),
      diffq := stepAt s.predictIdx >>> 3, code := if b8 then 8 else 0 }
  rw [h]
  exact ⟨b8, b4, b2, b1, rfl, rfl⟩

/-- The decoder's round for a code with these bits. -/
theorem decodeSample_codeOf (s : AdpcmState) (b8 b4 b2 b1 : Bool) :
    decodeSample s (codeOf b8 b4 b2 b1).toUInt8 =
      { predict := clampPredict
          (if codeOf b8 b4 b2 b1 ≥ 8 then s.predict - diffqOf (stepAt s.predictIdx) b4 b2 b1
          else s.predict + diffqOf (stepAt s.predictIdx) b4 b2 b1)
        predictIdx :=
          clampIdx (s.predictIdx + idxtbl.getD (codeOf b8 b4 b2 b1).toNat 0) } := by
  have bits : ∀ b8 b4 b2 b1 : Bool, let code := (codeOf b8 b4 b2 b1).toUInt8
      (code &&& 4 ≠ 0 ↔ b4 = true) ∧ (code &&& 2 ≠ 0 ↔ b2 = true) ∧ (code &&& 1 ≠ 0 ↔ b1 = true) ∧
        (code &&& 8 ≠ 0 ↔ codeOf b8 b4 b2 b1 ≥ 8) ∧
        (code &&& (15 : UInt8)).toNat = (codeOf b8 b4 b2 b1).toNat := by
    decide
  have diffq : ∀ (x y : ℤ) (b : Bool),
      (if b = true then x + y else x) = x + if b then y else 0 := by
    intro x y b
    cases b <;> simp
  obtain ⟨h4, h2, h1, h8, hidx⟩ := bits b8 b4 b2 b1
  simp only [decodeSample, h4, h2, h1, h8, hidx, diffq, diffqOf]

/-- **One sample in lockstep**: the code leads the decoder to the encoder's next state. -/
theorem decodeSample_encodeSample (s : AdpcmState) (di : Int16) :
    decodeSample s (encodeSample s di).1.toUInt8 = (encodeSample s di).2 := by
  obtain ⟨b8, b4, b2, b1, hcode, hdiffq⟩ := quantize_eq s di
  rw [encodeSample, hcode, hdiffq]
  exact decodeSample_codeOf s b8 b4 b2 b1

/-- A code has four bits. -/
theorem code_lt (s : AdpcmState) (di : Int16) : (encodeSample s di).1.toNat < 16 := by
  obtain ⟨b8, b4, b2, b1, hcode, -⟩ := quantize_eq s di
  have small : ∀ b8 b4 b2 b1, (codeOf b8 b4 b2 b1).toNat < 16 := by decide
  rw [encodeSample, hcode]
  exact small b8 b4 b2 b1

/-- The decoder looks at the low four bits only. -/
theorem decodeSample_and (s : AdpcmState) (code : UInt8) :
    decodeSample s (code &&& 15) = decodeSample s code := by
  have mask : ∀ k : UInt8, 15 &&& k = k → (code &&& 15) &&& k = code &&& k := by
    intro k hk
    rw [UInt8.and_assoc, hk]
  simp only [decodeSample, mask 4 rfl, mask 2 rfl, mask 1 rfl, mask 8 rfl, mask 15 rfl]

/-- The state after a sample is in range. -/
theorem encodeSample_inRange (s : AdpcmState) (di : Int16) : (encodeSample s di).2.InRange := by
  have hpredict : ∀ p, -32768 ≤ clampPredict p ∧ clampPredict p ≤ 32767 := by
    intro p
    unfold clampPredict
    split_ifs <;> omega
  have hidx : ∀ k, 0 ≤ clampIdx k ∧ clampIdx k ≤ 88 := by
    intro k
    unfold clampIdx
    split_ifs <;> omega
  exact ⟨(hpredict _).1, (hpredict _).2, (hidx _).1, (hidx _).2⟩

end TcBle.Audio
