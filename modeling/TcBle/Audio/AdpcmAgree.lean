import TcBle.Audio.AdpcmAccess
import TcBle.Foundation.ClampedSum

/-!
# The two decoders of GATT Telink

`adpcm_to_pcm` is there twice for packets of GATT Telink: in `application/audio/adpcm.c`, which keeps
the predictor between -32768 and 32767 as the encoder does, and in `vendor/common/tl_audio.c`, whose
least predictor is -32767.

## The model

The rounds of both are those of `pcmRounds`. Which steps are added up depends on the codes and the
index of the header alone, so the predictor of either decoder is a clamped sum over one list of
differences. Each decoder has a step table of its own, with its own surroundings.

## What is proved

* `pcmRounds_samples` — the samples are the clamped sums of the differences.
* `decoders_agree_iff` — when the two decoders write the same samples.
-/

namespace TcBle.Audio

open TcBle.HciTransport TcBle.Foundation TcBle.Foundation.ClampedSum

/-! ### The differences -/

/-- The difference that the code in the low four bits of `code` stands for, with its sign. -/
def codeDiff (step : ℤ) (code : UInt8) : ℤ :=
  let diffq := step >>> 3
  let diffq := if code &&& 4 ≠ 0 then diffq + step else diffq
  let step := step >>> 1
  let diffq := if code &&& 2 ≠ 0 then diffq + step else diffq
  let step := step >>> 1
  let diffq := if code &&& 1 ≠ 0 then diffq + step else diffq
  if code &&& 8 ≠ 0 then -diffq else diffq

/-- The index after a code. -/
def nextIdx (predictIdx : ℤ) (code : UInt8) : ℤ :=
  clampIdx (predictIdx + idxtbl.getD (code &&& (15 : UInt8)).toNat 0)

/-- The differences of `len` codes, from sample `i` on; `pcode` is the next byte of the packet. -/
def codeDiffs (load : UInt8 → UInt8) (ps : Mem) : ℕ → ℕ → ℕ → UInt8 → ℤ → List ℤ
  | 0, _, _, _, _ => []
  | len + 1, i, pcode, code, predictIdx =>
    codeDiff (stepAt predictIdx) code ::
      if i &&& 1 ≠ 0 then
        codeDiffs load ps len (i + 1) (pcode + 1) (load (ps pcode)) (nextIdx predictIdx code)
      else codeDiffs load ps len (i + 1) pcode (code >>> 4) (nextIdx predictIdx code)

namespace PcmFormat

variable (f : PcmFormat) (tbl : StepMem) (ps : Mem) (len : ℕ)

/-- What `adpcm_to_pcm` writes to `pd`. -/
def samples : List ℤ := (f.rounds tbl ps len).map PcmRound.sample

/-- The differences of the codes of a packet. -/
def diffs : List ℤ :=
  codeDiffs f.load ps len 0 (f.headerLen + 1) (f.load (ps f.headerLen)) (f.header ps).predictIdx

end PcmFormat

/-! ### The samples as sums -/

/-- A predictor that is kept in a range, as the decoders do it. -/
theorem clampFrom_eq {low : ℤ} (hlow : low ≤ 32767) (p : ℤ) :
    clampFrom low p = max low (min 32767 p) := by
  unfold clampFrom
  split_ifs <;> omega

/-- One round adds the difference of its code, and moves the index. -/
theorem decodeWith_eq {low : ℤ} (hlow : low ≤ 32767) (step : ℤ) (s : AdpcmState) (code : UInt8) :
    decodeWith low step s code =
      { predict := max low (min 32767 (s.predict + codeDiff step code))
        predictIdx := nextIdx s.predictIdx code } := by
  rw [← clampFrom_eq hlow]
  unfold decodeWith codeDiff nextIdx
  by_cases hsign : code &&& 8 ≠ 0
  · simp only [if_pos hsign, ← sub_eq_add_neg]
  · simp only [if_neg hsign]

/-- **The samples** are the sums of the differences, kept between the least and the greatest. -/
theorem pcmRounds_samples {tbl : StepMem} {low : ℤ} (hlow : low ≤ 32767) (load : UInt8 → UInt8)
    (ps : Mem) (len i pcode : ℕ) (code : UInt8) {s : AdpcmState}
    (hs : 0 ≤ s.predictIdx ∧ s.predictIdx < steptbl.length) :
    (pcmRounds tbl low load ps len i pcode code s).map PcmRound.sample =
      walk low 32767 s.predict (codeDiffs load ps len i pcode code s.predictIdx) := by
  induction len generalizing i pcode code s with
  | zero => rfl
  | succ len ih =>
    have hnext : 0 ≤ nextIdx s.predictIdx code ∧ nextIdx s.predictIdx code < steptbl.length :=
      clampIdx_mem _
    rw [pcmRounds, codeDiffs, walk, tbl.read_eq _ hs.1 hs.2, decodeWith_eq hlow]
    by_cases hi : i &&& 1 ≠ 0
    · rw [if_pos hi, if_pos hi, List.map_cons, ih _ _ _ hnext]
    · rw [if_neg hi, if_neg hi, List.map_cons, ih _ _ _ hnext]

/-- The samples of a decoder whose header has an index of the table. -/
theorem PcmFormat.samples_eq (f : PcmFormat) (tbl : StepMem) (ps : Mem) (len : ℕ)
    (hidx : 0 ≤ (f.header ps).predictIdx ∧ (f.header ps).predictIdx < steptbl.length) :
    f.samples tbl ps len = walk f.low 32767 (f.header ps).predict (f.diffs ps len) :=
  pcmRounds_samples f.low_mem.2 f.load ps len 0 _ _ hidx

/-- The samples of `adpcm.c` are those of `pcmLoop`. -/
theorem PcmFormat.telink_samples (tbl : StepMem) (ps : Mem) (len : ℕ)
    (hidx : 0 ≤ (telinkHeader ps).predictIdx ∧ (telinkHeader ps).predictIdx < steptbl.length) :
    telink.samples tbl ps len = (adpcmToPcmTelink ps len).predicts := by
  rw [PcmFormat.samples, PcmFormat.rounds, Trace.predicts, adpcmToPcmTelink, pcmBody]
  exact (pcmRounds_states len 0 5 (ps 4) hidx).trans (by rw [adv_adv]; rfl)

/-! ### The two decoders -/

/-- The packet at `ps` is a frame of the Telink encoder with `len` samples, which it rebuilds as
`reconstruction`. -/
def TelinkFrame (ps : Mem) (len : ℕ) (reconstruction : List ℤ) : Prop :=
  ∃ (adpcmPacketLen : ℕ) (s : AdpcmState) (qs : List Int16) (rest : Mem),
    s.InRange ∧ 4 ∣ qs.length ∧ qs.length = len ∧
      ps = buffer (micToAdpcmSplitTelink adpcmPacketLen s qs true).frame rest ∧
      reconstruction = (micToAdpcmSplitTelink adpcmPacketLen s qs true).trace.predicts

/-- The decoders write the same samples, and if the packet is one of the encoder's, both write what the
encoder rebuilds. -/
structure DecodersAgree (tbl tbl' : StepMem) (ps : Mem) (len : ℕ) : Prop where
  /-- The samples are the same. -/
  same : PcmFormat.tlAudio.samples tbl ps len = PcmFormat.telink.samples tbl' ps len
  /-- They are the encoder's. -/
  encoder : ∀ reconstruction, TelinkFrame ps len reconstruction →
    PcmFormat.telink.samples tbl' ps len = reconstruction ∧
      PcmFormat.tlAudio.samples tbl ps len = reconstruction

/-- The decoder of `adpcm.c` writes what the encoder rebuilds. -/
theorem TelinkFrame.samples {ps : Mem} {len : ℕ} {reconstruction : List ℤ}
    (h : TelinkFrame ps len reconstruction) (tbl : StepMem)
    (hidx : 0 ≤ (telinkHeader ps).predictIdx ∧ (telinkHeader ps).predictIdx < steptbl.length) :
    PcmFormat.telink.samples tbl ps len = reconstruction := by
  obtain ⟨adpcmPacketLen, s, qs, rest, hs, hqs, rfl, rfl, rfl⟩ := h
  rw [PcmFormat.telink_samples tbl _ _ hidx]
  exact congrArg Trace.predicts
    (decodeFrame_encodeFrame adpcmPacketLen 0 .gattTelink (t := s) hs (fun h => nomatch h) hqs rest)

/-- **The two decoders agree** on a packet exactly if, from the predictor of its header, no sum of the
first differences of its codes falls below -32767, and no differences of codes in a row after the
first have a sum below -65534. -/
theorem decoders_agree_iff (tbl tbl' : StepMem) (ps : Mem) (len : ℕ) (hidx : (ps 2).toNat ≤ 88) :
    DecodersAgree tbl tbl' ps len ↔
      Above (-32767) 32767 (telinkHeader ps).predict (PcmFormat.telink.diffs ps len) := by
  have hmem : 0 ≤ (telinkHeader ps).predictIdx ∧ (telinkHeader ps).predictIdx < steptbl.length := by
    rw [PcmFormat.telinkHeader_idx, show steptbl.length = 89 from rfl]
    omega
  have hsame : PcmFormat.tlAudio.samples tbl ps len = PcmFormat.telink.samples tbl' ps len ↔
      Above (-32767) 32767 (telinkHeader ps).predict (PcmFormat.telink.diffs ps len) := by
    rw [PcmFormat.samples_eq .tlAudio tbl ps len hmem, PcmFormat.samples_eq .telink tbl' ps len hmem,
      ← forall_capped_iff (by decide), ← walk_eq_iff (show (-32768 : ℤ) < -32767 by decide), eq_comm]
    rfl
  rw [← hsame]
  refine ⟨DecodersAgree.same, fun h => ⟨h, fun reconstruction hframe => ?_⟩⟩
  rw [h]
  exact ⟨hframe.samples tbl' hmem, hframe.samples tbl' hmem⟩

/-- Twice the code 1 from the predictor 0 and the index 0. -/
theorem decoders_agree_quiet :
    let tbl : StepMem := ⟨stepAt, fun _ _ _ => rfl⟩
    let ps : Mem := fun i => if i = 4 then 0x11 else 0
    (ps 2).toNat ≤ 88 ∧
      (DecodersAgree tbl tbl ps 2 ↔
        Above (-32767) 32767 (telinkHeader ps).predict (PcmFormat.telink.diffs ps 2)) ∧
      PcmFormat.tlAudio.samples tbl ps 2 = PcmFormat.telink.samples tbl ps 2 :=
  ⟨by decide, decoders_agree_iff _ _ _ 2 (by decide), by decide⟩

/-- From the predictor -32768 in the header, with the index 0, the code 8 keeps it in `adpcm.c`, and
gives -32767 in `tl_audio.c`. -/
theorem decoders_differ :
    let tbl : StepMem := ⟨stepAt, fun _ _ _ => rfl⟩
    let ps : Mem := fun i => if i = 1 then 0x80 else if i = 4 then 8 else 0
    ¬ DecodersAgree tbl tbl ps 248 := by
  intro tbl ps h
  have hfirst := congrArg List.head? h.same
  exact absurd hfirst (by decide)

end TcBle.Audio
