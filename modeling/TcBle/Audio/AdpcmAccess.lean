import TcBle.Audio.AdpcmFrame

/-!
# What the ADPCM decoders access

`adpcm_to_pcm` of `application/audio/adpcm.c` (GATT Telink, and GATT Google version 0.4) and of
`vendor/common/tl_audio.c`: the decoders that take their state from the header of the packet.

## The model

The loop is that of `pcmLoop`, with what it accesses written down: the index that the step table is
read at, the byte of the packet that is read, and the sample that is written. What the step table
gives outside of its entries is anything. The three decoders differ in the header, in what a byte
goes through once it is read, and in the least sample.

## What is proved

* `pcmRounds_states` — in the table, the samples are those of `pcmLoop`.
* `PcmFormat.safe_iff` — when a decoder accesses its table and the packet only.
-/

namespace TcBle.Audio

open TcBle.HciTransport (Mem adv)

/-- What is read at an index of `steptbl`, be it one of the table or not. -/
structure StepMem where
  /-- What is read. -/
  read : ℤ → ℤ
  /-- The entries of the table. -/
  read_eq : ∀ k : ℤ, 0 ≤ k → k < steptbl.length → read k = stepAt k

/-- The predictor after a difference, kept between `low` and the greatest `s16`. -/
def clampFrom (low predict : ℤ) : ℤ :=
  if predict > 32767 then 32767 else if predict < low then low else predict

/-- One round of a decoder's loop with the step that was read, for the code in the low four bits of
`code`. -/
def decodeWith (low step : ℤ) (s : AdpcmState) (code : UInt8) : AdpcmState :=
  let diffq := step >>> 3
  let diffq := if code &&& 4 ≠ 0 then diffq + step else diffq
  let step := step >>> 1
  let diffq := if code &&& 2 ≠ 0 then diffq + step else diffq
  let step := step >>> 1
  let diffq := if code &&& 1 ≠ 0 then diffq + step else diffq
  { predict := clampFrom low (if code &&& 8 ≠ 0 then s.predict - diffq else s.predict + diffq)
    predictIdx := clampIdx (s.predictIdx + idxtbl.getD (code &&& (15 : UInt8)).toNat 0) }

/-- With the step of the table, it is the round of `decodeSample`. -/
theorem decodeWith_stepAt (s : AdpcmState) (code : UInt8) :
    decodeWith (-32768) (stepAt s.predictIdx) s code = decodeSample s code := rfl

/-- What a round of the loop accesses. -/
structure PcmRound where
  /-- `predict_idx`, as the step table is read. -/
  idx : ℤ
  /-- The byte of the packet that is read, if one is. -/
  code : Option ℕ
  /-- What is written to `pd`. -/
  sample : ℤ
  deriving DecidableEq

/-- The loop, with `len` samples left, from sample `i` on; `pcode` is the next byte of the packet
`ps`. -/
def pcmRounds (tbl : StepMem) (low : ℤ) (load : UInt8 → UInt8) (ps : Mem) :
    ℕ → ℕ → ℕ → UInt8 → AdpcmState → List PcmRound
  | 0, _, _, _, _ => []
  | len + 1, i, pcode, code, s =>
    let s' := decodeWith low (tbl.read s.predictIdx) s code
    if i &&& 1 ≠ 0 then
      ⟨s.predictIdx, some pcode, s'.predict⟩ ::
        pcmRounds tbl low load ps len (i + 1) (pcode + 1) (load (ps pcode)) s'
    else
      ⟨s.predictIdx, none, s'.predict⟩ ::
        pcmRounds tbl low load ps len (i + 1) pcode (code >>> 4) s'

/-- A decoder that takes its state from the header of the packet. -/
structure PcmFormat where
  /-- The bytes of the header. -/
  headerLen : ℕ
  /-- The state in the header. -/
  header : Mem → AdpcmState
  /-- What a byte goes through once it is read. -/
  load : UInt8 → UInt8
  /-- The least sample. -/
  low : ℤ
  /-- It is an `s16`. -/
  low_mem : -32768 ≤ low ∧ low ≤ 32767

namespace PcmFormat

/-- GATT Telink, in `adpcm.c`. -/
def telink : PcmFormat := ⟨4, telinkHeader, id, -32768, by decide⟩

/-- GATT Google, version 0.4, in `adpcm.c`. -/
def googleV0p4 : PcmFormat := ⟨6, googleHeader, swapByte, -32768, by decide⟩

/-- `vendor/common/tl_audio.c`. -/
def tlAudio : PcmFormat := ⟨4, telinkHeader, id, -32767, by decide⟩

variable (f : PcmFormat) (tbl : StepMem) (ps : Mem) (len : ℕ)

/-- `adpcm_to_pcm`: the rounds of its loop. -/
def rounds : List PcmRound :=
  pcmRounds tbl f.low f.load ps len 0 (f.headerLen + 1) (f.load (ps f.headerLen)) (f.header ps)

/-- The bytes of codes that it reads, the first of them before the loop. -/
def codes : List ℕ := f.headerLen :: (f.rounds tbl ps len).filterMap PcmRound.code

/-- It is safe for a packet of `n` bytes. -/
structure Safe (n : ℕ) : Prop where
  /-- The step table is read in the table. -/
  idx : ∀ r ∈ f.rounds tbl ps len, 0 ≤ r.idx ∧ r.idx < steptbl.length
  /-- The samples are `s16`. -/
  sample : ∀ r ∈ f.rounds tbl ps len, -32768 ≤ r.sample ∧ r.sample ≤ 32767
  /-- The codes are in the packet. -/
  code : ∀ k ∈ f.codes tbl ps len, k < n

end PcmFormat

/-! ### The rounds -/

section Rounds

variable {tbl : StepMem} {low : ℤ} {load : UInt8 → UInt8} {ps : Mem}

theorem clampFrom_mem (h : -32768 ≤ low ∧ low ≤ 32767) (p : ℤ) :
    -32768 ≤ clampFrom low p ∧ clampFrom low p ≤ 32767 := by
  unfold clampFrom
  split_ifs <;> omega

theorem clampIdx_mem (k : ℤ) : 0 ≤ clampIdx k ∧ clampIdx k < steptbl.length := by
  have : steptbl.length = 89 := rfl
  unfold clampIdx
  split_ifs <;> omega

/-- The index after a round is one of the table, whatever it was. -/
theorem decodeWith_idx_mem (step : ℤ) (s : AdpcmState) (code : UInt8) :
    0 ≤ (decodeWith low step s code).predictIdx ∧
      (decodeWith low step s code).predictIdx < steptbl.length :=
  clampIdx_mem _

/-- **The rule for rounds**: `I` is kept, and makes `K` of every round. -/
theorem forall_mem_pcmRounds {I : AdpcmState → Prop} {K : PcmRound → Prop}
    (hround : ∀ s code byte, I s →
      K ⟨s.predictIdx, byte, (decodeWith low (tbl.read s.predictIdx) s code).predict⟩)
    (hnext : ∀ s code, I s → I (decodeWith low (tbl.read s.predictIdx) s code))
    (len i pcode : ℕ) (code : UInt8) {s : AdpcmState} (hs : I s) :
    ∀ r ∈ pcmRounds tbl low load ps len i pcode code s, K r := by
  induction len generalizing i pcode code s with
  | zero => intro r hr; exact absurd hr List.not_mem_nil
  | succ len ih =>
    intro r hr
    rw [pcmRounds] at hr
    split at hr
    · cases hr with
      | head => exact hround s code _ hs
      | tail _ hr => exact ih _ _ _ (hnext s code hs) r hr
    · cases hr with
      | head => exact hround s code _ hs
      | tail _ hr => exact ih _ _ _ (hnext s code hs) r hr

/-- From an index of the table on, the table is read at such ones only. -/
theorem pcmRounds_idx_of_mem (len i pcode : ℕ) (code : UInt8) {s : AdpcmState}
    (hs : 0 ≤ s.predictIdx ∧ s.predictIdx < steptbl.length) :
    ∀ r ∈ pcmRounds tbl low load ps len i pcode code s, 0 ≤ r.idx ∧ r.idx < steptbl.length :=
  forall_mem_pcmRounds (I := fun s => 0 ≤ s.predictIdx ∧ s.predictIdx < steptbl.length)
    (K := fun r => 0 ≤ r.idx ∧ r.idx < steptbl.length) (fun _ _ _ hs => hs)
    (fun _ _ _ => decodeWith_idx_mem _ _ _) len i pcode code hs

/-- **The table** is read at its indexes only, exactly when the first one is. -/
theorem pcmRounds_idx_iff (len i pcode : ℕ) (code : UInt8) (s : AdpcmState) :
    (∀ r ∈ pcmRounds tbl low load ps len i pcode code s, 0 ≤ r.idx ∧ r.idx < steptbl.length) ↔
      (len = 0 ∨ 0 ≤ s.predictIdx ∧ s.predictIdx < steptbl.length) := by
  cases len with
  | zero => simp [pcmRounds]
  | succ len =>
    constructor
    · intro h
      right
      rw [pcmRounds] at h
      split at h <;> exact h _ List.mem_cons_self
    · rintro (h | h)
      · cases h
      · exact pcmRounds_idx_of_mem _ _ _ _ h

/-- **The samples** are `s16`, whatever the table gives. -/
theorem pcmRounds_sample (hlow : -32768 ≤ low ∧ low ≤ 32767) (len i pcode : ℕ) (code : UInt8)
    (s : AdpcmState) :
    ∀ r ∈ pcmRounds tbl low load ps len i pcode code s, -32768 ≤ r.sample ∧ r.sample ≤ 32767 := by
  refine forall_mem_pcmRounds (I := fun _ => True)
    (K := fun r => -32768 ≤ r.sample ∧ r.sample ≤ 32767) ?_ ?_ len i pcode code trivial
  · intro s code byte _
    exact clampFrom_mem hlow _
  · intro s code _
    trivial

/-- **The codes**: a byte is read after every second sample. -/
theorem pcmRounds_codes (len i pcode : ℕ) (code : UInt8) (s : AdpcmState) :
    (pcmRounds tbl low load ps len i pcode code s).filterMap PcmRound.code =
      List.range' pcode ((len + i % 2) / 2) := by
  have mask : i &&& 1 = i % 2 := Nat.and_two_pow_sub_one_eq_mod i 1
  induction len generalizing i pcode code s with
  | zero =>
    have : (0 + i % 2) / 2 = 0 := by omega
    rw [this]
    rfl
  | succ len ih =>
    rw [pcmRounds, mask]
    rcases Nat.mod_two_eq_zero_or_one i with h | h
    · have hlen : (len + 1 + i % 2) / 2 = (len + (i + 1) % 2) / 2 := by omega
      rw [hlen, ← ih (i + 1) pcode (code >>> 4) _ (Nat.and_two_pow_sub_one_eq_mod _ 1)]
      simp only [h, ne_eq, not_true, if_false]
      exact List.filterMap_cons_none rfl
    · have hlen : (len + 1 + i % 2) / 2 = (len + (i + 1) % 2) / 2 + 1 := by omega
      rw [hlen, List.range'_succ,
        ← ih (i + 1) (pcode + 1) (load (ps pcode)) _ (Nat.and_two_pow_sub_one_eq_mod _ 1)]
      simp only [h, ne_eq, Nat.one_ne_zero, not_false_iff, if_true]
      exact List.filterMap_cons_some rfl

/-- **The samples, in the table**, are those that `pcmLoop` gives. -/
theorem pcmRounds_states (len i pcode : ℕ) (code : UInt8) {s : AdpcmState}
    (hs : 0 ≤ s.predictIdx ∧ s.predictIdx < steptbl.length) :
    (pcmRounds tbl (-32768) load ps len i pcode code s).map PcmRound.sample =
      (pcmLoop load len i (adv ps pcode) code s).map AdpcmState.predict := by
  induction len generalizing i pcode code s with
  | zero => rfl
  | succ len ih =>
    have hstep : decodeWith (-32768) (tbl.read s.predictIdx) s code = decodeSample s code := by
      rw [tbl.read_eq _ hs.1 hs.2, decodeWith_stepAt]
    have hnext := clampIdx_mem (s.predictIdx + idxtbl.getD (code &&& (15 : UInt8)).toNat 0)
    rw [pcmRounds, pcmLoop, hstep]
    by_cases hi : i &&& 1 ≠ 0
    · have hload : ps pcode = adv ps pcode 0 := by rw [adv, Nat.zero_add]
      rw [if_pos hi, if_pos hi, List.map_cons, List.map_cons, ih _ _ _ hnext, hload,
        HciTransport.adv_adv]
    · rw [if_neg hi, if_neg hi, List.map_cons, List.map_cons, ih _ _ _ hnext]

end Rounds

/-! ### The decoders -/

namespace PcmFormat

variable (f : PcmFormat) (tbl : StepMem) (ps : Mem) (len n : ℕ)

/-- **A decoder is safe** exactly when the index in the header is one of the table, if there is a
sample, and the byte after the codes is in the packet. -/
theorem safe_iff :
    f.Safe tbl ps len n ↔
      (len = 0 ∨ 0 ≤ (f.header ps).predictIdx ∧ (f.header ps).predictIdx < steptbl.length) ∧
        f.headerLen + len / 2 < n := by
  have hcodes : (∀ k ∈ f.codes tbl ps len, k < n) ↔ f.headerLen + len / 2 < n := by
    have hlen : (len + 0 % 2) / 2 = len / 2 := by omega
    rw [codes, rounds, pcmRounds_codes, hlen]
    simp only [List.mem_cons, List.mem_range'_1]
    constructor
    · intro h
      apply h
      omega
    · rintro h k hk
      omega
  constructor
  · intro h
    exact ⟨(pcmRounds_idx_iff _ _ _ _ _).mp h.idx, hcodes.mp h.code⟩
  · rintro ⟨hidx, hcode⟩
    exact ⟨(pcmRounds_idx_iff _ _ _ _ _).mpr hidx, pcmRounds_sample f.low_mem _ _ _ _ _,
      hcodes.mpr hcode⟩

/-- The index in a header of Telink is its third byte. -/
theorem telinkHeader_idx : (telinkHeader ps).predictIdx = (ps 2).toNat := by
  show ((wordAt ps 1 &&& (0xff : UInt16)).toNat : ℤ) = (ps 2).toNat
  rw [wordAt, word_and_ff, UInt8.toNat_toUInt16]

/-- The index in a header of Google is its sixth byte, with a sign. -/
theorem googleHeader_idx : (googleHeader ps).predictIdx = (ps 5).toInt8.toInt := by
  show ((wordAt ps 2 &&& (0xff00 : UInt16)) >>> 8).toUInt8.toInt8.toInt = (ps 5).toInt8.toInt
  rw [wordAt, word_high]

/-- Such a byte is an index of the table exactly when it is one without the sign. -/
theorem toInt8_mem_iff (b : UInt8) :
    (0 ≤ b.toInt8.toInt ∧ b.toInt8.toInt < steptbl.length) ↔ b.toNat < steptbl.length := by
  have hlen : steptbl.length = 89 := rfl
  have hsign : b.toInt8.toInt = if 2 * b.toNat < 256 then (b.toNat : ℤ) else b.toNat - 256 :=
    BitVec.toInt_eq_toNat_cond _
  have := b.toNat_lt
  rw [hsign, hlen]
  split_ifs <;> omega

end PcmFormat

/-- **The decoders are safe** exactly when the index byte of the header is below the length of the
step table, if there is a sample, and the packet has one byte more than the header and the
codes. -/
theorem adpcmToPcm_safe_iff (tbl : StepMem) (ps : Mem) (len n : ℕ) :
    (PcmFormat.telink.Safe tbl ps len n ↔
      (len = 0 ∨ (ps 2).toNat < steptbl.length) ∧ 4 + len / 2 < n) ∧
    (PcmFormat.googleV0p4.Safe tbl ps len n ↔
      (len = 0 ∨ (ps 5).toNat < steptbl.length) ∧ 6 + len / 2 < n) ∧
    (PcmFormat.tlAudio.Safe tbl ps len n ↔
      (len = 0 ∨ (ps 2).toNat < steptbl.length) ∧ 4 + len / 2 < n) := by
  have htelink : (0 ≤ (telinkHeader ps).predictIdx ∧
      (telinkHeader ps).predictIdx < steptbl.length) ↔ (ps 2).toNat < steptbl.length := by
    rw [PcmFormat.telinkHeader_idx]
    omega
  have hgoogle : (0 ≤ (googleHeader ps).predictIdx ∧
      (googleHeader ps).predictIdx < steptbl.length) ↔ (ps 5).toNat < steptbl.length := by
    rw [PcmFormat.googleHeader_idx]
    exact PcmFormat.toInt8_mem_iff _
  refine ⟨?_, ?_, ?_⟩
  · rw [PcmFormat.safe_iff, ← htelink]
    rfl
  · rw [PcmFormat.safe_iff, ← hgoogle]
    rfl
  · rw [PcmFormat.safe_iff, ← htelink]
    rfl

/-- A packet of Telink, `MIC_ADPCM_FRAME_SIZE` bytes, is decoded to `MIC_SHORT_DEC_SIZE` samples. The
byte after it is read. -/
theorem telink_call_unsafe :
    let tbl : StepMem := ⟨stepAt, fun _ _ _ => rfl⟩
    ¬ PcmFormat.telink.Safe tbl (fun _ => 0) 248 128 ∧
      ¬ PcmFormat.tlAudio.Safe tbl (fun _ => 0) 248 128 := by
  constructor <;> rw [PcmFormat.safe_iff] <;> exact fun h => absurd h.2 (by decide)

/-- With 89 as its index, a packet of Google has the step table read behind its end. -/
theorem google_call_unsafe :
    let tbl : StepMem := ⟨stepAt, fun _ _ _ => rfl⟩
    ¬ PcmFormat.googleV0p4.Safe tbl (fun i => if i = 5 then 89 else 0) 256 136 := by
  have hidx : (googleHeader fun i => if i = 5 then 89 else 0).predictIdx = 89 := by
    rw [PcmFormat.googleHeader_idx]
    rfl
  intro tbl
  rw [PcmFormat.safe_iff]
  rintro ⟨h | h, -⟩
  · cases h
  · have hlt := h.2
    rw [show PcmFormat.googleV0p4.header = googleHeader from rfl, hidx] at hlt
    exact absurd hlt (by decide)

end TcBle.Audio
