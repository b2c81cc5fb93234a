import TcBle.Audio.AdpcmFrame

/-!
# ADPCM sessions

In the formats without a header the two sides keep their states from frame to frame: each starts
from its own initial values, and no frame tells the decoder where the encoder is. For the HID
service both start at 0. For Google's version 1.0 the encoder's `predict_idx` starts at 1 and the
decoder's at 0.

## What is proved

* `session_agrees` — two sides that start in one state agree after every frame.
* `first_differs` — from the initial values of Google's version 1.0 the very first sample differs.
* `session_iff` — a session is decoded to the encoder's predictors exactly when it is one of the HID
  service, or has no frame.
-/

namespace TcBle.Audio

open TcBle.HciTransport TcBle.Foundation

/-- The encoder's `predict` and `predict_idx` before the first frame. -/
def encoderInit : Format → AdpcmState
  | .googleV0p4 | .googleV1p0 => { predict := 0, predictIdx := 1 }
  | .gattTelink | .hid => { predict := 0, predictIdx := 0 }

/-- The decoder's, in the formats where it keeps them. -/
def decoderInit : Format → AdpcmState := fun _ => { predict := 0, predictIdx := 0 }

/-- A session: the traces of the two sides, frame by frame, for frames that arrive in order. Each
frame comes with what lies behind it in the decoder's memory. -/
def session (adpcmPacketLen : ℕ) (f : Format) :
    UInt16 → AdpcmState → AdpcmState → List (List Int16 × Mem) → List (Trace × Trace)
  | _, _, _, [] => []
  | adpcmSerialNum, s, t, (ps, rest) :: frames =>
    let e := encodeFrame adpcmPacketLen adpcmSerialNum f s ps
    let d := decodeFrame f t (buffer e.frame rest) ps.length
    (e.trace, d) :: session adpcmPacketLen f (adpcmSerialNum + 1) e.trace.endState d.endState frames

/-- The decoder wrote the encoder's predictors and is in its state. -/
def Agrees (r : Trace × Trace) : Prop :=
  r.2.predicts = r.1.predicts ∧ r.2.endState = r.1.endState

/-- Frames of words of four samples. -/
def Whole (frames : List (List Int16 × Mem)) : Prop := ∀ p ∈ frames, 4 ∣ p.1.length

/-- The state after a frame is in range. -/
theorem encodeFrame_endState (adpcmPacketLen : ℕ) (adpcmSerialNum : UInt16) (f : Format)
    {s : AdpcmState} (hs : s.InRange) {ps : List Int16} (hps : 4 ∣ ps.length) :
    (encodeFrame adpcmPacketLen adpcmSerialNum f s ps).trace.endState.InRange := by
  have hstart : (encodeFrame adpcmPacketLen adpcmSerialNum f s ps).trace.start = s := by
    cases f <;> rfl
  have hall := encodeFrame_inRange adpcmPacketLen adpcmSerialNum f s hps
  unfold Trace.endState
  cases hlast : (encodeFrame adpcmPacketLen adpcmSerialNum f s ps).trace.states.getLast? with
  | none => rwa [List.getLastD_eq_getLast?, hlast, hstart]
  | some t =>
    rw [List.getLastD_eq_getLast?, hlast]
    exact hall t (List.mem_of_getLast? hlast)

/-- **Two sides that start in one state agree** after every frame. -/
theorem session_agrees (adpcmPacketLen : ℕ) (f : Format) {frames : List (List Int16 × Mem)}
    (hframes : Whole frames) (adpcmSerialNum : UInt16) {s : AdpcmState} (hs : s.InRange) :
    ∀ r ∈ session adpcmPacketLen f adpcmSerialNum s s frames, Agrees r := by
  induction frames generalizing adpcmSerialNum s with
  | nil => simp [session]
  | cons p frames ih =>
    obtain ⟨ps, rest⟩ := p
    have hps : 4 ∣ ps.length := hframes (ps, rest) List.mem_cons_self
    have hd := decodeFrame_encodeFrame adpcmPacketLen adpcmSerialNum f hs (fun _ => rfl) hps rest
    intro r hr
    rw [session, hd, List.mem_cons] at hr
    obtain rfl | hr := hr
    · exact ⟨rfl, rfl⟩
    · exact ih (fun p hp => hframes p (List.mem_cons_of_mem _ hp)) _
        (encodeFrame_endState adpcmPacketLen adpcmSerialNum f hs hps) r hr

/-- **The first sample differs** where the encoder starts one step of the table above the
decoder. -/
theorem first_differs (di : Int16) :
    (decodeSample (decoderInit .googleV1p0)
      (encodeSample (encoderInit .googleV1p0) di).1.toUInt8).predict ≠
        (encodeSample (encoderInit .googleV1p0) di).2.predict := by
  obtain ⟨b8, b4, b2, b1, hcode, -⟩ := quantize_eq (encoderInit .googleV1p0) di
  have hdiffers : ∀ b8 b4 b2 b1 : Bool,
      (decodeSample (decoderInit .googleV1p0) (codeOf b8 b4 b2 b1).toUInt8).predict ≠
        (decodeSample (encoderInit .googleV1p0) (codeOf b8 b4 b2 b1).toUInt8).predict := by
    decide
  rw [← decodeSample_encodeSample, encodeSample, hcode]
  exact hdiffers b8 b4 b2 b1

/-- No first frame of Google's version 1.0 is decoded right. -/
theorem first_frame_disagrees (adpcmPacketLen : ℕ) (adpcmSerialNum : UInt16) {ps : List Int16}
    (hps : 4 ∣ ps.length) (rest : Mem) (frames : List (List Int16 × Mem)) :
    ∃ r ∈ session adpcmPacketLen .googleV1p0 adpcmSerialNum (encoderInit .googleV1p0)
      (decoderInit .googleV1p0) ((ps, rest) :: frames), ¬ Agrees r := by
  refine ⟨_, List.mem_cons_self, ?_⟩
  have hd : decodeFrame .googleV1p0 (decoderInit .googleV1p0)
      (buffer (encodeFrame adpcmPacketLen adpcmSerialNum .googleV1p0 (encoderInit .googleV1p0)
        ps).frame rest) ps.length =
        { start := decoderInit .googleV1p0
          states := Lockstep.replay (fun s code => decodeSample s code.toUInt8)
            (decoderInit .googleV1p0)
            (Lockstep.codes encodeSample (encoderInit .googleV1p0) ps) } :=
    pcmBody_packed load_swap [] _ _ hps rest
  have he : (encodeFrame adpcmPacketLen adpcmSerialNum .googleV1p0 (encoderInit .googleV1p0)
      ps).trace =
        { start := encoderInit .googleV1p0
          states := Lockstep.states encodeSample (encoderInit .googleV1p0) ps } := by
    simp only [encodeFrame, micToAdpcmSplitGoogle, micBody,
      micLoop_eq swapWord hps (Nat.dvd_zero 4)]
  rw [he, hd]
  rintro ⟨hpredicts, hend⟩
  cases ps with
  | nil => exact absurd hend (by decide)
  | cons di ps =>
    simp only [Trace.predicts, Lockstep.codes_cons, Lockstep.replay_cons, Lockstep.states_cons,
      List.map_cons, List.cons.injEq] at hpredicts
    exact first_differs di hpredicts.1

/-- **A session is decoded** to the encoder's predictors exactly when it is one of the HID service,
or has no frame. -/
theorem session_iff (adpcmPacketLen : ℕ) (f : Format) (hf : f.header = false)
    (adpcmSerialNum : UInt16) (frames : List (List Int16 × Mem)) (hframes : Whole frames) :
    (∀ r ∈ session adpcmPacketLen f adpcmSerialNum (encoderInit f) (decoderInit f) frames,
      Agrees r) ↔ f = .hid ∨ frames = [] := by
  constructor
  · intro hall
    cases f with
    | gattTelink => cases hf
    | googleV0p4 => cases hf
    | googleV1p0 =>
      cases frames with
      | nil => exact Or.inr rfl
      | cons p frames =>
        obtain ⟨r, hr, hne⟩ := first_frame_disagrees adpcmPacketLen adpcmSerialNum
          (hframes p List.mem_cons_self) p.2 frames
        exact absurd (hall r hr) hne
    | hid => exact Or.inl rfl
  · rintro (rfl | rfl)
    · exact session_agrees adpcmPacketLen .hid hframes adpcmSerialNum (s := encoderInit .hid)
        ⟨by decide, by decide, by decide, by decide⟩
    · simp [session]

/-- Two frames of the HID service. -/
theorem hidFrames_agree :
    (session 120 .hid 0 (encoderInit .hid) (decoderInit .hid)
      [([100, 200, 300, 400], fun _ => 0), ([500, -500, 700, -700], fun _ => 1)]).length = 2 ∧
    ∀ r ∈ session 120 .hid 0 (encoderInit .hid) (decoderInit .hid)
      [([100, 200, 300, 400], fun _ => 0), ([500, -500, 700, -700], fun _ => 1)], Agrees r :=
  ⟨rfl, (session_iff 120 .hid rfl 0 [([100, 200, 300, 400], fun _ => 0),
    ([500, -500, 700, -700], fun _ => 1)] (by simp [Whole])).mpr (Or.inl rfl)⟩

/-- A frame of silence of Google's version 1.0, as the remote control sends it: the decoder is
elsewhere from the first sample on. -/
theorem silence_disagrees :
    ¬ ∀ r ∈ session 120 .googleV1p0 0 (encoderInit .googleV1p0) (decoderInit .googleV1p0)
      [(List.replicate 240 0, fun _ => 0)], Agrees r := by
  intro hall
  have hps : 4 ∣ (List.replicate 240 (0 : Int16)).length := by
    rw [List.length_replicate]
    decide
  obtain ⟨r, hr, hne⟩ := first_frame_disagrees 120 0 hps (fun _ => 0) []
  exact hne (hall r hr)

end TcBle.Audio
