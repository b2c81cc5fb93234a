import TcBle.Audio.DonglePlayback
import TcBle.Audio.MicStream

/-!
# From the microphone to the host

The remote control sends its packets as notifications, which arrive in order; the dongle keeps them with
`abuf_mic_add`, decodes them and sends the samples to the host. Both sides are in
`application/audio/tl_audio.c`, in the modes `TL_AUDIO_RCU_ADPCM_GATT_TELINK` and
`TL_AUDIO_DONGLE_ADPCM_GATT_TELINK`.

## What is proved

* `Heard.step` — what the dongle has decoded since the last reset are frames that came one after the
  other.
* `mic_to_host` — the samples that the host gets are what the encoder rebuilds of units of the
  microphone, in order; of all the units, when nothing is lost on the way.
-/

namespace TcBle.Audio

open TcBle.Foundation TcBle.Foundation.CyclicRing TcBle.HciTransport

/-! ### The frames that come -/

/-- A frame of the Telink encoder. -/
def IsUnit (e : Encoded) : Prop :=
  ∃ (c : UInt16 × AdpcmState) (ps : List Int16), c.2.InRange ∧
    ps.length = Format.gattTelink.micAdpcmUnitSize ∧ e = encodeUnitFrom .gattTelink c ps

theorem isUnit_of_mem {c : UInt16 × AdpcmState} (hc : c.2.InRange) {units : List (List Int16)}
    (hunits : ∀ u ∈ units, u.length = Format.gattTelink.micAdpcmUnitSize) {e : Encoded}
    (he : e ∈ encodedUnits .gattTelink c units) : IsUnit e := by
  induction units generalizing c with
  | nil => cases he
  | cons ps units ih =>
    have hps := hunits ps List.mem_cons_self
    rcases List.mem_cons.mp he with rfl | he
    · exact ⟨c, ps, hc, hps, rfl⟩
    · exact ih (codecNext_inRange hc hps) (fun u hu => hunits u (List.mem_cons_of_mem _ hu)) he

/-- Memory that begins with some bytes. -/
theorem eq_buffer_of_bytes {p : Mem} {data : List UInt8} (h : bytes p data.length = data) :
    p = buffer data p := by
  funext i
  rw [buffer_apply]
  by_cases hi : i < data.length
  · conv_rhs => rw [← h]
    rw [getD_bytes _ hi]
  · rw [List.getD_eq_default _ _ (not_lt.mp hi)]

/-- The dongle's decoder gives what the encoder rebuilds. -/
theorem IsUnit.samples {e : Encoded} (he : IsUnit e) (tbl : StepMem) {p : Mem}
    (hp : bytes p micAdpcmFrameSize = e.frame) :
    PcmFormat.telink.samples tbl p micShortDecSize = e.trace.predicts := by
  obtain ⟨c, ps, hc, hps, rfl⟩ := he
  have hlen := length_frame .gattTelink c.1 c.2 hps
  have hp : p = buffer (encodeUnitFrom .gattTelink c ps).frame p :=
    eq_buffer_of_bytes (show bytes p (encodeUnitFrom .gattTelink c ps).frame.length = _ from
      (congrArg (bytes p) hlen).trans hp)
  have hframe : TelinkFrame p micShortDecSize (encodeUnitFrom .gattTelink c ps).trace.predicts :=
    ⟨_, c.2, ps, p, hc, hps ▸ Format.four_dvd_unitSize .gattTelink, hps, hp, rfl⟩
  refine hframe.samples tbl ?_
  rw [hp]
  show 0 ≤ (telinkHeader (buffer (micToAdpcmSplitTelink 128 c.2 ps true).frame p)).predictIdx ∧
    (telinkHeader (buffer (micToAdpcmSplitTelink 128 c.2 ps true).frame p)).predictIdx < _
  rw [telinkHeader_eq _ hc]
  exact ⟨hc.idx_nonneg, Int.lt_of_le_of_lt hc.idx_le (by decide)⟩

/-! ### The dongle -/

namespace DongleAudio

/-- The packets that come in some steps. -/
def arrivals : List DongleAudioEvent → List (List UInt8)
  | [] => []
  | .micAdd p :: es => bytes p micAdpcmFrameSize :: arrivals es
  | .init :: es => arrivals es
  | .micDec :: es => arrivals es
  | .usb _ :: es => arrivals es

/-- A step with which the dongle keeps up: a frame finds room, and a read that copies samples finds
enough of them. -/
def KeepsUp (s : DongleAudio) : DongleAudioEvent → Prop
  | .micAdd _ => s.numMic < 4
  | .usb now => s.PlaysOn (.usb now)
  | _ => True

instance (s : DongleAudio) : ∀ e, Decidable (s.KeepsUp e)
  | .micAdd _ => inferInstanceAs (Decidable (s.numMic < 4))
  | .usb now => inferInstanceAs (Decidable ((s.usbBegin now).Plays → ¬ (_ ∧ _) ∧ _ ≠ _))
  | .init => isTrue trivial
  | .micDec => isTrue trivial

/-- The frames that are to be decoded. -/
def Waiting (s : DongleAudio) (frames : List (List UInt8)) : Prop :=
  Holds micPacketBufferNum (2 ^ 8) (fun k => HciTransport.slot s.abufMic micAdpcmFrameSize k)
    s.abufMicWptr.toNat s.abufDecWptr.toNat frames

/-- Of the frames that came, some were decoded since the last reset, one after the other, and the last
ones are to be decoded. -/
def Heard (s : DongleAudio) (es : List Encoded) : Prop :=
  ∃ before heard waiting, es = before ++ heard ++ waiting ∧
    s.Waiting (waiting.map Encoded.frame) ∧
    s.decoded = heard.flatMap fun e => e.trace.predicts

variable {s s' : DongleAudio} {es : List Encoded} {tbl : StepMem}

theorem Waiting.numMic {frames : List (List UInt8)} (h : s.Waiting frames) :
    s.numMic.toNat = frames.length := by
  have hroom : frames.length ≤ 4 := h.room
  rw [DongleAudio.numMic, UInt8.toNat_sub, Nat.add_comm]
  exact h.count (hroom.trans_lt (by decide))

/-- No frame is overwritten before it is decoded. -/
theorem Heard.numMic_le (h : s.Heard es) : s.numMic ≤ 4 := by
  obtain ⟨-, -, waiting, -, hwaiting, -⟩ := h
  refine UInt8.le_iff_toNat_le.mpr ?_
  rw [hwaiting.numMic]
  exact hwaiting.room

theorem Heard.skipOverflow (h : s.Heard es) : s.skipOverflow = s :=
  if_neg (UInt8.not_lt.mpr h.numMic_le)

/-- A step that leaves the frames alone, and what was decoded, unless there is a reset. -/
theorem Heard.of_eq (h : s.Heard es) (hmic : s'.abufMic = s.abufMic)
    (hmicWptr : s'.abufMicWptr = s.abufMicWptr) (hdecWptr : s'.abufDecWptr = s.abufDecWptr)
    (hdecoded : s'.decoded = s.decoded ∨ s'.decoded = []) : s'.Heard es := by
  obtain ⟨before, heard, waiting, hes, hwaiting, hheard⟩ := h
  have hwaiting' : s'.Waiting (waiting.map Encoded.frame) := by
    rw [Waiting, hmic, hmicWptr, hdecWptr]
    exact hwaiting
  rcases hdecoded with heq | hnil
  · exact ⟨before, heard, waiting, hes, hwaiting', heq.trans hheard⟩
  · exact ⟨before ++ heard, [], waiting, by rw [List.append_nil]; exact hes, hwaiting', hnil⟩

/-- A step that gives up the frames that are to be decoded. -/
theorem Heard.of_empty (es : List Encoded) (hwptr : s'.abufMicWptr = s'.abufDecWptr)
    (hdecoded : s'.decoded = []) : s'.Heard es := by
  refine ⟨es, [], [], by simp, ?_, hdecoded⟩
  rw [Waiting, hwptr]
  exact holds_nil (UInt8.toNat_lt _)

/-- A frame comes. -/
theorem Heard.micAdd (h : s.Heard es) {p : Mem} (hroom : s.numMic < 4) {e : Encoded}
    (hp : bytes p micAdpcmFrameSize = e.frame) : (s.abufMicAdd p).Heard (es ++ [e]) := by
  obtain ⟨before, heard, waiting, hes, hwaiting, hheard⟩ := h
  refine ⟨before, heard, waiting ++ [e], by rw [hes, List.append_assoc], ?_, hheard⟩
  have hlt := UInt8.lt_iff_toNat_lt.mp hroom
  rw [hwaiting.numMic] at hlt
  have hpush := hwaiting.push (show micPacketBufferNum ∣ 2 ^ 8 by decide) hlt e.frame
  have hwptr : (s.abufMicAdd p).abufMicWptr.toNat = (s.abufMicWptr.toNat + 1) % 2 ^ 8 :=
    UInt8.toNat_add _ _
  have hmask : (s.abufMicWptr &&& 3).toNat = s.abufMicWptr.toNat % micPacketBufferNum :=
    (UInt8.toNat_and s.abufMicWptr 3).trans (Nat.and_two_pow_sub_one_eq_mod _ 2)
  have hmem : (s.abufMicAdd p).abufMic =
      memcpy s.abufMic (s.abufMicWptr.toNat % micPacketBufferNum * micAdpcmFrameSize)
        (bytes p micAdpcmFrameSize) := by
    funext a
    rw [memcpy_bytes_apply, ← hmask]
    rfl
  have hslots : (fun k => HciTransport.slot (s.abufMicAdd p).abufMic micAdpcmFrameSize k) =
      Function.update (fun k => HciTransport.slot s.abufMic micAdpcmFrameSize k)
        (s.abufMicWptr.toNat % micPacketBufferNum) e.frame := by
    have hlen : (bytes p micAdpcmFrameSize).length = micAdpcmFrameSize := length_bytes _ _
    funext k
    rw [hmem]
    by_cases hk : k = s.abufMicWptr.toNat % micPacketBufferNum
    · rw [hk, Function.update_self, slot_memcpy_self _ _ hlen.le, hlen,
        List.drop_eq_nil_of_le (length_slot _ _ _).le, List.append_nil, hp]
    · rw [Function.update_of_ne hk, slot_memcpy_of_ne _ hlen.le hk]
  rw [← hslots, ← hwptr] at hpush
  rw [List.map_append]
  exact hpush

/-- A frame is decoded. -/
theorem Heard.decodeFrame (h : s.Heard es) (hunits : ∀ e ∈ es, IsUnit e) (hone : 1 ≤ s.numMic) :
    (s.decodeFrame tbl).Heard es := by
  obtain ⟨before, heard, waiting, hes, hwaiting, hheard⟩ := h
  have hlen := UInt8.le_iff_toNat_le.mp hone
  rw [hwaiting.numMic, List.length_map] at hlen
  cases waiting with
  | nil => exact absurd hlen (by decide)
  | cons e waiting =>
    have hunit := hunits e (by rw [hes]; simp)
    have hdrop := hwaiting.drop (n := 1) (show micPacketBufferNum ∣ 2 ^ 8 by decide)
      (Nat.succ_le_succ (Nat.zero_le _))
    have hwptr : (s.decodeFrame tbl).abufDecWptr.toNat = (s.abufDecWptr.toNat + 1) % 2 ^ 8 :=
      UInt8.toNat_add _ _
    rw [← hwptr] at hdrop
    have hfirst : bytes (adv s.abufMic (s.slot * micAdpcmFrameSize)) micAdpcmFrameSize =
        e.frame := by
      rw [slot_eq]
      exact hwaiting.slots 0 (Nat.zero_lt_succ _)
    refine ⟨before, heard ++ [e], waiting, by rw [hes]; simp, hdrop, ?_⟩
    show s.decoded ++ s.pcm tbl = _
    rw [hheard, pcm, hunit.samples tbl hfirst, List.flatMap_append]
    simp

theorem Heard.micDec (h : s.Heard es) (hgood : s.Good) (hunits : ∀ e ∈ es, IsUnit e) :
    (s.abufMicDec tbl).Heard es := by
  rw [abufMicDec, h.skipOverflow]
  split
  case isTrue hreset => exact Heard.of_empty es rfl (hgood.reset hreset).1
  case isFalse =>
  split
  case isTrue => exact h.of_eq rfl rfl rfl (Or.inr rfl)
  case isFalse =>
  split
  case isTrue hdecode =>
    refine h.decodeFrame hunits ?_
    rcases hdecode.1 with ⟨-, hone⟩ | ⟨-, htwo⟩
    · exact hone
    · exact UInt8.le_trans (by decide) htwo
  case isFalse => exact h

theorem Heard.usb (h : s.Heard es) (now : UInt32) : (s.abufDecUsb now).Heard es := by
  have hlate : (s.usbLate now).Heard es := by
    rw [DongleAudio.usbLate]
    split
    · exact h.of_eq rfl rfl rfl (Or.inr rfl)
    · exact h.of_eq rfl rfl rfl (Or.inl rfl)
  have hbegin : (s.usbBegin now).Heard es := by
    rw [usbBegin, DongleAudio.usbReset]
    split
    · exact hlate.of_eq rfl rfl rfl (Or.inl rfl)
    · exact hlate
  rw [abufDecUsb]
  split
  · exact hbegin.of_eq rfl rfl rfl (Or.inl rfl)
  split
  · exact hbegin.of_eq rfl rfl rfl (Or.inl rfl)
  · exact hbegin

theorem KeepsUp.playsOn (h : s.Heard es) {e : DongleAudioEvent} (he : s.KeepsUp e) :
    s.PlaysOn e := by
  cases e with
  | init => trivial
  | micAdd p => trivial
  | micDec => exact fun _ => h.numMic_le
  | usb now => exact he

/-- **Any steps with which the dongle keeps up** decode the frames that come, one after the other. -/
theorem Heard.run (h : s.Heard es) (hgood : s.Good) (hkept : s.Kept) {ds : List DongleAudioEvent}
    (hds : Run.Along (step tbl) KeepsUp s ds) {news : List Encoded}
    (hnews : arrivals ds = news.map Encoded.frame) (hunits : ∀ e ∈ es ++ news, IsUnit e) :
    (ds.foldl (step tbl) s).Heard (es ++ news) ∧ (ds.foldl (step tbl) s).Good := by
  induction ds generalizing s es news with
  | nil =>
    rw [arrivals, eq_comm, List.map_eq_nil_iff] at hnews
    rw [hnews, List.append_nil]
    exact ⟨h, hgood⟩
  | cons d ds ih =>
    obtain ⟨hd, hds⟩ := hds
    have hold : ∀ e ∈ es, IsUnit e := fun e he => hunits e (List.mem_append_left _ he)
    have hgood' : (s.step tbl d).Good := hgood.step hkept (hd.playsOn h)
    have hkept' : (s.step tbl d).Kept := hkept.step d
    cases d with
    | init => exact ih (Heard.of_empty es rfl rfl) hgood' hkept' hds hnews hunits
    | micDec => exact ih (h.micDec hgood hold) hgood' hkept' hds hnews hunits
    | usb now => exact ih (h.usb now) hgood' hkept' hds hnews hunits
    | micAdd p =>
      obtain ⟨e, news, rfl, hp, hrest⟩ := List.map_eq_cons_iff.mp hnews.symm
      rw [List.append_cons es e news] at hunits ⊢
      exact ih (h.micAdd hd hp.symm) hgood' hkept' hds hrest.symm hunits

end DongleAudio

open DongleAudio MicRun

theorem length_of_mem_arrivals {ds : List DongleAudioEvent} :
    ∀ p ∈ arrivals ds, p.length = micAdpcmFrameSize := by
  induction ds with
  | nil => simp [arrivals]
  | cons d ds ih =>
    cases d with
    | micAdd p =>
      intro q hq
      rcases List.mem_cons.mp hq with rfl | hq
      · exact length_bytes _ _
      · exact ih q hq
    | init => exact ih
    | micDec => exact ih
    | usb now => exact ih

/-- The packets that came are whole frames. -/
theorem map_take_arrivals (ds : List DongleAudioEvent) :
    (arrivals ds).map (List.take Format.gattTelink.frameLen) = arrivals ds := by
  refine (List.map_congr_left fun p hp => ?_).trans (List.map_id _)
  exact List.take_of_length_le (length_of_mem_arrivals p hp).le

/-- What the host got are the first samples of frames that came one after the other. -/
theorem heard_sent {tbl : StepMem} {ds : List DongleAudioEvent} {news : List Encoded}
    (hkeeps : Run.Along (step tbl) KeepsUp boot ds)
    (hnews : arrivals ds = news.map Encoded.frame) (hunits : ∀ e ∈ news, IsUnit e) :
    ∃ picked, picked <:+: news ∧
      (ds.foldl (step tbl) boot).sent <+: picked.flatMap fun e => e.trace.predicts := by
  have hboot : boot.Heard [] := Heard.of_empty [] rfl rfl
  obtain ⟨⟨before, heard, waiting, hes, -, hheard⟩, hgood⟩ :=
    hboot.run boot_good boot_kept hkeeps hnews hunits
  refine ⟨heard, ⟨before, waiting, hes.symm⟩, ?_⟩
  by_cases hreset : (ds.foldl (step tbl) boot).abufReset = 0
  · obtain ⟨items, hdecoded, -⟩ := hgood.playing hreset
    rw [← hheard, hdecoded]
    exact List.prefix_append _ _
  · rw [(hgood.reset hreset).2]
    exact List.nil_prefix

/-- **What the host hears** of the microphone: for packets that arrive in order, and a dongle that keeps
up with them, the samples since the last reset are those that the encoder rebuilds of some of its
units, in order; of units one after the other, when there was always room for a packet in the remote
control. -/
theorem mic_to_host (s : MicEncoder) (hempty : s.bufferMicPktRptr = s.bufferMicPktWptr)
    (hrange : s.adpcm.InRange) (es : List MicEvent) (r : MicRun) (hr : r = run .gattTelink s es)
    (tbl : StepMem) (ds : List DongleAudioEvent) (hcame : arrivals ds <+: r.sent)
    (hkeeps : Run.Along (DongleAudio.step tbl) KeepsUp boot ds) :
    (∃ picked : List Encoded, picked.Sublist (encodedUnits .gattTelink (codec s) r.units) ∧
      (ds.foldl (DongleAudio.step tbl) boot).sent <+:
        picked.flatMap fun e => e.trace.predicts) ∧
    (Run.Along (MicRun.step .gattTelink) (Roomy .gattTelink) (begin s) es →
      ∃ picked : List Encoded, picked <:+: encodedUnits .gattTelink (codec s) r.units ∧
        (ds.foldl (DongleAudio.step tbl) boot).sent <+:
          picked.flatMap fun e => e.trace.predicts) := by
  subst hr
  have hkept := kept_run (f := .gattTelink) hempty es
  have hframes := hkept.frames
  have harrived : arrivals ds <+:
      (run .gattTelink s es).sent.map (List.take Format.gattTelink.frameLen) := by
    rw [← map_take_arrivals]
    exact hcame.map _
  have hall : ∀ e ∈ encodedUnits .gattTelink (codec s) (run .gattTelink s es).units, IsUnit e :=
    fun e he => isUnit_of_mem (c := codec s) hrange hkept.units he
  constructor
  · obtain ⟨gone, items, hsplit, -, hsent⟩ := hkept.ring
    have hsub : (arrivals ds).Sublist ((encodedUnits .gattTelink (codec s)
        (run .gattTelink s es).units).map Encoded.frame) := by
      rw [← hframes, hsplit]
      exact (harrived.sublist.trans hsent).trans (List.sublist_append_left _ _)
    obtain ⟨news, hnews, heq⟩ := List.sublist_map_iff.mp hsub
    obtain ⟨picked, hpicked, hhost⟩ := heard_sent hkeeps heq
      fun e he => hall e (hnews.subset he)
    exact ⟨picked, hpicked.sublist.trans hnews, hhost⟩
  · intro hroomy
    obtain ⟨items, hsplit, -⟩ := lossless_run hempty hroomy
    have hprefix : arrivals ds <+: (encodedUnits .gattTelink (codec s)
        (run .gattTelink s es).units).map Encoded.frame := by
      rw [← hframes, hsplit]
      exact harrived.trans (List.prefix_append _ _)
    obtain ⟨news, hnews, heq⟩ := List.prefix_map_iff.mp hprefix
    obtain ⟨picked, hpicked, hhost⟩ := heard_sent hkeeps heq
      fun e he => hall e (hnews.subset he)
    exact ⟨picked, hpicked.trans hnews.isInfix, hhost⟩

/-- Three units, of which each packet is taken at once. -/
def threeUnits : List MicEvent :=
  [.proc 248 fun _ => 100, .send true, .proc 0 fun _ => -100, .send true, .proc 248 fun _ => 200,
    .send true]

/-- Their packets come, are decoded, and the host reads. -/
def threePackets : List DongleAudioEvent :=
  let packet k := buffer
    ((run .gattTelink (micBoot .gattTelink) threeUnits).sent.getD k []) fun _ => 0
  [.micAdd (packet 0), .micAdd (packet 1), .micDec, .micDec, .micAdd (packet 2), .micDec,
    .usb 16000]

/-- The host gets the first 16 samples. -/
theorem threePackets_heard :
    (threePackets.foldl (DongleAudio.step stepTable) boot).sent.length = 16 ∧
    (Run.Along (MicRun.step .gattTelink) (Roomy .gattTelink) (begin (micBoot .gattTelink))
        threeUnits →
      ∃ picked : List Encoded,
        picked <:+: encodedUnits .gattTelink (codec (micBoot .gattTelink))
          (run .gattTelink (micBoot .gattTelink) threeUnits).units ∧
        (threePackets.foldl (DongleAudio.step stepTable) boot).sent <+:
          picked.flatMap fun e => e.trace.predicts) := by
  refine ⟨by decide +kernel, (mic_to_host (micBoot .gattTelink) rfl
    ⟨by decide, by decide, by decide, by decide⟩ threeUnits _ rfl stepTable threePackets
    (by decide +kernel) (by decide +kernel)).2⟩

end TcBle.Audio
