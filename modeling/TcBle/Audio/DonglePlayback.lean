import TcBle.Audio.AdpcmAgree
import TcBle.Foundation.CyclicRing
import TcBle.Foundation.LoggedArray
import TcBle.Foundation.Run
import TcBle.HciTransport.Common

/-!
# Playing audio on the dongle

`application/audio/tl_audio.c`, `TL_AUDIO_DONGLE_ADPCM_GATT_TELINK`: frames that come over the air are
kept by `abuf_mic_add`, decoded by `abuf_mic_dec`, and sent to the host by `abuf_dec_usb`, 16 samples
with every isochronous read.

## The model

`abuf_dec` notes where it is accessed. What was decoded since the last reset, and what was sent of
`abuf_dec` since then, is written down; the samples of a silent read are not. The count of the resets is
left out.

The write counter counts frames in 8 bits and the read counter samples in 16: seen as counters of
samples, both run through the numbers below 256 frames.

## What is proved

* `DongleAudio.Good.micDec`, `DongleAudio.Good.usb` — what the steps keep that meet their conditions.
* `dongleAudio_continuous` — the buffer is kept to always, and the samples that are sent are those
  that were decoded, in every run whose steps meet theirs.
-/

namespace TcBle.Audio

open TcBle.Foundation TcBle.Foundation.CyclicRing TcBle.Foundation.Run
open TcBle.HciTransport (Mem adv clockTimeExceed)

/-- `MIC_ADPCM_FRAME_SIZE`. -/
def micAdpcmFrameSize : ℕ := 128

/-- `MIC_SHORT_DEC_SIZE`. -/
def micShortDecSize : ℕ := 248

/-- `DEC_BUFFER_SIZE`. -/
def decBufferSize : ℕ := micShortDecSize <<< 2

/-- `MIC_SAMPLE_RATE`. -/
def micSampleRate : ℕ := 16000

/-- `USB_ISO_IN_SIZE`. -/
def usbIsoInSize : ℕ := micSampleRate / 1000

/-- Where the read counter turns around. -/
def decPeriod : ℕ := micShortDecSize <<< 8

/-- The audio of the dongle. -/
structure DongleAudio where
  /-- `abuf_mic_wptr`. -/
  abufMicWptr : UInt8
  /-- `abuf_dec_wptr`. -/
  abufDecWptr : UInt8
  /-- `abuf_dec_rptr`. -/
  abufDecRptr : UInt16
  /-- `abuf_mic`, and what is behind it. -/
  abufMic : Mem
  /-- `abuf_dec`. -/
  abufDec : LoggedArray ℤ
  /-- `abuf_reset`. -/
  abufReset : ℕ
  /-- `start`. -/
  start : Bool
  /-- `tick_usb_iso_in`. -/
  tickUsbIsoIn : UInt32
  /-- `buffer_empty`. -/
  bufferEmpty : Bool
  /-- `n_usb_iso`. -/
  nUsbIso : UInt8
  /-- What was decoded since the last reset. -/
  decoded : List ℤ
  /-- What was sent of that. -/
  sent : List ℤ

/-- What happens. -/
inductive DongleAudioEvent where
  /-- `abuf_init` is called. -/
  | init
  /-- A frame comes. -/
  | micAdd (p : Mem)
  /-- `abuf_mic_dec` is called. -/
  | micDec
  /-- The host reads. -/
  | usb (now : UInt32)

namespace DongleAudio

/-- Switched on. -/
def boot : DongleAudio where
  abufMicWptr := 0
  abufDecWptr := 0
  abufDecRptr := 0
  abufMic := fun _ => 0
  abufDec := ⟨fun _ => 0, []⟩
  abufReset := 0
  start := true
  tickUsbIsoIn := 0
  bufferEmpty := true
  nUsbIso := 0
  decoded := []
  sent := []

/-- `abuf_reset = 16`. -/
def reset (s : DongleAudio) : DongleAudio := { s with abufReset := 16, decoded := [], sent := [] }

/-- `abuf_init`. -/
def abufInit (s : DongleAudio) : DongleAudio := { s.reset with abufMicWptr := 0, abufDecWptr := 0 }

/-- `abuf_mic_add`. -/
def abufMicAdd (s : DongleAudio) (p : Mem) : DongleAudio :=
  let pd := (s.abufMicWptr &&& 3).toNat * micAdpcmFrameSize
  { s with
    abufMic := fun a => if pd ≤ a ∧ a < pd + micAdpcmFrameSize then p (a - pd) else s.abufMic a
    abufMicWptr := s.abufMicWptr + 1 }

/-- The frames that are to be decoded: `num_mic`. -/
def numMic (s : DongleAudio) : UInt8 := s.abufMicWptr - s.abufDecWptr

/-- The frames that are to be sent: `num_dec` and `num`. -/
def numDec (s : DongleAudio) : UInt8 :=
  s.abufDecWptr - UInt8.ofNat (s.abufDecRptr.toNat / micShortDecSize)

/-- The slot of the frame that is decoded next. -/
def slot (s : DongleAudio) : ℕ := (s.abufDecWptr &&& 3).toNat

/-- `adpcm_to_pcm`, of that frame. -/
def pcm (tbl : StepMem) (s : DongleAudio) : List ℤ :=
  PcmFormat.telink.samples tbl (adv s.abufMic (s.slot * micAdpcmFrameSize)) micShortDecSize

/-- `abuf_mic_dec`, the decoding of a frame. -/
def decodeFrame (tbl : StepMem) (s : DongleAudio) : DongleAudio :=
  { s with
    abufDec := s.abufDec.writeFrom (s.slot * micShortDecSize) (s.pcm tbl)
    abufDecWptr := s.abufDecWptr + 1
    start := false
    decoded := s.decoded ++ s.pcm tbl }

/-- `abuf_mic_dec`, when frames were overwritten before they were decoded. -/
def skipOverflow (s : DongleAudio) : DongleAudio :=
  if 4 < s.numMic then { s with abufDecWptr := s.abufDecWptr + 1 } else s

/-- `abuf_mic_dec`. -/
def abufMicDec (tbl : StepMem) (s : DongleAudio) : DongleAudio :=
  if s.abufReset ≠ 0 then { s with abufDecWptr := s.abufMicWptr }
  else if 4 < s.numDec then { s.skipOverflow.reset with start := true }
  else if ((s.start = false ∧ 1 ≤ s.numMic) ∨ (s.start = true ∧ 2 ≤ s.numMic)) ∧ s.numDec ≤ 3 then
    s.skipOverflow.decodeFrame tbl
  else s.skipOverflow

/-- `abuf_dec_usb`, when the last read is long ago. -/
def usbLate (s : DongleAudio) (now : UInt32) : DongleAudio :=
  let s' := { s with nUsbIso := s.nUsbIso + 1, tickUsbIsoIn := now }
  if clockTimeExceed now s.tickUsbIsoIn 4000 then s'.reset else s'

/-- `abuf_dec_usb`, during a reset. -/
def usbReset (s : DongleAudio) : DongleAudio :=
  if s.abufReset ≠ 0 then
    { s with
      abufDecRptr := UInt16.ofNat (s.abufDecWptr.toNat * micShortDecSize)
      abufReset := s.abufReset - 1 }
  else s

/-- `abuf_dec_usb`, up to the copying of samples. -/
def usbBegin (s : DongleAudio) (now : UInt32) : DongleAudio := (s.usbLate now).usbReset

/-- `abuf_dec_usb` copies samples. -/
def Plays (s : DongleAudio) : Prop :=
  s.numDec ≠ 0 ∧ ((s.bufferEmpty = true ∧ 3 ≤ s.numDec) ∨
    (s.bufferEmpty = false ∧ (1 ≤ s.numDec ∨ s.nUsbIso &&& 3 ≠ 0)))

instance (s : DongleAudio) : Decidable s.Plays := inferInstanceAs (Decidable (_ ∧ _))

/-- The entries of `abuf_dec` that are copied, in order. -/
def usbIndices (offset : ℕ) : List ℕ :=
  if offset = decBufferSize - usbIsoInSize / 2 then
    List.range' offset (usbIsoInSize / 2) ++ List.range' 0 (usbIsoInSize / 2)
  else List.range' offset usbIsoInSize

/-- `abuf_dec_usb`, the copying of samples. -/
def usbCopy (s : DongleAudio) : DongleAudio :=
  let is := usbIndices (s.abufDecRptr.toNat % decBufferSize)
  let rptr := s.abufDecRptr + UInt16.ofNat usbIsoInSize
  { s with
    bufferEmpty := false
    abufDec := s.abufDec.touchAll is
    sent := s.sent ++ is.map s.abufDec.get
    abufDecRptr := if decPeriod ≤ rptr.toNat then 0 else rptr }

/-- `abuf_dec_usb`. -/
def abufDecUsb (s : DongleAudio) (now : UInt32) : DongleAudio :=
  let s := s.usbBegin now
  if s.Plays then s.usbCopy
  else if s.numDec = 0 then { s with bufferEmpty := true }
  else s

/-- One step. -/
def step (tbl : StepMem) (s : DongleAudio) : DongleAudioEvent → DongleAudio
  | .init => s.abufInit
  | .micAdd p => s.abufMicAdd p
  | .micDec => s.abufMicDec tbl
  | .usb now => s.abufDecUsb now

/-- A step that plays on: `abuf_mic_dec` finds no more frames than there is room for, and a read finds
16 samples and not the last 8 of the counter. -/
def PlaysOn (s : DongleAudio) : DongleAudioEvent → Prop
  | .micDec => s.abufReset = 0 → s.numMic ≤ 4
  | .usb now =>
    let s := s.usbBegin now
    s.Plays →
      ¬ (s.numDec = 1 ∧ s.abufDecRptr.toNat % micShortDecSize = micShortDecSize - usbIsoInSize / 2) ∧
        s.abufDecRptr.toNat ≠ decPeriod - usbIsoInSize / 2
  | _ => True

instance (s : DongleAudio) : ∀ e, Decidable (s.PlaysOn e)
  | .micDec => inferInstanceAs (Decidable (s.abufReset = 0 → s.numMic ≤ 4))
  | .usb now => inferInstanceAs (Decidable ((s.usbBegin now).Plays → ¬ (_ ∧ _) ∧ _ ≠ _))
  | .init => isTrue trivial
  | .micAdd _ => isTrue trivial

/-! ### The indices -/

theorem length_pcmRounds (tbl : StepMem) (low : ℤ) (load : UInt8 → UInt8) (ps : Mem)
    (len i pcode : ℕ) (code : UInt8) (st : AdpcmState) :
    (pcmRounds tbl low load ps len i pcode code st).length = len := by
  induction len generalizing i pcode code st with
  | zero => rfl
  | succ len ih =>
    rw [pcmRounds]
    split <;> rw [List.length_cons, ih]

/-- A frame is so many samples. -/
theorem length_samples (f : PcmFormat) (tbl : StepMem) (ps : Mem) (len : ℕ) :
    (f.samples tbl ps len).length = len := by
  rw [PcmFormat.samples, List.length_map]
  exact length_pcmRounds _ _ _ _ _ _ _ _ _

/-- The entries that are copied are those from the read counter on, around the buffer. -/
theorem usbIndices_eq {r : ℕ} (hr : r % 8 = 0) :
    usbIndices (r % decBufferSize) =
      (List.range usbIsoInSize).map fun k => (r + k) % decBufferSize := by
  have hsize : decBufferSize = 992 := rfl
  have hiso : usbIsoInSize = 16 := rfl
  rw [usbIndices, hsize, hiso]
  have hadd : ∀ k, (r + k) % 992 = (r % 992 + k) % 992 := fun k => (Nat.mod_add_mod r 992 k).symm
  simp only [hadd]
  have hlt := Nat.mod_lt r (show 992 > 0 by decide)
  have hmod : r % 992 % 8 = 0 := by omega
  generalize r % 992 = offset at hlt hmod
  split
  case isTrue hwrap =>
    subst hwrap
    decide
  case isFalse hin =>
    rw [List.range'_eq_map_range]
    refine List.map_congr_left fun k hk => ?_
    have := List.mem_range.mp hk
    rw [Nat.mod_eq_of_lt]
    omega

/-- What holds whatever happens. -/
structure Kept (s : DongleAudio) : Prop where
  /-- Half of a read divides the read counter. -/
  rptr_mod : s.abufDecRptr.toNat % 8 = 0
  /-- The read counter is below where it turns around. -/
  rptr_lt : s.abufDecRptr.toNat < decPeriod
  /-- The buffer. -/
  dec : s.abufDec.InBounds decBufferSize

variable {s : DongleAudio} {tbl : StepMem}

theorem Kept.of_eq {s' : DongleAudio} (h : s.Kept) (hrptr : s'.abufDecRptr = s.abufDecRptr)
    (hdec : s'.abufDec = s.abufDec) : s'.Kept :=
  ⟨hrptr ▸ h.rptr_mod, hrptr ▸ h.rptr_lt, hdec ▸ h.dec⟩

theorem slot_eq (s : DongleAudio) : s.slot = s.abufDecWptr.toNat % 4 :=
  (UInt8.toNat_and s.abufDecWptr 3).trans (Nat.and_two_pow_sub_one_eq_mod s.abufDecWptr.toNat 2)

theorem length_pcm (tbl : StepMem) (s : DongleAudio) : (s.pcm tbl).length = micShortDecSize := by
  rw [pcm, length_samples]

theorem decodeFrame_abufDec (tbl : StepMem) (s : DongleAudio) :
    (s.decodeFrame tbl).abufDec = s.abufDec.writeFrom (s.slot * micShortDecSize) (s.pcm tbl) := by
  simp only [decodeFrame]

theorem Kept.decodeFrame (h : s.Kept) : (s.decodeFrame tbl).Kept := by
  refine ⟨h.rptr_mod, h.rptr_lt, ?_⟩
  rw [decodeFrame_abufDec]
  refine LoggedArray.inBounds_writeFrom h.dec ?_
  have hsize : decBufferSize = 992 := rfl
  have hshort : micShortDecSize = 248 := rfl
  rw [length_pcm, slot_eq, hshort]
  omega

theorem Kept.skipOverflow (h : s.Kept) : s.skipOverflow.Kept := by
  rw [DongleAudio.skipOverflow]
  split
  · exact h.of_eq rfl rfl
  · exact h

theorem Kept.abufMicDec (h : s.Kept) : (s.abufMicDec tbl).Kept := by
  rw [DongleAudio.abufMicDec]
  split
  · exact h.of_eq rfl rfl
  split
  · exact h.skipOverflow.of_eq rfl rfl
  split
  · exact h.skipOverflow.decodeFrame
  · exact h.skipOverflow

theorem Kept.usbLate (h : s.Kept) (now : UInt32) : (s.usbLate now).Kept := by
  rw [DongleAudio.usbLate]
  split <;> exact h.of_eq rfl rfl

/-- The read counter of a reset. -/
theorem toNat_resetRptr (w : UInt8) :
    (UInt16.ofNat (w.toNat * micShortDecSize)).toNat = w.toNat * micShortDecSize := by
  have hw := w.toNat_lt
  have hshort : micShortDecSize = 248 := rfl
  exact UInt16.toNat_ofNat_of_lt' (by rw [hshort]; show _ < 2 ^ 16; omega)

theorem Kept.usbReset (h : s.Kept) : s.usbReset.Kept := by
  rw [DongleAudio.usbReset]
  split
  · have hw := s.abufDecWptr.toNat_lt
    have hshort : micShortDecSize = 248 := rfl
    have hperiod : decPeriod = 63488 := rfl
    refine ⟨?_, ?_, h.dec⟩
    · show (UInt16.ofNat (s.abufDecWptr.toNat * micShortDecSize)).toNat % 8 = 0
      rw [toNat_resetRptr, hshort]
      omega
    · show (UInt16.ofNat (s.abufDecWptr.toNat * micShortDecSize)).toNat < decPeriod
      rw [toNat_resetRptr, hshort]
      omega
  · exact h

/-- The read counter behind a read, which turns around 8 samples too late in one phase. -/
theorem toNat_nextRptr {r : UInt16} (hlt : r.toNat < decPeriod) :
    (if decPeriod ≤ (r + UInt16.ofNat usbIsoInSize).toNat then 0
      else r + UInt16.ofNat usbIsoInSize).toNat =
        if decPeriod ≤ r.toNat + usbIsoInSize then 0 else r.toNat + usbIsoInSize := by
  have hperiod : decPeriod = 63488 := rfl
  have hiso : usbIsoInSize = 16 := rfl
  have hadd : (r + UInt16.ofNat usbIsoInSize).toNat = r.toNat + usbIsoInSize := by
    rw [UInt16.toNat_add, UInt16.toNat_ofNat_of_lt' (by decide)]
    exact Nat.mod_eq_of_lt (by omega)
  rw [hadd]
  split
  · rfl
  · exact hadd

theorem Kept.usbCopy (h : s.Kept) : s.usbCopy.Kept := by
  have hperiod : decPeriod = 63488 := rfl
  have hiso : usbIsoInSize = 16 := rfl
  have hmod := h.rptr_mod
  have hrptr : s.usbCopy.abufDecRptr.toNat = _ := toNat_nextRptr h.rptr_lt
  refine ⟨?_, ?_, ?_⟩
  · rw [hrptr]
    split <;> omega
  · rw [hrptr]
    split <;> omega
  · refine (LoggedArray.inBounds_touchAll h.dec).mpr ?_
    rw [usbIndices_eq hmod]
    intro i hi
    obtain ⟨k, -, rfl⟩ := List.mem_map.mp hi
    exact Nat.mod_lt _ (by decide)

theorem Kept.step (h : s.Kept) (e : DongleAudioEvent) : (s.step tbl e).Kept := by
  cases e with
  | init => exact h.of_eq rfl rfl
  | micAdd p => exact h.of_eq rfl rfl
  | micDec => exact h.abufMicDec
  | usb now =>
    have hbegin : (s.usbBegin now).Kept := (h.usbLate now).usbReset
    show (s.abufDecUsb now).Kept
    rw [abufDecUsb]
    split
    · exact hbegin.usbCopy
    split
    · exact hbegin.of_eq rfl rfl
    · exact hbegin

theorem boot_kept : boot.Kept := ⟨rfl, by decide, by decide⟩

/-! ### The samples -/

/-- The samples that are decoded and not sent. -/
def Unread (s : DongleAudio) (items : List ℤ) : Prop :=
  Holds decBufferSize decPeriod s.abufDec.get (s.abufDecWptr.toNat * micShortDecSize)
    s.abufDecRptr.toNat items

/-- What was decoded and what was sent. -/
structure Good (s : DongleAudio) : Prop where
  /-- During a reset there is nothing. -/
  reset : s.abufReset ≠ 0 → s.decoded = [] ∧ s.sent = []
  /-- Otherwise what was not sent is in the buffer. -/
  playing : s.abufReset = 0 → ∃ items, s.decoded = s.sent ++ items ∧ s.Unread items

/-- Samples as frames: those from the read counter on, with what was sent of the first of them. -/
theorem frames_of_samples {r w n : ℕ} (hr : r < 63488) (hw : w * 248 = (r + n) % 63488)
    (hn : n ≤ 992) : (2 ^ 8 - r / 248 + w) % 2 ^ 8 * 248 = n + r % 248 := by
  omega

/-- The count of the frames that are to be sent counts the one whose samples are sent. -/
theorem Unread.numDec {items : List ℤ} (h : s.Unread items) :
    s.numDec.toNat * micShortDecSize = items.length + s.abufDecRptr.toNat % micShortDecSize := by
  have hshort : micShortDecSize = 248 := rfl
  have hsize : decBufferSize = 992 := rfl
  have hperiod : decPeriod = 63488 := rfl
  have hr := h.rptr_lt
  have hw := h.wptr
  have hroom := h.room
  rw [hperiod] at hr hw
  rw [hshort] at hw
  rw [hsize] at hroom
  have hquot : (UInt8.ofNat (s.abufDecRptr.toNat / micShortDecSize)).toNat =
      s.abufDecRptr.toNat / 248 := UInt8.toNat_ofNat_of_lt' (by rw [hshort]; show _ < 256; omega)
  rw [DongleAudio.numDec, UInt8.toNat_sub, hquot, hshort]
  exact frames_of_samples hr hw hroom

theorem decBufferSize_dvd : decBufferSize ∣ decPeriod := ⟨64, rfl⟩

/-- A frame is decoded into slots that are free. -/
theorem Unread.decodeFrame {items : List ℤ} (h : s.Unread items)
    (hroom : items.length + micShortDecSize ≤ decBufferSize) :
    (s.decodeFrame tbl).Unread (items ++ s.pcm tbl) := by
  have hshort : micShortDecSize = 248 := rfl
  have hsize : decBufferSize = 992 := rfl
  have hperiod : decPeriod = 63488 := rfl
  have hwlt := s.abufDecWptr.toNat_lt
  have hplace : ∀ k < micShortDecSize,
      (s.abufDecWptr.toNat * micShortDecSize + k) % decBufferSize = s.slot * micShortDecSize + k := by
    intro k hk
    rw [slot_eq, hshort, hsize]
    omega
  have hwrite : Holds decBufferSize decPeriod (s.decodeFrame tbl).abufDec.get
      ((s.abufDecWptr.toNat * micShortDecSize + (s.pcm tbl).length) % decPeriod)
      s.abufDecRptr.toNat (items ++ s.pcm tbl) := by
    refine h.write decBufferSize_dvd (by rwa [length_pcm]) (fun k hk => ?_) (fun p hp => ?_)
    · rw [length_pcm] at hk
      rw [hplace k hk, decodeFrame_abufDec, LoggedArray.get_writeFrom]
    · rw [length_pcm] at hp
      rw [decodeFrame_abufDec, LoggedArray.get_writeFrom_of_outside]
      rw [length_pcm]
      by_contra hin
      refine hp (p - s.slot * micShortDecSize) (by omega) ?_
      rw [hplace _ (by omega)]
      omega
  rw [length_pcm] at hwrite
  have hnext : (s.abufDecWptr.toNat * micShortDecSize + micShortDecSize) % decPeriod =
      (s.decodeFrame tbl).abufDecWptr.toNat * micShortDecSize := by
    show _ = (s.abufDecWptr + 1).toNat * micShortDecSize
    rw [UInt8.toNat_add, hshort, hperiod, show (1 : UInt8).toNat = 1 from rfl]
    omega
  rw [hnext] at hwrite
  exact hwrite

/-- A read takes the oldest samples. -/
theorem Unread.usbCopy {items : List ℤ} (h : s.Unread items) (hmod : s.abufDecRptr.toNat % 8 = 0)
    (hitems : usbIsoInSize ≤ items.length)
    (hphase : s.abufDecRptr.toNat ≠ decPeriod - usbIsoInSize / 2) :
    s.usbCopy.Unread (items.drop usbIsoInSize) ∧
      s.usbCopy.sent = s.sent ++ items.take usbIsoInSize := by
  have hperiod : decPeriod = 63488 := rfl
  have hiso : usbIsoInSize = 16 := rfl
  have hlt := h.rptr_lt
  constructor
  · have hnext : s.usbCopy.abufDecRptr.toNat =
        (s.abufDecRptr.toNat + usbIsoInSize) % decPeriod := by
      refine (toNat_nextRptr hlt).trans ?_
      rw [hperiod] at hlt hphase ⊢
      rw [hiso] at hphase ⊢
      split <;> omega
    have hdrop := h.drop decBufferSize_dvd hitems
    rw [← hnext] at hdrop
    exact hdrop
  · show s.sent ++ (usbIndices (s.abufDecRptr.toNat % decBufferSize)).map s.abufDec.get = _
    rw [usbIndices_eq hmod, List.map_map]
    congr 1
    refine List.ext_getElem (by simp [hitems]) fun k hk _ => ?_
    rw [List.length_map, List.length_range] at hk
    rw [List.getElem_map, List.getElem_range, List.getElem_take]
    exact h.slots k (by omega)

theorem Good.micDec (h : s.Good) (hfits : s.PlaysOn .micDec) : (s.abufMicDec tbl).Good := by
  rw [abufMicDec]
  split
  case isTrue hreset => exact ⟨h.reset, fun hzero => absurd hzero hreset⟩
  case isFalse hreset =>
  have hzero : s.abufReset = 0 := not_not.mp hreset
  obtain ⟨items, hdecoded, hunread⟩ := h.playing hzero
  have hskip : s.skipOverflow = s := if_neg (UInt8.not_lt.mpr (hfits hzero))
  have hnum := hunread.numDec
  have hroom := hunread.room
  have hshort : micShortDecSize = 248 := rfl
  have hsize : decBufferSize = 992 := rfl
  rw [hskip]
  split
  case isTrue hfour =>
    have hfour : 4 < s.numDec.toNat := UInt8.lt_iff_toNat_lt.mp hfour
    have hmod := Nat.mod_lt s.abufDecRptr.toNat (show micShortDecSize > 0 by decide)
    rw [hshort] at hnum hmod
    omega
  case isFalse =>
  split
  case isTrue hdecode =>
    have hthree : s.numDec.toNat ≤ 3 := UInt8.le_iff_toNat_le.mp hdecode.2
    rw [hshort] at hnum
    refine ⟨fun hne => absurd hzero hne, fun _ => ⟨items ++ s.pcm tbl, ?_, ?_⟩⟩
    · show s.decoded ++ s.pcm tbl = s.sent ++ (items ++ s.pcm tbl)
      rw [hdecoded, List.append_assoc]
    · refine hunread.decodeFrame ?_
      rw [hshort]
      omega
  case isFalse => exact h

theorem Good.usbLate (h : s.Good) (now : UInt32) : (s.usbLate now).Good := by
  rw [DongleAudio.usbLate]
  split
  · exact ⟨fun _ => ⟨rfl, rfl⟩, fun hzero => absurd hzero (Nat.succ_ne_zero 15)⟩
  · exact ⟨h.reset, h.playing⟩

/-- During a reset, too, what was not sent is in the buffer: nothing. -/
theorem Good.usbReset (h : s.Good) :
    s.usbReset.Good ∧
      ∃ items, s.usbReset.decoded = s.usbReset.sent ++ items ∧ s.usbReset.Unread items := by
  rw [DongleAudio.usbReset]
  split
  case isTrue hreset =>
    obtain ⟨hdecoded, hsent⟩ := h.reset hreset
    have hw := s.abufDecWptr.toNat_lt
    have hunread : { s with
        abufDecRptr := UInt16.ofNat (s.abufDecWptr.toNat * micShortDecSize)
        abufReset := s.abufReset - 1 : DongleAudio }.Unread [] := by
      have hlt : s.abufDecWptr.toNat * micShortDecSize < decPeriod := by
        have hshort : micShortDecSize = 248 := rfl
        have hperiod : decPeriod = 63488 := rfl
        rw [hshort, hperiod]
        omega
      show Holds decBufferSize decPeriod s.abufDec.get (s.abufDecWptr.toNat * micShortDecSize)
        (UInt16.ofNat (s.abufDecWptr.toNat * micShortDecSize)).toNat []
      rw [toNat_resetRptr]
      exact holds_nil hlt
    have hnothing : s.decoded = s.sent ++ [] := by rw [hdecoded, hsent]; rfl
    exact ⟨⟨fun _ => ⟨hdecoded, hsent⟩, fun _ => ⟨[], hnothing, hunread⟩⟩, [], hnothing, hunread⟩
  case isFalse hzero => exact ⟨h, h.playing (not_not.mp hzero)⟩

/-- What a read that copies samples finds, if it plays on. -/
theorem Unread.le_length {items : List ℤ} (h : s.Unread items)
    (hmod : s.abufDecRptr.toNat % 8 = 0) (hplays : s.Plays)
    (hrest : ¬ (s.numDec = 1 ∧
      s.abufDecRptr.toNat % micShortDecSize = micShortDecSize - usbIsoInSize / 2)) :
    usbIsoInSize ≤ items.length := by
  have hshort : micShortDecSize = 248 := rfl
  have hiso : usbIsoInSize = 16 := rfl
  have hnum := h.numDec
  have hne : s.numDec.toNat ≠ 0 := fun hzero => hplays.1 (UInt8.toNat_inj.mp hzero)
  have hone : s.numDec = 1 ↔ s.numDec.toNat = 1 := UInt8.toNat_inj.symm
  rw [hone] at hrest
  rw [hshort, hiso] at hrest
  rw [hshort] at hnum
  rw [hiso]
  omega

theorem Good.usb (h : s.Good) (hkept : s.Kept) {now : UInt32} (hplays : s.PlaysOn (.usb now)) :
    (s.abufDecUsb now).Good := by
  obtain ⟨hgood, items, hdecoded, hunread⟩ := (h.usbLate now).usbReset
  have hmod := ((hkept.usbLate now).usbReset).rptr_mod
  rw [abufDecUsb]
  split
  case isTrue hcopy =>
    obtain ⟨hrest, hphase⟩ := hplays hcopy
    have hlen := hunread.le_length hmod hcopy hrest
    obtain ⟨hnext, hsent⟩ := hunread.usbCopy hmod hlen hphase
    refine ⟨fun hreset => ?_, fun _ => ⟨items.drop usbIsoInSize, ?_, hnext⟩⟩
    · -- there is nothing to copy during a reset
      have hnil := (hgood.reset hreset).1
      rw [hdecoded, List.append_eq_nil_iff] at hnil
      rw [hnil.2] at hlen
      exact absurd hlen (by decide)
    · show ((s.usbLate now).usbReset).decoded = _
      rw [hdecoded, show (s.usbBegin now).usbCopy.sent = _ from hsent, List.append_assoc,
        List.take_append_drop]
  case isFalse =>
  split
  · exact ⟨hgood.reset, hgood.playing⟩
  · exact hgood

theorem Good.step (h : s.Good) (hkept : s.Kept) {e : DongleAudioEvent} (he : s.PlaysOn e) :
    (s.step tbl e).Good := by
  cases e with
  | init => exact ⟨fun _ => ⟨rfl, rfl⟩, fun hzero => absurd hzero (Nat.succ_ne_zero 15)⟩
  | micAdd p => exact ⟨h.reset, h.playing⟩
  | micDec => exact h.micDec he
  | usb now => exact h.usb hkept he

theorem boot_good : boot.Good where
  reset h := absurd rfl h
  playing _ := ⟨[], rfl, holds_nil (by decide)⟩

end DongleAudio

open DongleAudio

/-- **What the host hears**: the buffer is kept to in every run, and in one whose steps play on, the
samples that were sent since the last reset are the first of those that were decoded since then. -/
theorem dongleAudio_continuous (tbl : StepMem) (run : List DongleAudioEvent) :
    (run.foldl (step tbl) boot).abufDec.InBounds decBufferSize ∧
      (Along (step tbl) PlaysOn boot run →
        (run.foldl (step tbl) boot).sent <+: (run.foldl (step tbl) boot).decoded) := by
  have hkept : (run.foldl (step tbl) boot).Kept :=
    List.foldlRecOn run _ boot_kept fun s h e _ => h.step e
  refine ⟨hkept.dec, fun hall => ?_⟩
  obtain ⟨hgood, -⟩ := Along.induction (P := fun _ s => s.Good ∧ s.Kept) ⟨boot_good, boot_kept⟩
    (fun _ e h he => ⟨h.1.step h.2 he, h.2.step e⟩) hall
  by_cases hreset : (run.foldl (step tbl) boot).abufReset = 0
  · obtain ⟨items, hdecoded, -⟩ := hgood.playing hreset
    rw [hdecoded]
    exact List.prefix_append _ _
  · rw [(hgood.reset hreset).2]
    exact List.nil_prefix

/-- The step table. -/
def stepTable : StepMem := ⟨stepAt, fun _ _ _ => rfl⟩

/-- A frame that grows louder. -/
def loudFrame : Mem := fun i => if i < 4 then 0 else 0x77

/-- So many reads, a millisecond apart. -/
def reads (now n : ℕ) : List DongleAudioEvent :=
  (List.range n).map fun k => .usb (UInt32.ofNat (now + 16000 * k))

/-- Three frames, and 39 reads, a millisecond apart. -/
def loudRun : List DongleAudioEvent :=
  [.micAdd loudFrame, .micAdd loudFrame, .micAdd loudFrame, .micDec, .micDec, .micDec] ++
    reads 16000 39

/-- The host hears 624 samples, those of two frames and of a part of the third. -/
theorem loudRun_continuous :
    let s := loudRun.foldl (step stepTable) boot
    s.sent.length = 624 ∧ s.sent <+: s.decoded :=
  ⟨by decide +kernel, (dongleAudio_continuous stepTable loudRun).2 (by decide +kernel)⟩

/-- A reset that ends at an odd frame, the last one before the counters turn around, and 17 reads of
the frames that follow. -/
def oddReset : List DongleAudioEvent :=
  List.replicate 255 (.micAdd loudFrame) ++ [.usb 100000, .micDec] ++ reads 116000 15 ++
    [.micAdd loudFrame, .micAdd loudFrame, .micDec, .micDec, .micAdd loudFrame, .micDec] ++
    reads 356000 17

/-- The 17th read begins with what the one before ended with. -/
theorem dongleAudio_repeats :
    let s := oddReset.foldl (step stepTable) boot
    ¬ s.sent <+: s.decoded := by
  rintro s ⟨rest, hrest⟩
  have hsent : s.sent[256]? = some 11 := by decide +kernel
  have hdecoded : s.decoded[256]? = some 11667 := by decide +kernel
  obtain ⟨hlt, -⟩ := List.getElem?_eq_some_iff.mp hsent
  rw [← hrest, List.getElem?_append_left hlt, hsent] at hdecoded
  exact absurd hdecoded (by decide)

end TcBle.Audio
