import TcBle.Vendor.RcIr

/-!
# What the words of the infrared sender tell a receiver

## What is proved

* `map_wordPulse_necWords` — the words of a code are the pulses of that code.
* `conveys_necWords` and `conveys_fiveRepeats` — a receiver that rests hears the code, or the five
  repeats, in what is played, and nothing else when it is cut off.
* `Heard.append` and `HeardLast.again` — what was heard of some codes, one after the other.
-/

namespace TcBle.Vendor

open TcBle.Foundation TcBle.Foundation.Pulses TcBle.HciTransport Nec

/-! ### The pulses of the words -/

/-- The bits of a code, in the order in which they are sent. -/
def necBits (addr1 addr2 cmd : UInt8) : List Bool :=
  (List.range 32).map fun i => decide (necData addr1 addr2 cmd &&& (1 <<< UInt32.ofNat i) ≠ 0)

section Bits

variable (addr1 addr2 cmd : UInt8)

theorem testBit_bitsValue (bs : List Bool) (i : ℕ) :
    (bitsValue bs).testBit i = bs.getD i false := by
  induction bs generalizing i with
  | nil => simp [bitsValue]
  | cons b bs ih =>
    cases i with
    | zero => simp [bitsValue]
    | succ i => simpa [bitsValue, Nat.testBit_bit_succ] using ih i

theorem and_bit_ne_zero_iff (a : UInt32) {i : ℕ} (hi : i < 32) :
    a &&& (1 <<< UInt32.ofNat i) ≠ 0 ↔ a.toNat.testBit i = true := by
  have hpow : 2 ^ i < 2 ^ 32 := Nat.pow_lt_pow_right (by decide) hi
  have hbit : (1 <<< UInt32.ofNat i : UInt32).toNat = 2 ^ i := by
    rw [UInt32.toNat_shiftLeft, UInt32.toNat_ofNat', Nat.mod_eq_of_lt (hi.trans (by decide)),
      Nat.mod_eq_of_lt hi, UInt32.toNat_one, Nat.one_shiftLeft, Nat.mod_eq_of_lt hpow]
  rw [ne_eq, ← UInt32.toNat_inj, UInt32.toNat_and, hbit, Nat.and_two_pow]
  cases a.toNat.testBit i <;> simp

@[simp] theorem length_necBits : (necBits addr1 addr2 cmd).length = 32 := by simp [necBits]

theorem bitsValue_necBits :
    bitsValue (necBits addr1 addr2 cmd) = (necData addr1 addr2 cmd).toNat := by
  refine Nat.eq_of_testBit_eq fun i => ?_
  rw [testBit_bitsValue]
  rcases Nat.lt_or_ge i 32 with hi | hi
  · have hget : (necBits addr1 addr2 cmd).getD i false =
        decide (necData addr1 addr2 cmd &&& (1 <<< UInt32.ofNat i) ≠ 0) := by
      simp [necBits, List.getD_eq_getElem?_getD, hi]
    rw [hget, Bool.eq_iff_iff, decide_eq_true_eq]
    exact and_bit_ne_zero_iff _ hi
  · rw [List.getD_eq_default _ _ (by rw [length_necBits]; exact hi)]
    exact (Nat.testBit_lt_two_pow ((necData addr1 addr2 cmd).toNat_lt.trans_le
      (Nat.pow_le_pow_right (by decide) hi))).symm

theorem necData_byte0 : (necData addr1 addr2 cmd).toUInt8 = addr1 := by
  apply UInt8.toBitVec_inj.mp
  simp [necData]

theorem necData_byte1 : (necData addr1 addr2 cmd >>> 8).toUInt8 = addr2 := by
  apply UInt8.toBitVec_inj.mp
  simp only [necData]
  ext i hi
  simp
  grind

theorem necData_byte2 : (necData addr1 addr2 cmd >>> 16).toUInt8 = cmd := by
  apply UInt8.toBitVec_inj.mp
  simp only [necData]
  ext i hi
  simp
  grind

theorem necData_byte3 : (necData addr1 addr2 cmd >>> 24).toUInt8 = ~~~cmd := by
  apply UInt8.toBitVec_inj.mp
  simp only [necData]
  ext i hi
  simp
  grind

/-- The bits of a code are heard as that code. -/
theorem codeOf_necBits : codeOf (necBits addr1 addr2 cmd) = some (.code addr1 addr2 cmd) := by
  simp only [codeOf, bitsValue_necBits, UInt32.ofNat_toNat, necData_byte0, necData_byte1,
    necData_byte2, necData_byte3, if_true]

/-- **The words of a code** are its pulses, and a space. -/
theorem map_wordPulse_necWords :
    (necWords addr1 addr2 cmd).map wordPulse =
      framePulses (necBits addr1 addr2 cmd) ++ [(false, 19)] := by
  have hstart : waveformStartBit.map wordPulse = [(true, 342), (false, 171)] := by decide +kernel
  have hstop : waveformStopBit.map wordPulse = [(true, 21), (false, 19)] := by decide +kernel
  have hlogic0 : waveformLogic0.map wordPulse = bitPulses false := by decide +kernel
  have hlogic1 : waveformLogic1.map wordPulse = bitPulses true := by decide +kernel
  have hbit : ∀ i : ℕ,
      (if necData addr1 addr2 cmd &&& (1 <<< UInt32.ofNat i) ≠ 0 then waveformLogic1
        else waveformLogic0).map wordPulse =
      bitPulses (decide (necData addr1 addr2 cmd &&& (1 <<< UInt32.ofNat i) ≠ 0)) := by
    intro i
    by_cases h : necData addr1 addr2 cmd &&& (1 <<< UInt32.ofNat i) ≠ 0
    · rw [if_pos h, hlogic1, decide_eq_true h]
    · rw [if_neg h, hlogic0, decide_eq_false h]
  rw [necWords, List.map_append, List.map_append, List.map_flatMap, hstart, hstop,
    List.flatMap_congr fun i _ => hbit i, framePulses, necBits, List.flatMap_map,
    List.append_assoc]
  simp

end Bits

theorem map_wordPulse_fiveRepeats : RcIr.fiveRepeats.map wordPulse = repeatsPulses 5 := by
  decide +kernel

theorem wordPulse_low (n : UInt16) :
    wordPulse (pwmConfigDmaFifoWaveform false n) = (false, n.toNat % 2 ^ 14) := by
  have hnum : (pwmConfigDmaFifoWaveform false n).toNat = n.toNat % 2 ^ 14 := by
    simp only [pwmConfigDmaFifoWaveform, Bool.false_eq_true, if_false, UInt16.zero_or,
      UInt16.toNat_and]
    exact Nat.and_two_pow_sub_one_eq_mod _ 14
  rw [wordPulse, hnum, Nat.testBit_lt_two_pow (by omega), Nat.mod_mod]

theorem wordPulse_waitToRepeat (now start : UInt32) :
    ∃ k, wordPulse (waveformWaitToRepeat now start) = (false, k) := ⟨_, wordPulse_low _⟩

/-! ### What is heard -/

/-- What is heard of a code: nothing, or the code and then some repeats. -/
def HeardOf (m : Message) (ms : List Message) : Prop :=
  ms = [] ∨ ∃ k, ms = m :: List.replicate k .again

/-- What is heard of some codes, one after the other. -/
def Heard (codes heard : List Message) : Prop :=
  ∃ groups, List.Forall₂ HeardOf codes groups ∧ heard = groups.flatten

/-- The last of the codes is heard. -/
def HeardLast (codes heard : List Message) : Prop :=
  ∃ old m before k, codes = old ++ [m] ∧ Heard old before ∧
    heard = before ++ m :: List.replicate k .again

section Heard

variable {codes ms : List Message} {m : Message}

theorem Heard.append {group : List Message} (h : Heard codes ms) (hgroup : HeardOf m group) :
    Heard (codes ++ [m]) (ms ++ group) := by
  obtain ⟨groups, hgroups, rfl⟩ := h
  exact ⟨groups ++ [group], List.rel_append hgroups (.cons hgroup .nil), by simp⟩

/-- A code that was not heard. -/
theorem Heard.unheard (h : Heard codes ms) (m : Message) : Heard (codes ++ [m]) ms := by
  have happend := h.append (m := m) (Or.inl rfl)
  rwa [List.append_nil] at happend

theorem Heard.last (h : Heard codes ms) (m : Message) :
    HeardLast (codes ++ [m]) (ms ++ [m]) :=
  ⟨codes, m, ms, 0, rfl, h, rfl⟩

theorem HeardLast.heard (h : HeardLast codes ms) : Heard codes ms := by
  obtain ⟨old, m, before, k, rfl, hold, rfl⟩ := h
  exact hold.append (Or.inr ⟨k, rfl⟩)

/-- Repeats of the last code. -/
theorem HeardLast.again (h : HeardLast codes ms) (j : ℕ) :
    HeardLast codes (ms ++ List.replicate j .again) := by
  obtain ⟨old, m, before, k, rfl, hold, rfl⟩ := h
  refine ⟨old, m, before, k + j, rfl, hold, ?_⟩
  rw [List.append_assoc, List.cons_append, List.replicate_add]

end Heard

/-- The receiver rests. -/
abbrev Rests (line : List Bool) : Prop := (receive line).Resting pulse .idle

theorem receive_append (line more : List Bool) :
    receive (line ++ more) = (receive line).read pulse more :=
  Reader.read_append _ _

theorem Rests.low {line : List Bool} (h : Rests line) (n : ℕ) :
    Rests (line ++ List.replicate n false) ∧
      (receive (line ++ List.replicate n false)).heard = (receive line).heard := by
  rw [Rests, receive_append]
  exact Reader.Resting.read h n

/-- The words of a code tell a receiver that rests the code. -/
theorem conveys_necWords {pre : List Bool} (h : Rests pre) (addr1 addr2 cmd : UInt8) :
    (receive pre).Conveys pulse .idle (samples ((necWords addr1 addr2 cmd).map wordPulse))
      [.code addr1 addr2 cmd] := by
  have hfeed := feed_framePulses (length_necBits addr1 addr2 cmd)
  have htrue := truthful_append.mpr ⟨truthful_framePulses (length_necBits addr1 addr2 cmd),
    show Truthful pulse _ [(false, 19)] from ⟨truthful_low _ _, trivial⟩⟩
  have hend : ∀ k, pulse (Transducer.feed pulse .idle (framePulses (necBits addr1 addr2 cmd))).1
      (false, k) = (.idle, []) := by
    rw [hfeed]
    exact fun _ => rfl
  have hconveys := Reader.Resting.conveys pulse_false_snd h
    (alternate_framePulses (necBits addr1 addr2 cmd)) htrue hend 0
  rw [hfeed, codeOf_necBits] at hconveys
  rw [map_wordPulse_necWords]
  exact hconveys

/-- Five repeats, after a space, tell it five repeats. -/
theorem conveys_fiveRepeats {pre : List Bool} (h : Rests pre) (k : ℕ) :
    (receive pre).Conveys pulse .idle
      (List.replicate k false ++ samples (RcIr.fiveRepeats.map wordPulse))
      (List.replicate 5 .again) := by
  have hfeed : Transducer.feed pulse .idle (repeatsPulses 4 ++ repeatPulses) =
      (.idle, List.replicate 5 .again) := by
    rw [Transducer.feed_append, feed_repeatsPulses, feed_repeatPulses]
    rfl
  have hend : ∀ k, pulse (Transducer.feed pulse .idle (repeatsPulses 4 ++ repeatPulses)).1
      (false, k) = (.idle, []) := by
    rw [hfeed]
    exact fun _ => rfl
  have hturns := alternate_repeatsPulses 5
  have htrue := truthful_repeatsPulses 5
  rw [repeatsPulses_concat] at hturns htrue
  have hconveys := Reader.Resting.conveys pulse_false_snd h hturns htrue hend k
  rw [hfeed, ← repeatsPulses_concat] at hconveys
  rw [map_wordPulse_fiveRepeats]
  exact hconveys

end TcBle.Vendor
