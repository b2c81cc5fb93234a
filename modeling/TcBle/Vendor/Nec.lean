import Mathlib.Data.Nat.Bitwise
import TcBle.Foundation.Pulses

/-!
# A receiver of NEC codes

What the infrared line of the remote control is for: a receiver at the other end, which knows the
NEC code and nothing of the sender. The line is sampled once for each period of the carrier, high
where there is carrier.

A code is a leader, 9 ms high and 4.5 ms low, 32 bits from the lowest on, each 560 us high and
then 560 us low for a 0 and 1690 us low for a 1, and 560 us high at the end. The bits are two bytes
of address, a command and its complement. A repeat is 9 ms high, 2.25 ms low and 560 us high. The
receiver takes a time for another if it is within a fifth of it.

## What is proved

* `feed_framePulses` and `truthful_framePulses` — a code is heard at the end of its pulses, and no
  part of them tells the receiver anything else.
* `feed_repeatsPulses` and `truthful_repeatsPulses` — so it is with repeats.
-/

namespace TcBle.Vendor

open TcBle.Foundation TcBle.Foundation.Pulses

namespace Nec

/-- What a receiver hears. -/
inductive Message where
  /-- A code. -/
  | code (addr1 addr2 cmd : UInt8)
  /-- The last code, once more. -/
  | again
  deriving DecidableEq

/-- The state of a receiver, between two pulses. -/
inductive State where
  | idle
  /-- After the high part of a leader. -/
  | leader
  /-- After some bits. -/
  | bits (bs : List Bool)
  /-- After some bits and the high part of one more. -/
  | mark (bs : List Bool)
  /-- After the leader of a repeat. -/
  | again
  deriving DecidableEq

/-- A pulse of `n` periods of the carrier lasts `us` microseconds, to a fifth. A period is 842
ticks of a clock of 32 MHz. -/
def near (us n : ℕ) : Bool := 4 * (32 * us) ≤ 5 * (842 * n) && 5 * (842 * n) ≤ 6 * (32 * us)

/-- The number with these bits, the lowest first. -/
def bitsValue : List Bool → ℕ
  | [] => 0
  | b :: bs => Nat.bit b (bitsValue bs)

/-- The code in 32 bits, if the last byte is the complement of the command. -/
def codeOf (bs : List Bool) : Option Message :=
  let word := UInt32.ofNat (bitsValue bs)
  if (word >>> 24).toUInt8 = ~~~(word >>> 16).toUInt8 then
    some (.code word.toUInt8 (word >>> 8).toUInt8 (word >>> 16).toUInt8)
  else none

/-- A pulse. -/
def pulse : State → Pulse → State × List Message
  | s, (true, n) =>
    if near 9000 n then (.leader, [])
    else match s with
      | .bits bs =>
        if near 560 n then
          if bs.length = 32 then (.idle, (codeOf bs).toList) else (.mark bs, [])
        else (.idle, [])
      | .again => if near 560 n then (.idle, [.again]) else (.idle, [])
      | _ => (.idle, [])
  | s, (false, n) =>
    match s with
      | .leader =>
        if near 4500 n then (.bits [], [])
        else if near 2250 n then (.again, [])
        else (.idle, [])
      | .mark bs =>
        if near 560 n then (.bits (bs ++ [false]), [])
        else if near 1690 n then (.bits (bs ++ [true]), [])
        else (.idle, [])
      | _ => (.idle, [])

/-- A receiver that was just switched on. -/
def start : Reader State Message := ⟨.idle, false, 0, []⟩

/-- The receiver after the line was sampled. -/
def receive (line : List Bool) : Reader State Message := start.read pulse line

/-- A space tells the receiver nothing. -/
theorem pulse_false_snd (s : State) (n : ℕ) : (pulse s (false, n)).2 = [] := by
  cases s with
  | leader =>
    simp only [pulse]
    split_ifs <;> rfl
  | mark bs =>
    simp only [pulse]
    split_ifs <;> rfl
  | _ => rfl

/-- What the receiver hears at a short pulse. -/
def State.heard : State → List Message
  | .bits bs => if bs.length = 32 then (codeOf bs).toList else []
  | .again => [.again]
  | _ => []

theorem pulse_true_snd (s : State) (n : ℕ) :
    (pulse s (true, n)).2 = [] ∨ (pulse s (true, n)).2 = s.heard := by
  cases s with
  | bits bs =>
    simp only [pulse, State.heard]
    split_ifs <;> simp
  | again =>
    simp only [pulse, State.heard]
    split_ifs <;> simp
  | _ =>
    simp only [pulse]
    split_ifs <;> simp

/-- A high pulse that tells the receiver all that it can tell it in this state. -/
theorem truthful_high {s : State} {n : ℕ} (h : (pulse s (true, n)).2 = s.heard) (k : ℕ) :
    (pulse s (true, k)).2 = [] ∨ (pulse s (true, k)).2 = (pulse s (true, n)).2 := by
  rw [h]
  exact pulse_true_snd s k

theorem truthful_low (s : State) (n k : ℕ) :
    (pulse s (false, k)).2 = [] ∨ (pulse s (false, k)).2 = (pulse s (false, n)).2 :=
  Or.inl (pulse_false_snd s k)

/-- After 5.4 ms without carrier the receiver is idle. -/
theorem pulse_of_long (s : State) (n : ℕ) (h : 206 ≤ n) : pulse s (false, n) = (.idle, []) := by
  have hnear : ∀ us ≤ 4500, near us n = false := by
    intro us hus
    rw [near, Bool.and_eq_false_iff, decide_eq_false_iff_not, decide_eq_false_iff_not]
    omega
  cases s with
  | leader => simp [pulse, hnear]
  | mark bs => simp [pulse, hnear]
  | _ => rfl

/-! ### The pulses of a code -/

/-- The pulses of a bit, in periods of the carrier. -/
def bitPulses (b : Bool) : List Pulse := [(true, 21), (false, if b then 64 else 21)]

/-- The pulses of a code, without the space at its end. -/
def framePulses (bs : List Bool) : List Pulse :=
  (true, 342) :: (false, 171) :: (bs.flatMap bitPulses ++ [(true, 21)])

/-- The pulses of a repeat, without the space at its end. -/
def repeatPulses : List Pulse := [(true, 342), (false, 85), (true, 21)]

/-- The pulses of some repeats, with a space after each. -/
def repeatsPulses (m : ℕ) : List Pulse :=
  (List.replicate m (repeatPulses ++ [(false, 3769)])).flatten

theorem repeatsPulses_succ (m : ℕ) :
    repeatsPulses (m + 1) = repeatPulses ++ (false, 3769) :: repeatsPulses m := by
  rw [repeatsPulses, List.replicate_succ, List.flatten_cons, List.append_assoc,
    List.singleton_append]
  rfl

/-- The last of some repeats. -/
theorem repeatsPulses_concat (m : ℕ) :
    repeatsPulses (m + 1) = (repeatsPulses m ++ repeatPulses) ++ [(false, 3769)] := by
  rw [repeatsPulses, List.replicate_succ', List.flatten_append, List.flatten_singleton,
    ← List.append_assoc]
  rfl

section Bits

variable {pre bs : List Bool}

theorem pulse_bits_mark (h : pre.length < 32) : pulse (.bits pre) (true, 21) = (.mark pre, []) :=
  if_neg h.ne

theorem pulse_mark_bit (pre : List Bool) (b : Bool) :
    pulse (.mark pre) (false, if b then 64 else 21) = (.bits (pre ++ [b]), []) := by
  cases b <;> rfl

theorem feed_bitPulses (h : pre.length + bs.length ≤ 32) :
    Transducer.feed pulse (.bits pre) (bs.flatMap bitPulses) = (.bits (pre ++ bs), []) := by
  induction bs generalizing pre with
  | nil => simp
  | cons b bs ih =>
    rw [List.length_cons] at h
    have hnext : (pre ++ [b]).length + bs.length ≤ 32 := by
      rw [List.length_append, List.length_singleton]
      omega
    rw [List.flatMap_cons, bitPulses, List.cons_append, List.cons_append, List.nil_append,
      Transducer.feed_cons_of_quiet _ (pulse_bits_mark (by omega)),
      Transducer.feed_cons_of_quiet _ (pulse_mark_bit pre b), ih hnext, List.append_assoc,
      List.singleton_append]

theorem truthful_bitPulses (h : pre.length + bs.length ≤ 32) :
    Truthful pulse (.bits pre) (bs.flatMap bitPulses) := by
  induction bs generalizing pre with
  | nil => trivial
  | cons b bs ih =>
    rw [List.length_cons] at h
    have hmark : pulse (.bits pre) (true, 21) = (.mark pre, []) := pulse_bits_mark (by omega)
    have hnext : (pre ++ [b]).length + bs.length ≤ 32 := by
      rw [List.length_append, List.length_singleton]
      omega
    rw [List.flatMap_cons, bitPulses, List.cons_append, List.cons_append, List.nil_append]
    refine ⟨truthful_high ?_, truthful_low _ _, ?_⟩
    · rw [hmark]
      exact (if_neg (by omega)).symm
    · rw [hmark, pulse_mark_bit]
      exact ih hnext

theorem alternate_bitPulses (bs : List Bool) {ps : List Pulse} (h : Alternate true ps) :
    Alternate true (bs.flatMap bitPulses ++ ps) := by
  induction bs with
  | nil => exact h
  | cons b bs ih =>
    rw [List.flatMap_cons, List.append_assoc]
    exact ⟨rfl, by decide, rfl, by cases b <;> decide, ih⟩

end Bits

/-- **The pulses of a code** are heard as the code. -/
theorem feed_framePulses {bs : List Bool} (hlen : bs.length = 32) :
    Transducer.feed pulse .idle (framePulses bs) = (.idle, (codeOf bs).toList) := by
  have hleader : pulse .idle (true, 342) = (.leader, []) := rfl
  have hgap : pulse .leader (false, 171) = (.bits [], []) := rfl
  have hbits : Transducer.feed pulse (.bits []) (bs.flatMap bitPulses) = (.bits ([] ++ bs), []) :=
    feed_bitPulses (by rw [hlen]; decide)
  have hend : pulse (.bits bs) (true, 21) = (.idle, (codeOf bs).toList) := if_pos hlen
  rw [framePulses, Transducer.feed_cons_of_quiet _ hleader, Transducer.feed_cons_of_quiet _ hgap,
    Transducer.feed_append, hbits, List.nil_append, Transducer.feed_cons, hend]
  simp

theorem truthful_framePulses {bs : List Bool} (hlen : bs.length = 32) :
    Truthful pulse .idle (framePulses bs) := by
  have hbits : Transducer.feed pulse (.bits []) (bs.flatMap bitPulses) = (.bits ([] ++ bs), []) :=
    feed_bitPulses (by rw [hlen]; decide)
  refine ⟨truthful_high rfl, truthful_low _ _, truthful_append.mpr ⟨?_, ?_⟩⟩
  · exact truthful_bitPulses (by rw [hlen]; decide)
  · show Truthful pulse (Transducer.feed pulse (.bits []) (bs.flatMap bitPulses)).1 [(true, 21)]
    rw [hbits, List.nil_append]
    refine ⟨truthful_high ?_, trivial⟩
    rw [State.heard, if_pos hlen]
    exact congrArg Prod.snd (if_pos hlen)

theorem alternate_framePulses (bs : List Bool) :
    Alternate true (framePulses bs ++ [(false, 19)]) := by
  refine ⟨rfl, by decide, rfl, by decide, ?_⟩
  show Alternate true (bs.flatMap bitPulses ++ [(true, 21)] ++ [(false, 19)])
  rw [List.append_assoc]
  exact alternate_bitPulses bs ⟨rfl, by decide, rfl, by decide, trivial⟩

theorem feed_repeatPulses :
    Transducer.feed pulse .idle repeatPulses = (.idle, [.again]) := rfl

theorem feed_repeatsPulses (m : ℕ) :
    Transducer.feed pulse .idle (repeatsPulses m) = (.idle, List.replicate m .again) := by
  induction m with
  | zero => rfl
  | succ m ih =>
    have hspace : pulse .idle (false, 3769) = (.idle, []) := rfl
    rw [repeatsPulses_succ, Transducer.feed_append, feed_repeatPulses,
      Transducer.feed_cons_of_quiet _ hspace, ih]
    rfl

theorem truthful_repeatsPulses (m : ℕ) : Truthful pulse .idle (repeatsPulses m) := by
  induction m with
  | zero => trivial
  | succ m ih =>
    rw [repeatsPulses_succ]
    exact ⟨truthful_high rfl, truthful_low _ _, truthful_high rfl, truthful_low _ _, ih⟩

theorem alternate_repeatsPulses (m : ℕ) : Alternate true (repeatsPulses m) := by
  induction m with
  | zero => trivial
  | succ m ih =>
    rw [repeatsPulses_succ]
    exact ⟨rfl, by decide, rfl, by decide, rfl, by decide, rfl, by decide, ih⟩

end Nec

end TcBle.Vendor
