import TcBle.Audio.MicEncoder
import TcBle.Foundation.DoubleBuffer

/-!
# The encoder and the microphone

The microphone writes its samples into `buffer_mic`, around and around, and `proc_mic_encoder` looks at
its write pointer whenever the main loop comes by. Time is counted in samples; the first samples of
`mic`, as many as the buffer has, are what the buffer holds at first. The encoder may read each sample
at a time of its own, while the microphone goes on.

## What is proved

* `Follows.look` — a look encodes the half that was completed last, or nothing.
* `micRun_blocks` — the units of any run are whole halves, none twice and none after a later one; and
  every half is encoded when the encoder looks once for each of them.
-/

namespace TcBle.Audio

open TcBle.Foundation TcBle.Foundation.DoubleBuffer

/-- `proc_mic_encoder` is called, and reads the buffer. -/
structure MicLook where
  /-- When it looks at the write pointer. -/
  time : ℕ
  /-- When it reads each entry of `buffer_mic`. -/
  readAt : ℕ → ℕ

/-- What happens to the encoder, with its time. -/
inductive MicTimed where
  /-- `proc_mic_encoder` is called. -/
  | look (l : MicLook)
  /-- A packet is handed over, which works or does not. -/
  | send (ok : Bool)

namespace MicTimed

variable (f : Format)

/-- What the encoder sees of it. -/
def event (mic : ℕ → Int16) : MicTimed → MicEvent
  | .look l => .proc (l.time % (2 * f.micAdpcmUnitSize)) fun j =>
      held mic (2 * f.micAdpcmUnitSize) (l.readAt j) j
  | .send ok => .send ok

/-- Time does not run backwards, and the reading is over before the microphone is back in the half. -/
def InTime : ℕ → List MicTimed → Prop
  | _, [] => True
  | last, .send _ :: es => InTime last es
  | last, .look l :: es => last ≤ l.time ∧
      (∀ j, l.time ≤ l.readAt j ∧
        l.readAt j ≤ (l.time / f.micAdpcmUnitSize + 1) * f.micAdpcmUnitSize) ∧
      InTime l.time es

/-- From one look to the next there are no more samples than a half has. -/
def Punctual : ℕ → List MicTimed → Prop
  | _, [] => True
  | last, .send _ :: es => Punctual last es
  | last, .look l :: es => l.time ≤ last + f.micAdpcmUnitSize ∧ Punctual l.time es

/-- When the encoder looked last. -/
def lastLook : ℕ → List MicTimed → ℕ
  | last, [] => last
  | last, .send _ :: es => lastLook last es
  | _, .look l :: es => lastLook l.time es

end MicTimed

open MicTimed MicRun

variable {f : Format} {mic : ℕ → Int16} {r : MicRun} {reader : Reader} {last : ℕ}

/-- The encoder is a reader of the two halves. -/
structure Follows (f : Format) (mic : ℕ → Int16) (r : MicRun) (reader : Reader) (last : ℕ) :
    Prop where
  /-- It is at the half of its turn. -/
  rptr : r.encoder.bufferMicRptr = reader.half * f.micAdpcmUnitSize
  /-- Its units are the blocks. -/
  units : r.units = reader.blocks.map (block mic f.micAdpcmUnitSize)
  /-- Those are in order. -/
  sound : reader.Sound f.micAdpcmUnitSize last

theorem unitSize_pos (f : Format) : 0 < f.micAdpcmUnitSize := by
  cases f <;> decide

/-- `l` is large exactly when the microphone is in the other half. -/
theorem ahead_iff {s : MicEncoder} (hhalf : reader.half < 2)
    (hrptr : s.bufferMicRptr = reader.half * f.micAdpcmUnitSize) (t : ℕ) :
    s.ahead (t % (2 * f.micAdpcmUnitSize)) ≥ f.micBufferSize >>> 2 ↔
      reader.Due f.micAdpcmUnitSize t := by
  have hpos := unitSize_pos f
  have hsmall : f.micAdpcmUnitSize ≤ 0xffff := by cases f <;> decide
  have hquot : t % (2 * f.micAdpcmUnitSize) / f.micAdpcmUnitSize = t / f.micAdpcmUnitSize % 2 := by
    rw [Nat.mul_comm, Nat.mod_mul_right_div_self]
  have hsplit := Nat.div_add_mod (t % (2 * f.micAdpcmUnitSize)) f.micAdpcmUnitSize
  have hrest := Nat.mod_lt (t % (2 * f.micAdpcmUnitSize)) hpos
  have hmod : t / f.micAdpcmUnitSize % 2 < 2 := Nat.mod_lt _ Nat.two_pos
  rw [hquot] at hsplit
  rw [f.half_eq, MicEncoder.ahead, hrptr, Reader.Due]
  generalize t % (2 * f.micAdpcmUnitSize) = w at hsplit hrest
  generalize t / f.micAdpcmUnitSize % 2 = q at hsplit hmod
  obtain hq | hq : q = 0 ∨ q = 1 := by omega
  all_goals
    obtain hh | hh : reader.half = 0 ∨ reader.half = 1 := by omega
    all_goals
      rw [hq] at hsplit ⊢
      rw [hh]
      split_ifs <;> omega

/-- The encoder does not have to wait for room. -/
def Free (f : Format) (r : MicRun) : Prop := f = .hid → r.encoder.pkts < 4

instance (f : Format) (r : MicRun) : Decidable (Free f r) := inferInstanceAs (Decidable (_ → _))

/-- **A look** encodes the block that was completed last, if it is its turn and there is room. -/
theorem Follows.look (h : Follows f mic r reader last) {l : MicLook} (hlast : last ≤ l.time)
    (hread : ∀ j, l.time ≤ l.readAt j ∧
      l.readAt j ≤ (l.time / f.micAdpcmUnitSize + 1) * f.micAdpcmUnitSize)
    (hfull : f.micAdpcmUnitSize ≤ last) :
    Follows f mic (r.step f ((MicTimed.look l).event f mic))
      (if Free f r then reader.look f.micAdpcmUnitSize l.time else reader) l.time := by
  have hpos := unitSize_pos f
  have hhalf := h.sound.half_lt
  have hahead := ahead_iff hhalf h.rptr l.time
  have hone : 1 ≤ l.time / f.micAdpcmUnitSize :=
    (Nat.one_le_div_iff hpos).mpr (hfull.trans hlast)
  have hmod : l.time / f.micAdpcmUnitSize % 2 < 2 := Nat.mod_lt _ Nat.two_pos
  by_cases henc : r.encoder.Encodes f (l.time % (2 * f.micAdpcmUnitSize))
  · have hturn : reader.Due f.micAdpcmUnitSize l.time := hahead.mp henc.1
    have hdue : l.time / f.micAdpcmUnitSize % 2 ≠ reader.half := hturn
    have hsound := h.sound.look hlast (hfull.trans hlast) hpos
    have hblock : (l.time / f.micAdpcmUnitSize - 1) % 2 = reader.half := by omega
    rw [if_pos (show Free f r from henc.2)]
    rw [Reader.look, if_pos hturn] at hsound ⊢
    refine ⟨?_, ?_, hsound⟩
    · show (r.encoder.procMicEncoder f _ _).bufferMicRptr = (1 - reader.half) * _
      have hrptr : (r.encoder.encodeUnit f fun j =>
          held mic (2 * f.micAdpcmUnitSize) (l.readAt j) j).bufferMicRptr =
            (1 - reader.half) * f.micAdpcmUnitSize := by
        show (if r.encoder.bufferMicRptr ≠ 0 then 0 else f.micBufferSize >>> 2) = _
        rw [h.rptr, f.half_eq]
        obtain hh | hh : reader.half = 0 ∨ reader.half = 1 := by omega
        · rw [hh, if_neg (by simp)]
          omega
        · rw [hh, if_pos (by omega)]
          omega
      rw [MicEncoder.procMicEncoder, if_pos henc, MicEncoder.dropOldest]
      split_ifs <;> exact hrptr
    · show (if _ then r.units ++ [_] else r.units) = _
      rw [if_pos henc, h.units, List.map_append, List.map_singleton, MicEncoder.unit, h.rptr,
        ← hblock]
      congr 2
      refine read_half mic f.micAdpcmUnitSize _ (fun j => ?_) fun j => ?_
      · rw [Nat.sub_add_cancel hone]
        exact (Nat.div_mul_le_self _ _).trans (hread j).1
      · rw [show l.time / f.micAdpcmUnitSize - 1 + 2 = l.time / f.micAdpcmUnitSize + 1 by omega]
        exact (hread j).2
  · have hstay : r.step f ((MicTimed.look l).event f mic) = r := by
      simp only [MicTimed.event, MicRun.step, if_neg henc, MicEncoder.procMicEncoder]
    rw [hstay]
    split
    case isTrue hfree =>
      have hnot : ¬ reader.Due f.micAdpcmUnitSize l.time := fun hdue =>
        henc ⟨hahead.mpr hdue, hfree⟩
      rw [Reader.look, if_neg hnot]
      exact ⟨h.rptr, h.units, h.sound.wait hlast⟩
    case isFalse => exact ⟨h.rptr, h.units, h.sound.wait hlast⟩

/-- Handing over a packet is nothing to the reader. -/
theorem Follows.send (h : Follows f mic r reader last) (ok : Bool) :
    Follows f mic (r.step f ((MicTimed.send ok).event f mic)) reader last := by
  have hkeep : (r.step f (.send ok)).encoder.bufferMicRptr = r.encoder.bufferMicRptr ∧
      (r.step f (.send ok)).units = r.units := by
    rw [MicRun.step]
    split
    · exact ⟨rfl, rfl⟩
    · split <;> exact ⟨rfl, rfl⟩
  exact ⟨hkeep.1.trans h.rptr, hkeep.2.trans h.units, h.sound⟩

/-- **Any run** is that of a reader. -/
theorem Follows.run (h : Follows f mic r reader last) (hfull : f.micAdpcmUnitSize ≤ last)
    {es : List MicTimed} (hin : InTime f last es) :
    ∃ reader', Follows f mic ((es.map (event f mic)).foldl (step f) r) reader'
      (lastLook last es) := by
  induction es generalizing r reader last with
  | nil => exact ⟨reader, h⟩
  | cons e es ih =>
    cases e with
    | send ok => exact ih (h.send ok) hfull hin
    | look l =>
      obtain ⟨hlast, hread, hin⟩ := hin
      exact ih (h.look hlast hread hfull) (hfull.trans hlast) hin

theorem le_lastLook {es : List MicTimed} (hin : InTime f last es) : last ≤ lastLook last es := by
  induction es generalizing last with
  | nil => exact le_rfl
  | cons e es ih =>
    cases e with
    | send ok => exact ih hin
    | look l => exact hin.1.trans (ih hin.2.2)

/-- The steps at which the encoder does not have to wait for room. -/
def Unblocked (f : Format) (r : MicRun) : MicEvent → Prop
  | .proc _ _ => Free f r
  | .send _ => True

/-- **A punctual run** takes every block, once it has looked. -/
theorem Follows.punctual (h : Follows f mic r reader last)
    (hturn : reader.half = last / f.micAdpcmUnitSize % 2) (hfull : f.micAdpcmUnitSize ≤ last)
    {es : List MicTimed} (hin : InTime f last es) (hsoon : Punctual f last es)
    (hfree : Run.Along (step f) (Unblocked f) r (es.map (event f mic))) :
    ((es.map (event f mic)).foldl (step f) r).units =
      (reader.blocks ++ List.range' (last / f.micAdpcmUnitSize)
        (lastLook last es / f.micAdpcmUnitSize - last / f.micAdpcmUnitSize)).map
          (block mic f.micAdpcmUnitSize) := by
  have hpos := unitSize_pos f
  induction es generalizing r reader last with
  | nil =>
    rw [lastLook, Nat.sub_self, List.range'_zero, List.append_nil]
    exact h.units
  | cons e es ih =>
    cases e with
    | send ok => exact ih (h.send ok) hturn hfull hin hsoon hfree.2
    | look l =>
      obtain ⟨hlast, hread, hin⟩ := hin
      obtain ⟨hnext, hsoon⟩ := hsoon
      have hstep := h.look hlast hread hfull
      rw [if_pos (show Free f r from hfree.1)] at hstep
      have hrest := ih hstep (Reader.half_look h.sound.half_lt l.time) (hfull.trans hlast) hin
        hsoon hfree.2
      have hfrom : last / f.micAdpcmUnitSize ≤ l.time / f.micAdpcmUnitSize :=
        Nat.div_le_div_right hlast
      have hto : l.time / f.micAdpcmUnitSize ≤ lastLook l.time es / f.micAdpcmUnitSize :=
        Nat.div_le_div_right (le_lastLook hin)
      have hranges := List.range'_append_1 (s := last / f.micAdpcmUnitSize)
        (m := l.time / f.micAdpcmUnitSize - last / f.micAdpcmUnitSize)
        (n := lastLook l.time es / f.micAdpcmUnitSize - l.time / f.micAdpcmUnitSize)
      rw [Nat.add_sub_cancel' hfrom, Nat.add_comm (_ - _), Nat.sub_add_sub_cancel hto hfrom]
        at hranges
      rw [Reader.blocks_look hturn hlast hnext hpos, List.append_assoc, hranges] at hrest
      exact hrest

/-- **The units of any run** are whole halves of what the microphone writes, in order, whenever the
encoder looks. When it looks once for each half and does not have to wait, they are all the halves from
its first look on, and perhaps the one before. -/
theorem micRun_blocks (f : Format) (mic : ℕ → Int16) (s : MicEncoder) (half : ℕ) (hhalf : half < 2)
    (hrptr : s.bufferMicRptr = half * f.micAdpcmUnitSize) (start : ℕ)
    (hstart : 2 * f.micAdpcmUnitSize ≤ start) (es : List MicTimed) (hin : InTime f start es)
    (r : MicRun) (hr : r = run f s (es.map (event f mic))) :
    (∃ blocks : List ℕ, blocks.Pairwise (· < ·) ∧
      r.units = blocks.map (block mic f.micAdpcmUnitSize)) ∧
    ∀ first rest, es = .look first :: rest → Punctual f first.time rest →
      Run.Along (step f) (Unblocked f) (begin s) (es.map (event f mic)) →
        ∃ early, (early = [] ∨ early = [first.time / f.micAdpcmUnitSize - 1]) ∧
          r.units = (early ++ List.range' (first.time / f.micAdpcmUnitSize)
            (lastLook start es / f.micAdpcmUnitSize - first.time / f.micAdpcmUnitSize)).map
              (block mic f.micAdpcmUnitSize) := by
  subst hr
  have hfull : f.micAdpcmUnitSize ≤ start := by omega
  have hbegin : Follows f mic (begin s) ⟨half, []⟩ start :=
    ⟨hrptr, rfl, hhalf, .nil, fun k hk => absurd hk List.not_mem_nil,
      fun k hk => absurd hk List.not_mem_nil⟩
  constructor
  · obtain ⟨reader, h⟩ := hbegin.run hfull hin
    exact ⟨reader.blocks, h.sound.sorted, h.units⟩
  · rintro first rest rfl hsoon hfree
    obtain ⟨hlast, hread, hin⟩ := hin
    have hstep := hbegin.look hlast hread hfull
    rw [if_pos (show Free f (begin s) from hfree.1)] at hstep
    refine ⟨(Reader.look f.micAdpcmUnitSize ⟨half, []⟩ first.time).blocks, ?_, ?_⟩
    · rw [Reader.look]
      split
      · exact Or.inr rfl
      · exact Or.inl rfl
    · exact hstep.punctual (Reader.half_look hhalf _) (hfull.trans hlast) hin hsoon hfree.2

/-- Three looks, each a little late. -/
def threeLooks : List MicTimed :=
  [.look ⟨500, fun _ => 500⟩, .look ⟨748, fun _ => 750⟩, .look ⟨996, fun _ => 996⟩]

/-- They encode two halves. -/
theorem threeLooks_blocks :
    ∃ early, (early = [] ∨ early = [1]) ∧
      (run .gattTelink (micBoot .gattTelink)
        (threeLooks.map (event .gattTelink Int16.ofNat))).units =
          (early ++ [2, 3]).map (block Int16.ofNat 248) := by
  refine (micRun_blocks .gattTelink Int16.ofNat (micBoot .gattTelink) 0 (by decide) rfl 496
    (by decide) threeLooks ?_ _ rfl).2 ⟨500, fun _ => 500⟩ _ rfl ?_ ?_
  · exact ⟨by decide, fun _ => ⟨le_rfl, show 500 ≤ 744 by decide⟩,
      by decide, fun _ => ⟨show 748 ≤ 750 by decide, show 750 ≤ 992 by decide⟩,
      by decide, fun _ => ⟨le_rfl, show 996 ≤ 1240 by decide⟩, trivial⟩
  · exact ⟨by decide, by decide, trivial⟩
  · exact ⟨fun h => absurd h (by decide), fun h => absurd h (by decide),
      fun h => absurd h (by decide), trivial⟩

end TcBle.Audio
