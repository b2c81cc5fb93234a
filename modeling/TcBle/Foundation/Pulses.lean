import Mathlib.Data.List.Infix
import TcBle.Foundation.Transducer

/-!
# Lines that are read by their pulses

A line that is sampled at regular times gives a sequence of levels, and a pulse is a longest piece
of it at one level. A receiver of pulses is handed each pulse, its level and its length, when the
next one begins, and what it makes of the pulses is a transducer. Here a low level is a space,
which tells the receiver nothing by itself.

## What is proved

* `close_read_pulses` — a receiver makes of the samples of some pulses what the transducer makes
  of the pulses.
* `heard_read` — what was heard after a part of the samples is a first part of what is heard
  after all of them.
* `heard_cut` — and when the line goes low after a part, nothing else is heard: a pulse that is
  cut short tells the receiver nothing that the whole pulse does not tell it.
* `Resting.conveys` — all of this for a receiver that rests when the pulses begin.
-/

namespace TcBle.Foundation.Pulses

/-- A pulse: its level and its length. -/
abbrev Pulse := Bool × ℕ

/-- The samples of some pulses. -/
def samples (ps : List Pulse) : List Bool := ps.flatMap fun p => List.replicate p.2 p.1

@[simp] theorem samples_nil : samples [] = [] := rfl

theorem samples_cons (p : Pulse) (ps : List Pulse) :
    samples (p :: ps) = List.replicate p.2 p.1 ++ samples ps := rfl

theorem samples_append (ps qs : List Pulse) : samples (ps ++ qs) = samples ps ++ samples qs :=
  List.flatMap_append

/-- The pulses are not empty, and their levels take turns, from `b` on. -/
def Alternate : Bool → List Pulse → Prop
  | _, [] => True
  | b, p :: ps => p.1 = b ∧ 0 < p.2 ∧ Alternate (!b) ps

theorem Alternate.left {b : Bool} {ps qs : List Pulse} (h : Alternate b (ps ++ qs)) :
    Alternate b ps := by
  induction ps generalizing b with
  | nil => trivial
  | cons p ps ih => exact ⟨h.1, h.2.1, ih h.2.2⟩

theorem Alternate.pos {b : Bool} {ps : List Pulse} (h : Alternate b ps) : ∀ p ∈ ps, 0 < p.2 := by
  induction ps generalizing b with
  | nil => simp
  | cons p ps ih => exact List.forall_mem_cons.mpr ⟨h.2.1, ih h.2.2⟩

variable {σ μ : Type*}

/-- A receiver: what it made of the pulses that are over, and the pulse that is not. -/
structure Reader (σ μ : Type*) where
  /-- Its state. -/
  state : σ
  /-- The level of the line. -/
  level : Bool
  /-- How long the line has been at that level. -/
  count : ℕ
  /-- What it heard. -/
  heard : List μ

variable (pulse : σ → Pulse → σ × List μ)

namespace Reader

/-- One sample. -/
def sample (r : Reader σ μ) (b : Bool) : Reader σ μ :=
  if b = r.level then { r with count := r.count + 1 }
  else
    let e := pulse r.state (r.level, r.count)
    ⟨e.1, b, 1, r.heard ++ e.2⟩

/-- Samples, one after the other. -/
def read (r : Reader σ μ) (line : List Bool) : Reader σ μ := line.foldl (sample pulse) r

/-- The state and what is heard if the pulse ends here. -/
def close (r : Reader σ μ) : σ × List μ :=
  let e := pulse r.state (r.level, r.count)
  (e.1, r.heard ++ e.2)

variable {pulse} {r : Reader σ μ} {b : Bool}

@[simp] theorem read_nil (r : Reader σ μ) : r.read pulse [] = r := rfl

theorem read_cons (r : Reader σ μ) (b : Bool) (line : List Bool) :
    r.read pulse (b :: line) = (r.sample pulse b).read pulse line := rfl

theorem read_append (line more : List Bool) :
    r.read pulse (line ++ more) = (r.read pulse line).read pulse more :=
  List.foldl_append

theorem sample_of_eq (h : b = r.level) : r.sample pulse b = { r with count := r.count + 1 } :=
  if_pos h

theorem sample_of_ne (h : b ≠ r.level) :
    r.sample pulse b = ⟨(r.close pulse).1, b, 1, (r.close pulse).2⟩ :=
  if_neg h

/-- More of the level that the line is at. -/
theorem read_replicate_of_eq (h : b = r.level) (n : ℕ) :
    r.read pulse (List.replicate n b) = { r with count := r.count + n } := by
  induction n generalizing r with
  | zero => rfl
  | succ n ih =>
    rw [List.replicate_succ, read_cons, sample_of_eq h, ih (r := { r with count := r.count + 1 }) h]
    simp only [Nat.add_assoc, Nat.add_comm 1]

/-- A whole pulse of the other level. -/
theorem read_replicate_of_ne (h : b ≠ r.level) {n : ℕ} (hn : 0 < n) :
    r.read pulse (List.replicate n b) = ⟨(r.close pulse).1, b, n, (r.close pulse).2⟩ := by
  cases n with
  | zero => exact absurd hn (Nat.lt_irrefl 0)
  | succ n =>
    rw [List.replicate_succ, read_cons, sample_of_ne h, read_replicate_of_eq rfl, Nat.add_comm]

variable (pulse) in
theorem close_read_replicate (h : b ≠ r.level) {n : ℕ} (hn : 0 < n) :
    (r.read pulse (List.replicate n b)).close pulse =
      ((pulse (r.close pulse).1 (b, n)).1,
        (r.close pulse).2 ++ (pulse (r.close pulse).1 (b, n)).2) := by
  rw [read_replicate_of_ne h hn]
  rfl

variable (pulse) in
/-- **The samples of some pulses** are read as the pulses. -/
theorem close_read_pulses {ps : List Pulse} (hps : Alternate b ps) (h : b ≠ r.level) :
    (r.read pulse (samples ps)).close pulse =
      ((Transducer.feed pulse (r.close pulse).1 ps).1,
        (r.close pulse).2 ++ (Transducer.feed pulse (r.close pulse).1 ps).2) := by
  induction ps generalizing b r with
  | nil => simp
  | cons p ps ih =>
    obtain ⟨hlevel, hlen, hps⟩ := hps
    rw [← hlevel] at h hps
    have hread := close_read_replicate pulse h hlen
    have hnext : (r.read pulse (List.replicate p.2 p.1)).level = p.1 := by
      rw [read_replicate_of_ne h hlen]
    rw [samples_cons, read_append, ih hps (by rw [hnext]; simp), hread, Transducer.feed_cons,
      List.append_assoc]

theorem heard_sample (r : Reader σ μ) (b : Bool) : r.heard <+: (r.sample pulse b).heard := by
  rw [sample]
  split
  · exact List.prefix_refl _
  · exact List.prefix_append _ _

/-- What was heard stays heard. -/
theorem heard_read (r : Reader σ μ) (line : List Bool) : r.heard <+: (r.read pulse line).heard := by
  induction line generalizing r with
  | nil => exact List.prefix_refl _
  | cons b line ih => exact (heard_sample r b).trans (ih _)

/-- The line has been low for so long that the receiver is in the state `s`, and stays there. -/
structure Resting (pulse : σ → Pulse → σ × List μ) (s : σ) (r : Reader σ μ) : Prop where
  level : r.level = false
  close : ∀ n, r.count ≤ n → pulse r.state (false, n) = (s, [])

/-- A receiver that rests goes on resting while the line is low. -/
theorem Resting.read {s : σ} (h : r.Resting pulse s) (n : ℕ) :
    (r.read pulse (List.replicate n false)).Resting pulse s ∧
      (r.read pulse (List.replicate n false)).heard = r.heard := by
  rw [read_replicate_of_eq h.level.symm]
  exact ⟨⟨h.level, fun k hk => h.close k (Nat.le_of_add_right_le hk)⟩, rfl⟩

theorem Resting.close_eq {s : σ} (h : r.Resting pulse s) : r.close pulse = (s, r.heard) := by
  rw [Reader.close, h.level, h.close _ le_rfl, List.append_nil]

/-- A receiver rests once the line has been low for long enough. -/
theorem resting_of_long {s : σ} {N : ℕ} (hlong : ∀ s' n, N ≤ n → pulse s' (false, n) = (s, []))
    (hlevel : r.level = false) :
    (r.read pulse (List.replicate N false)).Resting pulse s ∧
      (r.read pulse (List.replicate N false)).heard = r.heard := by
  rw [read_replicate_of_eq hlevel.symm]
  exact ⟨⟨hlevel, fun k hk => hlong _ k ((Nat.le_add_left _ _).trans hk)⟩, rfl⟩

end Reader

/-- A pulse that is cut short tells the receiver what the whole pulse tells it, or nothing; so for
each of the pulses. -/
def Truthful (pulse : σ → Pulse → σ × List μ) : σ → List Pulse → Prop
  | _, [] => True
  | s, p :: ps =>
    (∀ n, (pulse s (p.1, n)).2 = [] ∨ (pulse s (p.1, n)).2 = (pulse s p).2) ∧
      Truthful pulse (pulse s p).1 ps

theorem truthful_append {pulse : σ → Pulse → σ × List μ} {s : σ} {ps qs : List Pulse} :
    Truthful pulse s (ps ++ qs) ↔
      Truthful pulse s ps ∧ Truthful pulse (Transducer.feed pulse s ps).1 qs := by
  induction ps generalizing s with
  | nil => simp [Truthful]
  | cons p ps ih => simp only [List.cons_append, Truthful, ih, Transducer.feed_cons, and_assoc]

namespace Reader

variable {pulse} {r : Reader σ μ} {b : Bool}

variable (pulse) in
/-- What is heard if the pulse ends anywhere in the samples is a first part of what is heard at
their end. -/
theorem close_read_part {ps : List Pulse} (hps : Alternate b ps) (h : b ≠ r.level)
    (htrue : Truthful pulse (r.close pulse).1 ps) {part : List Bool}
    (hpart : part <+: samples ps) :
    ((r.read pulse part).close pulse).2 <+:
      (r.close pulse).2 ++ (Transducer.feed pulse (r.close pulse).1 ps).2 := by
  induction ps generalizing b r part with
  | nil =>
    rw [List.prefix_nil.mp hpart]
    exact List.prefix_append _ _
  | cons p ps ih =>
    obtain ⟨hlevel, hlen, hps⟩ := hps
    rw [← hlevel] at h hps
    rw [Transducer.feed_cons, ← List.append_assoc]
    rcases List.prefix_or_prefix_of_prefix hpart (List.prefix_append _ _) with hshort | hlong
    · obtain ⟨-, hshort⟩ := List.prefix_replicate_iff.mp hshort
      rw [hshort]
      rcases part.length.eq_zero_or_pos with hzero | hpos
      · rw [hzero]
        exact (List.prefix_append _ _).trans (List.prefix_append _ _)
      · rw [close_read_replicate pulse h hpos]
        rcases htrue.1 part.length with hnone | hsame
        · rw [hnone, List.append_nil]
          exact (List.prefix_append _ _).trans (List.prefix_append _ _)
        · rw [hsame]
          exact List.prefix_append _ _
    · obtain ⟨rest, rfl⟩ := hlong
      have hrest : rest <+: samples ps := (List.prefix_append_right_inj _).mp hpart
      have hread := close_read_replicate pulse h hlen
      have hnext : (r.read pulse (List.replicate p.2 p.1)).level = p.1 := by
        rw [read_replicate_of_ne h hlen]
      have hclose := ih (r := r.read pulse (List.replicate p.2 p.1)) hps (by rw [hnext]; simp)
        (by rw [hread]; exact htrue.2) hrest
      rw [hread] at hclose
      rw [read_append]
      exact hclose

/-- The line goes low: the pulse ends, if it was high. -/
theorem heard_read_low (hmute : ∀ s n, (pulse s (false, n)).2 = []) (r : Reader σ μ) :
    (r.sample pulse false).heard = (r.close pulse).2 := by
  cases hlevel : r.level with
  | false =>
    rw [sample_of_eq hlevel.symm, close, hlevel, hmute, List.append_nil]
  | true => rw [sample_of_ne (by rw [hlevel]; decide)]

theorem level_sample (r : Reader σ μ) (b : Bool) : (r.sample pulse b).level = b := by
  rw [sample]
  split
  case isTrue h => exact h.symm
  case isFalse => rfl

theorem read_concat (r : Reader σ μ) (line : List Bool) (b : Bool) :
    r.read pulse (line ++ [b]) = (r.read pulse line).sample pulse b :=
  read_append line [b]

/-- The level before the last of some pulses. -/
theorem level_read_pulses {ps : List Pulse} {p : Pulse} (hps : Alternate b (ps ++ [p]))
    (h : b ≠ r.level) : p.1 ≠ (r.read pulse (samples ps)).level := by
  induction ps generalizing b r with
  | nil =>
    rw [hps.1]
    exact h
  | cons q ps ih =>
    obtain ⟨hlevel, hlen, hps⟩ := hps
    rw [← hlevel] at h hps
    have hnext : (r.read pulse (List.replicate q.2 q.1)).level = q.1 := by
      rw [read_replicate_of_ne h hlen]
    rw [samples_cons, read_append]
    exact ih hps (by rw [hnext]; simp)

/-- **Pulses that end with a space** after which the receiver rests. -/
theorem Resting.read_pulses {s s' : σ} (hrest : r.Resting pulse s) {ps : List Pulse} {n : ℕ}
    (hps : Alternate true (ps ++ [(false, n)]))
    (hend : ∀ k, pulse (Transducer.feed pulse s ps).1 (false, k) = (s', [])) :
    (r.read pulse (samples (ps ++ [(false, n)]))).Resting pulse s' ∧
      (r.read pulse (samples (ps ++ [(false, n)]))).heard =
        r.heard ++ (Transducer.feed pulse s ps).2 := by
  have hclose := close_read_pulses pulse hps.left (r := r) (by rw [hrest.level]; decide)
  have hlevel : false ≠ (r.read pulse (samples ps)).level :=
    level_read_pulses hps (by rw [hrest.level]; decide)
  have hpos : 0 < n := hps.pos (false, n) (by simp)
  have hsplit : samples (ps ++ [(false, n)]) = samples ps ++ List.replicate n false := by
    rw [samples_append, samples_cons, samples_nil, List.append_nil]
  rw [hrest.close_eq] at hclose
  rw [hsplit, read_append, read_replicate_of_ne hlevel hpos, hclose]
  exact ⟨⟨rfl, fun k _ => hend k⟩, rfl⟩

/-- **A line that is cut off**: a receiver that rests, and that then is sent a part of some pulses
after a space, hears a first part of what it would hear of all of them. -/
theorem heard_cut (hmute : ∀ s n, (pulse s (false, n)).2 = []) {s : σ} (hrest : r.Resting pulse s)
    {ps : List Pulse} (hps : Alternate true ps) (htrue : Truthful pulse s ps) {k : ℕ}
    {part : List Bool} (hpart : part <+: List.replicate k false ++ samples ps) :
    (r.read pulse (part ++ [false])).heard <+: r.heard ++ (Transducer.feed pulse s ps).2 := by
  rw [read_concat, heard_read_low hmute]
  rcases List.prefix_or_prefix_of_prefix hpart (List.prefix_append _ _) with hshort | hlong
  · obtain ⟨-, hshort⟩ := List.prefix_replicate_iff.mp hshort
    have hstill := hrest.read part.length
    rw [hshort, hstill.1.close_eq, hstill.2]
    exact List.prefix_append _ _
  · obtain ⟨rest, rfl⟩ := hlong
    have hin : rest <+: samples ps := (List.prefix_append_right_inj _).mp hpart
    have hstill := hrest.read k
    have hclose := hstill.1.close_eq
    have hcut := close_read_part pulse hps (by rw [hstill.1.level]; decide)
      (by rw [hclose]; exact htrue) hin
    rw [hclose, hstill.2] at hcut
    rw [read_append]
    exact hcut

/-- What a receiver makes of some samples: a part of them tells it a part of `out`, also when the
line goes low after that part, and after all of them it has heard `out` and rests. -/
structure Conveys (pulse : σ → Pulse → σ × List μ) (s : σ) (r : Reader σ μ) (body : List Bool)
    (out : List μ) : Prop where
  part : ∀ part, part <+: body → ∃ o, o <+: out ∧ (r.read pulse part).heard = r.heard ++ o
  cut : ∀ part, part <+: body →
    ∃ o, o <+: out ∧ (r.read pulse (part ++ [false])).heard = r.heard ++ o
  rest : (r.read pulse body).Resting pulse s
  heard : (r.read pulse body).heard = r.heard ++ out

/-- **A receiver that rests** is told by some samples, after a space, what the pulses tell, and by
a part of the samples no more than a part of it. -/
theorem Resting.conveys (hmute : ∀ s n, (pulse s (false, n)).2 = []) {s s' : σ}
    (hrest : r.Resting pulse s) {ps : List Pulse} {n : ℕ}
    (hps : Alternate true (ps ++ [(false, n)])) (htrue : Truthful pulse s (ps ++ [(false, n)]))
    (hend : ∀ k, pulse (Transducer.feed pulse s ps).1 (false, k) = (s', [])) (k : ℕ) :
    Conveys pulse s' r (List.replicate k false ++ samples (ps ++ [(false, n)]))
      (Transducer.feed pulse s ps).2 := by
  have hstill := hrest.read k
  have hwhole := hstill.1.read_pulses hps hend
  rw [← read_append, hstill.2] at hwhole
  have hfeed : (Transducer.feed pulse s (ps ++ [(false, n)])).2 =
      (Transducer.feed pulse s ps).2 := by
    rw [Transducer.feed_append, Transducer.feed_cons, hend, Transducer.feed_nil]
    simp
  -- Whatever was heard before is the first part of what is heard.
  have hsplit : ∀ line, (r.read pulse line).heard <+: r.heard ++ (Transducer.feed pulse s ps).2 →
      ∃ o, o <+: (Transducer.feed pulse s ps).2 ∧ (r.read pulse line).heard = r.heard ++ o := by
    rintro line hline
    obtain ⟨o, ho⟩ : r.heard <+: (r.read pulse line).heard := heard_read r line
    rw [← ho] at hline
    exact ⟨o, (List.prefix_append_right_inj _).mp hline, ho.symm⟩
  refine ⟨fun part hpart => hsplit part ?_, fun part hpart => hsplit _ ?_, hwhole.1, hwhole.2⟩
  · obtain ⟨more, hmore⟩ := hpart
    rw [← hwhole.2, ← hmore, read_append]
    exact heard_read _ more
  · rw [← hfeed]
    exact heard_cut hmute hrest hps htrue hpart

end Reader

end TcBle.Foundation.Pulses
