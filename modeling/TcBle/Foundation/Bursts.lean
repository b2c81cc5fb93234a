import Mathlib.Algebra.Ring.Nat
import Mathlib.Data.List.Induction
import Mathlib.Tactic.Common

/-!
# Bursts and gaps

A list of intervals, of which the short ones belong to a burst and any other one is a gap between
two: what a burst takes is the sum of its intervals.

## What is proved

* `sections_eq_split` — the bursts and gaps, and how they come about interval after interval.
* `even_closed` — behind a gap there is a burst in hand.
-/

namespace TcBle.Foundation.Bursts

variable {α : Type*} [Zero α] [Add α] (Short : α → Prop) [DecidablePred Short]

/-- The bursts and gaps in order, where the burst in hand has taken so much. -/
def sectionsFrom : α → List α → List α
  | hand, [] => [hand]
  | hand, i :: is =>
    if Short i then sectionsFrom (hand + i) is else hand :: i :: sectionsFrom 0 is

/-- The bursts and gaps in order, from a burst to a burst. -/
def sections (is : List α) : List α := sectionsFrom Short 0 is

/-- What there is behind some of the intervals. -/
structure Split (α : Type*) where
  /-- The bursts and gaps that are over. -/
  closed : List α
  /-- The burst in hand. -/
  hand : α

/-- The next interval. -/
def Split.push (s : Split α) (i : α) : Split α :=
  if Short i then ⟨s.closed, s.hand + i⟩ else ⟨s.closed ++ [s.hand, i], 0⟩

/-- All of the intervals, one after the other. -/
def split (is : List α) : Split α := is.foldl (Split.push Short) ⟨[], 0⟩

variable {Short}

theorem Split.push_of_short {s : Split α} {i : α} (h : Short i) :
    s.push Short i = ⟨s.closed, s.hand + i⟩ := if_pos h

theorem Split.push_of_long {s : Split α} {i : α} (h : ¬ Short i) :
    s.push Short i = ⟨s.closed ++ [s.hand, i], 0⟩ := if_neg h

variable (Short)

theorem split_concat (is : List α) (i : α) :
    split Short (is ++ [i]) = (split Short is).push Short i := by simp [split]

theorem foldl_push (is : List α) (s : Split α) :
    (is.foldl (Split.push Short) s).closed ++ [(is.foldl (Split.push Short) s).hand] =
      s.closed ++ sectionsFrom Short s.hand is := by
  induction is generalizing s with
  | nil => rfl
  | cons i is ih =>
    rw [List.foldl_cons, ih, sectionsFrom]
    by_cases hi : Short i
    · rw [Split.push_of_short hi, if_pos hi]
    · rw [Split.push_of_long hi, if_neg hi, List.append_assoc]
      rfl

/-- **The bursts and gaps** are those that are over and the burst in hand. -/
theorem sections_eq_split (is : List α) :
    sections Short is = (split Short is).closed ++ [(split Short is).hand] :=
  (foldl_push Short is ⟨[], 0⟩).symm

/-- Bursts and gaps alternate. -/
theorem even_closed (is : List α) : (split Short is).closed.length % 2 = 0 := by
  induction is using List.reverseRecOn with
  | nil => rfl
  | append_singleton is i ih =>
    rw [split_concat]
    by_cases hi : Short i
    · rw [Split.push_of_short hi]
      exact ih
    · rw [Split.push_of_long hi, List.length_append, List.length_cons, List.length_singleton]
      omega

end TcBle.Foundation.Bursts
