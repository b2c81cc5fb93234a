import Mathlib.Algebra.BigOperators.Group.List.Basic
import Mathlib.Algebra.Ring.Nat
import Mathlib.Tactic.Common

/-!
# Phases one after another

Phases that follow one another, each for its span of time, seen by polls that come at any times: a
poll ends the current phase if its span is over, and the next one counts from there and not from the
poll, so that a late poll moves no end. A poll ends one phase at most.

Time is a number that does not wrap.

## What is proved

* `finish_poll` — no poll moves the end of the whole.
* `phases_polls_eq_nil` — as many polls as there are phases, all of them behind the end, leave none.
-/

namespace TcBle.Foundation

/-- A phase: what it shows, and how long it takes. -/
structure Phase (α : Type*) where
  /-- What it shows. -/
  label : α
  /-- How long it takes. -/
  span : ℕ

/-- Phases to come, of which the first is the current one. -/
structure Timeline (α : Type*) where
  /-- The start of the current phase. -/
  since : ℕ
  /-- The phases. -/
  phases : List (Phase α)

namespace Timeline

variable {α : Type*}

/-- A poll at the time `t`. -/
def poll (l : Timeline α) (t : ℕ) : Timeline α :=
  match l.phases with
  | [] => l
  | p :: ps => if l.since + p.span < t then ⟨l.since + p.span, ps⟩ else l

/-- The end of the last phase. -/
def finish (l : Timeline α) : ℕ := l.since + (l.phases.map Phase.span).sum

/-- What is shown: `none` behind the last phase. -/
def shown (l : Timeline α) : Option α := l.phases.head?.map Phase.label

@[simp] theorem poll_nil (since t : ℕ) : (⟨since, []⟩ : Timeline α).poll t = ⟨since, []⟩ := rfl

theorem poll_over {since t : ℕ} {p : Phase α} {ps : List (Phase α)} (h : since + p.span < t) :
    (⟨since, p :: ps⟩ : Timeline α).poll t = ⟨since + p.span, ps⟩ := if_pos h

theorem poll_within {since t : ℕ} {p : Phase α} {ps : List (Phase α)} (h : t ≤ since + p.span) :
    (⟨since, p :: ps⟩ : Timeline α).poll t = ⟨since, p :: ps⟩ := if_neg (by simpa using h)

/-- **A poll** moves no end. -/
theorem finish_poll (l : Timeline α) (t : ℕ) : (l.poll t).finish = l.finish := by
  obtain ⟨since, _ | ⟨p, ps⟩⟩ := l
  · rfl
  · by_cases h : since + p.span < t
    · rw [poll_over h, finish, finish, List.map_cons, List.sum_cons, Nat.add_assoc]
    · rw [poll_within (by omega)]

/-- A poll leaves an end of what there is. -/
theorem phases_poll (l : Timeline α) (t : ℕ) : (l.poll t).phases <:+ l.phases := by
  obtain ⟨since, _ | ⟨p, ps⟩⟩ := l
  · exact List.suffix_rfl
  · by_cases h : since + p.span < t
    · rw [poll_over h]
      exact List.suffix_cons p ps
    · have hpoll : (⟨since, p :: ps⟩ : Timeline α).poll t = ⟨since, p :: ps⟩ :=
        poll_within (by omega)
      exact ⟨[], congrArg Timeline.phases hpoll⟩

/-- A poll behind the end ends a phase. -/
theorem length_poll_behind {l : Timeline α} {t : ℕ} (h : l.finish < t) :
    (l.poll t).phases.length = l.phases.length - 1 := by
  obtain ⟨since, _ | ⟨p, ps⟩⟩ := l
  · rfl
  · have hspan : since + p.span ≤ finish ⟨since, p :: ps⟩ := by
      rw [finish, List.map_cons, List.sum_cons, ← Nat.add_assoc]
      exact Nat.le_add_right _ _
    rw [poll_over (by omega)]
    rfl

/-- How many phases polls leave, at most. -/
theorem length_polls (l : Timeline α) (ts : List ℕ) :
    (ts.foldl poll l).phases.length ≤
      l.phases.length - ts.countP fun t => l.finish < t := by
  induction ts generalizing l with
  | nil => simp
  | cons t ts ih =>
    have hrest := ih (l.poll t)
    rw [finish_poll] at hrest
    rw [List.foldl_cons, List.countP_cons]
    by_cases h : l.finish < t
    · rw [length_poll_behind h] at hrest
      simp only [h, decide_true, if_true]
      omega
    · have hle := (phases_poll l t).length_le
      simp only [h, decide_false, Bool.false_eq_true, if_false]
      omega

/-- **The end**: as many polls behind it as there are phases leave none. -/
theorem phases_polls_eq_nil {l : Timeline α} {ts : List ℕ}
    (h : l.phases.length ≤ ts.countP fun t => l.finish < t) : (ts.foldl poll l).phases = [] := by
  have hlen := length_polls l ts
  exact List.length_eq_zero_iff.mp (by omega)

end Timeline

end TcBle.Foundation
