import Mathlib.Algebra.Ring.Nat
import Mathlib.Data.List.Perm.Basic
import Mathlib.Tactic.Common

/-!
# A slot for one timed command

A slot holds at most one command until its time is reached. What is pending, is known with how long
its time is off, so nothing is said here about how time is counted, or where it wraps.

A slot carries its account: every command it took is in exactly one of three places. It was
executed, it was dropped (deleted or replaced), or it is pending.

## What is proved

* `pending_wait` and `executed_wait` — what is pending stays so while less time passes than it is
  off, and is executed by the step that reaches its time.
-/

namespace TcBle.Foundation.TimedSlot

/-- A command for a time. -/
structure Pending (τ π : Type*) where
  /-- Its time. -/
  time : τ
  /-- What to execute. -/
  payload : π
  /-- How long its time is off. -/
  left : ℕ
  deriving DecidableEq

/-- What is answered to a command for a time. -/
inductive Verdict
  /-- It is pending now. -/
  | taken
  /-- What was pending was deleted. -/
  | deleted
  /-- Another one is pending. -/
  | queueFull
  /-- Its time cannot be meant. -/
  | refused
  deriving DecidableEq

/-- A slot, and what became of the commands it took. -/
structure Slot (τ π : Type*) where
  /-- What is pending. -/
  pending : Option (Pending τ π)
  /-- What it took. -/
  taken : List π
  /-- What was executed. -/
  executed : List π
  /-- What was deleted or replaced. -/
  dropped : List π
  /-- Everything that was taken is in one of the three places. -/
  account : taken.Perm (executed ++ dropped ++ (pending.map Pending.payload).toList)

namespace Slot

variable {τ π : Type*}

/-- The slot at the start. -/
def empty : Slot τ π := ⟨none, [], [], [], .refl _⟩

/-- A command for at once. -/
def perform (s : Slot τ π) (payload : π) : Slot τ π where
  pending := s.pending
  taken := s.taken ++ [payload]
  executed := s.executed ++ [payload]
  dropped := s.dropped
  account := by
    have := s.account.append_right [payload]
    refine this.trans ?_
    simp only [List.append_assoc]
    refine .append_left _ ?_
    rw [← List.append_assoc]
    exact List.perm_append_comm

/-- A command is pending from now on; the one before it is dropped. -/
def put (s : Slot τ π) (time : τ) (payload : π) (left : ℕ) : Slot τ π where
  pending := some ⟨time, payload, left⟩
  taken := s.taken ++ [payload]
  executed := s.executed
  dropped := s.dropped ++ (s.pending.map Pending.payload).toList
  account := by simpa using s.account.append_right [payload]

/-- What is pending is dropped. -/
def delete (s : Slot τ π) : Slot τ π where
  pending := none
  taken := s.taken
  executed := s.executed
  dropped := s.dropped ++ (s.pending.map Pending.payload).toList
  account := by simpa using s.account

/-- What is pending is executed. -/
def execute (s : Slot τ π) : Slot τ π where
  pending := none
  taken := s.taken
  executed := s.executed ++ (s.pending.map Pending.payload).toList
  dropped := s.dropped
  account := by
    refine s.account.trans ?_
    simp only [Option.map_none, Option.toList_none, List.append_nil, List.append_assoc]
    exact .append_left _ List.perm_append_comm

/-- What is pending is off by something else from now on. -/
def setLeft (s : Slot τ π) (f : Pending τ π → ℕ) : Slot τ π where
  pending := s.pending.map fun p => { p with left := f p }
  taken := s.taken
  executed := s.executed
  dropped := s.dropped
  account := by simpa [Function.comp_def] using s.account

/-- A command for `time`, which is off by `left`. While one is pending, time `0` deletes it, the
same time replaces it, and any other time is refused. -/
def offer [DecidableEq τ] [Zero τ] (s : Slot τ π) (meant : Bool) (time : τ) (payload : π)
    (left : ℕ) : Slot τ π × Verdict :=
  match s.pending with
  | none => if meant then (s.put time payload left, .taken) else (s, .refused)
  | some p =>
    if time = 0 then (s.delete, .deleted)
    else if time ≠ p.time then (s, .queueFull)
    else (s.put time payload left, .taken)

/-- `d` passes: what is pending is executed if its time is reached. -/
def progress (s : Slot τ π) (d : ℕ) : Slot τ π :=
  match s.pending with
  | none => s
  | some p => if p.left ≤ d then s.execute else s.setLeft fun p => p.left - d

/-- Less time passes than the pending command is off, in steps. -/
theorem pending_wait {s : Slot τ π} {p : Pending τ π} (h : s.pending = some p) {ds : List ℕ}
    (hd : ds.sum < p.left) :
    (ds.foldl progress s).pending = some { p with left := p.left - ds.sum } ∧
      (ds.foldl progress s).executed = s.executed := by
  induction ds generalizing s p with
  | nil => simpa using h
  | cons d ds ih =>
    rw [List.sum_cons] at hd
    have hstep : s.progress d = s.setLeft fun p => p.left - d := by
      rw [progress, h]
      exact if_neg (by omega)
    have hp : (s.progress d).pending = some { p with left := p.left - d } := by
      simp [hstep, setLeft, h]
    obtain ⟨h₁, h₂⟩ := ih hp (by simp only; omega)
    rw [List.foldl_cons, h₁, h₂, List.sum_cons, hstep]
    refine ⟨?_, rfl⟩
    simp only [Nat.sub_sub]

/-- The step that reaches the time of the pending command executes it, and only it. -/
theorem executed_wait {s : Slot τ π} {p : Pending τ π} (h : s.pending = some p) {ds : List ℕ}
    {d : ℕ} (hlt : ds.sum < p.left) (hle : p.left ≤ ds.sum + d) :
    ((ds ++ [d]).foldl progress s).pending = none ∧
      ((ds ++ [d]).foldl progress s).executed = s.executed ++ [p.payload] := by
  obtain ⟨hp, he⟩ := pending_wait h hlt
  rw [List.foldl_append, List.foldl_cons, List.foldl_nil]
  have hstep : (ds.foldl progress s).progress d = (ds.foldl progress s).execute := by
    rw [progress, hp]
    exact if_pos (by simp only; omega)
  rw [hstep]
  exact ⟨rfl, by simp [execute, hp, he]⟩

end Slot

end TcBle.Foundation.TimedSlot
