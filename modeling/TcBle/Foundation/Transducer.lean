import Mathlib.Data.List.Infix
import Mathlib.Data.Nat.Notation
import Mathlib.Tactic.Common

/-!
# Transducers

A transducer reads its input item by item, and each item may make it give some output. What
it gives for a sequence does not depend on how the sequence is cut into pieces; a program
that is handed the pieces one by one is right when it follows the transducer on every piece.

## What is proved

* `feed_append` — a sequence in two pieces.
* `follows` — the rule for a machine that works piece by piece: it gives what the transducer
  gives for the whole sequence.
-/

namespace TcBle.Foundation.Transducer

variable {σ ι ω : Type*} (step : σ → ι → σ × List ω)

/-- The state after a sequence, and all the output. -/
def feed : σ → List ι → σ × List ω
  | s, [] => (s, [])
  | s, i :: is =>
    let r := feed (step s i).1 is
    (r.1, (step s i).2 ++ r.2)

@[simp] theorem feed_nil (s : σ) : feed step s [] = (s, []) := rfl

theorem feed_cons (s : σ) (i : ι) (is : List ι) :
    feed step s (i :: is) = ((feed step (step s i).1 is).1,
      (step s i).2 ++ (feed step (step s i).1 is).2) := rfl

/-- An item without output. -/
theorem feed_cons_of_quiet {s s' : σ} {i : ι} (h : step s i = (s', [])) (is : List ι) :
    feed step s (i :: is) = feed step s' is := by
  rw [feed_cons, h]
  rfl

/-- A sequence in two pieces. -/
theorem feed_append (s : σ) (is js : List ι) :
    feed step s (is ++ js) =
      ((feed step (feed step s is).1 js).1, (feed step s is).2 ++
        (feed step (feed step s is).1 js).2) := by
  induction is generalizing s with
  | nil => rfl
  | cons i is ih => simp only [List.cons_append, feed_cons, ih, List.append_assoc]

variable {κ τ ω' : Type*} (run : κ → τ → Option τ) (input : κ → List ι) (see : ω → Option ω')
  (out : τ → List ω')

/-- The machine is given one piece after the other. -/
def runAll : List κ → τ → Option τ
  | [], t => some t
  | k :: ks, t => (run k t).bind (runAll ks)

theorem runAll_append (ks js : List κ) (t : τ) :
    runAll run (ks ++ js) t = (runAll run ks t).bind (runAll run js) := by
  induction ks generalizing t with
  | nil => rfl
  | cons k ks ih =>
    rw [List.cons_append, runAll, runAll]
    cases run k t with
    | none => rfl
    | some t' => exact ih t'

/-- **A machine follows the transducer** over all the pieces if it does over each piece: its state
then stands for the transducer's, and its output is what it makes visible of the transducer's. `Q`
says of the pieces that are left what the machine needs. -/
theorem follows {R : τ → σ → Prop} {Q : List κ → τ → σ → Prop}
    (hrun : ∀ k ks t s, R t s → Q (k :: ks) t s → ∃ t', run k t = some t' ∧
      out t' = out t ++ (feed step s (input k)).2.filterMap see ∧
      (ks = [] ∨ R t' (feed step s (input k)).1 ∧ Q ks t' (feed step s (input k)).1))
    (ks : List κ) {t : τ} {s : σ} (hR : R t s) (hQ : Q ks t s) :
    ∃ t', runAll run ks t = some t' ∧ out t' = out t ++
      (feed step s (ks.flatMap input)).2.filterMap see := by
  induction ks generalizing t s with
  | nil => exact ⟨t, rfl, (List.append_nil _).symm⟩
  | cons k ks ih =>
    obtain ⟨t', ht', hout, hrest⟩ := hrun k ks t s hR hQ
    rw [List.flatMap_cons, feed_append, List.filterMap_append, ← List.append_assoc, ← hout]
    obtain rfl | ⟨hR', hQ'⟩ := hrest
    · exact ⟨t', by rw [runAll, ht']; rfl, (List.append_nil _).symm⟩
    · obtain ⟨t'', ht'', hout'⟩ := ih hR' hQ'
      exact ⟨t'', by rw [runAll, ht']; exact ht'', hout'⟩

end TcBle.Foundation.Transducer
