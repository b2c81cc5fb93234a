import Mathlib.Data.Nat.Notation
import Mathlib.Tactic.Common

/-!
# Encoders and decoders in lockstep

A predictive encoder keeps a state, and gives for each item a code and a new state; its
decoder keeps a state of the same kind and takes one code at a time. The state is not sent:
the decoder is right when each code leads it to the state the encoder is in.

## What is proved

* `InStep.replay` — the decoder's states are the encoder's, step by step.
* `forall_codes` and `forall_states` — what every step gives holds along a run.
-/

namespace TcBle.Foundation.Lockstep

variable {σ α γ : Type*} (enc : σ → α → γ × σ) (dec : σ → γ → σ)

/-- The codes of a sequence of items. -/
def codes : σ → List α → List γ
  | _, [] => []
  | s, x :: xs => (enc s x).1 :: codes (enc s x).2 xs

/-- The encoder's states, one after each item. -/
def states : σ → List α → List σ
  | _, [] => []
  | s, x :: xs => (enc s x).2 :: states (enc s x).2 xs

/-- The decoder's states, one after each code. -/
def replay : σ → List γ → List σ
  | _, [] => []
  | s, c :: cs => dec s c :: replay (dec s c) cs

@[simp] theorem codes_nil (s : σ) : codes enc s [] = [] := rfl

@[simp] theorem codes_cons (s : σ) (x : α) (xs : List α) :
    codes enc s (x :: xs) = (enc s x).1 :: codes enc (enc s x).2 xs := rfl

@[simp] theorem states_nil (s : σ) : states enc s [] = [] := rfl

@[simp] theorem states_cons (s : σ) (x : α) (xs : List α) :
    states enc s (x :: xs) = (enc s x).2 :: states enc (enc s x).2 xs := rfl

@[simp] theorem replay_nil (s : σ) : replay dec s [] = [] := rfl

@[simp] theorem replay_cons (s : σ) (c : γ) (cs : List γ) :
    replay dec s (c :: cs) = dec s c :: replay dec (dec s c) cs := rfl

@[simp] theorem length_states (s : σ) (xs : List α) : (states enc s xs).length = xs.length := by
  induction xs generalizing s with
  | nil => rfl
  | cons x xs ih => simp [ih]

@[simp] theorem length_codes (s : σ) (xs : List α) : (codes enc s xs).length = xs.length := by
  induction xs generalizing s with
  | nil => rfl
  | cons x xs ih => simp [ih]

/-- What holds of the code of every item holds of all the codes. -/
theorem forall_codes {enc : σ → α → γ × σ} {P : γ → Prop} (h : ∀ s x, P (enc s x).1) (s : σ)
    (xs : List α) : ∀ c ∈ codes enc s xs, P c := by
  induction xs generalizing s with
  | nil => simp
  | cons x xs ih => simpa [h s x] using ih (enc s x).2

/-- What holds of the state after every item holds of all the states. -/
theorem forall_states {enc : σ → α → γ × σ} {P : σ → Prop} (h : ∀ s x, P (enc s x).2) (s : σ)
    (xs : List α) : ∀ t ∈ states enc s xs, P t := by
  induction xs generalizing s with
  | nil => simp
  | cons x xs ih => simpa [h s x] using ih (enc s x).2

/-- The code of an item leads the decoder to the encoder's next state. -/
def InStep : Prop := ∀ s x, dec s (enc s x).1 = (enc s x).2

variable {enc dec}

/-- **The decoder follows the encoder**, state by state. -/
theorem InStep.replay (h : InStep enc dec) (s : σ) (xs : List α) :
    replay dec s (codes enc s xs) = states enc s xs := by
  induction xs generalizing s with
  | nil => rfl
  | cons x xs ih => rw [codes_cons, replay_cons, states_cons, h s x, ih]

end TcBle.Foundation.Lockstep
