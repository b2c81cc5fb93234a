import Mathlib.Data.Nat.Notation
import Mathlib.Tactic.Common

/-!
# Stuffing

A framing gives some items a meaning of their own. Where the content has one of these, an escape
item is sent and after it a code for the item meant. What a receiver is to accept is then a
grammar: an escape item is followed by a code, and every other item stands for itself.

## What is proved

* `Content.unique` and `Content.length_le` — a string has one content at most, no longer than
  itself.
* `content_esc_iff` and `content_cons_iff` — how a string with a content begins.
* `Content.flatMap` — a sender that sends every item as itself or by its code sends the content.
-/

namespace TcBle.Foundation.Stuffing

variable {α : Type*} (esc : α) (code : α → Option α)

/-- The string has this content. `code` says what a code stands for. -/
inductive Content : List α → List α → Prop where
  /-- Nothing. -/
  | nil : Content [] []
  /-- An item that stands for itself. -/
  | plain {b : α} {l c : List α} : b ≠ esc → Content l c → Content (b :: l) (b :: c)
  /-- An escape item and a code. -/
  | escaped {k b : α} {l c : List α} :
    code k = some b → Content l c → Content (esc :: k :: l) (b :: c)

variable {esc code} {l c : List α}

theorem content_nil_iff : Content esc code [] c ↔ c = [] := by
  constructor
  · intro h
    cases h
    rfl
  · rintro rfl
    exact .nil

/-- A string with a content that begins with an item that stands for itself. -/
theorem content_cons_iff {b : α} (hb : b ≠ esc) :
    Content esc code (b :: l) c ↔ ∃ c', c = b :: c' ∧ Content esc code l c' := by
  constructor
  · intro h
    cases h with
    | plain _ h => exact ⟨_, rfl, h⟩
    | escaped _ _ => exact absurd rfl hb
  · rintro ⟨c', rfl, h⟩
    exact .plain hb h

/-- One that begins with an escape item. -/
theorem content_esc_iff :
    Content esc code (esc :: l) c ↔
      ∃ k l' b c', l = k :: l' ∧ code k = some b ∧ c = b :: c' ∧ Content esc code l' c' := by
  constructor
  · intro h
    cases h with
    | plain hne _ => exact absurd rfl hne
    | escaped hk h => exact ⟨_, _, _, _, rfl, hk, rfl, h⟩
  · rintro ⟨k, l', b, c', rfl, hk, rfl, h⟩
    exact .escaped hk h

/-- **A string has one content.** -/
theorem Content.unique (h : Content esc code l c) : ∀ {c'}, Content esc code l c' → c = c' := by
  induction h with
  | nil =>
    intro c' h'
    exact (content_nil_iff.mp h').symm
  | plain hb _ ih =>
    intro c' h'
    obtain ⟨d, rfl, hd⟩ := (content_cons_iff hb).mp h'
    rw [ih hd]
  | escaped hk _ ih =>
    intro c' h'
    obtain ⟨k, l', b, d, hl, hk', rfl, hd⟩ := content_esc_iff.mp h'
    obtain ⟨rfl, rfl⟩ := List.cons.inj hl
    rw [ih hd, Option.some.inj (hk.symm.trans hk')]

theorem Content.length_le (h : Content esc code l c) : c.length ≤ l.length := by
  induction h with
  | nil => exact Nat.le_refl _
  | plain _ _ ih => simpa using ih
  | escaped _ _ ih =>
    simp only [List.length_cons]
    omega

/-- How an item may be sent: as itself, or by its code. -/
def Sends (esc : α) (code : α → Option α) (b : α) (sent : List α) : Prop :=
  (sent = [b] ∧ b ≠ esc) ∨ ∃ k, sent = [esc, k] ∧ code k = some b

/-- **The sender sends the content**, in at most two items for each. -/
theorem Content.flatMap {put : α → List α} (hput : ∀ b, Sends esc code b (put b)) (c : List α) :
    Content esc code (c.flatMap put) c := by
  induction c with
  | nil => exact .nil
  | cons b c ih =>
    rw [List.flatMap_cons]
    obtain ⟨hb, hne⟩ | ⟨k, hk, hcode⟩ := hput b
    · rw [hb]
      exact .plain hne ih
    · rw [hk]
      exact .escaped hcode ih

theorem length_flatMap_le {put : α → List α} (hput : ∀ b, Sends esc code b (put b)) (c : List α) :
    (c.flatMap put).length ≤ 2 * c.length := by
  induction c with
  | nil => simp
  | cons b c ih =>
    have hone : (put b).length ≤ 2 := by
      obtain ⟨hb, -⟩ | ⟨k, hk, -⟩ := hput b
      · simp [hb]
      · simp [hk]
    rw [List.flatMap_cons, List.length_append, List.length_cons]
    omega

end TcBle.Foundation.Stuffing
