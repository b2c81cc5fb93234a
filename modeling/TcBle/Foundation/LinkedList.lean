import Mathlib.Data.List.Basic
import Mathlib.Data.Nat.Notation
import Mathlib.Logic.Function.Basic
import Mathlib.Tactic.Common

/-!
# Linked lists

Nodes that each link to the next one, or to nothing. `Links` says that from a node on the links go
through a list of nodes; the rules tell how it changes when a link is set.

## What is proved

* `links_append` — links through two lists are links through both.
* `Links.unique` and `Links.nodup` — links that come to an end go through one list, and no node
  twice.
* `Links.insert`, `Links.unlink` and `Links.concat` — a node put in after another, taken out after
  another, or put at the end.
* `walk_of_links` — where a walk along the links stops.
-/

namespace TcBle.Foundation.LinkedList

variable {α : Type*}

/-- From `p` on the links go through the nodes of the list, and then to `q`. -/
def Links (next : α → Option α) : Option α → List α → Option α → Prop
  | p, [], q => p = q
  | p, x :: l, q => p = some x ∧ Links next (next x) l q

/-- A walk along the links, which stops at the first node that meets `stop`, or at the end. It
returns the last node passed, if any, and the node where it has stopped; `none` if it goes on for
more than `n` rounds. -/
def walk (stop : α → Prop) [DecidablePred stop] (next : α → Option α) :
    ℕ → Option α → Option α → Option (Option α × Option α)
  | 0, _, _ => none
  | _ + 1, previous, none => some (previous, none)
  | n + 1, previous, some current =>
    if stop current then some (previous, some current)
      else walk stop next n (some current) (next current)

variable {next : α → Option α} {p q r : Option α} {l l₁ l₂ : List α} {a x : α}

@[simp] theorem links_nil : Links next p [] q ↔ p = q := Iff.rfl

@[simp] theorem links_cons : Links next p (x :: l) q ↔ p = some x ∧ Links next (next x) l q :=
    Iff.rfl

/-- Links through two lists. -/
theorem links_append : Links next p (l₁ ++ l₂) q ↔ ∃ r, Links next p l₁ r ∧ Links next r l₂ q := by
  induction l₁ generalizing p with
  | nil => simp
  | cons x l₁ ih => simp [ih, and_assoc]

theorem links_concat : Links next p (l ++ [x]) q ↔ Links next p l (some x) ∧ next x = q := by
  simp [links_append]

/-- The first node. -/
theorem Links.head (h : Links next p l none) : p = l.head? := by
  cases l with
  | nil => exact h
  | cons x l => exact h.1

/-- The nodes that are left. -/
theorem Links.tail (h : Links next p (x :: l) q) : Links next (next x) l q := h.2

/-- **Links that come to an end** go through one list. -/
theorem Links.unique (h₁ : Links next p l₁ none) (h₂ : Links next p l₂ none) : l₁ = l₂ := by
  induction l₁ generalizing p l₂ with
  | nil =>
    have hhead := h₂.head
    rw [links_nil.mp h₁] at hhead
    exact (List.head?_eq_none_iff.mp hhead.symm).symm
  | cons x l₁ ih =>
    cases l₂ with
    | nil => exact absurd (h₁.1.symm.trans h₂) nofun
    | cons y l₂ =>
      obtain rfl : x = y := Option.some.inj (h₁.1.symm.trans h₂.1)
      rw [ih h₁.2 h₂.2]

/-- **They go through no node twice.** -/
theorem Links.nodup (h : Links next p l none) : l.Nodup := by
  induction l generalizing p with
  | nil => exact List.nodup_nil
  | cons x l ih =>
    refine List.nodup_cons.mpr ⟨fun hx => ?_, ih h.2⟩
    obtain ⟨before, after, rfl⟩ := List.append_of_mem hx
    obtain ⟨r, -, hr⟩ := links_append.mp h.2
    have hsame := (h.2).unique hr.2
    have hlen := congrArg List.length hsame
    rw [List.length_append, List.length_cons] at hlen
    omega

/-- The last node links to nothing. -/
theorem Links.getLast (h : Links next p l none) (hx : l.getLast? = some x) : next x = none := by
  obtain ⟨l, rfl⟩ := List.getLast?_eq_some_iff.mp hx
  exact (links_concat.mp h).2

/-- What a node links to. -/
theorem Links.next_eq (h : Links next p (l₁ ++ a :: l₂) none) : next a = l₂.head? := by
  obtain ⟨r, -, rfl, hl₂⟩ := links_append.mp h
  exact hl₂.head

/-- There is no node exactly when there is no last one. -/
theorem Links.head_eq_none_iff (h : Links next p l none) : p = none ↔ l.getLast? = none := by
  rw [h.head, List.head?_eq_none_iff, List.getLast?_eq_none_iff]

variable [DecidableEq α]

/-- A link that is set elsewhere. -/
theorem links_update (hx : x ∉ l) (v : Option α) :
    Links (Function.update next x v) p l q ↔ Links next p l q := by
  induction l generalizing p with
  | nil => exact Iff.rfl
  | cons y l ih =>
    rw [List.mem_cons, not_or] at hx
    rw [links_cons, links_cons, Function.update_of_ne (Ne.symm hx.1), ih hx.2]

/-- A node put in front. -/
theorem Links.cons (h : Links next p l none) (hx : x ∉ l) :
    Links (Function.update next x p) (some x) (x :: l) none := by
  rw [links_cons, Function.update_self, links_update hx]
  exact ⟨rfl, h⟩

/-- The link of a node of the list is set to what comes after another list. -/
theorem Links.relink (h : Links next p (l₁ ++ a :: l₂) none) {v : Option α} {l₃ : List α}
    (hv : Links (Function.update next a v) v l₃ none) :
    Links (Function.update next a v) p (l₁ ++ a :: l₃) none := by
  have ha : a ∉ l₁ := fun ha => (List.nodup_append.mp h.nodup).2.2 a ha a List.mem_cons_self rfl
  obtain ⟨r, hl₁, rfl, -⟩ := links_append.mp h
  refine links_append.mpr ⟨some a, (links_update ha v).mpr hl₁, rfl, ?_⟩
  rwa [Function.update_self]

/-- **A node put in** after another. -/
theorem Links.insert (h : Links next p (l₁ ++ a :: l₂) none) (hx : x ∉ l₁ ++ a :: l₂) :
    Links (Function.update (Function.update next x (next a)) a (some x)) p
    (l₁ ++ a :: x :: l₂) none := by
  have hne : x ≠ a := fun heq => hx (List.mem_append_right _ (heq ▸ List.mem_cons_self))
  have ha : a ∉ l₂ := (List.nodup_cons.mp (List.nodup_append.mp h.nodup).2.1).1
  have hx₂ : x ∉ l₂ := fun hx₂ => hx (List.mem_append_right _ (List.mem_cons_of_mem _ hx₂))
  obtain ⟨r, -, rfl, hl₂⟩ := links_append.mp h
  refine ((links_update hx (next a)).mpr h).relink ⟨rfl, ?_⟩
  rw [Function.update_of_ne hne, Function.update_self, links_update ha, links_update hx₂]
  exact hl₂

/-- **A node taken out** after another. -/
theorem Links.unlink (h : Links next p (l₁ ++ a :: x :: l₂) none) :
    Links (Function.update next a (next x)) p (l₁ ++ a :: l₂) none := by
  have ha : a ∉ x :: l₂ := (List.nodup_cons.mp (List.nodup_append.mp h.nodup).2.1).1
  obtain ⟨r, -, rfl, -, hl₂⟩ := links_append.mp h
  exact h.relink ((links_update (fun ha₂ => ha (List.mem_cons_of_mem _ ha₂)) _).mpr hl₂)

/-- **A node put at the end.** -/
theorem Links.concat (h : Links next p (l ++ [a]) none) (hx : x ∉ l ++ [a]) :
    Links (Function.update (Function.update next a (some x)) x none) p (l ++ [a, x]) none := by
  have hne : x ≠ a := fun heq => hx (List.mem_append_right _ (heq ▸ List.mem_singleton_self _))
  have hnext : next a = none := (links_concat.mp h).2
  have hinsert := h.insert hx
  rwa [hnext, Function.update_comm hne] at hinsert

omit [DecidableEq α] in
/-- **Where a walk stops**: the list is cut in two, before the first node that meets `stop`. -/
theorem walk_of_links (stop : α → Prop) [DecidablePred stop] (h : Links next p l none) {n : ℕ}
    (hn : l.length < n)
    (previous : Option α) : ∃ l₁ l₂, l = l₁ ++ l₂ ∧
      walk stop next n previous p = some (l₁.getLast?.or previous, l₂.head?) ∧ (∀ y ∈ l₁, ¬stop y) ∧
        ∀ y ∈ l₂.head?, stop y := by
  induction l generalizing p n previous with
  | nil =>
    obtain ⟨n, rfl⟩ := Nat.exists_eq_add_of_lt hn
    refine ⟨[], [], rfl, ?_, fun y hy => absurd hy List.not_mem_nil, fun y hy => absurd hy nofun⟩
    rw [links_nil.mp h]
    rfl
  | cons x l ih =>
    obtain ⟨rfl, hl⟩ := h
    cases n with
    | zero => exact absurd hn (Nat.not_lt_zero _)
    | succ n =>
      rw [walk]
      by_cases hstop : stop x
      · rw [if_pos hstop]
        refine ⟨[], x :: l, rfl, rfl, fun y hy => absurd hy List.not_mem_nil, fun y hy => ?_⟩
        rwa [← Option.some.inj hy]
      · rw [if_neg hstop]
        obtain ⟨l₁, l₂, rfl, hwalk, hpassed, hstops⟩ := ih hl (Nat.lt_of_succ_lt_succ hn) (some x)
        refine ⟨x :: l₁, l₂, rfl, ?_, fun y hy => ?_, hstops⟩
        · rw [hwalk, List.getLast?_cons]
          cases l₁.getLast? <;> rfl
        · rcases List.mem_cons.mp hy with rfl | hy
          · exact hstop
          · exact hpassed y hy

end TcBle.Foundation.LinkedList
