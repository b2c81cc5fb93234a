import Mathlib.Data.Set.Insert
import Mathlib.Logic.Equiv.Defs
import Mathlib.Tactic.Common

/-!
# Conflicts in a family of sets

Two sets of a family conflict when they share an element, unless both are the one singleton. To
clean a family is to take from each set what it shares with a set that it conflicts with.

## What is proved

* `Conflict.spreads` — an element that two sets conflict about is one that every set with it has a
  conflict about.
* `not_conflict_clean`, `clean_clean`, `clean_of_not_conflict` — a clean family has no conflict, and
  cleaning one without any changes nothing.
* `clean_comp` — how the family is indexed does not matter.
-/

namespace TcBle.Foundation.Conflicts

variable {ι ι' κ : Type*} (S : ι → Set κ)

/-- The sets `i` and `j` share an element and are not both the same singleton. -/
structure Conflict (i j : ι) : Prop where
  /-- They are two. -/
  ne : i ≠ j
  /-- They share an element. -/
  share : (S i ∩ S j).Nonempty
  /-- They are not both the same singleton. -/
  not_single : ¬ ∃ c, S i = {c} ∧ S j = {c}

/-- The family without what a set shares with one that it conflicts with. -/
def clean (i : ι) : Set κ := {c ∈ S i | ∀ j, Conflict S i j → c ∉ S j}

variable {S} {i j k : ι} {c : κ}

theorem Conflict.symm (h : Conflict S i j) : Conflict S j i where
  ne := h.ne.symm
  share := Set.inter_comm (S i) (S j) ▸ h.share
  not_single := fun ⟨c, hj, hi⟩ => h.not_single ⟨c, hi, hj⟩

/-- Two sets that share an element and do not conflict are the singleton of it. -/
theorem eq_singleton_of_not_conflict (hne : i ≠ j) (hi : c ∈ S i) (hj : c ∈ S j)
    (h : ¬ Conflict S i j) : S i = {c} ∧ S j = {c} := by
  obtain ⟨d, hSi, hSj⟩ : ∃ d, S i = {d} ∧ S j = {d} := by
    by_contra hsingle
    exact h ⟨hne, ⟨c, hi, hj⟩, hsingle⟩
  obtain rfl : c = d := by rwa [hSi] at hi
  exact ⟨hSi, hSj⟩

/-- **A conflict spreads**: a set with an element that two sets conflict about has a conflict about it
with one of them. -/
theorem Conflict.spreads (h : Conflict S j k) (hj : c ∈ S j) (hk : c ∈ S k) (hi : c ∈ S i) :
    ∃ l, Conflict S i l ∧ c ∈ S l := by
  by_contra hnone
  have hij : i = j ∨ S i = {c} ∧ S j = {c} := by
    by_cases heq : i = j
    · exact .inl heq
    · exact .inr (eq_singleton_of_not_conflict heq hi hj fun hc => hnone ⟨j, hc, hj⟩)
  have hik : i = k ∨ S i = {c} ∧ S k = {c} := by
    by_cases heq : i = k
    · exact .inl heq
    · exact .inr (eq_singleton_of_not_conflict heq hi hk fun hc => hnone ⟨k, hc, hk⟩)
  rcases hij with rfl | ⟨-, hSj⟩
  · exact hnone ⟨k, h, hk⟩
  · rcases hik with rfl | ⟨-, hSk⟩
    · exact hnone ⟨j, h.symm, hj⟩
    · exact h.not_single ⟨c, hSj, hSk⟩

theorem clean_subset (i : ι) : clean S i ⊆ S i := fun _ h => h.1

/-- **A clean family** has no conflict. -/
theorem not_conflict_clean (i j : ι) : ¬ Conflict (clean S) i j := by
  rintro ⟨hne, ⟨c, hi, hj⟩, hsingle⟩
  have hfree : ¬ Conflict S i j := fun h => hi.2 j h hj.1
  obtain ⟨hSi, hSj⟩ := eq_singleton_of_not_conflict hne hi.1 hj.1 hfree
  refine hsingle ⟨c, ?_, ?_⟩
  · exact Set.Subset.antisymm (hSi ▸ clean_subset i) (Set.singleton_subset_iff.mpr hi)
  · exact Set.Subset.antisymm (hSj ▸ clean_subset j) (Set.singleton_subset_iff.mpr hj)

/-- **Without a conflict** there is nothing to clean. -/
theorem clean_of_not_conflict (h : ∀ i j, ¬ Conflict S i j) : clean S = S := by
  funext i
  exact Set.sep_eq_self_iff_mem_true.mpr fun c _ j hc => absurd hc (h i j)

/-- **Cleaning twice** is cleaning once. -/
theorem clean_clean : clean (clean S) = clean S := clean_of_not_conflict not_conflict_clean

theorem conflict_comp (σ : ι' ≃ ι) {i j : ι'} : Conflict (S ∘ σ) i j ↔ Conflict S (σ i) (σ j) :=
  ⟨fun h => ⟨fun he => h.ne (σ.injective he), h.share, h.not_single⟩,
    fun h => ⟨fun he => h.ne (congrArg σ he), h.share, h.not_single⟩⟩

/-- **The order** of the family does not matter. -/
theorem clean_comp (σ : ι' ≃ ι) : clean (S ∘ σ) = clean S ∘ σ := by
  funext i
  ext c
  refine and_congr_right fun _ => ⟨fun h j hc => ?_, fun h j hc => h (σ j) ((conflict_comp σ).mp hc)⟩
  have := h (σ.symm j) ((conflict_comp σ).mpr (by rwa [σ.apply_symm_apply]))
  rwa [Function.comp_apply, σ.apply_symm_apply] at this

end TcBle.Foundation.Conflicts
