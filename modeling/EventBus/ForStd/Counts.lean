import Mathlib.Data.Finset.Card

/-!
# Counting the members of a predicate

`Counts P n` says that exactly `n` elements satisfy `P`. It is how a counter such as
a wait group is tied to the goroutines it counts.
-/

variable {α : Type}

/-- Exactly `n` elements satisfy `P`. -/
def Counts (P : α → Prop) (n : Nat) : Prop := ∃ F : Finset α, F.card = n ∧ ∀ c, c ∈ F ↔ P c

namespace Counts

variable {P Q : α → Prop} {n : Nat} {c : α}

theorem zero (h : ∀ c, ¬P c) : Counts P 0 := ⟨∅, rfl, fun c => by simp [h c]⟩

theorem congr (h : Counts P n) (hPQ : ∀ d, Q d ↔ P d) : Counts Q n := by
  obtain ⟨F, hcard, hmem⟩ := h
  exact ⟨F, hcard, fun d => (hmem d).trans (hPQ d).symm⟩

/-- A counter of a predicate with a member is positive. -/
theorem pos (h : Counts P n) (hc : P c) : 0 < n := by
  obtain ⟨F, rfl, hmem⟩ := h
  exact Finset.card_pos.mpr ⟨c, (hmem c).mpr hc⟩

/-- The number of members is determined. -/
theorem unique {m : Nat} (h : Counts P n) (h' : Counts P m) : n = m := by
  obtain ⟨F, rfl, hmem⟩ := h
  obtain ⟨F', rfl, hmem'⟩ := h'
  rw [Finset.ext fun c => (hmem c).trans (hmem' c).symm]

/-- One more member. -/
theorem enter [DecidableEq α] (h : Counts P n) (hc : ¬P c) (hQ : ∀ d, Q d ↔ d = c ∨ P d) :
    Counts Q (n + 1) := by
  obtain ⟨F, rfl, hmem⟩ := h
  refine ⟨insert c F, Finset.card_insert_of_notMem fun hcF => hc ((hmem c).mp hcF), fun d => ?_⟩
  rw [Finset.mem_insert, hmem, hQ]

/-- One member less. -/
theorem leave [DecidableEq α] (h : Counts P n) (hc : P c) (hQ : ∀ d, Q d ↔ d ≠ c ∧ P d) :
    Counts Q (n - 1) := by
  obtain ⟨F, rfl, hmem⟩ := h
  refine ⟨F.erase c, Finset.card_erase_of_mem ((hmem c).mpr hc), fun d => ?_⟩
  rw [Finset.mem_erase, hmem, hQ]

end Counts
