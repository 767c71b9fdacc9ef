/-
Two parts joined by a separator that neither of them escapes: when two pairs
are joined to the same text.
-/
import Mathlib.Data.List.Basic

namespace Separated

universe u

variable {α : Type u}

/-- The first part of one pair runs on over a separator into what the other
pair has behind its separator. -/
def Overlaps (sep : α) (a x b y : List α) : Prop :=
  ∃ w, a = b ++ sep :: w ∧ y = w ++ sep :: x

theorem join_eq_of_overlaps {sep : α} {a x b y : List α}
    (h : Overlaps sep a x b y) : a ++ sep :: x = b ++ sep :: y := by
  obtain ⟨w, rfl, rfl⟩ := h
  simp

/-- Joined texts agree only for equal pairs and for pairs that overlap. -/
theorem join_eq_join_iff {sep : α} {a x b y : List α} :
    a ++ sep :: x = b ++ sep :: y ↔
      (a = b ∧ x = y) ∨ Overlaps sep a x b y ∨ Overlaps sep b y a x := by
  constructor
  · intro heq
    rcases List.append_eq_append_iff.mp heq with ⟨w, hb, hx⟩ | ⟨w, ha, hy⟩
    · cases w with
      | nil =>
          rw [List.nil_append, List.cons.injEq] at hx
          exact Or.inl ⟨by rw [hb, List.append_nil], hx.2⟩
      | cons c w =>
          rw [List.cons_append, List.cons.injEq] at hx
          obtain ⟨rfl, hx⟩ := hx
          exact Or.inr (Or.inr ⟨w, hb, hx⟩)
    · cases w with
      | nil =>
          rw [List.nil_append, List.cons.injEq] at hy
          exact Or.inl ⟨by rw [ha, List.append_nil], hy.2.symm⟩
      | cons c w =>
          rw [List.cons_append, List.cons.injEq] at hy
          obtain ⟨rfl, hy⟩ := hy
          exact Or.inr (Or.inl ⟨w, ha, hy⟩)
  · rintro (⟨rfl, rfl⟩ | h | h)
    · rfl
    · exact join_eq_of_overlaps h
    · exact (join_eq_of_overlaps h).symm

/-- Parts free of the separator in front never overlap. -/
theorem not_overlaps_of_not_mem {sep : α} {a x b y : List α} (ha : sep ∉ a) :
    ¬ Overlaps sep a x b y := by
  rintro ⟨w, rfl, -⟩
  exact ha (by simp)

end Separated
