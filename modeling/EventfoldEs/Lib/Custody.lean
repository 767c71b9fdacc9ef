/-
Things that are each at one place: made once, handed from place to place, perhaps
lost on the way.
-/
import Mathlib.Data.List.Perm.Lattice

namespace Custody

universe u v

variable {ι : Type u} {α : Type v}

/-- Nothing is at two places, or twice at one. -/
structure Single (places : ι → List α) : Prop where
  once : ∀ i, (places i).Nodup
  apart : ∀ i j, i ≠ j → (places i).Disjoint (places j)

variable {places places' : ι → List α}

theorem single_nil : Single fun _ : ι => ([] : List α) :=
  ⟨fun _ => List.nodup_nil, fun _ _ _ => List.disjoint_nil_left _⟩

/-- Things are lost. -/
theorem Single.lost (hsingle : Single places) (hless : ∀ i, (places' i).Sublist (places i)) :
    Single places' where
  once i := (hsingle.once i).sublist (hless i)
  apart i j hij _ hi hj := hsingle.apart i j hij ((hless i).subset hi) ((hless j).subset hj)

/-- Of what is at `i` and what is newly made there, `out` goes to `j`. -/
theorem Single.handed (hsingle : Single places) {i j : ι} (hij : i ≠ j) {new out : List α}
    (hnew : new.Nodup) (hfresh : ∀ a ∈ new, ∀ k, a ∉ places k)
    (hi : (places' i ++ out).Perm (places i ++ new))
    (hj : (places' j).Perm (places j ++ out))
    (hothers : ∀ k, k ≠ i → k ≠ j → places' k = places k) : Single places' := by
  have hall : (places' i ++ out).Nodup := by
    refine hi.symm.nodup (List.nodup_append'.mpr ⟨hsingle.once i, hnew, ?_⟩)
    exact fun a ha hmade => hfresh a hmade i ha
  obtain ⟨honceI, honceOut, hkeptOut⟩ := List.nodup_append'.mp hall
  -- what comes out of `i` was nowhere else
  have hfrom : ∀ a, a ∈ places' i ∨ a ∈ out → ∀ k, k ≠ i → a ∉ places k := by
    intro a ha k hk hother
    rcases List.mem_append.mp (hi.subset (List.mem_append.mpr ha)) with hold | hmade
    · exact hsingle.apart i k (Ne.symm hk) hold hother
    · exact hfresh a hmade k hother
  have hat : ∀ k, k ≠ i → ∀ a ∈ places' k, a ∈ places k ∨ (k = j ∧ a ∈ out) := by
    intro k hk a ha
    by_cases hkj : k = j
    · subst hkj
      exact (List.mem_append.mp (hj.subset ha)).imp_right fun h => ⟨rfl, h⟩
    · exact Or.inl (hothers k hk hkj ▸ ha)
  have hapartI : ∀ k, k ≠ i → (places' i).Disjoint (places' k) := by
    intro k hk a ha hother
    rcases hat k hk a hother with hold | ⟨-, hout⟩
    · exact hfrom a (Or.inl ha) k hk hold
    · exact hkeptOut ha hout
  refine ⟨fun k => ?_, fun k l hkl => ?_⟩
  · by_cases hki : k = i
    · exact hki ▸ honceI
    · by_cases hkj : k = j
      · subst hkj
        refine hj.symm.nodup (List.nodup_append'.mpr ⟨hsingle.once k, honceOut, ?_⟩)
        exact fun a ha hout => hfrom a (Or.inr hout) k hki ha
      · exact hothers k hki hkj ▸ hsingle.once k
  · by_cases hki : k = i
    · subst hki
      exact hapartI l (Ne.symm hkl)
    · by_cases hli : l = i
      · subst hli
        exact (hapartI k hki).symm
      · intro a hk hl
        rcases hat k hki a hk with holdK | ⟨hkj, houtK⟩
        · rcases hat l hli a hl with holdL | ⟨-, houtL⟩
          · exact hsingle.apart k l hkl holdK holdL
          · exact hfrom a (Or.inr houtL) k hki holdK
        · rcases hat l hli a hl with holdL | ⟨hlj, -⟩
          · exact hfrom a (Or.inr houtK) l hli holdL
          · exact hkl (hkj.trans hlj.symm)

end Custody
