/-
Files of lines, each ended by a separator that no line contains: how a content is cut
into lines and an open rest, and how writing at its end changes the cut.
-/
import Mathlib.Data.List.Basic

namespace Lines

universe u

variable {α : Type u} {sep : α}

/-- Every line with the separator that ends it. -/
def unlines (sep : α) (lines : List (List α)) : List α :=
  lines.flatMap fun line => line ++ [sep]

@[simp] theorem unlines_nil : unlines sep [] = [] := rfl

theorem unlines_cons (line : List α) (lines : List (List α)) :
    unlines sep (line :: lines) = line ++ sep :: unlines sep lines := by
  simp [unlines]

theorem unlines_concat (lines : List (List α)) (line : List α) :
    unlines sep (lines ++ [line]) = unlines sep lines ++ line ++ [sep] := by
  simp [unlines]

/-- The content consists of these lines, and of a rest that is not ended yet. -/
structure Cut (sep : α) (content : List α) (lines : List (List α)) (rest : List α) :
    Prop where
  content_eq : content = unlines sep lines ++ rest
  lines_clean : ∀ line ∈ lines, sep ∉ line
  rest_clean : sep ∉ rest

theorem Cut.nil : Cut sep [] [] [] where
  content_eq := rfl
  lines_clean _ hline := by cases hline
  rest_clean := List.not_mem_nil

variable {content : List α} {lines : List (List α)} {rest : List α}

/-- Writing a text goes on with the open rest. -/
theorem Cut.write (hcut : Cut sep content lines rest) {text : List α}
    (htext : sep ∉ text) : Cut sep (content ++ text) lines (rest ++ text) where
  content_eq := by rw [hcut.content_eq, List.append_assoc]
  lines_clean := hcut.lines_clean
  rest_clean hsep := by
    rcases List.mem_append.mp hsep with hrest | hin
    · exact hcut.rest_clean hrest
    · exact htext hin

/-- Writing the separator ends the open rest. -/
theorem Cut.endLine (hcut : Cut sep content lines rest) :
    Cut sep (content ++ [sep]) (lines ++ [rest]) [] where
  content_eq := by rw [hcut.content_eq, unlines_concat, List.append_nil]
  lines_clean line hline := by
    rcases List.mem_append.mp hline with hold | hnew
    · exact hcut.lines_clean line hold
    · rw [List.mem_singleton.mp hnew]
      exact hcut.rest_clean
  rest_clean := List.not_mem_nil

/-- The first line of a content ends at the first separator. -/
theorem first_line_inj {line line' later later' : List α} (hline : sep ∉ line)
    (hline' : sep ∉ line') (heq : line ++ sep :: later = line' ++ sep :: later') :
    line = line' ∧ later = later' := by
  rcases List.append_eq_append_iff.mp heq with ⟨more, rfl, htail⟩ | ⟨more, rfl, htail⟩
  · cases more with
    | nil => exact ⟨(List.append_nil line).symm, (List.cons.inj htail).2⟩
    | cons a more =>
        cases (List.cons.inj htail).1
        exact absurd (by simp) hline'
  · cases more with
    | nil => exact ⟨List.append_nil line', (List.cons.inj htail).2.symm⟩
    | cons a more =>
        cases (List.cons.inj htail).1
        exact absurd (by simp) hline

/-- Lines without the separator are found again in front of a rest without it. -/
theorem unlines_append_inj {lines lines' : List (List α)} {rest rest' : List α}
    (hlines : ∀ line ∈ lines, sep ∉ line) (hlines' : ∀ line ∈ lines', sep ∉ line)
    (hrest : sep ∉ rest) (hrest' : sep ∉ rest')
    (heq : unlines sep lines ++ rest = unlines sep lines' ++ rest') :
    lines = lines' ∧ rest = rest' := by
  induction lines generalizing lines' with
  | nil =>
      cases lines' with
      | nil => exact ⟨rfl, heq⟩
      | cons line' later' =>
          rw [unlines_nil, List.nil_append, unlines_cons] at heq
          exact absurd (by rw [heq]; simp) hrest
  | cons line later ih =>
      cases lines' with
      | nil =>
          rw [unlines_nil, List.nil_append, unlines_cons] at heq
          exact absurd (by rw [← heq]; simp) hrest'
      | cons line' later' =>
          rw [unlines_cons, unlines_cons, List.append_assoc, List.append_assoc,
            List.cons_append, List.cons_append] at heq
          obtain ⟨rfl, htail⟩ := first_line_inj (hlines line List.mem_cons_self)
            (hlines' line' List.mem_cons_self) heq
          obtain ⟨rfl, rfl⟩ := ih (fun l hl => hlines l (List.mem_cons_of_mem _ hl))
            (fun l hl => hlines' l (List.mem_cons_of_mem _ hl)) htail
          exact ⟨rfl, rfl⟩

/-- A content is cut in one way only. -/
theorem Cut.unique {lines' : List (List α)} {rest' : List α}
    (hcut : Cut sep content lines rest) (hcut' : Cut sep content lines' rest') :
    lines = lines' ∧ rest = rest' :=
  unlines_append_inj hcut.lines_clean hcut'.lines_clean hcut.rest_clean hcut'.rest_clean
    (hcut.content_eq.symm.trans hcut'.content_eq)

/-- In how many lines, the open one among them, something is written. -/
def filled (lines : List (List α)) (rest : List α) : Nat :=
  lines.countP (fun line => !line.isEmpty) + if rest.isEmpty then 0 else 1

theorem filled_write (lines : List (List α)) (rest text : List α) :
    filled lines (rest ++ text) ≤ filled lines rest + 1 := by
  unfold filled
  split <;> omega

theorem filled_endLine (lines : List (List α)) (rest : List α) :
    filled (lines ++ [rest]) [] = filled lines rest := by
  cases rest <;> simp [filled, List.countP_append]

theorem filled_le (lines : List (List α)) (rest : List α) :
    filled lines rest ≤ lines.length + 1 := by
  have hle : lines.countP (fun line => !line.isEmpty) ≤ lines.length :=
    List.countP_le_length
  unfold filled
  split <;> omega

/-- If something is written in every line, they are all counted. -/
theorem filled_of_nonempty {lines : List (List α)} (hlines : ∀ line ∈ lines, line ≠ []) :
    filled lines [] = lines.length := by
  refine List.countP_eq_length.mpr fun line hline => ?_
  simpa using hlines line hline

end Lines
