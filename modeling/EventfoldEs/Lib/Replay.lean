/-
Replaying stored records onto a state.  A record that does not decode is
skipped, so a replay is the fold of the decodable records only.
-/
import Mathlib.Data.List.Basic

namespace Replay

universe u v w

variable {S : Type u} {E : Type v} {R : Type w}

/-- Apply one record if it decodes. -/
def absorb (decode : R → Option E) (apply : S → E → S) (s : S) (r : R) : S :=
  match decode r with
  | some e => apply s e
  | none => s

/-- Apply the records in order, from the state `s`. -/
def replay (decode : R → Option E) (apply : S → E → S) (s : S) (rs : List R) : S :=
  rs.foldl (absorb decode apply) s

variable {decode : R → Option E} {apply : S → E → S}

theorem absorb_of_decodes {r : R} {e : E} (hdecode : decode r = some e) (s : S) :
    absorb decode apply s r = apply s e := by
  simp [absorb, hdecode]

theorem absorb_of_undecodable {r : R} (hdecode : decode r = none) (s : S) :
    absorb decode apply s r = s := by
  simp [absorb, hdecode]

@[simp] theorem replay_nil (s : S) : replay decode apply s [] = s := rfl

@[simp] theorem replay_cons (s : S) (r : R) (rs : List R) :
    replay decode apply s (r :: rs) =
      replay decode apply (absorb decode apply s r) rs := rfl

/-- A replay can be resumed from the state that an earlier one has left. -/
theorem replay_append (s : S) (older newer : List R) :
    replay decode apply s (older ++ newer) =
      replay decode apply (replay decode apply s older) newer := by
  simp [replay, List.foldl_append]

theorem replay_concat (s : S) (older : List R) (r : R) :
    replay decode apply s (older ++ [r]) =
      absorb decode apply (replay decode apply s older) r := by
  simp [replay_append]

/-- A replay is the fold of the decodable records, in order. -/
theorem replay_eq_foldl_filterMap (s : S) (rs : List R) :
    replay decode apply s rs = (rs.filterMap decode).foldl apply s := by
  induction rs generalizing s with
  | nil => rfl
  | cons r rs ih =>
      cases hdecode : decode r with
      | none => simp [ih, hdecode, absorb_of_undecodable]
      | some e => simp [ih, hdecode, absorb_of_decodes hdecode]

end Replay
