/-
A log whose records carry strictly increasing positions, read through cursors:
what lies below a cursor, what a reader from a cursor on is given next, and the
outputs that a fold emits for what lies below.
-/
import Mathlib.Data.List.Basic
import Mathlib.Order.Basic

namespace OrderedLog

universe u v w

variable {R : Type u}

def Increasing (pos : R → Nat) (log : List R) : Prop :=
  log.Pairwise fun a b => pos a < pos b

instance (pos : R → Nat) (log : List R) : Decidable (Increasing pos log) :=
  inferInstanceAs (Decidable (log.Pairwise fun a b => pos a < pos b))

def below (pos : R → Nat) (log : List R) (p : Nat) : List R :=
  log.filter fun r => decide (pos r < p)

def fromOn (pos : R → Nat) (log : List R) (p : Nat) : List R :=
  log.filter fun r => decide (p ≤ pos r)

/-- What a reader at `p` has been given so far is the beginning of what lies
from `p` on. -/
def Segment (pos : R → Nat) (log : List R) (p : Nat) (rs : List R) : Prop :=
  rs <+: fromOn pos log p

instance [DecidableEq R] (pos : R → Nat) (log : List R) (p : Nat) (rs : List R) :
    Decidable (Segment pos log p rs) :=
  inferInstanceAs (Decidable (rs <+: fromOn pos log p))

variable {pos : R → Nat} {log : List R}

theorem below_congr {p q : Nat} (hgap : ∀ r ∈ log, pos r < p ↔ pos r < q) :
    below pos log p = below pos log q := by
  apply List.filter_congr
  intro r hr
  simp only [decide_eq_decide]
  exact hgap r hr

theorem fromOn_congr {p q : Nat} (hgap : ∀ r ∈ log, pos r < p ↔ pos r < q) :
    fromOn pos log p = fromOn pos log q := by
  apply List.filter_congr
  intro r hr
  have := hgap r hr
  simp only [decide_eq_decide]
  omega

theorem below_zero : below pos log 0 = [] := by
  apply List.filter_eq_nil_iff.mpr
  intro r _
  simp

/-- What lies below a cursor comes before what lies from it on. -/
theorem below_append_fromOn (hlog : Increasing pos log) (p : Nat) :
    below pos log p ++ fromOn pos log p = log := by
  induction log with
  | nil => rfl
  | cons head rest ih =>
      rw [Increasing, List.pairwise_cons] at hlog
      by_cases hhead : pos head < p
      · have hbelow : below pos (head :: rest) p = head :: below pos rest p := by
          simp [below, hhead]
        have hfrom : fromOn pos (head :: rest) p = fromOn pos rest p := by
          simp [fromOn, hhead]
        rw [hbelow, hfrom, List.cons_append, ih hlog.2]
      · have hge := Nat.not_lt.mp hhead
        have hnone : below pos (head :: rest) p = [] := by
          apply List.filter_eq_nil_iff.mpr
          intro a ha
          rcases List.mem_cons.mp ha with rfl | hrest
          · simpa using hge
          · have := hlog.1 a hrest
            simp only [decide_eq_true_eq]
            omega
        have hall : fromOn pos (head :: rest) p = head :: rest := by
          apply List.filter_eq_self.mpr
          intro a ha
          rcases List.mem_cons.mp ha with rfl | hrest
          · simpa using hge
          · have := hlog.1 a hrest
            simp only [decide_eq_true_eq]
            omega
        rw [hnone, hall, List.nil_append]

/-- What a cursor has moved over lies from its start on. -/
theorem fromOn_below (hlog : Increasing pos log) {p q : Nat} {rs : List R}
    (hmoved : below pos log q = below pos log p ++ rs) :
    fromOn pos (below pos log q) p = rs := by
  have hincreasing : Increasing pos (below pos log p ++ rs) :=
    hmoved ▸ hlog.sublist List.filter_sublist
  have hfirst : fromOn pos (below pos log p) p = [] := by
    apply List.filter_eq_nil_iff.mpr
    intro a ha
    have := (List.mem_filter.mp ha).2
    simp only [decide_eq_true_eq] at this ⊢
    omega
  have hrest : fromOn pos rs p = rs := by
    apply List.filter_eq_self.mpr
    intro r hr
    by_contra hbehind
    have hlt : pos r < p := by simpa using hbehind
    have hmem : r ∈ log := by
      have : r ∈ below pos log q := hmoved ▸ List.mem_append_right _ hr
      exact (List.mem_filter.mp this).1
    have hbelow : r ∈ below pos log p := List.mem_filter.mpr ⟨hmem, by simpa using hlt⟩
    exact Nat.lt_irrefl _ ((List.pairwise_append.mp hincreasing).2.2 r hbelow r hr)
  rw [hmoved, fromOn, List.filter_append]
  exact (congrArg₂ (· ++ ·) hfirst hrest)

/-- A record of the log is the last one below the cursor just past it. -/
theorem below_succ (hlog : Increasing pos log) {r : R} (hr : r ∈ log) :
    below pos log (pos r + 1) = below pos log (pos r) ++ [r] := by
  induction log with
  | nil => cases hr
  | cons head rest ih =>
      rw [Increasing, List.pairwise_cons] at hlog
      rcases List.mem_cons.mp hr with rfl | hrest
      · have hnone : ∀ a ∈ rest, ¬ pos a < pos r + 1 := by
          intro a ha
          have := hlog.1 a ha
          omega
        have hnone' : ∀ a ∈ rest, ¬ pos a < pos r := by
          intro a ha
          have := hlog.1 a ha
          omega
        simp only [below, List.filter_cons, Nat.lt_succ_self, decide_true, ↓reduceIte,
          Nat.lt_irrefl, decide_false, Bool.false_eq_true]
        rw [List.filter_eq_nil_iff.mpr (by simpa using hnone),
          List.filter_eq_nil_iff.mpr (by simpa using hnone')]
        rfl
      · have hhead := hlog.1 r hrest
        have hrec := ih hlog.2 hrest
        unfold below at hrec ⊢
        rw [List.filter_cons_of_pos (by simp; omega),
          List.filter_cons_of_pos (by simpa using hhead), hrec]
        rfl

/-- The next record of a segment: it is in the log, nothing lies between the
cursor and it, and the rest is a segment from just past it. -/
theorem Segment.next (hlog : Increasing pos log) {p : Nat} {r : R} {rs : List R}
    (hseg : Segment pos log p (r :: rs)) :
    r ∈ log ∧ p ≤ pos r ∧ (∀ a ∈ log, p ≤ pos a → pos r ≤ pos a) ∧
      Segment pos log (pos r + 1) rs := by
  induction log with
  | nil =>
      obtain ⟨added, hadded⟩ := hseg
      simp [fromOn] at hadded
  | cons head rest ih =>
      rw [Increasing, List.pairwise_cons] at hlog
      by_cases hhead : p ≤ pos head
      · have hfrom : fromOn pos (head :: rest) p = head :: fromOn pos rest p := by
          simp [fromOn, hhead]
        rw [Segment, hfrom, List.cons_prefix_cons] at hseg
        obtain ⟨rfl, hrest⟩ := hseg
        refine ⟨List.mem_cons_self, hhead, ?_, ?_⟩
        · intro a ha _
          rcases List.mem_cons.mp ha with rfl | ha
          · exact Nat.le_refl _
          · exact Nat.le_of_lt (hlog.1 a ha)
        · have hskip : fromOn pos (r :: rest) (pos r + 1) = fromOn pos rest p := by
            have hall : ∀ a ∈ rest, (pos a < pos r + 1 ↔ pos a < p) := by
              intro a ha
              have := hlog.1 a ha
              omega
            rw [← fromOn_congr hall]
            simp [fromOn]
          rw [Segment, hskip]
          exact hrest
      · have hfrom : fromOn pos (head :: rest) p = fromOn pos rest p := by
          simp [fromOn, hhead]
        rw [Segment, hfrom] at hseg
        obtain ⟨hmem, hle, hfirst, hsegment⟩ := ih hlog.2 hseg
        refine ⟨List.mem_cons_of_mem _ hmem, hle, ?_, ?_⟩
        · intro a ha hpa
          rcases List.mem_cons.mp ha with rfl | ha
          · exact absurd hpa hhead
          · exact hfirst a ha hpa
        · have hskip : fromOn pos (head :: rest) (pos r + 1) =
              fromOn pos rest (pos r + 1) := by
            have := hlog.1 r hmem
            simp only [fromOn, List.filter_cons]
            rw [if_neg (by simp; omega)]
          rw [Segment, hskip]
          exact hsegment

/-- A cursor that is not behind the reader may move past the next record
without missing any. -/
theorem Segment.below_next (hlog : Increasing pos log) {p q : Nat} {r : R}
    {rs : List R} (hseg : Segment pos log p (r :: rs)) (hp : p ≤ q) (hq : q ≤ pos r) :
    below pos log (pos r + 1) = below pos log q ++ [r] := by
  obtain ⟨hr, -, hfirst, -⟩ := hseg.next hlog
  rw [below_succ hlog hr]
  congr 1
  apply below_congr
  intro a ha
  constructor
  · intro hlt
    by_contra hge
    have := hfirst a ha (by omega)
    omega
  · intro hlt
    omega

/-- The outputs that folding the records emits, each step from the state
reached so far. -/
def outputs {S : Type v} {O : Type w} (next : S → R → S) (emit : S → R → List O) :
    S → List R → List O
  | _, [] => []
  | s, r :: rs => emit s r ++ outputs next emit (next s r) rs

theorem outputs_append {S : Type v} {O : Type w} {next : S → R → S}
    {emit : S → R → List O} (s : S) (older newer : List R) :
    outputs next emit s (older ++ newer) =
      outputs next emit s older ++ outputs next emit (older.foldl next s) newer := by
  induction older generalizing s with
  | nil => rfl
  | cons r rs ih => simp [outputs, ih, List.append_assoc]

end OrderedLog
