/-
Infinite runs of a transition function, and what has to happen in them: a rank that no
step raises and that goes down again and again leads to its goal.
-/
import EventfoldEs.Lib.Run
import Mathlib.Order.WellFounded

namespace Async

universe u v w

variable {S : Type u} {A : Type v}

/-- A guarded run without an end; now and then nothing may happen. -/
structure Trace (step : S → A → Option S) (ok : S → A → Prop) (start : S) where
  state : Nat → S
  action : Nat → Option A
  first : state 0 = start
  rests : ∀ t, action t = none → state (t + 1) = state t
  steps : ∀ t a, action t = some a → ok (state t) a ∧
    step (state t) a = some (state (t + 1))

namespace Trace

variable {step : S → A → Option S} {ok : S → A → Prop} {start : S}

theorem reaches (run : Trace step ok start) (t : Nat) :
    Reaches step ok start (run.state t) := by
  induction t with
  | zero =>
      rw [run.first]
      exact .start
  | succ t ih =>
      cases haction : run.action t with
      | none =>
          rw [run.rests t haction]
          exact ih
      | some a => exact .next ih (run.steps t a haction).1 (run.steps t a haction).2

/-- Until `Q` comes about, `P` stays and the rank is never raised; and again and again
a step brings `Q` about or lowers the rank. -/
theorem leads_of_rank (run : Trace step ok start) {α : Type w} {r : α → α → Prop}
    (hwf : WellFounded r) {P Q : S → Prop} (rank : S → α)
    (hkeep : ∀ t, P (run.state t) → Q (run.state (t + 1)) ∨
      P (run.state (t + 1)) ∧ (rank (run.state (t + 1)) = rank (run.state t) ∨
        r (rank (run.state (t + 1))) (rank (run.state t))))
    (hfair : ∀ t, P (run.state t) → ∃ t', t ≤ t' ∧ (P (run.state t') →
      Q (run.state (t' + 1)) ∨ r (rank (run.state (t' + 1))) (rank (run.state t'))))
    {t : Nat} (ht : P (run.state t)) : ∃ t', t ≤ t' ∧ Q (run.state t') := by
  generalize hx : rank (run.state t) = x
  induction x using hwf.induction generalizing t with
  | _ x ih =>
      subst hx
      -- either `Q` has come about, or the rank is still the same
      have hwalk : ∀ k, (∃ t', t ≤ t' ∧ Q (run.state t')) ∨
          P (run.state (t + k)) ∧ rank (run.state (t + k)) = rank (run.state t) := by
        intro k
        induction k with
        | zero => exact Or.inr ⟨ht, rfl⟩
        | succ k ihk =>
            rcases ihk with hdone | ⟨hP, hsame⟩
            · exact Or.inl hdone
            · rcases hkeep (t + k) hP with hQ | ⟨hP', heq | hless⟩
              · exact Or.inl ⟨t + k + 1, by omega, hQ⟩
              · exact Or.inr ⟨hP', heq.trans hsame⟩
              · obtain ⟨t', hle, hQ⟩ := ih _ (hsame ▸ hless) hP' rfl
                exact Or.inl ⟨t', by omega, hQ⟩
      obtain ⟨t', hle, hstep⟩ := hfair t ht
      obtain ⟨k, rfl⟩ := Nat.exists_eq_add_of_le hle
      rcases hwalk k with hdone | ⟨hP, hsame⟩
      · exact hdone
      · rcases hstep hP with hQ | hless
        · exact ⟨t + k + 1, by omega, hQ⟩
        · rcases hkeep (t + k) hP with hQ | ⟨hP', -⟩
          · exact ⟨t + k + 1, by omega, hQ⟩
          · obtain ⟨t', hle', hQ⟩ := ih _ (hsame ▸ hless) hP' rfl
            exact ⟨t', by omega, hQ⟩

/-- A run in which nothing ever happens. -/
def resting (step : S → A → Option S) (ok : S → A → Prop) (start : S) :
    Trace step ok start where
  state _ := start
  action _ := none
  first := rfl
  rests _ _ := rfl
  steps _ _ haction := by cases haction

/-- One step before a run. -/
def cons {s : S} {a : A} (hok : ok start a) (hstep : step start a = some s)
    (run : Trace step ok s) : Trace step ok start where
  state
    | 0 => start
    | t + 1 => run.state t
  action
    | 0 => some a
    | t + 1 => run.action t
  first := rfl
  rests t haction := by
    cases t with
    | zero => cases haction
    | succ t => exact run.rests t haction
  steps t b haction := by
    cases t with
    | zero =>
        cases haction
        refine ⟨hok, ?_⟩
        change step start a = some (run.state 0)
        rw [run.first]
        exact hstep
    | succ t => exact run.steps t b haction

/-- A finite run, after which nothing happens any more. -/
theorem exists_of_actions (acts : List A) (hok : AllOk step ok start acts) {s : S}
    (hrun : runActions step start acts = some s) :
    ∃ run : Trace step ok start, (∀ t, run.action t = acts[t]?) ∧
      ∀ t, runActions step start (acts.take t) = some (run.state t) := by
  induction acts generalizing start with
  | nil => exact ⟨resting step ok start, fun _ => rfl, fun t => by rw [List.take_nil]; rfl⟩
  | cons a rest ih =>
      simp only [runActions, Option.bind_eq_some_iff] at hrun
      obtain ⟨mid, hmid, hrest⟩ := hrun
      obtain ⟨hoka, hokrest⟩ := hok
      obtain ⟨run, haction, hstate⟩ := ih (hokrest mid hmid) hrest
      refine ⟨cons hoka hmid run, fun t => ?_, fun t => ?_⟩
      · cases t with
        | zero => rfl
        | succ t => exact haction t
      · cases t with
        | zero => rfl
        | succ t =>
            rw [List.take_succ_cons, runActions, hmid, Option.bind_some]
            exact hstate t

end Trace

end Async
