/-
Runs of an executable transition function.  A run may be guarded: every step
it takes has to meet a predicate on the state before the step and the action.
-/
import Mathlib.Data.List.Basic
import Mathlib.Logic.Function.Basic

namespace Async

universe u v w

variable {S : Type u} {A : Type v}

/-- The states reached from `start` when every step taken meets `ok`. -/
inductive Reaches (step : S → A → Option S) (ok : S → A → Prop) (start : S) :
    S → Prop
  | start : Reaches step ok start start
  | next {s s' : S} {a : A} (prior : Reaches step ok start s) (hok : ok s a)
      (hstep : step s a = some s') : Reaches step ok start s'

variable {step : S → A → Option S} {ok : S → A → Prop} {start : S}

/-- An invariant that the start meets and every guarded step keeps holds in
every state reached. -/
theorem Reaches.invariant {Inv : S → Prop} (hstart : Inv start)
    (hkeep : ∀ s a s', Inv s → ok s a → step s a = some s' → Inv s')
    {s : S} (hreach : Reaches step ok start s) : Inv s := by
  induction hreach with
  | start => exact hstart
  | next _ hok hstep ih => exact hkeep _ _ _ ih hok hstep

theorem Reaches.mono {ok' : S → A → Prop} (hle : ∀ s a, ok s a → ok' s a)
    {s : S} (hreach : Reaches step ok start s) : Reaches step ok' start s := by
  induction hreach with
  | start => exact .start
  | next _ hok hstep ih => exact .next ih (hle _ _ hok) hstep

theorem Reaches.trans {mid s : S} (hearlier : Reaches step ok start mid)
    (hlater : Reaches step ok mid s) : Reaches step ok start s := by
  induction hlater with
  | start => exact hearlier
  | next _ hok hstep ih => exact .next ih hok hstep

/-- Take the actions one after the other; `none` as soon as one is refused. -/
def runActions (step : S → A → Option S) : S → List A → Option S
  | s, [] => some s
  | s, a :: rest => (step s a).bind fun s' => runActions step s' rest

/-- Every action of the list meets the guard in the state it is taken in. -/
def AllOk (step : S → A → Option S) (ok : S → A → Prop) : S → List A → Prop
  | _, [] => True
  | s, a :: rest => ok s a ∧ ∀ s' ∈ step s a, AllOk step ok s' rest

theorem Reaches.run {s s' : S} (hreach : Reaches step ok start s)
    (acts : List A) (hok : AllOk step ok s acts)
    (hrun : runActions step s acts = some s') : Reaches step ok start s' := by
  induction acts generalizing s with
  | nil =>
      simp only [runActions, Option.some.injEq] at hrun
      exact hrun ▸ hreach
  | cons a rest ih =>
      simp only [runActions, Option.bind_eq_some_iff] at hrun
      obtain ⟨mid, hmid, hrest⟩ := hrun
      exact ih (.next hreach hok.1 hmid) (hok.2 mid hmid) hrest

theorem allOk_cons {s s' : S} {a : A} {rest : List A} (hok : ok s a)
    (hstep : step s a = some s') (hrest : AllOk step ok s' rest) :
    AllOk step ok s (a :: rest) := by
  refine ⟨hok, fun t ht => ?_⟩
  obtain rfl := Option.some.inj (hstep.symm.trans ht)
  exact hrest

theorem AllOk.and {ok' : S → A → Prop} {s : S} {acts : List A}
    (hok : AllOk step ok s acts) (hok' : AllOk step ok' s acts) :
    AllOk step (fun s a => ok s a ∧ ok' s a) s acts := by
  induction acts generalizing s with
  | nil => trivial
  | cons a rest ih => exact ⟨⟨hok.1, hok'.1⟩, fun t ht => ih (hok.2 t ht) (hok'.2 t ht)⟩

theorem runActions_keeps {I : S → Prop}
    (hkeep : ∀ s a s', I s → step s a = some s' → I s') {s s' : S} {acts : List A}
    (hs : I s) (hrun : runActions step s acts = some s') : I s' := by
  induction acts generalizing s with
  | nil =>
      cases hrun
      exact hs
  | cons a rest ih =>
      obtain ⟨mid, hmid, hrest⟩ := Option.bind_eq_some_iff.mp hrun
      exact ih (hkeep s a mid hs hmid) hrest

/-- A run that meets the guard all along keeps `Good`; one that leaves it somewhere ends
in `Bad`. -/
theorem runActions_cases {Good Bad : S → Prop}
    (hkeep : ∀ s a s', Good s → ok s a → step s a = some s' → Good s')
    (hleave : ∀ s a s', Good s → ¬ ok s a → step s a = some s' → Bad s')
    (hstay : ∀ s a s', Bad s → step s a = some s' → Bad s') {s s' : S} {acts : List A}
    (hs : Good s) (hrun : runActions step s acts = some s') :
    (AllOk step ok s acts ∧ Good s') ∨ (¬ AllOk step ok s acts ∧ Bad s') := by
  induction acts generalizing s with
  | nil =>
      cases hrun
      exact Or.inl ⟨trivial, hs⟩
  | cons a rest ih =>
      obtain ⟨mid, hmid, hrest⟩ := Option.bind_eq_some_iff.mp hrun
      by_cases hok : ok s a
      · rcases ih (hkeep s a mid hs hok hmid) hrest with ⟨hall, hgood⟩ | ⟨hnot, hbad⟩
        · exact Or.inl ⟨allOk_cons hok hmid hall, hgood⟩
        · exact Or.inr ⟨fun hall => hnot (hall.2 mid hmid), hbad⟩
      · exact Or.inr ⟨fun hall => hok hall.1,
          runActions_keeps hstay (hleave s a mid hs hok hmid) hrest⟩

/-- A guard is evaluated along the run of an action list. -/
def checks (step : S → A → Option S) (check : S → A → Bool) : S → List A → Bool
  | _, [] => true
  | s, a :: rest => check s a && (step s a).all fun s' => checks step check s' rest

theorem allOk_of_checks {check : S → A → Bool}
    (hcheck : ∀ s a, check s a = true → ok s a) {s : S} {acts : List A}
    (hchecks : checks step check s acts = true) : AllOk step ok s acts := by
  induction acts generalizing s with
  | nil => trivial
  | cons a rest ih =>
      simp only [checks, Bool.and_eq_true, Option.all_eq_true] at hchecks
      exact ⟨hcheck s a hchecks.1, fun s' hs' => ih (hchecks.2 s' hs')⟩

/-- The actions of the list meet the guard whatever the state. -/
theorem allOk_of_mem {acts : List A} (hok : ∀ a ∈ acts, ∀ s, ok s a) (s : S) :
    AllOk step ok s acts := by
  induction acts generalizing s with
  | nil => trivial
  | cons a rest ih =>
      refine ⟨hok a (by simp) s, fun s' _ => ih (fun b hb => ?_) s'⟩
      exact hok b (List.mem_cons_of_mem _ hb)

/-- A run of a concrete action list whose guard is evaluated along it. -/
theorem Reaches.of_checks {check : S → A → Bool}
    (hcheck : ∀ s a, check s a = true → ok s a) {s : S} (acts : List A)
    (hchecks : checks step check start acts = true)
    (hrun : runActions step start acts = some s) : Reaches step ok start s :=
  Reaches.run .start acts (allOk_of_checks hcheck hchecks) hrun

/-- An unguarded run of a concrete action list. -/
theorem Reaches.of_runActions {s : S} (acts : List A)
    (hrun : runActions step start acts = some s) :
    Reaches step (fun _ _ => True) start s :=
  Reaches.run .start acts (allOk_of_mem (fun _ _ _ => trivial) start) hrun

section Notes

variable {N : Type w}

/-- The system with notes of what its steps do. -/
def notedStep (step : S → A → Option S) (note : S → A → S → N → N) (o : S × N) (a : A) :
    Option (S × N) :=
  (step o.1 a).map fun s' => (s', note o.1 a s' o.2)

theorem notedStep_cases {note : S → A → S → N → N} {o o' : S × N} {a : A}
    (hstep : notedStep step note o a = some o') :
    step o.1 a = some o'.1 ∧ o'.2 = note o.1 a o'.1 o.2 := by
  obtain ⟨s', hs', rfl⟩ := Option.map_eq_some_iff.mp hstep
  exact ⟨hs', rfl⟩

/-- A run with notes is a run. -/
theorem Reaches.of_noted {note : S → A → S → N → N} {okNoted : S × N → A → Prop}
    (hok : ∀ o a, okNoted o a → ok o.1 a) {o₀ o : S × N}
    (hreach : Reaches (notedStep step note) okNoted o₀ o) : Reaches step ok o₀.1 o.1 := by
  induction hreach with
  | start => exact .start
  | next _ hoka hstep ih => exact .next ih (hok _ _ hoka) (notedStep_cases hstep).1

end Notes

section Family

variable {κ : Type w} [DecidableEq κ] {S : κ → Type u} {A : κ → Type v}

/-- Systems next to each other: a step is a step of one of them. -/
def familyStep (step : ∀ k, S k → A k → Option (S k)) (w : ∀ k, S k) (a : Σ k, A k) :
    Option (∀ k, S k) :=
  (step a.1 (w a.1) a.2).map (Function.update w a.1)

/-- A run of the family is for each of its systems a run of that system. -/
theorem Reaches.component {step : ∀ k, S k → A k → Option (S k)}
    {ok : (∀ k, S k) → (Σ k, A k) → Prop} {k : κ} {okAt : S k → A k → Prop}
    (hok : ∀ w a, ok w ⟨k, a⟩ → okAt (w k) a) {start w : ∀ k, S k}
    (hreach : Reaches (familyStep step) ok start w) :
    Reaches (step k) okAt (start k) (w k) := by
  induction hreach with
  | start => exact .start
  | @next w w' a _ hoka hstep ih =>
      obtain ⟨j, a⟩ := a
      simp only [familyStep, Option.map_eq_some_iff] at hstep
      obtain ⟨s, hs, rfl⟩ := hstep
      by_cases hkj : k = j
      · subst hkj
        rw [Function.update_self]
        exact .next ih (hok w a hoka) hs
      · rw [Function.update_of_ne hkj]
        exact ih

end Family

end Async
