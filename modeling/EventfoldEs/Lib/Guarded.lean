/-
Futures over a table of fair mutexes, each of which guards a part of a shared
state: what a future holds stays as it has left it until it goes on itself.
-/
import EventfoldEs.Lib.LockDiscipline

namespace Async

universe u v w x y z

/-- A state in parts, one for each mutex; with how it may change at all, and what
is known of it at any time. -/
structure Guards (K : Type y) (σ : Type z) where
  same : K → σ → σ → Prop
  grows : σ → σ → Prop
  known : σ → Prop
  same_refl : ∀ k s, same k s s
  same_trans : ∀ {k s t v}, same k s t → same k t v → same k s v
  grows_refl : ∀ s, grows s s
  grows_trans : ∀ {s t v}, grows s t → grows t v → grows s v

namespace Guards

variable {K : Type y} {σ : Type z} {ω : Type z}
variable {L : Type u} {Op : Type v} {Res : Op → Type w} {α : Type x}

/-- The terms of a future whose state shows which mutex it holds: others leave the
part of that one alone; the future leaves alone all other parts, and performs an
operation only where `pre` holds. -/
def terms (guards : Guards K σ) (L : Type u) (use : Op → LockUse K) (pre : Op → σ → Prop)
    (serves : (op : Op) → σ → Res op → σ → Prop) : Terms L Op Res (σ × Option K) where
  rely s t := t.2 = s.2 ∧ (∀ k, s.2 = some k → guards.same k s.1 t.1) ∧
    guards.grows s.1 t.1 ∧ guards.known t.1
  serves op s r t := t.2 = (use op).heldAfter s.2 ∧ serves op s.1 r t.1
  guarantee op _ s t := pre op s.1 ∧ (∀ k, s.2 ≠ some k → guards.same k s.1 t.1) ∧
    guards.grows s.1 t.1
  during _ _ := True
  rely_trans hst htv := by
    refine ⟨htv.1.trans hst.1, fun k hk => ?_, guards.grows_trans hst.2.2.1 htv.2.2.1,
      htv.2.2.2⟩
    exact guards.same_trans (hst.2.1 k hk) (htv.2.1 k (hst.1.trans hk))
  during_stable _ _ := trivial

variable (guards : Guards K σ) (use : Op → LockUse K) (pre : Op → σ → Prop)
  (serves : (op : Op) → σ → Res op → σ → Prop)

/-- Futures that run over one table, each on the terms of what it holds. -/
structure Together (Q : ω → α → σ × Option K → Prop) (locks : K → FairMutex ω)
    (tasks : ω → Option (Future L Op Res α)) (s : σ) : Prop where
  fair : ∀ k, (locks k).Fair
  idle : ∀ a, tasks a = none → Clear locks a
  stands : ∀ a fut, tasks a = some fut → ∃ held, Stands use locks a fut held ∧
    fut.Safe (guards.terms L use pre serves) (Q a) (s, held)

/-- What a future ends in outlives what others do. -/
def Stable (L : Type u) (Q : ω → α → σ × Option K → Prop) : Prop :=
  ∀ a v s t, Q a v s → (guards.terms L use pre serves).rely s t → Q a v t

variable {guards use pre serves}
variable {Q : ω → α → σ × Option K → Prop} {locks locks' : K → FairMutex ω}
variable {tasks tasks' : ω → Option (Future L Op Res α)} {s t : σ}

/-- What the others find after the part of none of them has changed. -/
theorem rely_of_same {held : Option K} (hsame : ∀ k, held = some k → guards.same k s t)
    (hgrows : guards.grows s t) (hknown : guards.known t) :
    (guards.terms L use pre serves).rely (s, held) (t, held) :=
  ⟨rfl, hsame, hgrows, hknown⟩

variable [DecidableEq K] [DecidableEq ω]

/-- A poll that does not go through. -/
theorem Together.pending (htogether : guards.Together use pre serves Q locks tasks s) {a : ω}
    {l : L} {op : Op} {resume : Res op → Future L Op Res α}
    (htask : tasks a = some (.await l op resume))
    (hpending : ((use op).poll a locks).1 = false) :
    guards.Together use pre serves Q ((use op).poll a locks).2 tasks s := by
  obtain ⟨hfair, hidle, hstands⟩ := htogether
  obtain ⟨held, hstand, hsafe⟩ := hstands a _ htask
  have hmoves := onlyMoves_poll hfair fun k hk => hstand.owns_released k hk
  refine ⟨fair_poll hfair a _, fun b hb => hmoves.clear ?_ (hidle b hb), fun b fut hb => ?_⟩
  · rintro rfl
    rw [htask] at hb
    cases hb
  · by_cases hba : b = a
    · subst hba
      obtain rfl := Option.some.inj (htask.symm.trans hb)
      exact ⟨held, hstand.poll_pending hpending, hsafe⟩
    · obtain ⟨heldB, hstandB, hsafeB⟩ := hstands b fut hb
      exact ⟨heldB, hstandB.of_onlyMoves hmoves hba, hsafeB⟩

/-- A poll that goes through finds what its operation asks for, and changes no part but
that of a mutex which the polled future owns. -/
theorem Together.served (htogether : guards.Together use pre serves Q locks tasks s)
    (hstable : guards.Stable use pre serves L Q) {a : ω} {l : L} {op : Op}
    {resume : Res op → Future L Op Res α} (htask : tasks a = some (.await l op resume))
    (hgranted : ((use op).poll a locks).1 = true) {r : Res op} (hserve : serves op s r t)
    (hs : guards.known s) (ht : guards.grows s t → guards.known t) :
    pre op s ∧ guards.grows s t ∧ (∀ k, (locks k).owner ≠ some a → guards.same k s t) ∧
      guards.Together use pre serves Q ((use op).poll a locks).2
        (Function.update tasks a (some (resume r))) t := by
  obtain ⟨hfair, hidle, hstands⟩ := htogether
  obtain ⟨held, hstand, hsafe⟩ := hstands a _ htask
  have hmoves := onlyMoves_poll hfair fun k hk => hstand.owns_released k hk
  have hrely : (guards.terms L use pre serves).rely (s, held) (s, held) :=
    rely_of_same (fun k _ => guards.same_refl k s) (guards.grows_refl s) hs
  have hserves : (guards.terms L use pre serves).serves op (s, held) r
      (t, (use op).heldAfter held) := ⟨rfl, hserve⟩
  obtain ⟨⟨hpre, hsame, hgrows⟩, hrest⟩ := hsafe.served hrely hserves
  have hothers : ∀ k, (locks k).owner ≠ some a → guards.same k s t :=
    fun k hk => hsame k fun hheld => hk (hstand.owns k hheld)
  refine ⟨hpre, hgrows, hothers, fair_poll hfair a _, fun b hb => ?_, fun b fut hb => ?_⟩
  · by_cases hba : b = a
    · subst hba
      rw [Function.update_self] at hb
      cases hb
    · rw [Function.update_of_ne hba] at hb
      exact hmoves.clear hba (hidle b hb)
  · by_cases hba : b = a
    · subst hba
      rw [Function.update_self] at hb
      cases hb
      exact ⟨_, hstand.poll_granted hfair hgranted r, hrest⟩
    · rw [Function.update_of_ne hba] at hb
      obtain ⟨heldB, hstandB, hsafeB⟩ := hstands b fut hb
      refine ⟨heldB, hstandB.of_onlyMoves hmoves hba,
        hsafeB.stable (hstable b) (rely_of_same (fun k hk => ?_) hgrows (ht hgrows))⟩
      -- the part that `b` holds is not one that `a` owns
      refine hothers k fun howner => hba ?_
      exact Option.some.inj ((hstandB.owns k hk).symm.trans howner)

/-- What becomes of the future of `a` in a step that polls none. -/
inductive Moved (guards : Guards K σ) (use : Op → LockUse K) (pre : Op → σ → Prop)
    (serves : (op : Op) → σ → Res op → σ → Prop) (Q : ω → α → σ × Option K → Prop)
    (locks locks' : K → FairMutex ω) (tasks tasks' : ω → Option (Future L Op Res α)) (t : σ)
    (a : ω) : Prop
  | same (hsame : tasks' a = tasks a)
  | ended {v : α} (hready : tasks a = some (.ready v)) (hgone : tasks' a = none)
  | started {fut : Future L Op Res α} (hnone : tasks a = none) (htask : tasks' a = some fut)
      (hdisciplined : fut.Disciplined use none none)
      (hsafe : fut.Safe (guards.terms L use pre serves) (Q a) (t, none))
  | dropped (hgone : tasks' a = none) (hlocks : locks' = fun k => (locks k).cancel a)

omit [DecidableEq K] in
/-- Futures come and go, and no part of the state changes. -/
theorem Together.moved (htogether : guards.Together use pre serves Q locks tasks s)
    (hstable : guards.Stable use pre serves L Q) (hsame : ∀ k, guards.same k s t)
    (hgrows : guards.grows s t) (hknown : guards.known t)
    (hlocks : locks' = locks ∨ ∃ b, locks' = (fun k => (locks k).cancel b) ∧ tasks' b = none)
    (hmoved : ∀ a, Moved guards use pre serves Q locks locks' tasks tasks' t a) :
    guards.Together use pre serves Q locks' tasks' t := by
  obtain ⟨hfair, hidle, hstands⟩ := htogether
  have hclear : ∀ a, Clear locks a → Clear locks' a := by
    intro a ha
    rcases hlocks with rfl | ⟨b, rfl, -⟩
    · exact ha
    · by_cases hab : a = b
      · exact hab ▸ clear_cancel hfair b
      · exact (onlyMoves_cancel hfair b).clear hab ha
  refine ⟨fun k => ?_, fun a ha => ?_, fun a fut ha => ?_⟩
  · rcases hlocks with rfl | ⟨b, rfl, -⟩
    · exact hfair k
    · exact (hfair k).cancel b
  · cases hmoved a with
    | same htasks => exact hclear a (hidle a (htasks ▸ ha))
    | ended hready _ =>
        obtain ⟨held, hstand, -⟩ := hstands a _ hready
        exact hclear a hstand.clear_of_ready
    | started _ htask _ _ =>
        rw [htask] at ha
        cases ha
    | dropped _ hcancel => exact hcancel ▸ clear_cancel hfair a
  · have hgone : tasks' a = none → ∃ held, Stands use locks' a fut held ∧
        fut.Safe (guards.terms L use pre serves) (Q a) (t, held) := by
      intro hnone
      rw [hnone] at ha
      cases ha
    cases hmoved a with
    | same htasks =>
        obtain ⟨held, hstand, hsafe⟩ := hstands a fut (htasks ▸ ha)
        refine ⟨held, ?_, hsafe.stable (hstable a)
          (rely_of_same (fun k _ => hsame k) hgrows hknown)⟩
        rcases hlocks with rfl | ⟨b, rfl, hb⟩
        · exact hstand
        · refine hstand.of_onlyMoves (onlyMoves_cancel hfair b) ?_
          rintro rfl
          rw [hb] at ha
          cases ha
    | ended _ hnone => exact hgone hnone
    | started hnone htask hdisciplined hsafe =>
        obtain rfl := Option.some.inj (htask.symm.trans ha)
        exact ⟨none, .of_clear hdisciplined (hclear a (hidle a hnone)), hsafe⟩
    | dropped hnone _ => exact hgone hnone

omit [DecidableEq K] [DecidableEq ω] in
/-- Nobody runs, and every mutex is free. -/
theorem together_free (hlocks : ∀ k, locks k = .free) (htasks : ∀ a, tasks a = none) :
    guards.Together use pre serves Q locks tasks s := by
  refine ⟨fun k => ?_, fun a _ k => ?_, fun a fut ha => ?_⟩
  · rw [hlocks k]
    exact FairMutex.fair_free
  · rw [hlocks k]
    exact FairMutex.not_involves_free a
  · rw [htasks a] at ha
    cases ha

end Guards

end Async
