/-
What a pull sees: a call of `projection` or `run_process_managers` that succeeds has
taken in every event that the log held when the call was made.
-/
import EventfoldEs.LiveCaughtUp
import EventfoldEs.LiveOnce

namespace EventfoldEs

open Async OrderedLog LiveWorld

variable {C : Crates} {π μ κ : Type} {G : Registry π μ}
variable [DecidableEq π] [DecidableEq μ] {log seen : List RecordedEvent}

/-- A stream that is opened ends in an error or in `CaughtUp`, and before that it has
delivered what was seen. -/
def RunnerOp.DeliversSeen (seen : List RecordedEvent) :
    (op : RunnerOp π μ) → op.Res G → Prop
  | .subscribeAllFrom p, .ok items => streamStop items ≠ .ended ∧
      (streamStop items = .caughtUp → ∀ e ∈ seen, p ≤ e.globalPosition → e ∈ (passRead items).1)
  | _, _ => True

variable (C log seen) in
/-- The terms on which a call pulls: others do what they may do to the folds, that is,
cursors move on and checkpoints stay folds. -/
def pullTerms :
    Terms (List (Work μ)) (RunnerOp π μ) (RunnerOp.Res G) (StoreState G) where
  rely := (foldTerms C log).rely
  serves op s r t := op.DeliversSeen seen r ∧ ∃ answer, op.serve C answer s = some (r, t)
  guarantee _ _ s t := ∀ r, s.cursor r ≤ t.cursor r
  during _ _ := True
  rely_trans := (foldTerms C log).rely_trans
  during_stable _ _ := trivial

/-- The runner is past all the events. -/
def StoreState.Past (s : StoreState G) (r : π ⊕ μ) (events : List RecordedEvent) : Prop :=
  ∀ e ∈ events, e.globalPosition < s.cursor r

omit [DecidableEq π] [DecidableEq μ] in
theorem StoreState.Past.mono {s t : StoreState G} {r : π ⊕ μ} {events : List RecordedEvent}
    (hpast : s.Past r events) (hle : s.cursor r ≤ t.cursor r) : t.Past r events :=
  fun e he => Nat.lt_of_lt_of_le (hpast e he) hle

section Pulls

variable {α : Type} {Q : α → StoreState G → Prop} {l : List (Work μ)} {op : RunnerOp π μ}
  {resume : op.Res G → RunnerFuture G α} {s : StoreState G}

theorem pull_await
    (hrest : ∀ s₁ r t answer, (∀ j, s.cursor j ≤ s₁.cursor j) → s₁.Consistent C log →
      op.DeliversSeen seen r → op.serve C answer s₁ = some (r, t) →
      (resume r).Safe (pullTerms C log seen) Q t) :
    Future.Safe (pullTerms C log seen) Q (.await l op resume) s :=
  ⟨trivial, fun s₁ h₁ r t ⟨hdelivers, answer, hserve⟩ =>
    ⟨cursors_serve hserve, hrest s₁ r t answer h₁.1 h₁.2 hdelivers hserve⟩⟩

/-- Runners stay past what they are past. -/
theorem pull_past {fut : RunnerFuture G α} (hsafe : fut.Safe (pullTerms C log seen) Q s)
    {r : π ⊕ μ} {events : List RecordedEvent} (hpast : s.Past r events) :
    fut.Safe (pullTerms C log seen) (fun a t => Q a t ∧ t.Past r events) s :=
  hsafe.frame (T := pullTerms C log seen) (fun _ _ h hrely => h.mono (hrely.1 r))
    (fun _ _ _ _ h hmoves => h.mono (hmoves r)) hpast

/-- Any future keeps to these terms. -/
theorem pull_any (fut : RunnerFuture G α) (s : StoreState G) :
    fut.Safe (pullTerms C log seen) (fun _ _ => True) s := by
  induction fut generalizing s with
  | ready a => trivial
  | await l op resume ih => exact pull_await fun _ r t _ _ _ _ _ => ih r t

end Pulls

/-- Reading a stream to `CaughtUp` or its end leaves the runner past all its events. -/
theorem processStream_past {j : π ⊕ μ}
    {onEvent : List (Work μ) → RecordedEvent → RunnerFuture G (List (Work μ))}
    (hevent : ∀ acc recorded s, (onEvent acc recorded).Safe (pullTerms C log seen)
      (fun _ t => t.Past j [recorded]) s)
    (items : List Item) (acc : List (Work μ)) (s : StoreState G) :
    (processStream C onEvent items acc).Safe (pullTerms C log seen)
      (fun out t => ∀ works, out = .ok works →
        (∀ status, streamStop items ≠ .error status) ∧ t.Past j (passRead items).1) s := by
  induction items generalizing acc s with
  | nil =>
      refine pull_await fun _ _ _ _ _ _ _ _ works _ => ⟨fun _ h => (by cases h), ?_⟩
      exact fun e he => by cases he
  | cons item rest ih =>
      rcases item with status | recorded | _ | _
      · exact pull_await fun _ _ _ _ _ _ _ _ works h => by cases h
      · refine pull_await fun _ _ t _ _ _ _ _ => (hevent acc recorded t).bind
          fun acc' u hpast => ?_
        refine (pull_past (ih acc' u) hpast).weaken fun out v hout works hok => ?_
        obtain ⟨hstop, hrest⟩ := hout.1 works hok
        refine ⟨hstop, fun e he => ?_⟩
        rcases List.mem_cons.mp he with rfl | hlater
        · exact hout.2 _ List.mem_cons_self
        · exact hrest e hlater
      · refine pull_await fun _ _ _ _ _ _ _ _ works _ => ⟨fun _ h => (by cases h), ?_⟩
        exact fun e he => by cases he
      · exact pull_await fun _ _ t _ _ _ _ _ => ih acc t

/-- A catch-up that succeeds leaves the runner past all that was seen. -/
theorem subscribeAndProcess_past {j : π ⊕ μ}
    {onEvent : List (Work μ) → RecordedEvent → RunnerFuture G (List (Work μ))}
    (hevent : ∀ acc recorded s, (onEvent acc recorded).Safe (pullTerms C log seen)
      (fun _ t => t.Past j [recorded]) s) (s : StoreState G) :
    (subscribeAndProcess C onEvent j).Safe (pullTerms C log seen)
      (fun out t => ∀ works, out = .ok works → t.Past j seen) s := by
  refine pull_await fun s₁ p t answer _ _ _ hserve => ?_
  have hp : p = t.cursor j := by
    rcases answer with _ | ⟨_ | _⟩ | _ | _ <;> cases hserve
    rfl
  refine pull_await fun s₂ result u answer hle _ hdelivers hserve => ?_
  have hu : u = s₂ := by
    rcases answer with _ | ⟨_ | _⟩ | _ | _ <;> cases hserve
    rfl
  cases result with
  | error status => exact fun works h => by cases h
  | ok items =>
      obtain ⟨hends, hall⟩ := hdelivers
      have hfrom : p ≤ u.cursor j := hp ▸ hu ▸ hle j
      have hframed : (processStream C onEvent items []).Safe (pullTerms C log seen)
          (fun out v => (∀ works, out = .ok works → (∀ status, streamStop items ≠ .error status) ∧
            v.Past j (passRead items).1) ∧ p ≤ v.cursor j) u :=
        (processStream_past hevent items [] u).frame (T := pullTerms C log seen)
          (fun _ _ h hrely => Nat.le_trans h (hrely.1 j))
          (fun _ _ _ _ h hmoves => Nat.le_trans h (hmoves j)) hfrom
      refine hframed.weaken fun out v hout works hok e he => ?_
      obtain ⟨hstop, hpast⟩ := hout.1 works hok
      have hcaughtUp : streamStop items = .caughtUp := by
        cases hkind : streamStop items with
        | caughtUp => rfl
        | error status => exact absurd hkind (hstop status)
        | ended => exact absurd hkind hends
      rcases Nat.lt_or_ge e.globalPosition p with hbehind | hahead
      · exact Nat.lt_of_lt_of_le hbehind hout.2
      · exact hpast e (hall hcaughtUp e he hahead)

theorem event_past {j : π ⊕ μ} {recorded : RecordedEvent} {op : RunnerOp π μ}
    (htakes : op.takes? = some (j, recorded)) {l : List (Work μ)}
    {resume : op.Res G → RunnerFuture G (List (Work μ))}
    (hready : ∀ r, ∃ acc, resume r = .ready acc) (s : StoreState G) :
    Future.Safe (pullTerms C log seen) (fun _ t => t.Past j [recorded])
      (.await l op resume) s := by
  refine pull_await fun s₁ r t answer _ _ _ hserve => ?_
  obtain ⟨acc, hacc⟩ := hready r
  rw [hacc]
  intro e he
  rw [List.mem_singleton.mp he, (serve_takes htakes hserve).1]
  exact (cursors_event s₁ j recorded).2

theorem projection_sees (hseen : ∀ e ∈ seen, e ∈ log) (p : π) (s : StoreState G) :
    (projection C p).Safe (pullTerms C log seen)
      (fun result _ => ∀ state, result = .ok state → Reflects C log seen (.inl p) state) s := by
  unfold projection
  split
  · refine pull_await fun _ _ t _ _ _ _ _ => ?_
    have hcatchUp : (projectionCatchUp C p).Safe (pullTerms C log seen)
        (fun result t => ∀ u, result = .ok u → t.Past (.inl p) seen) t := by
      refine (subscribeAndProcess_past (fun acc recorded s => event_past rfl
        (fun _ => ⟨_, rfl⟩) s) t).bind fun result u hpast => ?_
      cases result with
      | error e => exact fun u h => by cases h
      | ok works =>
          exact (pull_past (pull_any (save (.inl p)) u) (hpast works rfl)).weaken
            fun _ _ h _ _ => h.2
    refine hcatchUp.bind fun result u hpast => ?_
    cases result with
    | error e => exact pull_await fun _ _ _ _ _ _ _ _ state h => by cases h
    | ok done =>
        refine pull_await fun s₁ state t₁ answer hle hfolds _ hserve => ?_
        have hstate : state = (s₁.memory (.inl p)).state := by
          rcases answer with _ | ⟨_ | _⟩ | _ | _ <;> cases hserve
          rfl
        refine pull_await fun _ _ _ _ _ _ _ _ state' hok => ?_
        cases hok
        refine ⟨s₁.cursor (.inl p), hstate ▸ hfolds.memory (.inl p), fun e he => ?_⟩
        exact List.mem_filter.mpr ⟨hseen e he, decide_eq_true
          (Nat.lt_of_lt_of_le (hpast done rfl e he) (hle (.inl p)))⟩
  · exact fun state h => by cases h

variable [DecidableEq κ]

namespace ObservedWorld

variable {cfg : LiveConfig} {o o' : ObservedWorld G κ}

/-- The streams that the call of `k` opens do not end before `CaughtUp` without an
error, the call goes on, and nothing crashes. -/
structure PullsOn (k : κ) (o : ObservedWorld G κ) (a : ObservedAction π κ) : Prop where
  ends : ∀ items p, a = .act (.poll (.caller k) (.stream (.ok items))) →
    o.world.op? (.caller k) = some (.subscribeAllFrom p) → streamStop items ≠ .ended
  calls : ∀ c, a ≠ .act (.call k c)
  lives : a ≠ .act .crash

variable (C log seen) in
/-- The call of `k` is on its terms, and ends in `Q` if it ends. -/
structure Pulling (Q : TaskResult G × List (Work μ) → StoreState G → Prop) (k : κ)
    (o : ObservedWorld G κ) : Prop where
  folds : o.world.Folds C log
  present : seen <+: o.present
  task : ∀ task, o.world.tasks (.caller k) = some task →
    task.Safe (pullTerms C log seen) Q o.world.store

theorem pulling_step (hlog : Increasing RecordedEvent.globalPosition log)
    {Q : TaskResult G × List (Work μ) → StoreState G → Prop}
    (hQ : ∀ out s t, Q out s → (pullTerms C log seen).rely s t → Q out t) {k : κ}
    (ho : o.Pulling C log seen Q k) {a : ObservedAction π κ} (hdelivers : o.Delivers log a)
    (hpulls : o.PullsOn k a) (hstep : o.step C cfg a = some o') :
    o'.Pulling C log seen Q k := by
  obtain ⟨hfolds, hseen, htasks⟩ := ho
  cases a with
  | append recorded =>
      cases hstep
      exact ⟨hfolds, hseen.trans (List.prefix_append _ _), htasks⟩
  | act a =>
      have hlives : a ≠ .crash := fun h => hpulls.lives (by rw [h])
      obtain ⟨w', hw, rfl⟩ := Option.map_eq_some_iff.mp hstep
      have hfolds' := folds_step hlog hfolds hdelivers.1 hw
      have hrely : (pullTerms C log seen).rely o.world.store w'.store :=
        ⟨cursors_step hfolds.coherent hw hlives, hfolds'.store⟩
      have hstable : ∀ task, o.world.tasks (.caller k) = some task →
          task.Safe (pullTerms C log seen) Q w'.store := fun task htask =>
        Future.Safe.stable hQ (htasks task htask) hrely
      refine ⟨hfolds', hseen, fun task htask => ?_⟩
      by_cases hpoll : ∃ x answer, a = .poll x answer
      · obtain ⟨x, answer, rfl⟩ := hpoll
        cases polled_of_pollTask hw with
        | pending _ _ _ hnext =>
            subst hnext
            exact hstable _ htask
        | @served l op resume r s hpolled _ _ hserve hnext =>
            subst hnext
            rcases task_of_update htask with ⟨rfl, rfl⟩ | ⟨-, hold⟩
            · have hshows : op.DeliversSeen seen r := by
                cases op with
                | subscribeAllFrom p =>
                    rcases answer with _ | ⟨_ | _⟩ | ⟨status | items⟩ | _ <;> cases hserve
                    · trivial
                    · have hop : o.world.op? (.caller k) = some (.subscribeAllFrom p) := by
                        rw [op?, hpolled]
                      exact ⟨hpulls.ends items p rfl hop, fun hstop e he =>
                        hdelivers.2 _ items p rfl hop hstop e (hseen.subset he)⟩
                | _ => trivial
              exact (Future.Safe.served (htasks _ hpolled) ⟨fun _ => Nat.le_refl _, hfolds.store⟩
                ⟨hshows, answer, hserve⟩).2
            · exact hstable task hold
      · exact hstable task (caller_step hw (fun x answer h => hpoll ⟨x, answer, h⟩) htask
          fun c h => hpulls.calls c (by rw [h]))

theorem pulling_of_call (hlog : Increasing RecordedEvent.globalPosition log)
    {Q : TaskResult G × List (Work μ) → StoreState G → Prop} {k : κ} {c : Call π}
    (hQ : ∀ out s t, Q out s → (pullTerms C log o.present).rely s t → Q out t)
    (hsafe : ∀ s, (c.task C).Safe (pullTerms C log o.present) Q s)
    (hfolds : o.world.Folds C log) {o₁ o₂ : ObservedWorld G κ}
    (hcall : o.step C cfg (.act (.call k c)) = some o₁)
    (hreach : Reaches (step C cfg) (fun o a => o.Delivers log a ∧ o.PullsOn k a) o₁ o₂) :
    o₂.Pulling C log o.present Q k := by
  refine hreach.invariant ⟨?_, ?_, fun task htask => ?_⟩
    fun _ _ _ ho hok hstep => pulling_step hlog hQ ho hok.1 hok.2 hstep
  · obtain ⟨w₁, hw₁, rfl⟩ := Option.map_eq_some_iff.mp hcall
    exact folds_step hlog hfolds (a := .call k c) trivial hw₁
  · obtain ⟨w₁, -, rfl⟩ := Option.map_eq_some_iff.mp hcall
    exact List.prefix_refl _
  · rw [called_task hcall] at htask
    cases htask
    exact hsafe _

/-- A caller of `projection` reads its writes: a state that is returned reflects every
event that the log held when the call was made, whatever runs next to it. -/
theorem projection_reads_your_writes (hlog : Increasing RecordedEvent.globalPosition log)
    {w₀ : LiveWorld G κ} (hidle : w₀.Idle) (hstart : w₀.store.Consistent C log)
    {present : List RecordedEvent} (hpresent : present <+: log) {o o₁ o₂ : ObservedWorld G κ}
    (hbefore : Reaches (step C cfg) (Delivers log) (ObservedWorld.start w₀ present) o)
    {k : κ} {p : π} (hcall : o.step C cfg (.act (.call k (.projection p))) = some o₁)
    (hreach : Reaches (step C cfg) (fun o a => o.Delivers log a ∧ o.PullsOn k a) o₁ o₂)
    {state : (G.projection p).State} {dropped : List (Work μ)}
    (hresult : o₂.world.tasks (.caller k) =
      some (.ready (.projection p (.ok state), dropped))) :
    Reflects C log o.present (.inl p) state := by
  have ho : o.Covering C log := hbefore.invariant (covering_start hidle hstart hpresent)
    fun _ _ _ ho hok hstep => covering_step hlog ho hok hstep
  have hpulling : o₂.Pulling C log o.present (fun out _ => ∀ state,
      out.1 = .projection p (.ok state) → Reflects C log o.present (.inl p) state) k := by
    refine pulling_of_call hlog (fun _ _ _ h _ => h) (fun s => ?_) ho.folds hcall hreach
    refine (projection_sees (fun e he => ho.present.subset he) p s).bind
      fun result t hreads state hok => ?_
    cases hok
    exact hreads state rfl
  exact hpulling.task _ hresult state rfl

/-- A step that drops no envelope. -/
def Gentle (o : ObservedWorld G κ) (a : ObservedAction π κ) : Prop :=
  ∀ b, a = .act b → o.world.DropsNothing b

end ObservedWorld

namespace ReadYourWritesWitness

open ObservedWorld LiveWitness LiveOnceWitness RunnerAnswer

/-- `PullsOn` and `Gentle`, evaluated. -/
def pullsOn {G : Registry Unit Manager} (o : ObservedWorld G Unit) :
    ObservedAction Unit Unit → Bool
  | .act (.poll (.caller ()) (.stream (.ok items))) => match streamStop items with
    | .ended => false
    | _ => true
  | .act (.call _ _) => false
  | .act a => dropsNothing o.world a
  | .append _ => true

theorem pullsOn_sound {G : Registry Unit Manager} (o : ObservedWorld G Unit)
    (a : ObservedAction Unit Unit) (hcheck : pullsOn o a = true) :
    o.PullsOn () a ∧ o.Gentle a := by
  refine ⟨⟨?_, ?_, ?_⟩, ?_⟩
  · rintro items p rfl _ hended
    simp [pullsOn, hended] at hcheck
  · rintro c rfl
    cases hcheck
  · rintro rfl
    cases hcheck
  · rintro b rfl
    refine dropsNothing_sound o.world b ?_
    unfold pullsOn at hcheck
    split at hcheck
    · rename_i heq
      cases heq
      rfl
    · cases hcheck
    · rename_i heq
      cases heq
      exact hcheck
    · rename_i heq
      cases heq

/-- A caller pulls the projection. -/
def pulling : List (ObservedAction Unit Unit) :=
  acts (polls (.caller ()) [done, done, delivery, done, done, done, ok, ok, done, done])

theorem projection_reads_your_writes_shop :
    ∃ o o₁ o₂ : ObservedWorld (shop [()] []) Unit,
      runActions (ObservedWorld.step crates delays) (start (opened _) []) [.append placed] =
        some o ∧
      o.step crates delays (.act (.call () (.projection ()))) = some o₁ ∧
      runActions (ObservedWorld.step crates delays) o₁ pulling = some o₂ ∧
      o₂.world.tasks (.caller ()) = some (.ready (.projection () (.ok (1 : Nat)), [])) ∧
      Reflects (G := shop [()] []) crates orderLog [placed] (.inl ()) (1 : Nat) := by
  obtain ⟨o, o₁, o₂, hrun, hok, hpresent, hcall, hrun₂, hok₂, hresult⟩ :
      ∃ o o₁ o₂ : ObservedWorld (shop [()] []) Unit,
        runActions (ObservedWorld.step crates delays) (start (opened _) []) [.append placed] =
          some o ∧
        AllOk (ObservedWorld.step crates delays) (ObservedWorld.Delivers orderLog)
          (start (opened (shop [()] [])) []) [.append placed] ∧
        o.present = [placed] ∧
        o.step crates delays (.act (.call () (.projection ()))) = some o₁ ∧
        runActions (ObservedWorld.step crates delays) o₁ pulling = some o₂ ∧
        AllOk (ObservedWorld.step crates delays) (fun o a => o.Delivers orderLog a ∧
          (o.PullsOn () a ∧ o.Gentle a)) o₁ pulling ∧
        o₂.world.tasks (.caller ()) = some (.ready (.projection () (.ok (1 : Nat)), [])) :=
    ⟨_, _, _, rfl, allOk_of_checks delivers_sound rfl, rfl, rfl, rfl,
      .and (allOk_of_checks delivers_sound rfl) (allOk_of_checks pullsOn_sound rfl), rfl⟩
  have hreach : Reaches (ObservedWorld.step crates delays)
      (fun o a => o.Delivers orderLog a ∧ o.PullsOn () a) o₁ o₂ :=
    (Reaches.run .start pulling hok₂ hrun₂).mono fun _ _ h => ⟨h.1, h.2.1⟩
  have hreflects := projection_reads_your_writes orderLog_increasing (opened_idle _)
    (opened_consistent _) List.nil_prefix (.run .start [.append placed] hok hrun) hcall hreach
    hresult
  exact ⟨o, o₁, o₂, hrun, hcall, hrun₂, hresult, hpresent ▸ hreflects⟩

/-- A caller runs a pass: billing takes in the order, its envelope is dispatched, and it
is saved. -/
def passing : List (ObservedAction Unit Unit) :=
  acts (polls (.caller ())
    [done, done, delivery, done, done, done, done, ok, done, ok, ok, done])

end ReadYourWritesWitness

end EventfoldEs
