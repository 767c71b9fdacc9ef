/-
Pull passes of a store without live mode, one after the other: which failures
make a later pass report success over a command that is lost.
-/
import EventfoldEs.LiveDispatch

namespace EventfoldEs

open Async OrderedLog

variable {C : Crates} {π μ κ : Type} {G : Registry π μ}

namespace LiveWorld

/-- The records that a pass reads before it ends, and whether it ends in an
error. -/
def passRead : List Item → List RecordedEvent × Bool
  | [] => ([], false)
  | .error _ :: _ => ([], true)
  | .ok .caughtUp :: _ => ([], false)
  | .ok .empty :: rest => passRead rest
  | .ok (.event recorded) :: rest => (recorded :: (passRead rest).1, (passRead rest).2)

/-- Calls of `run_process_managers`, one after the other, and nothing else; a
`catch_up` that fails has changed nothing. -/
def Sequential (w : LiveWorld G κ) : LiveAction π κ → Prop
  | .call _ c => c = .runProcessManagers ∧ ∀ x, w.tasks x = none
  | .poll _ (.stream (.ok items)) => (passRead items).2 = true → (passRead items).1 = []
  | .poll _ _ => True
  | .settle (.caller _) => True
  | _ => False

/-- The failures that lose nothing: a `catch_up` fails only while its call holds no
envelope of another process manager, and a dead letter is always written. -/
def FailsBare (w : LiveWorld G κ) : LiveAction π κ → Prop
  | .poll x (.stream (.error _)) => w.held x = []
  | .poll x (.stream (.ok items)) => (passRead items).2 = true → w.held x = []
  | .poll x (.result (.error _)) =>
      ∀ work error, w.op? x ≠ some (.appendDeadLetter work error)
  | _ => True

/-- The same, of one operation. -/
def Bare (l : List (Work μ)) : (op : RunnerOp π μ) → op.Res G → Prop
  | .subscribeAllFrom _, .error _ => l = []
  | .subscribeAllFrom _, .ok items => (passRead items).2 = true →
      l = [] ∧ (passRead items).1 = []
  | .appendDeadLetter _ _, written => written = .ok ()
  | _, _ => True

/-- A pass ends in an error only where its call holds nothing. -/
theorem managerStream_ends {allWork : List (Work μ)} (m : μ) (items : List Item)
    (acc : List (Work μ))
    (hread : (passRead items).2 = true → allWork = [] ∧ acc = [] ∧ (passRead items).1 = []) :
    (processStream (G := G) C
      (fun acc recorded => .await acc (.reactEvent m recorded) fun produced =>
        .ready (acc ++ reactionWork m recorded produced)) items acc).Ends
      (fun l => Bare (allWork ++ l))
      (fun result => ∀ e dropped, result = .error (e, dropped) →
        allWork ++ dropped = []) := by
  induction items generalizing acc with
  | nil => exact fun _ _ => nofun
  | cons item rest ih =>
      rcases item with status | recorded | _ | _
      · obtain ⟨hall, hacc, -⟩ := hread rfl
        intro _ _ e dropped herror
        cases herror
        rw [hall, hacc]
        rfl
      · have hfails : (passRead rest).2 ≠ true := by
          intro hfails
          cases (hread hfails).2.2
        exact fun _ _ produced _ => ih _ fun h => absurd h hfails
      · exact fun _ _ => nofun
      · exact fun _ _ => ih acc hread

theorem processManagerCatchUp_ends (allWork : List (Work μ)) (m : μ) :
    ((processManagerCatchUp (G := G) C m).mapLocals (allWork ++ ·)).Ends Bare
      (fun result => ∀ e dropped, result = .error (e, dropped) →
        allWork ++ dropped = []) := by
  refine Future.Ends.mapLocals fun _ _ result hresult => ?_
  cases result with
  | error status =>
      intro e dropped herror
      cases herror
      exact hresult
  | ok items =>
      refine managerStream_ends m items [] fun hfails => ?_
      obtain ⟨hheld, hread⟩ := hresult hfails
      exact ⟨(List.append_eq_nil_iff.mp hheld).1, rfl, hread⟩

theorem catchUpEach_ends (ms : List μ) (allWork : List (Work μ)) :
    (catchUpEach (G := G) C ms allWork).Ends Bare
      (fun result => ∀ e dropped, result = .error (e, dropped) → dropped = []) := by
  induction ms generalizing allWork with
  | nil => exact nofun
  | cons m rest ih =>
      refine fun _ _ => Future.Ends.bind ((processManagerCatchUp_ends allWork m).weaken ?_)
      intro result hresult
      rcases result with ⟨e, dropped⟩ | envelopes
      · intro _ _ e' dropped' herror
        cases herror
        exact hresult e dropped rfl
      · exact fun _ _ => ih _

/-- A dead letter that is written lets the dispatch loop go on. -/
theorem dispatchOne_ends (work : Work μ) (rest : List (Work μ)) :
    (dispatchOne (G := G) work rest).Ends Bare
      (fun disposal => ∀ e, disposal ≠ .deadLettered (.error e)) := by
  have hdead : ∀ error, (deadLetter (G := G) work error rest).Ends Bare
      (fun disposal => ∀ e, disposal ≠ .deadLettered (.error e)) := by
    intro error written hwritten e heq
    cases heq
    cases hwritten
  unfold dispatchOne
  split
  · intro result _
    cases result with
    | error e => exact hdead e
    | ok u => exact nofun
  · exact hdead _

theorem dispatchEach_ends (works : List (Work μ)) (report : ProcessManagerReport) :
    (dispatchEach (G := G) works report).Ends Bare
      (fun result => ∀ e, result ≠ .error e) := by
  induction works generalizing report with
  | nil => exact nofun
  | cons work rest ih =>
      refine Future.Ends.bind
        ((dispatchOne_ends work rest).weaken fun disposal hwritten => ?_)
      rcases disposal with _ | ⟨e | _⟩
      · exact ih _
      · exact absurd rfl (hwritten e)
      · exact ih _

theorem save_ends (r : π ⊕ μ) : (save (G := G) r).Ends Bare fun _ => True := by
  intro out _
  cases out with
  | error e => trivial
  | ok u => exact fun _ _ => trivial

theorem saveEach_ends (ms : List μ) : (saveEach (G := G) ms).Ends Bare fun _ => True := by
  induction ms with
  | nil => trivial
  | cons m rest ih =>
      refine fun _ _ => Future.Ends.bind ((save_ends _).weaken fun out _ => ?_)
      intro _ _
      cases out with
      | error e => trivial
      | ok u => exact ih

variable [DecidableEq π]

/-- Under such failures a call drops nothing. -/
theorem runProcessManagers_ends :
    (Call.runProcessManagers.task (G := G) C).Ends Bare fun out => out.2 = [] := by
  refine Future.Ends.bind (Future.Ends.bind
    ((catchUpEach_ends G.processManagers []).weaken fun collected hcollected => ?_))
  rcases collected with ⟨e, dropped⟩ | allWork
  · exact hcollected e dropped rfl
  · refine Future.Ends.bind ((dispatchEach_ends allWork _).weaken fun result hresult => ?_)
    cases result with
    | error e => exact absurd rfl (hresult e)
    | ok report =>
        refine Future.Ends.bind ((saveEach_ends G.processManagers).weaken fun saved _ => ?_)
        cases saved with
        | error e => rfl
        | ok u => rfl

variable [DecidableEq μ] [DecidableEq κ] {log : List RecordedEvent}

omit [DecidableEq κ] in
/-- The guards of a run are the conditions on its operations. -/
theorem bare_of_served {w : LiveWorld G κ} {x : Waiter κ} {answer : RunnerAnswer}
    (hsequential : w.Sequential (.poll x answer)) (hbare : w.FailsBare (.poll x answer))
    {l : List (Work μ)} {op : RunnerOp π μ} {resume : op.Res G → RunnerTask G}
    (htask : w.tasks x = some (.await l op resume)) {r : op.Res G} {s : StoreState G}
    (hserve : op.serve C answer w.store = some (r, s)) : Bare l op r := by
  have hheld : w.held x = l := held_of_task htask
  cases op with
  | subscribeAllFrom p =>
      rcases answer with _ | ⟨_ | _⟩ | ⟨status | items⟩ | _ <;> cases hserve
      · exact hheld ▸ hbare
      · exact fun hfails => ⟨hheld ▸ hbare hfails, hsequential hfails⟩
  | appendDeadLetter work error =>
      rcases answer with _ | ⟨_ | _⟩ | _ | _ <;> cases hserve
      · exact absurd (by rw [op?, htask]) (hbare work error)
      · rfl
  | _ => trivial

/-- Under such failures what is disposed of is settled. -/
theorem serve_settles {l : List (Work μ)} {op : RunnerOp π μ} {answer : RunnerAnswer}
    {s t : StoreState G} {r : op.Res G} (hbare : Bare l op r)
    (hserve : op.serve C answer s = some (r, t)) :
    ∀ work ∈ op.disposes r, t.Settled work := by
  intro other hother
  cases op with
  | dispatch work =>
      rcases answer with _ | ⟨_ | _⟩ | _ | _ <;> cases hserve
      · cases hother
      · exact Or.inl (List.mem_append_right _ hother)
  | appendDeadLetter work error =>
      rcases answer with _ | ⟨_ | _⟩ | _ | _ <;> cases hserve
      · cases hbare
      · obtain rfl := List.mem_singleton.mp hother
        exact Or.inr ⟨error, List.mem_append_right _ List.mem_cons_self⟩
  | _ => cases hother

variable (C log) in
/-- What a sequence of pull passes keeps when no failure loses anything. -/
structure Passes (w : LiveWorld G κ) : Prop where
  folds : w.Folds C log
  keeps : w.KeepsAll
  accounts : w.Accounts C log StoreState.Settled
  alone : ∀ x task, w.tasks x = some task →
    task.Ends Bare (fun out => out.2 = []) ∧ ∀ y, y ≠ x → w.tasks y = none

theorem passes_poll (hlog : Increasing RecordedEvent.globalPosition log)
    {cfg : LiveConfig} {w w' : LiveWorld G κ} (hpasses : w.Passes C log) {x : Waiter κ}
    {answer : RunnerAnswer} (hstreams : w.Streams log (.poll x answer))
    (hsequential : w.Sequential (.poll x answer)) (hbare : w.FailsBare (.poll x answer))
    (hstep : w.step C cfg (.poll x answer) = some w') : w'.Passes C log := by
  obtain ⟨hfolds, hkeeps, haccounts, halone⟩ := hpasses
  have hfolds' := folds_step hlog hfolds hstreams hstep
  have hkeeps' := keepsAll_step hfolds.coherent hkeeps hstep
  cases polled_of_pollTask hstep with
  | pending _ _ _ hnext =>
      subst hnext
      exact ⟨hfolds', hkeeps', haccounts, halone⟩
  | @served l op resume r s htask _ _ hserve hnext =>
      subst hnext
      have hanswer := bare_of_served hsequential hbare htask hserve
      obtain ⟨hends, hothers⟩ := halone x _ htask
      refine ⟨hfolds', hkeeps', accounts_served hfolds hkeeps haccounts hstreams htask hserve
        (serve_records hserve).2.1 (serve_settles hanswer hserve) rfl rfl,
        fun y task hy => ?_⟩
      rcases task_of_update hy with ⟨rfl, rfl⟩ | ⟨hyx, hold⟩
      · refine ⟨hends r hanswer, fun z hz => ?_⟩
        simpa only [setTask, Function.update_of_ne hz] using hothers z hz
      · rw [hothers y hyx] at hold
        cases hold

/-- A step that starts or settles a call. -/
theorem passes_shifted {w w' : LiveWorld G κ} (hpasses : w.Passes C log)
    (hfolds' : w'.Folds C log) (hkeeps' : w'.KeepsAll) {a : LiveAction π κ}
    (hshifts : Shifts C w a w') (hleaves : ∀ x, w.Leaves a x → w.held x = [])
    (halone : ∀ x task, w'.tasks x = some task →
      task.Ends Bare (fun out => out.2 = []) ∧ ∀ y, y ≠ x → w'.tasks y = none) :
    w'.Passes C log := by
  refine ⟨hfolds', hkeeps', accounts_shifted hshifts hleaves (fun work hwork => ?_)
    hpasses.accounts, halone⟩
  rw [StoreState.Settled, hshifts.store.dispatched, hshifts.store.deadLetters]
  exact hwork

theorem passes_step (hlog : Increasing RecordedEvent.globalPosition log)
    {cfg : LiveConfig} {w w' : LiveWorld G κ} (hpasses : w.Passes C log)
    {a : LiveAction π κ} (hstreams : w.Streams log a) (hsequential : w.Sequential a)
    (hbare : w.FailsBare a) (hstep : w.step C cfg a = some w') : w'.Passes C log := by
  have hfolds' := folds_step hlog hpasses.folds hstreams hstep
  have hkeeps' := keepsAll_step hpasses.folds.coherent hpasses.keeps hstep
  have hstepped := stepped_of_step hpasses.folds.coherent hstep
  cases a with
  | poll x answer => exact passes_poll hlog hpasses hstreams hsequential hbare hstep
  | call k c =>
      obtain ⟨rfl, hnone⟩ := hsequential
      obtain ⟨haction, -⟩ | hshifts | ⟨haction, -⟩ := hstepped
      · cases haction
      · refine passes_shifted hpasses hfolds' hkeeps' hshifts nofun fun x task htask => ?_
        simp only [step, hnone, Option.some.injEq] at hstep
        subst hstep
        by_cases hx : x = .caller k
        · subst hx
          simp only [setTask, Function.update_self, Option.some.injEq] at htask
          refine ⟨htask ▸ runProcessManagers_ends, fun y hy => ?_⟩
          simpa only [setTask, Function.update_of_ne hy] using hnone y
        · simp only [setTask, Function.update_of_ne hx, hnone x, reduceCtorEq] at htask
      · cases haction
  | settle x =>
      cases x with
      | caller k =>
          simp only [step] at hstep
          split at hstep <;> simp only [Option.some.injEq, reduceCtorEq] at hstep
          rename_i out hready
          subst hstep
          obtain ⟨hends, hothers⟩ := hpasses.alone _ _ hready
          obtain ⟨haction, -⟩ | hshifts | ⟨haction, -⟩ := hstepped
          · cases haction
          · refine passes_shifted hpasses hfolds' hkeeps' hshifts ?_ fun x task htask => ?_
            · rintro x rfl
              exact (held_of_task hready).trans hends
            · by_cases hx : x = .caller k
              · simp [setTask, hx] at htask
              · simp only [setTask, Function.update_of_ne hx, hothers x hx,
                  reduceCtorEq] at htask
          · cases haction
      | live => exact hsequential.elim
      | stream => exact hsequential.elim
  | _ => exact hsequential.elim

/-- What a store has produced before the first call is settled. -/
def SettledBefore (C : Crates) (log : List RecordedEvent) (s : StoreState G) : Prop :=
  ∀ m, ∀ e ∈ s.emitted C log m, s.Settled ⟨m, e⟩

/-- In a sequence of pull passes in which no `catch_up` fails while its call holds
envelopes, and every dead letter is written: whenever a call has returned `Ok`,
each envelope produced for an event below a cursor was dispatched or is in a
dead-letter log. -/
theorem ok_means_settled (hlog : Increasing RecordedEvent.globalPosition log)
    {cfg : LiveConfig} {w₀ w : LiveWorld G κ} (hidle : w₀.Idle)
    (hstart : w₀.store.Consistent C log) (hsettled : SettledBefore C log w₀.store)
    (hreach : Reaches (step C cfg)
      (fun w a => w.Streams log a ∧ w.Sequential a ∧ w.FailsBare a) w₀ w)
    (k : κ) (report : ProcessManagerReport) (dropped : List (Work μ))
    (hreturned : w.tasks (.caller k) =
      some (.ready (.processManagers (.ok report), dropped))) (m : μ) :
    ∀ e ∈ (Runner.processManager (G.processManager m)).emitted C log
        (w.store.memory (.inr m)).lastGlobalPosition,
      ⟨m, e⟩ ∈ w.store.dispatched ∨ ∃ error, (⟨m, e⟩, error) ∈ w.store.deadLetters := by
  have hpasses₀ : w₀.Passes C log := ⟨hidle.folds hstart, hidle.keepsAll,
    fun m e he => Or.inl (hsettled m e he),
    fun x task htask => absurd htask (hidle.no_task x task)⟩
  have hpasses : w.Passes C log := hreach.invariant hpasses₀
    fun _ _ _ hpasses hok hstep => passes_step hlog hpasses hok.1 hok.2.1 hok.2.2 hstep
  intro e he
  rcases hpasses.accounts m e he with hdone | ⟨x, hheld⟩
  · exact hdone
  · obtain ⟨hends, hothers⟩ := hpasses.alone _ _ hreturned
    by_cases hx : x = .caller k
    · subst hx
      have hnone : dropped = [] := hends
      rw [held_of_task hreturned, show Future.now Prod.snd (.ready _) = dropped from rfl,
        hnone] at hheld
      cases hheld
    · rw [held, hothers x hx] at hheld
      cases hheld

end LiveWorld

namespace LiveWitness

open LiveWorld RunnerAnswer

theorem opened_settledBefore (G : Registry Unit Manager) :
    SettledBefore crates orderLog (opened G).store := by
  intro m e he
  rw [StoreState.emitted] at he
  change e ∈ Runner.emitted crates (G.runner (.inr m)) orderLog 0 at he
  rw [Runner.emitted_zero] at he
  cases he

/-- `Sequential`, evaluated. -/
def sequential {G : Registry Unit Manager} (w : LiveWorld G Unit) :
    LiveAction Unit Unit → Bool
  | .call _ .runProcessManagers =>
      (w.tasks .live).isNone && (w.tasks .stream).isNone && (w.tasks (.caller ())).isNone
  | .poll _ (.stream (.ok items)) => !(passRead items).2
  | .poll _ _ | .settle (.caller _) => true
  | _ => false

theorem sequential_sound {G : Registry Unit Manager} (w : LiveWorld G Unit)
    (a : LiveAction Unit Unit) (hcheck : sequential w a = true) : w.Sequential a := by
  unfold LiveWorld.Sequential
  split
  · rename_i c
    cases c with
    | runProcessManagers =>
        simp only [sequential, Bool.and_eq_true, Option.isNone_iff_eq_none] at hcheck
        obtain ⟨⟨hlive, hstream⟩, hcaller⟩ := hcheck
        refine ⟨rfl, fun x => ?_⟩
        cases x with
        | live => exact hlive
        | stream => exact hstream
        | caller k => exact hcaller
    | _ => cases hcheck
  · intro hfails
    simp [sequential, hfails] at hcheck
  · trivial
  · trivial
  · rename_i hcall _ hpoll hsettle
    cases a with
    | call k c => exact hcall k c rfl
    | poll x answer => exact hpoll x answer rfl
    | settle x =>
        cases x with
        | caller k => exact hsettle k rfl
        | _ => cases hcheck
    | _ => cases hcheck

/-- `FailsBare`, for runs in which nothing fails. -/
def failsBare {G : Registry Unit Manager} (_ : LiveWorld G Unit) :
    LiveAction Unit Unit → Bool
  | .poll _ (.stream (.error _)) | .poll _ (.result (.error _)) => false
  | .poll _ (.stream (.ok items)) => !(passRead items).2
  | _ => true

theorem failsBare_sound {G : Registry Unit Manager} (w : LiveWorld G Unit)
    (a : LiveAction Unit Unit) (hcheck : failsBare w a = true) : w.FailsBare a := by
  unfold FailsBare
  split
  · cases hcheck
  · intro hfails
    simp [failsBare, hfails] at hcheck
  · cases hcheck
  · trivial

/-- Both process managers catch up, the envelope of billing is dispatched, and both
are saved. -/
def passing : List (LiveAction Unit Unit) :=
  .call () .runProcessManagers :: polls (.caller ())
    ([done, done, delivery, done, done, done, done] ++
      [done, done, delivery, done, done, done, done] ++
      [ok] ++ [done, ok, ok, done] ++ [done, ok, ok, done])

theorem ok_means_settled_passing :
    ∃ w, runActions (step crates delays) (opened (shop [] [.billing, .audit])) passing =
        some w ∧
      ∀ e ∈ (Runner.processManager (manager .billing)).emitted crates orderLog
          (w.store.memory (.inr .billing)).lastGlobalPosition,
        ⟨.billing, e⟩ ∈ w.store.dispatched ∨
          ∃ error, (⟨.billing, e⟩, error) ∈ w.store.deadLetters := by
  refine ⟨_, rfl, ?_⟩
  have hreach : Reaches (step crates delays)
      (fun w a => w.Streams orderLog a ∧ w.Sequential a ∧ w.FailsBare a)
      (opened (shop [] [.billing, .audit])) _ :=
    .run .start passing (.and (allOk_of_checks streams_sound rfl)
      (.and (allOk_of_checks sequential_sound rfl) (allOk_of_checks failsBare_sound rfl)))
      rfl
  exact ok_means_settled orderLog_increasing (opened_idle _) (opened_consistent _)
    (opened_settledBefore _) hreach () _ _ rfl .billing

/-- Billing catches up, then the subscription of audit fails; the next call finds
nothing new for billing. -/
def failing : List (LiveAction Unit Unit) :=
  .call () .runProcessManagers :: polls (.caller ())
    ([done, done, delivery, done, done, done, done] ++
      [done, done, .stream (.error ⟨.unavailable, "no connection"⟩), done]) ++
  [.settle (.caller ()), .call () .runProcessManagers] ++ polls (.caller ())
    ([done, done, .stream (.ok [.ok .caughtUp]), done, done] ++
      [done, done, delivery, done, done, done, done] ++
      [done, ok, ok, done] ++ [done, ok, ok, done])

/-- The second call returns `Ok`, and the envelope of billing is neither dispatched
nor dead-lettered. -/
theorem failed_pass_loses_envelope :
    ∃ w, Reaches (step crates delays) (fun w a => w.Streams orderLog a ∧ w.Sequential a)
        (opened (shop [] [.billing, .audit])) w ∧
      w.tasks (.caller ()) = some (.ready (.processManagers (.ok ⟨0, 0⟩), [])) ∧
      ∃ e ∈ (Runner.processManager (manager .billing)).emitted crates orderLog
          (w.store.memory (.inr .billing)).lastGlobalPosition,
        ⟨.billing, e⟩ ∉ w.store.dispatched ∧
          ∀ error, (⟨.billing, e⟩, error) ∉ w.store.deadLetters := by
  refine ⟨_, .run .start failing (.and (allOk_of_checks streams_sound rfl)
    (allOk_of_checks sequential_sound rfl)) rfl, rfl, ⟨0, 0, sendInvoice⟩, ?_, ?_, ?_⟩
  · exact List.mem_cons_self
  · exact List.not_mem_nil
  · exact fun _ => List.not_mem_nil

end LiveWitness

end EventfoldEs
