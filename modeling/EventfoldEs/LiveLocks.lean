/-
The mutexes of the runners over whole runs: the live loop gets stuck on one only
when a handler starts while its own stream, which is then not polled, stands in a
queue.
-/
import EventfoldEs.LiveDiscipline
import EventfoldEs.LiveFold

namespace EventfoldEs

open Async

variable {C : Crates} {π μ κ : Type} {G : Registry π μ}

namespace LiveWorld

variable [DecidableEq π] [DecidableEq μ] [DecidableEq κ]

/-- What every run keeps that starts no handler while the stream stands at a
mutex. -/
structure Orderly (w : LiveWorld G κ) : Prop where
  coherent : w.Coherent
  fair : ∀ r, (w.mutexes r).Fair
  idle : ∀ x, w.tasks x = none → Clear w.mutexes x
  stands : ∀ x task, w.tasks x = some task →
    ∃ held, Stands RunnerOp.lockUse w.mutexes x task held
  apart : (w.tasks .live).isSome → Clear w.mutexes .stream

/-- No handler of the live loop starts while its stream waits for the mutex of a
runner, or has been handed one. -/
def HandlersApart (w : LiveWorld G κ) : LiveAction π κ → Prop
  | .tick | .seeShutdown => Clear w.mutexes .stream
  | _ => True

variable {cfg : LiveConfig}

theorem Orderly.polled {w w' : LiveWorld G κ} (horderly : w.Orderly)
    (hco : w'.Coherent) {x : Waiter κ} {answer : RunnerAnswer}
    (hpolled : Polled C w x answer w') : w'.Orderly := by
  obtain ⟨hco₀, hfair, hidle, hstands, hapart⟩ := horderly
  -- the stream is polled only while the loop itself runs nothing
  have halone : x = .stream → w.polls x = true → w.tasks .live = none := by
    rintro rfl hpolls
    have hlive := hco₀.live
    rw [phase_of_polls hpolls] at hlive
    simpa [LivePhase.busy] using hlive
  cases hpolled with
  | @pending l op resume htask hpolls hpending hnext =>
      obtain ⟨held, hx⟩ := hstands x _ htask
      have hmoves := onlyMoves_poll hfair fun k hk => hx.owns_released k hk
      subst hnext
      refine ⟨hco, fair_poll hfair x _, fun y hy => ?_, fun y task hy => ?_, fun hlive => ?_⟩
      · refine hmoves.clear ?_ (hidle y hy)
        rintro rfl
        rw [htask] at hy
        cases hy
      · by_cases hyx : y = x
        · subst hyx
          obtain rfl := Option.some.inj (htask.symm.trans hy)
          exact ⟨held, hx.poll_pending hpending⟩
        · obtain ⟨held', hy'⟩ := hstands y task hy
          exact ⟨held', hy'.of_onlyMoves hmoves hyx⟩
      · refine hmoves.clear ?_ (hapart hlive)
        intro hx
        rw [halone hx.symm hpolls] at hlive
        cases hlive
  | @served l op resume r s htask hpolls hgranted hserve hnext =>
      obtain ⟨held, hx⟩ := hstands x _ htask
      have hmoves := onlyMoves_poll hfair fun k hk => hx.owns_released k hk
      subst hnext
      refine ⟨hco, fair_poll hfair x _, fun y hy => ?_, fun y task hy => ?_, fun hlive => ?_⟩
      · simp only [setTask] at hy
        by_cases hyx : y = x
        · subst hyx
          rw [Function.update_self] at hy
          cases hy
        · rw [Function.update_of_ne hyx] at hy
          exact hmoves.clear hyx (hidle y hy)
      · rcases task_of_update hy with ⟨rfl, rfl⟩ | ⟨hyx, hold⟩
        · exact ⟨_, hx.poll_granted hfair hgranted r⟩
        · obtain ⟨held', hy'⟩ := hstands y task hold
          exact ⟨held', hy'.of_onlyMoves hmoves hyx⟩
      · have hlive' : (w.tasks .live).isSome := by
          simp only [setTask] at hlive
          by_cases hlx : .live = x
          · subst hlx
            rw [htask]
            rfl
          · rwa [Function.update_of_ne hlx] at hlive
        refine hmoves.clear ?_ (hapart hlive')
        intro hx
        rw [halone hx.symm hpolls] at hlive'
        cases hlive'

omit [DecidableEq μ] in
theorem Orderly.shifted {w w' : LiveWorld G κ} (horderly : w.Orderly) (hco : w'.Coherent)
    {a : LiveAction π κ} (hshifts : Shifts C w a w')
    (hstart : w.tasks .live = none → (w'.tasks .live).isSome → Clear w.mutexes .stream) :
    w'.Orderly := by
  obtain ⟨-, hfair, hidle, hstands, hapart⟩ := horderly
  have hfair' : ∀ r, (w'.mutexes r).Fair := by
    intro r
    rcases hshifts.mutexes with hsame | ⟨y, hcancel, -⟩
    · exact hsame ▸ hfair r
    · exact hcancel ▸ (hfair r).cancel y
  have hclear : ∀ x, Clear w.mutexes x → Clear w'.mutexes x := by
    intro x hx
    rcases hshifts.mutexes with hsame | ⟨y, hcancel, -⟩
    · exact hsame ▸ hx
    · rw [hcancel]
      by_cases hxy : x = y
      · exact hxy ▸ clear_cancel hfair y
      · exact (onlyMoves_cancel hfair y).clear hxy hx
  refine ⟨hco, hfair', fun x hx => ?_, fun x task hx => ?_, fun hlive => ?_⟩
  · cases hshifts.slot x with
    | same hsame => exact hclear x (hidle x (hsame ▸ hx))
    | ended hready _ =>
        obtain ⟨held, hready⟩ := hstands x _ hready
        exact hclear x hready.clear_of_ready
    | started _ hstarted _ => simp [hstarted] at hx
    | dropped _ hmutexes => exact hmutexes ▸ clear_cancel hfair x
  · rcases (hshifts.slot x).task_cases hx with hsame | ⟨hnone, hstarts⟩
    · obtain ⟨held, hold⟩ := hstands x task (hsame ▸ hx)
      refine ⟨held, ?_⟩
      rcases hshifts.mutexes with hmutexes | ⟨y, hcancel, hgone⟩
      · exact hmutexes ▸ hold
      · rw [hcancel]
        refine hold.of_onlyMoves (onlyMoves_cancel hfair y) ?_
        rintro rfl
        rw [hgone] at hx
        cases hx
    · exact ⟨none, .of_clear (starts_locks hstarts) (hclear x (hidle x hnone))⟩
  · cases hshifts.slot .live with
    | same hsame => exact hclear _ (hapart (hsame ▸ hlive))
    | ended _ hgone => simp [hgone] at hlive
    | started hnone _ _ => exact hclear _ (hstart hnone hlive)
    | dropped hgone _ => simp [hgone] at hlive

/-- Where the live loop starts a future of its own, its stream stands at no
mutex. -/
theorem Orderly.stream_clear {w w' : LiveWorld G κ} (horderly : w.Orderly)
    {a : LiveAction π κ} (hapart : w.HandlersApart a) (hstep : w.step C cfg a = some w')
    (hnone : w.tasks .live = none) (hlive : (w'.tasks .live).isSome) :
    Clear w.mutexes .stream := by
  have hsame : w'.tasks .live = w.tasks .live → Clear w.mutexes .stream := by
    intro hsame
    rw [hsame, hnone] at hlive
    cases hlive
  have hhead : w.phase = .head → Clear w.mutexes .stream := by
    intro hphase
    have hstream := horderly.coherent.stream
    rw [hphase] at hstream
    exact horderly.idle _ (by simpa [LivePhase.streams] using hstream)
  -- what the live loop settles is its own future, and it has none
  have hsettled : ∀ {out}, w.tasks .live = some (.ready out) → Clear w.mutexes .stream := by
    intro out hready
    rw [hnone] at hready
    cases hready
  cases turn_of_step hstep with
  | @polled x _ _ hpolled =>
      cases hpolled with
      | pending _ _ _ hnext => exact hsame (by rw [hnext])
      | served htask _ _ _ hnext =>
          by_cases hx : .live = x
          · subst hx
            rw [hnone] at htask
            cases htask
          · refine hsame ?_
            rw [hnext]
            simp [setTask, hx]
  | stops hphase => exact hhead hphase
  | connects hphase => exact hhead hphase
  | connected _ hready => exact hsettled hready
  | refused _ hready => exact hsettled hready
  | ticked _ hready => exact hsettled hready
  | shutDown _ hready => exact hsettled hready
  | saved _ hready => exact hsettled hready
  | ended _ hstream =>
      obtain ⟨held, hready⟩ := horderly.stands _ _ hstream
      exact hready.clear_of_ready
  | ticks _ _ => exact hapart
  | stopsStream _ _ => exact hapart
  | stopsRetry _ => exact hapart
  | stopsReconnect _ => exact hapart
  | answered _ => exact hsame (by simp [setTask])
  | called _ => exact hsame (by simp [setTask])
  | cancelled => exact hsame (by simp [drop, setTask])
  | crashed => cases hlive
  | _ => exact hsame rfl

theorem orderly_step {w w' : LiveWorld G κ} (horderly : w.Orderly) {a : LiveAction π κ}
    (hapart : w.HandlersApart a) (hstep : w.step C cfg a = some w') : w'.Orderly := by
  have hco := coherent_step horderly.coherent hstep
  cases stepped_of_step horderly.coherent hstep with
  | polled _ hpolled => exact horderly.polled hco hpolled
  | shifted hshifts =>
      exact horderly.shifted hco hshifts (horderly.stream_clear hapart hstep)
  | crashed _ hcrashed =>
      subst hcrashed
      exact ⟨hco, fun _ => FairMutex.fair_free,
        fun x _ r => FairMutex.not_involves_free x, nofun, nofun⟩

omit [DecidableEq π] [DecidableEq μ] [DecidableEq κ] in
theorem Idle.orderly {w : LiveWorld G κ} (hidle : w.Idle) : w.Orderly := by
  refine ⟨hidle.coherent, fun r => ?_, fun x _ r => ?_, fun x task htask => ?_, ?_⟩
  · rw [hidle.mutexes r]
    exact FairMutex.fair_free
  · rw [hidle.mutexes r]
    exact FairMutex.not_involves_free x
  · exact absurd htask (hidle.no_task x task)
  · rw [hidle.tasks]
    nofun

section Results

/-- The results that the live loop waits for in its phase. -/
def ResultFits (phase : LivePhase) : Waiter κ → TaskResult G → Prop
  | .live, result => match phase with
    | .connecting => ∃ connected, result = .connected connected
    | _ => result = .saved
  | .stream, result => ∃ outcome, result = .streamed outcome
  | .caller _, _ => True

/-- Every task ends in a result that the loop can take. -/
def Fits (w : LiveWorld G κ) : Prop :=
  ∀ x task, w.tasks x = some task →
    task.Ends (fun _ _ _ => True) fun out => ResultFits w.phase x out.1

omit [DecidableEq μ] [DecidableEq κ] in
theorem starts_fits {w w' : LiveWorld G κ} {x : Waiter κ} {task : RunnerTask G}
    (hstarts : Starts C w w' x task) :
    task.Ends (fun _ _ _ => True) fun out => ResultFits w'.phase x out.1 := by
  cases hstarts with
  | saving hphase =>
      refine Future.Ends.bind (Future.Ends.of_forall (fun _ => ?_) _)
      change ResultFits w'.phase (.live : Waiter κ) .saved
      cases hw : w'.phase <;> first | rfl | exact absurd hw hphase
  | connecting hphase =>
      refine Future.Ends.bind (Future.Ends.of_forall (fun result => ?_) _)
      change ResultFits w'.phase (.live : Waiter κ) (.connected result)
      rw [hphase]
      exact ⟨result, rfl⟩
  | streaming _ =>
      exact Future.Ends.bind (Future.Ends.of_forall (fun result => ⟨result, rfl⟩) _)
  | calling k c => exact Future.Ends.of_forall (fun _ => trivial) _

theorem fits_step {w w' : LiveWorld G κ} (hco : w.Coherent) (hfits : w.Fits)
    {a : LiveAction π κ} (hstep : w.step C cfg a = some w') : w'.Fits := by
  intro y task hy
  cases stepped_of_step hco hstep with
  | @polled x answer _ hpolled =>
      cases hpolled with
      | pending _ _ _ hnext =>
          subst hnext
          exact hfits y task hy
      | served htask _ _ _ hnext =>
          subst hnext
          rcases task_of_update hy with ⟨rfl, rfl⟩ | ⟨-, hold⟩
          · exact hfits _ _ htask _ trivial
          · exact hfits y task hold
  | shifted hshifts =>
      rcases (hshifts.slot y).task_cases hy with hsame | ⟨-, hstarts⟩
      · have hold := hfits y task (hsame ▸ hy)
        cases y with
        | live =>
            rw [hshifts.phase (by rw [← hsame, hy]; rfl) hsame]
            exact hold
        | stream => exact hold
        | caller k => exact hold
      · exact starts_fits hstarts
  | crashed _ hcrashed =>
      subst hcrashed
      cases hy

end Results

/-- Every operation can be answered. -/
theorem serve_total (op : RunnerOp π μ) (s : StoreState G) :
    ∃ answer out, op.serve C answer s = some out := by
  cases op with
  | subscribeAllFrom p => exact ⟨.stream (.ok []), _, rfl⟩
  | writeTmp r => exact ⟨.result (.ok ()), _, rfl⟩
  | rename r => exact ⟨.result (.error ""), _, rfl⟩
  | dispatch work => exact ⟨.result (.ok ()), _, rfl⟩
  | appendDeadLetter work error => exact ⟨.result (.ok ()), _, rfl⟩
  | sendPosition n => exact ⟨.receivers true, _, rfl⟩
  | _ => exact ⟨.done, _, rfl⟩

/-- What the live task can do next: it is at rest, it waits for a timer or the
shutdown signal, it has a turn of its own to take, or the future that it runs is
at an operation that goes through, once answered. -/
inductive LiveGoesOn (C : Crates) (cfg : LiveConfig) (w : LiveWorld G κ) : Prop
  | rests (hphase : w.phase = .off ∨ ∃ result, w.phase = .returned result)
  | waits (hphase : w.phase = .retryWait ∨ w.phase = .reconnectWait)
  | turns {a : LiveAction π κ} {w' : LiveWorld G κ}
      (hown : a = .loopHead ∨ a = .settle .live ∨ a = .settle .stream)
      (hstep : w.step C cfg a = some w')
  | runs {x : Waiter κ} {op : RunnerOp π μ} {answer : RunnerAnswer} {w' : LiveWorld G κ}
      (hown : x = .live ∨ x = .stream) (hop : w.op? x = some op)
      (hgranted : (op.lockUse.poll x w.mutexes).1 = true)
      (hstep : w.step C cfg (.poll x answer) = some w')

/-- A future that the loop runs, and that is not kept from a mutex. -/
theorem goesOn_of_await {w : LiveWorld G κ} {x : Waiter κ}
    (hown : x = .live ∨ x = .stream) (hpolls : w.polls x = true)
    (hfair : ∀ r, (w.mutexes r).Fair)
    (howner : ∀ r, (w.mutexes r).owner = none ∨ (w.mutexes r).owner = some x)
    {l : List (Work μ)} {op : RunnerOp π μ} {resume : op.Res G → RunnerTask G}
    (htask : w.tasks x = some (.await l op resume)) : LiveGoesOn C cfg w := by
  obtain ⟨answer, out, hserve⟩ := serve_total (C := C) op w.store
  have hgranted : (op.lockUse.poll x w.mutexes).1 = true := by
    cases op.lockUse with
    | acquire r => exact FairMutex.poll_granted (hfair r) (howner r)
    | release r => rfl
    | nothing => rfl
  have hsome : (w.step C cfg (.poll x answer)).isSome := by
    simp [step, pollTask, htask, hpolls, hgranted, hserve]
  obtain ⟨w', hstep⟩ := Option.isSome_iff_exists.mp hsome
  exact .runs hown (by rw [op?, htask]) hgranted hstep

omit [DecidableEq π] [DecidableEq μ] in
/-- The loop can take the result of its own future. -/
theorem settleLive_of_ready {w : LiveWorld G κ} (hfits : w.Fits) (hbusy : w.phase.busy = true)
    {out : TaskResult G × List (Work μ)} (hready : w.tasks .live = some (.ready out)) :
    ∃ w', w.settleLive C cfg = some w' := by
  obtain ⟨result, dropped⟩ := out
  have hfit : ResultFits w.phase (.live : Waiter κ) result := hfits _ _ hready
  unfold settleLive
  rw [hready]
  cases hphase : w.phase with
  | connecting =>
      rw [hphase] at hfit
      obtain ⟨connected, rfl⟩ := hfit
      cases connected <;> exact ⟨_, rfl⟩
  | streaming handler =>
      rw [hphase] at hfit hbusy
      obtain rfl : result = .saved := hfit
      rcases handler with _ | _ | _
      · cases hbusy
      · exact ⟨_, rfl⟩
      · exact ⟨_, rfl⟩
  | saving next =>
      rw [hphase] at hfit
      obtain rfl : result = .saved := hfit
      exact ⟨_, rfl⟩
  | _ =>
      rw [hphase] at hbusy
      cases hbusy

omit [DecidableEq π] [DecidableEq μ] in
/-- The loop can take the outcome of its stream. -/
theorem settleStream_of_ready {w : LiveWorld G κ} (hfits : w.Fits)
    (hphase : w.phase = .streaming none) {out : TaskResult G × List (Work μ)}
    (hready : w.tasks .stream = some (.ready out)) : ∃ w', w.settleStream = some w' := by
  obtain ⟨result, dropped⟩ := out
  obtain ⟨outcome, rfl⟩ : ∃ outcome, result = .streamed outcome := hfits _ _ hready
  unfold settleStream
  rw [hready, hphase]
  exact ⟨_, rfl⟩

/-- An orderly world in which no caller holds a mutex lets the live task go on. -/
theorem goesOn_of_orderly {w : LiveWorld G κ} (horderly : w.Orderly) (hfits : w.Fits)
    (hcallers : ∀ k r, (w.mutexes r).owner ≠ some (.caller k)) :
    LiveGoesOn C cfg w := by
  -- a mutex is free, or owned by the loop itself or by its stream
  have howner : ∀ x : Waiter κ, x = .live ∨ x = .stream →
      (∀ y : Waiter κ, y = .live ∨ y = .stream → y ≠ x → Clear w.mutexes y) →
      ∀ r, (w.mutexes r).owner = none ∨ (w.mutexes r).owner = some x := by
    intro x _ hothers r
    cases hr : (w.mutexes r).owner with
    | none => exact Or.inl rfl
    | some y =>
        by_cases hyx : y = x
        · exact Or.inr (congrArg some hyx)
        · cases y with
          | caller k => exact absurd hr (hcallers k r)
          | live => exact absurd (Or.inl hr) (hothers .live (Or.inl rfl) hyx r)
          | stream => exact absurd (Or.inl hr) (hothers .stream (Or.inr rfl) hyx r)
  have hbusy : w.phase.busy = true → LiveGoesOn C cfg w := by
    intro hbusy
    have hlive := horderly.coherent.live
    rw [hbusy, Option.isSome_iff_exists] at hlive
    obtain ⟨task, htask⟩ := hlive
    cases task with
    | ready out =>
        obtain ⟨w', hstep⟩ := settleLive_of_ready (C := C) hfits hbusy htask
        exact .turns (Or.inr (Or.inl rfl)) hstep
    | await l op resume =>
        refine goesOn_of_await (Or.inl rfl) rfl horderly.fair
          (howner .live (Or.inl rfl) fun y hy hne => ?_) htask
        rcases hy with rfl | rfl
        · exact absurd rfl hne
        · exact horderly.apart (by rw [htask]; rfl)
  cases hphase : w.phase with
  | off => exact .rests (Or.inl hphase)
  | returned result => exact .rests (Or.inr ⟨result, hphase⟩)
  | retryWait => exact .waits (Or.inl hphase)
  | reconnectWait => exact .waits (Or.inr hphase)
  | connecting => exact hbusy (by rw [hphase]; rfl)
  | saving next => exact hbusy (by rw [hphase]; rfl)
  | head =>
      obtain ⟨w', hstep⟩ : ∃ w', w.step C cfg .loopHead = some w' := by
        simp only [step, hphase]
        split <;> exact ⟨_, rfl⟩
      exact .turns (Or.inl rfl) hstep
  | streaming handler =>
      cases handler with
      | some handler => exact hbusy (by rw [hphase]; rfl)
      | none =>
          have hstream := horderly.coherent.stream
          have hnone := horderly.coherent.live
          rw [hphase] at hstream hnone
          obtain ⟨task, htask⟩ := Option.isSome_iff_exists.mp hstream
          cases task with
          | ready out =>
              obtain ⟨w', hstep⟩ := settleStream_of_ready hfits hphase htask
              exact .turns (Or.inr (Or.inr rfl)) hstep
          | await l op resume =>
              refine goesOn_of_await (Or.inr rfl) (by simp [polls, hphase]) horderly.fair
                (howner .stream (Or.inr rfl) fun y hy hne => ?_) htask
              rcases hy with rfl | rfl
              · exact horderly.idle _ (by simpa [LivePhase.busy] using hnone)
              · exact absurd rfl hne

/-- What such a run keeps. -/
structure Steady (w : LiveWorld G κ) : Prop where
  orderly : w.Orderly
  fits : w.Fits

/-- In every run that starts no handler while the stream of the live loop stands at
a mutex: whenever no caller holds the mutex of a runner, the live task goes on,
and it does not wait for a mutex that its own stream has been handed. -/
theorem live_never_stuck {w₀ w : LiveWorld G κ} (hidle : w₀.Idle)
    (hreach : Reaches (step C cfg) HandlersApart w₀ w)
    (hcallers : ∀ k r, (w.mutexes r).owner ≠ some (.caller k)) :
    LiveGoesOn C cfg w ∧
      ∀ r, w.op? .live = some (.lock r) → (w.mutexes r).owner ≠ some .stream := by
  have hfits₀ : w₀.Fits := fun x task htask => absurd htask (hidle.no_task x task)
  have hsteady : w.Steady := hreach.invariant ⟨hidle.orderly, hfits₀⟩
    fun _ _ _ hsteady hapart hstep => ⟨orderly_step hsteady.orderly hapart hstep,
      fits_step hsteady.orderly.coherent hsteady.fits hstep⟩
  obtain ⟨horderly, hfits⟩ := hsteady
  refine ⟨goesOn_of_orderly horderly hfits hcallers, fun r hop howner => ?_⟩
  have hlive : (w.tasks .live).isSome := by
    unfold op? at hop
    split at hop
    · rename_i htask
      rw [htask]
      rfl
    · cases hop
  exact horderly.apart hlive r (Or.inl howner)

end LiveWorld

namespace LiveWitness

open LiveWorld RunnerAnswer

/-- The live loop connects and waits for the first event. -/
def connecting : List (LiveAction Unit Unit) :=
  [.startLive, .loopHead] ++ polls .live [done, done, done, delivery] ++ [.settle .live]

/-- The timer ticks there, and the loop takes the mutex of the projection. -/
def waiting : List (LiveAction Unit Unit) :=
  connecting ++ [.tick] ++ polls .live [done]

theorem waiting_handlersApart :
    AllOk (step crates delays) HandlersApart (opened (shop [()] [])) waiting := by
  unfold waiting connecting polls
  simp only [List.map_cons, List.map_nil, List.cons_append, List.nil_append]
  repeat' refine allOk_cons ?_ rfl ?_
  all_goals first | trivial | skip
  intro r
  rcases r with p | m
  · exact FairMutex.not_involves_free _
  · exact FairMutex.not_involves_free _

theorem live_never_stuck_waiting :
    ∃ w, runActions (step crates delays) (opened (shop [()] [])) waiting = some w ∧
      LiveGoesOn crates delays w ∧
        ∀ r, w.op? .live = some (.lock r) → (w.mutexes r).owner ≠ some .stream := by
  refine ⟨_, rfl, ?_⟩
  have hreach : Reaches (step crates delays) HandlersApart (opened (shop [()] [])) _ :=
    .run .start waiting waiting_handlersApart rfl
  refine live_never_stuck (opened_idle _) hreach fun k r => ?_
  rcases r with p | m
  · nofun
  · nofun

/-- A call holds the mutex of the projection, the stream queues behind it, the timer
ticks, the loop queues behind its stream, and the call ends. -/
def queueing : List (LiveAction Unit Unit) :=
  connecting ++ .call () (.projection ()) :: polls (.caller ()) [done] ++
    polls .stream [done, done] ++ [.tick] ++ polls .live [done] ++
    polls (.caller ()) [done, delivery, done, done, done, ok, ok, done, done] ++
    [.settle (.caller ())]

/-- No call runs any more, and the loop waits for a mutex that has been handed to its
own stream, which it does not poll. -/
theorem tick_gets_stuck :
    ∃ w, Reaches (step crates delays) (fun _ _ => True) (opened (shop [()] [])) w ∧
      (∀ k r, (w.mutexes r).owner ≠ some (.caller k)) ∧
      w.op? .live = some (.lock (.inl ())) ∧ (w.mutexes (.inl ())).owner = some .stream ∧
      ¬ LiveGoesOn crates delays w := by
  refine ⟨_, .of_runActions queueing rfl, fun k r => ?_, rfl, rfl, ?_⟩
  · rcases r with p | m
    · nofun
    · nofun
  · intro hgoes
    cases hgoes with
    | rests hphase =>
        rcases hphase with hoff | ⟨result, hreturned⟩
        · cases hoff
        · cases hreturned
    | waits hphase =>
        rcases hphase with hretry | hreconnect
        · cases hretry
        · cases hreconnect
    | turns hown hstep =>
        rcases hown with rfl | rfl | rfl
        · cases hstep
        · cases hstep
        · cases hstep
    | runs hown hop hgranted hstep =>
        rcases hown with rfl | rfl
        · cases hop
          cases hgranted
        · cases hstep

end LiveWitness

end EventfoldEs
