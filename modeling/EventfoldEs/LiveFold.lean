/-
Pull passes, the live loop, saves and crashes together: every checkpoint, in
memory and on disk, is the fold of the log below its cursor.
-/
import EventfoldEs.LiveSafety

namespace EventfoldEs

open Async OrderedLog

variable (C : Crates) {π μ κ : Type} {G : Registry π μ}
variable [DecidableEq π] [DecidableEq μ] [DecidableEq κ]

/-- A task on the terms of the store.  A stream that the live loop is about to
read starts behind every registered runner. -/
def RunnerTask.SafeAt (log : List RecordedEvent) (task : RunnerTask G) (s : StoreState G) :
    Prop :=
  task.Safe (foldTerms C log) (fun out t => ∀ items, out.1 = .connected (.ok items) →
    ∃ p, Segment RecordedEvent.globalPosition log p (itemEvents items) ∧
      ∀ r ∈ G.runners, p ≤ t.cursor r) s

variable {C} {log : List RecordedEvent}

theorem RunnerTask.SafeAt.stable {task : RunnerTask G} {s t : StoreState G}
    (hsafe : task.SafeAt C log s) (hrely : (foldTerms C log).rely s t) :
    task.SafeAt C log t := by
  refine Future.Safe.stable (fun out s t hout hrely items hok => ?_) hsafe hrely
  obtain ⟨p, hseg, hp⟩ := hout items hok
  exact ⟨p, hseg, fun r hr => Nat.le_trans (hp r hr) (hrely.1 r)⟩

/-- A function that returns nothing to the loop but its result. -/
theorem safeAt_of_safe {α : Type} (wrap : α → TaskResult G × List (Work μ))
    {fut : RunnerFuture G α} {s : StoreState G}
    (hsafe : fut.Safe (foldTerms C log) (fun _ _ => True) s)
    (hwrap : ∀ a items, (wrap a).1 ≠ .connected (.ok items)) :
    RunnerTask.SafeAt C log (fut.bind fun a => .ready (wrap a)) s :=
  hsafe.bind fun a _ _ items hok => absurd hok (hwrap a items)

theorem savingTask_safeAt (s : StoreState G) : savingTask.SafeAt C log s :=
  safeAt_of_safe (fun _ => (.saved, [])) (safe_of_quiet (saveCheckpoints_quiet _)) nofun

theorem connectTask_safeAt (s : StoreState G) : connectTask.SafeAt C log s :=
  (connect_safe s).bind fun _ _ hresult items hok =>
    hresult items (TaskResult.connected.inj hok)

theorem Call.task_safeAt (hlog : Increasing RecordedEvent.globalPosition log) (c : Call π)
    (s : StoreState G) : RunnerTask.SafeAt C log (c.task C) s := by
  cases c with
  | projection p =>
      exact safeAt_of_safe (fun result => (.projection p result, []))
        (projection_safe hlog p s) nofun
  | liveProjection p =>
      exact safeAt_of_safe (fun result => (.projection p result, []))
        (liveProjection_safe hlog p s) nofun
  | runProcessManagers =>
      refine (runProcessManagers_safe hlog s).bind fun result t _ => ?_
      rcases result with ⟨e, dropped⟩ | report <;> exact nofun

namespace LiveWorld

variable (C log) in
/-- What every run keeps: checkpoints are folds, and every task is on the terms
of the store. -/
structure Folds (w : LiveWorld G κ) : Prop where
  coherent : w.Coherent
  store : w.store.Consistent C log
  tasks : ∀ x task, w.tasks x = some task → task.SafeAt C log w.store

/-- `subscribe_all_from` delivers what the log has from its position on, in
order, until the stream ends or fails. -/
def Streams (log : List RecordedEvent) (w : LiveWorld G κ) : LiveAction π κ → Prop
  | .poll x (.stream (.ok items)) => ∀ p, w.op? x = some (.subscribeAllFrom p) →
      Segment RecordedEvent.globalPosition log p (itemEvents items)
  | _ => True

omit [DecidableEq κ] in
theorem Streams.delivers {w : LiveWorld G κ} {x : Waiter κ} {answer : RunnerAnswer}
    (hstreams : w.Streams log (.poll x answer)) {l : List (Work μ)} {op : RunnerOp π μ}
    {resume : op.Res G → RunnerTask G} (htask : w.tasks x = some (.await l op resume))
    {r : op.Res G} {s : StoreState G} (hserve : op.serve C answer w.store = some (r, s)) :
    op.Delivers log r := by
  cases op with
  | subscribeAllFrom p =>
      rcases answer with _ | ⟨_ | _⟩ | result | _ <;> cases hserve
      intro items hok
      subst hok
      exact hstreams p (by rw [op?, htask])
  | _ => trivial

/-- The store is the same for a task that has not been polled. -/
theorem rely_of_sameRunners {s t : StoreState G} (hs : s.Consistent C log)
    (hsame : s.SameRunners t) : (foldTerms C log).rely s t := by
  obtain ⟨hmemory, htmp, hdisk⟩ := hs
  refine ⟨fun r => Nat.le_of_eq ?_, ⟨?_, ?_, ?_⟩⟩
  · unfold StoreState.cursor
    rw [hsame.memory]
  · rw [hsame.memory]
    exact hmemory
  · rw [hsame.tmp]
    exact htmp
  · rw [hsame.disk]
    exact hdisk

omit [DecidableEq κ] in
/-- What a poll that goes through keeps, and what it promises about what has been
produced. -/
theorem Folds.served {w : LiveWorld G κ} (hfolds : w.Folds C log) {x : Waiter κ}
    {answer : RunnerAnswer} (hstreams : w.Streams log (.poll x answer))
    {l : List (Work μ)} {op : RunnerOp π μ} {resume : op.Res G → RunnerTask G}
    (htask : w.tasks x = some (.await l op resume)) {r : op.Res G} {s : StoreState G}
    (hserve : op.serve C answer w.store = some (r, s)) :
    (foldTerms C log).guarantee op r w.store s ∧
      RunnerTask.SafeAt C log (resume r) s := by
  have hsafe := hfolds.tasks x _ htask
  exact Future.Safe.served hsafe ⟨fun _ => Nat.le_refl _, hfolds.store⟩
    ⟨hstreams.delivers htask hserve, answer, hserve⟩

theorem folds_step (hlog : Increasing RecordedEvent.globalPosition log) {cfg : LiveConfig}
    {w w' : LiveWorld G κ} (hfolds : w.Folds C log) {a : LiveAction π κ}
    (hstreams : w.Streams log a) (hstep : w.step C cfg a = some w') : w'.Folds C log := by
  have hco := coherent_step hfolds.coherent hstep
  cases stepped_of_step hfolds.coherent hstep with
  | @polled x answer haction hpolled =>
      subst haction
      cases hpolled with
      | pending _ _ _ hnext =>
          subst hnext
          exact ⟨hco, hfolds.store, hfolds.tasks⟩
      | @served l op resume r s htask _ _ hserve hnext =>
          subst hnext
          obtain ⟨hguar, hrest⟩ := hfolds.served hstreams htask hserve
          refine ⟨hco, hguar.2.1, fun y task hy => ?_⟩
          rcases task_of_update hy with ⟨rfl, rfl⟩ | ⟨-, hold⟩
          · exact hrest
          · exact (hfolds.tasks y task hold).stable ⟨hguar.1, hguar.2.1⟩
  | shifted hshifts =>
      have hrely := rely_of_sameRunners hfolds.store hshifts.store
      refine ⟨hco, hrely.2, fun x task htask => ?_⟩
      rcases (hshifts.slot x).task_cases htask with hsame | ⟨-, hstarts⟩
      · exact (hfolds.tasks x task (hsame ▸ htask)).stable hrely
      · cases hstarts with
        | saving _ => exact savingTask_safeAt _
        | connecting _ => exact connectTask_safeAt _
        | calling k c => exact c.task_safeAt hlog _
        | streaming hlive =>
            obtain ⟨p, hseg, hp⟩ := hfolds.tasks _ _ hlive _ rfl
            refine safeAt_of_safe (fun result => (.streamed result, [])) ?_ ?_
            · exact processStreamWithDispatch_safe hlog _ hseg
                fun r hr => Nat.le_trans (hp r hr) (hrely.1 r)
            · intro result items hconnected
              cases hconnected
  | crashed _ hcrashed =>
      subst hcrashed
      refine ⟨hco, ⟨fun r => ?_, hfolds.store.tmp, hfolds.store.disk⟩, ?_⟩
      · cases hdisk : w.store.disk r with
        | none =>
            simp only [crashed, hdisk, Option.getD_none]
            exact Runner.start_consistent _ _
        | some checkpoint =>
            simp only [crashed, hdisk, Option.getD_some]
            exact hfolds.store.disk r checkpoint hdisk
      · intro x task htask
        cases htask

omit [DecidableEq κ] in
theorem Idle.folds {w : LiveWorld G κ} (hidle : w.Idle) (hstart : w.store.Consistent C log) :
    w.Folds C log :=
  ⟨hidle.coherent, hstart, fun x task htask => absurd htask (hidle.no_task x task)⟩

theorem folds_of_reaches (hlog : Increasing RecordedEvent.globalPosition log)
    {cfg : LiveConfig} {w₀ w : LiveWorld G κ} (hidle : w₀.Idle) (hstart : w₀.store.Consistent C log)
    (hreach : Reaches (step C cfg) (Streams log) w₀ w) : w.Folds C log :=
  hreach.invariant (hidle.folds hstart)
    fun _ _ _ hfolds hstreams hstep => folds_step hlog hfolds hstreams hstep

/-- The task of `x` is about to hand the runner this event. -/
def Hands (w : LiveWorld G κ) (x : Waiter κ) (r : π ⊕ μ) (recorded : RecordedEvent) : Prop :=
  (w.op? x).bind RunnerOp.takes? = some (r, recorded)

theorem store_of_hands {cfg : LiveConfig} {w w' : LiveWorld G κ} {x : Waiter κ}
    {r : π ⊕ μ} {recorded : RecordedEvent} {answer : RunnerAnswer}
    (hhands : w.Hands x r recorded) (hstep : w.step C cfg (.poll x answer) = some w') :
    w'.store = (w.store.event C r recorded).1 := by
  obtain ⟨op, hop, htakes⟩ := Option.bind_eq_some_iff.mp hhands
  cases polled_of_pollTask hstep with
  | @pending l op' resume htask _ hpending _ =>
      rw [op?, htask] at hop
      cases hop
      rw [lockUse_of_takes htakes] at hpending
      cases hpending
  | @served l op' resume out store htask _ _ hserve hnext =>
      rw [op?, htask] at hop
      cases hop
      subst hnext
      exact (serve_takes htakes hserve).1

/-- In every state of every run each checkpoint, in memory and on disk, is the
default state folded with exactly the decodable events below its cursor, once
each and in order; and every step that hands a runner an event, decodable or not,
leaves its cursor just past it, if it is not past it already. -/
theorem checkpoints_are_folds (hlog : Increasing RecordedEvent.globalPosition log)
    {cfg : LiveConfig} {w₀ w : LiveWorld G κ} (hidle : w₀.Idle)
    (hstart : w₀.store.Consistent C log)
    (hreach : Reaches (step C cfg) (Streams log) w₀ w) (r : π ⊕ μ) :
    (∀ checkpoint, checkpoint = w.store.memory r ∨ w.store.disk r = some checkpoint →
      checkpoint.state = ((below RecordedEvent.globalPosition log
        checkpoint.lastGlobalPosition).filterMap (decodeStoredEvent C)).foldl
          (G.runner r).next (G.runner r).default) ∧
    ∀ x recorded answer w', w.Hands x r recorded →
      w.step C cfg (.poll x answer) = some w' →
        w'.store.cursor r = max (w.store.cursor r) (recorded.globalPosition + 1) ∧
        (decodeStoredEvent C recorded = none →
          (w'.store.memory r).state = (w.store.memory r).state) := by
  refine ⟨fun checkpoint hcheckpoint => ?_, fun x recorded answer w' hhands hstep => ?_⟩
  · have hfolds := (folds_of_reaches hlog hidle hstart hreach).store
    rcases hcheckpoint with rfl | hdisk
    · exact hfolds.memory r
    · exact hfolds.disk r checkpoint hdisk
  · rw [store_of_hands hhands hstep]
    exact event_moves w.store r recorded

end LiveWorld

namespace LiveWitness

open LiveWorld RunnerAnswer

inductive Manager
  | billing
  | audit
deriving DecidableEq

def orderId : String := "00000000-0000-0000-0000-000000000001"

def orderMetadata : String := "\x7b\"aggregate_type\":\"order\",\"instance_id\":\"o-1\"\x7d"

/-- Stand-ins for the crates that read the one event of the log. -/
def crates : Crates where
  newV5 _ _ := 0
  uuidToString _ := orderId
  uuidParseStr text := if text = orderId then some 1 else none
  toVec _ := none
  fromStr text :=
    if text = orderMetadata then
      some (.object [("aggregate_type", .string "order"), ("instance_id", .string "o-1")])
    else none
  statusToString status := status.message
  joinErrorToString message := message

def placed : RecordedEvent where
  eventId := orderId
  streamId := orderId
  streamVersion := 0
  globalPosition := 0
  eventType := "Placed"
  metadata := orderMetadata.toUTF8
  payload := .empty
  recordedAt := 0

def orderLog : List RecordedEvent := [placed]

theorem orderLog_increasing : Increasing RecordedEvent.globalPosition orderLog :=
  List.pairwise_singleton _ _

def ordersSeen : Projection where
  name := "orders-seen"
  State := Nat
  default := 0
  apply seen _ := seen + 1

def sendInvoice : CommandEnvelope := ⟨"invoice", "i-1", .null, .default⟩

def reacting (name : String) (produced : List CommandEnvelope) : ProcessManager where
  name := name
  State := Nat
  default := 0
  react seen _ := (seen + 1, produced)

/-- Billing asks for an invoice for each order; audit only counts. -/
def manager : Manager → ProcessManager
  | .billing => reacting "billing" [sendInvoice]
  | .audit => reacting "audit" []

def shop (projections : List Unit) (processManagers : List Manager) :
    Registry Unit Manager where
  projection _ := ordersSeen
  processManager := manager
  projections := projections
  processManagers := processManagers
  dispatchers := ["invoice"]

def delays : LiveConfig := .default

/-- A store that has just been opened for the first time. -/
def opened (G : Registry Unit Manager) : LiveWorld G Unit where
  store := {
    memory := fun r => (G.runner r).start
    tmp := fun _ => none
    disk := fun _ => none
    dispatched := []
    deadLetterTried := []
    deadLetters := []
    liveHandle := false
    caughtUp := false
    position := 0 }
  mutexes _ := .free
  tasks _ := none
  phase := .off
  shutdown := false
  backoffDelay := .zero

theorem opened_idle (G : Registry Unit Manager) : (opened G).Idle :=
  ⟨fun _ => rfl, fun _ => rfl, rfl⟩

theorem opened_consistent (G : Registry Unit Manager) :
    (opened G).store.Consistent crates orderLog :=
  ⟨fun _ => Runner.start_consistent _ _, nofun, nofun⟩

/-- The stream from position 0: the one event, then the live part begins. -/
def delivery : RunnerAnswer := .stream (.ok [.ok (.event placed), .ok .caughtUp])

def ok : RunnerAnswer := .result (.ok ())

def polls (x : Waiter Unit) (answers : List RunnerAnswer) : List (LiveAction Unit Unit) :=
  answers.map (.poll x)

/-- `Streams`, evaluated. -/
def streams {G : Registry Unit Manager} (w : LiveWorld G Unit) :
    LiveAction Unit Unit → Bool
  | .poll x (.stream (.ok items)) => match w.op? x with
    | some (.subscribeAllFrom p) =>
        decide (Segment RecordedEvent.globalPosition orderLog p (itemEvents items))
    | _ => true
  | _ => true

theorem streams_sound {G : Registry Unit Manager} (w : LiveWorld G Unit)
    (a : LiveAction Unit Unit) (hcheck : streams w a = true) : w.Streams orderLog a := by
  unfold Streams
  split
  · intro p hop
    simpa only [streams, hop, decide_eq_true_eq] using hcheck
  · trivial

/-- A projection catches up, is saved, and survives a crash. -/
def projecting : List (LiveAction Unit Unit) :=
  .call () (.projection ()) :: polls (.caller ())
    [done, done, delivery, done, done, done, ok, ok, done, done] ++
      [.settle (.caller ()), .crash]

/-- The loop has the event in its stream; a call projects it and saves; then the loop is
to hand it on. -/
def overlapping : List (LiveAction Unit Unit) :=
  [.startLive, .loopHead] ++ polls .live [done, done, done, delivery] ++ [.settle .live] ++
    projecting.dropLast ++ polls .stream [done, done]

theorem checkpoints_are_folds_overlapping :
    ∃ w, runActions (step crates delays) (opened (shop [()] [])) overlapping = some w ∧
      w.Hands .stream (.inl ()) placed ∧
      (∀ checkpoint, checkpoint = w.store.memory (.inl ()) ∨
          w.store.disk (.inl ()) = some checkpoint →
        checkpoint.state = ((below RecordedEvent.globalPosition orderLog
          checkpoint.lastGlobalPosition).filterMap (decodeStoredEvent crates)).foldl
            (Runner.projection ordersSeen).next (0 : Nat)) ∧
      ∀ x recorded answer w', w.Hands x (.inl ()) recorded →
        w.step crates delays (.poll x answer) = some w' →
          w'.store.cursor (.inl ()) =
            max (w.store.cursor (.inl ())) (recorded.globalPosition + 1) ∧
          (decodeStoredEvent crates recorded = none →
            (w'.store.memory (.inl ())).state = (w.store.memory (.inl ())).state) := by
  obtain ⟨w, hrun, hhands⟩ : ∃ w, runActions (step crates delays) (opened (shop [()] []))
      overlapping = some w ∧ w.Hands .stream (.inl ()) placed := ⟨_, rfl, rfl⟩
  exact ⟨w, hrun, hhands, checkpoints_are_folds orderLog_increasing (opened_idle _)
    (opened_consistent _) (.of_checks streams_sound overlapping rfl hrun) (.inl ())⟩

end LiveWitness

end EventfoldEs
