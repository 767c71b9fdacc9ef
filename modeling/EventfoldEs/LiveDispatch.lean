/-
What becomes of the envelopes over whole runs, and when a checkpoint on disk is
ahead of the dispatches.
-/
import EventfoldEs.LiveFold
import EventfoldEs.LiveEnvelopes

namespace EventfoldEs

open Async OrderedLog

variable {C : Crates} {π μ κ : Type} {G : Registry π μ}
variable [DecidableEq π] [DecidableEq μ] [DecidableEq κ]

namespace StoreState

/-- The envelope was dispatched, or the write of its dead letter was attempted. -/
def Handled (s : StoreState G) (work : Work μ) : Prop :=
  work ∈ s.dispatched ∨ work ∈ s.deadLetterTried

/-- The envelope was dispatched, or its dead letter was written. -/
def Settled (s : StoreState G) (work : Work μ) : Prop :=
  work ∈ s.dispatched ∨ ∃ error, (work, error) ∈ s.deadLetters

end StoreState

/-- The records of what became of the envelopes only grow, by what an operation
disposes of. -/
theorem serve_records {op : RunnerOp π μ} {answer : RunnerAnswer} {s t : StoreState G}
    {r : op.Res G} (hserve : op.serve C answer s = some (r, t)) :
    (∀ work, s.Handled work → t.Handled work) ∧
      (∀ work, s.Settled work → t.Settled work) ∧
      (∀ work ∈ op.disposes r, t.Handled work) := by
  cases op with
  | dispatch work =>
      rcases answer with _ | ⟨_ | _⟩ | _ | _ <;> cases hserve
      · exact ⟨fun _ h => h, fun _ h => h, fun _ h => nomatch h⟩
      · refine ⟨fun _ h => h.imp_left (List.mem_append_left _),
          fun _ h => h.imp_left (List.mem_append_left _), fun other hother => ?_⟩
        exact Or.inl (List.mem_append_right _ hother)
  | appendDeadLetter work error =>
      rcases answer with _ | ⟨_ | _⟩ | _ | _ <;> cases hserve
      · refine ⟨fun _ h => h.imp_right (List.mem_append_left _), fun _ => id,
          fun other hother => ?_⟩
        exact Or.inr (List.mem_append_right _ hother)
      · refine ⟨fun _ h => h.imp_right (List.mem_append_left _),
          fun _ h => h.imp_right fun ⟨e, he⟩ => ⟨e, List.mem_append_left _ he⟩,
          fun other hother => ?_⟩
        exact Or.inr (List.mem_append_right _ hother)
  | rename j =>
      rcases serve_rename hserve with rfl | ⟨checkpoint, -, rfl⟩ <;>
        exact ⟨fun _ h => h, fun _ h => h, fun _ h => nomatch h⟩
  | sendPosition n =>
      rcases answer with _ | ⟨_ | _⟩ | _ | any <;> cases hserve
      cases any <;> exact ⟨fun _ h => h, fun _ h => h, fun _ h => nomatch h⟩
  | _ =>
      rcases answer with _ | ⟨_ | _⟩ | _ | _ <;> cases hserve <;>
        exact ⟨fun _ h => h, fun _ h => h, fun _ h => nomatch h⟩

namespace LiveWorld

variable (C) in
/-- Every envelope produced for an event below a cursor in memory is done with,
or held by a task. -/
def Accounts (log : List RecordedEvent) (done : StoreState G → Work μ → Prop)
    (w : LiveWorld G κ) : Prop :=
  ∀ m, ∀ e ∈ w.store.emitted C log m, done w.store ⟨m, e⟩ ∨ ∃ x, ⟨m, e⟩ ∈ w.held x

/-- All tasks keep their envelopes. -/
def KeepsAll (w : LiveWorld G κ) : Prop :=
  ∀ x task, w.tasks x = some task → KeepsWork Prod.snd task

variable {log : List RecordedEvent} {done : StoreState G → Work μ → Prop}

omit [DecidableEq π] [DecidableEq μ] [DecidableEq κ] in
theorem held_of_task {w : LiveWorld G κ} {x : Waiter κ} {task : RunnerTask G}
    (htask : w.tasks x = some task) : w.held x = task.now Prod.snd := by
  rw [held, htask]

omit [DecidableEq π] [DecidableEq μ] [DecidableEq κ] in
theorem task_of_held {w : LiveWorld G κ} {x : Waiter κ} {work : Work μ}
    (hheld : work ∈ w.held x) :
    ∃ task, w.tasks x = some task ∧ work ∈ task.now Prod.snd := by
  unfold held at hheld
  split at hheld
  · exact ⟨_, ‹_›, hheld⟩
  · cases hheld

omit [DecidableEq π] [DecidableEq μ] [DecidableEq κ] in
theorem Idle.keepsAll {w : LiveWorld G κ} (hidle : w.Idle) : w.KeepsAll :=
  fun x task htask => absurd htask (hidle.no_task x task)

theorem keepsAll_step {cfg : LiveConfig} {w w' : LiveWorld G κ} (hco : w.Coherent)
    (hkeeps : w.KeepsAll) {a : LiveAction π κ} (hstep : w.step C cfg a = some w') :
    w'.KeepsAll := by
  intro y task hy
  cases stepped_of_step hco hstep with
  | @polled x answer _ hpolled =>
      cases hpolled with
      | pending _ _ _ hnext =>
          subst hnext
          exact hkeeps y task hy
      | served htask _ _ _ hnext =>
          subst hnext
          rcases task_of_update hy with ⟨rfl, rfl⟩ | ⟨-, hold⟩
          · exact (hkeeps _ _ htask _ trivial).2
          · exact hkeeps y task hold
  | shifted hshifts =>
      rcases (hshifts.slot y).task_cases hy with hsame | ⟨-, hstarts⟩
      · exact hkeeps y task (hsame ▸ hy)
      · exact starts_keeps C hstarts
  | crashed _ hcrashed =>
      subst hcrashed
      cases hy

/-- A poll that goes through moves envelopes from what is produced to a task, and
from the task to what is done with. -/
theorem accounts_served {w : LiveWorld G κ} (hfolds : w.Folds C log)
    (hkeeps : w.KeepsAll) (haccounts : w.Accounts C log done) {x : Waiter κ}
    {answer : RunnerAnswer} (hstreams : w.Streams log (.poll x answer))
    {l : List (Work μ)} {op : RunnerOp π μ} {resume : op.Res G → RunnerTask G}
    (htask : w.tasks x = some (.await l op resume)) {r : op.Res G} {s : StoreState G}
    (hserve : op.serve C answer w.store = some (r, s))
    (hgrows : ∀ work, done w.store work → done s work)
    (hdisposed : ∀ work ∈ op.disposes r, done s work) {w' : LiveWorld G κ}
    (hstore : w'.store = s)
    (htasks : w'.tasks = Function.update w.tasks x (some (resume r))) :
    w'.Accounts C log done := by
  obtain ⟨⟨-, -, hproduced⟩, -⟩ := hfolds.served hstreams htask hserve
  have hmoves := (hkeeps x _ htask r trivial).1
  have hself : w'.held x = (resume r).now Prod.snd :=
    held_of_task (by rw [htasks, Function.update_self])
  have hlocals : w.held x = l := held_of_task htask
  -- what the task has in view before the step
  have hview : ∀ work, work ∈ l ∨ work ∈ op.produced r →
      done w'.store work ∨ ∃ y, work ∈ w'.held y := by
    intro work hwork
    rcases hmoves work hwork with hheld | hdone
    · exact Or.inr ⟨x, hself ▸ hheld⟩
    · exact Or.inl (hstore ▸ hdisposed work hdone)
  intro m e he
  rw [hstore] at he
  rcases hproduced m e he with hold | hnew
  · rcases haccounts m e hold with hdone | ⟨y, hheld⟩
    · exact Or.inl (hstore ▸ hgrows _ hdone)
    · by_cases hyx : y = x
      · subst hyx
        exact hview _ (Or.inl (hlocals ▸ hheld))
      · refine Or.inr ⟨y, ?_⟩
        rw [held, htasks, Function.update_of_ne hyx]
        exact hheld
  · exact hview _ (Or.inr hnew)

omit [DecidableEq μ] in
/-- A step that polls nothing, and at which no task that leaves holds anything. -/
theorem accounts_shifted {w w' : LiveWorld G κ} {a : LiveAction π κ}
    (hshifts : Shifts C w a w') (hleaves : ∀ x, w.Leaves a x → w.held x = [])
    (hdone : ∀ work, done w.store work → done w'.store work)
    (haccounts : w.Accounts C log done) : w'.Accounts C log done := by
  intro m e he
  have hemitted : w'.store.emitted C log m = w.store.emitted C log m := by
    rw [StoreState.emitted, StoreState.cursor, hshifts.store.memory]
    rfl
  rw [hemitted] at he
  rcases haccounts m e he with hold | ⟨x, hheld⟩
  · exact Or.inl (hdone _ hold)
  · obtain ⟨task, htask, hnow⟩ := task_of_held hheld
    rcases hshifts.left x task htask with hstays | hleft
    · exact Or.inr ⟨x, held_of_task hstays ▸ hnow⟩
    · rw [hleaves x hleft] at hheld
      cases hheld

section Saved

variable (C) in
/-- All that a process manager has produced for the events below the cursor of a
checkpoint is handled. -/
def Covered (log : List RecordedEvent) (s : StoreState G) (r : π ⊕ μ)
    (checkpoint : Checkpoint (G.runner r).State) : Prop :=
  ∀ m, r = .inr m → ∀ e ∈ (G.runner r).emitted C log checkpoint.lastGlobalPosition,
    s.Handled ⟨m, e⟩

/-- No task ends or is dropped while it holds an envelope, and no checkpoint of a
process manager is written while a task still holds one of its envelopes. -/
structure LosesNothing (w : LiveWorld G κ) (a : LiveAction π κ) : Prop where
  leaves : ∀ x, w.Leaves a x → w.held x = []
  saves : ∀ x m, a = .poll x (.result (.ok ())) → w.op? x = some (.writeTmp (.inr m)) →
    ∀ y, ∀ work ∈ w.held y, work.pm ≠ m

variable (C log) in
/-- What every run that loses nothing keeps. -/
structure Covers (w : LiveWorld G κ) : Prop where
  folds : w.Folds C log
  keeps : w.KeepsAll
  accounts : w.Accounts C log StoreState.Handled
  tmp : ∀ r, ∀ checkpoint ∈ w.store.tmp r, Covered C log w.store r checkpoint
  disk : ∀ r, ∀ checkpoint ∈ w.store.disk r, Covered C log w.store r checkpoint

omit [DecidableEq π] [DecidableEq μ] in
theorem Covered.mono {s t : StoreState G} (hgrows : ∀ work, s.Handled work → t.Handled work)
    {r : π ⊕ μ} {checkpoint : Checkpoint (G.runner r).State}
    (hcovered : Covered C log s r checkpoint) : Covered C log t r checkpoint :=
  fun m hm e he => hgrows _ (hcovered m hm e he)

omit [DecidableEq π] [DecidableEq μ] in
/-- A checkpoint at position 0 has nothing below its cursor. -/
theorem covered_start (s : StoreState G) (r : π ⊕ μ) :
    Covered C log s r (G.runner r).start := by
  intro m _ e he
  rw [Runner.start, Runner.emitted_zero] at he
  cases he

omit [DecidableEq π] [DecidableEq μ] [DecidableEq κ] in
/-- A process manager that is saved while no task holds its envelopes. -/
theorem covered_of_memory {w : LiveWorld G κ}
    (haccounts : w.Accounts C log StoreState.Handled) (r : π ⊕ μ)
    (hfree : ∀ m, r = .inr m → ∀ y, ∀ work ∈ w.held y, work.pm ≠ m) :
    Covered C log w.store r (w.store.memory r) := by
  rintro m rfl e he
  rcases haccounts m e he with hdone | ⟨y, hheld⟩
  · exact hdone
  · exact absurd rfl (hfree m rfl y _ hheld)

theorem covers_step (hlog : Increasing RecordedEvent.globalPosition log) {cfg : LiveConfig}
    {w w' : LiveWorld G κ} (hcovers : w.Covers C log) {a : LiveAction π κ}
    (hstreams : w.Streams log a) (hloses : w.LosesNothing a)
    (hstep : w.step C cfg a = some w') : w'.Covers C log := by
  obtain ⟨hfolds, hkeeps, haccounts, htmp, hdisk⟩ := hcovers
  have hfolds' := folds_step hlog hfolds hstreams hstep
  have hkeeps' := keepsAll_step hfolds.coherent hkeeps hstep
  cases stepped_of_step hfolds.coherent hstep with
  | @polled x answer haction hpolled =>
      subst haction
      cases hpolled with
      | pending _ _ _ hnext =>
          subst hnext
          exact ⟨hfolds', hkeeps', haccounts, htmp, hdisk⟩
      | @served l op resume r s htask _ _ hserve hnext =>
          subst hnext
          obtain ⟨hgrows, -, hdisposed⟩ := serve_records hserve
          have hwrite : ∀ j, op = .writeTmp j → answer = .result (.ok ()) →
              Covered C log w.store j (w.store.memory j) := by
            rintro j rfl rfl
            refine covered_of_memory haccounts j ?_
            rintro m rfl
            exact hloses.saves x m rfl (by rw [op?, htask])
          obtain ⟨htmp', hdisk'⟩ := serve_saved htmp hdisk hwrite hserve
          exact ⟨hfolds', hkeeps',
            accounts_served hfolds hkeeps haccounts hstreams htask hserve hgrows hdisposed
              rfl rfl,
            fun j c hc => (htmp' j c hc).mono hgrows,
            fun j c hc => (hdisk' j c hc).mono hgrows⟩
  | shifted hshifts =>
      have hsame := hshifts.store
      have hgrows : ∀ work, w.store.Handled work → w'.store.Handled work := by
        intro work hwork
        rw [StoreState.Handled, hsame.dispatched, hsame.deadLetterTried]
        exact hwork
      refine ⟨hfolds', hkeeps', accounts_shifted hshifts hloses.leaves hgrows haccounts,
        fun j c hc => ?_, fun j c hc => ?_⟩
      · rw [hsame.tmp] at hc
        exact (htmp j c hc).mono hgrows
      · rw [hsame.disk] at hc
        exact (hdisk j c hc).mono hgrows
  | crashed _ hcrashed =>
      subst hcrashed
      refine ⟨hfolds', hkeeps', fun m e he => Or.inl ?_, htmp, hdisk⟩
      have hcovered : Covered C log w.store (.inr m)
          ((w.store.disk (.inr m)).getD (G.runner (.inr m)).start) := by
        cases hsome : w.store.disk (.inr m) with
        | none => exact covered_start _ _
        | some checkpoint => exact hdisk _ _ hsome
      exact hcovered m rfl e he

/-- No envelope is on its way, and all that the checkpoints of a store are past is
handled. -/
structure Handed (C : Crates) (log : List RecordedEvent) (s : StoreState G) : Prop where
  memory : ∀ r, Covered C log s r (s.memory r)
  tmp : ∀ r, ∀ checkpoint ∈ s.tmp r, Covered C log s r checkpoint
  disk : ∀ r, ∀ checkpoint ∈ s.disk r, Covered C log s r checkpoint

/-- In every run that loses nothing, each envelope that a process manager produced
for an event below the cursor of its checkpoint on disk has been dispatched, or
its dead letter has been attempted. -/
theorem checkpoint_behind_dispatches (hlog : Increasing RecordedEvent.globalPosition log)
    {cfg : LiveConfig} {w₀ w : LiveWorld G κ} (hidle : w₀.Idle)
    (hstart : w₀.store.Consistent C log) (hhanded : Handed C log w₀.store)
    (hreach : Reaches (step C cfg) (fun w a => w.Streams log a ∧ w.LosesNothing a) w₀ w)
    (m : μ) (checkpoint : Checkpoint (G.processManager m).State)
    (hdisk : w.store.disk (.inr m) = some checkpoint) :
    ∀ e ∈ (Runner.processManager (G.processManager m)).emitted C log
        checkpoint.lastGlobalPosition,
      ⟨m, e⟩ ∈ w.store.dispatched ∨ ⟨m, e⟩ ∈ w.store.deadLetterTried := by
  have hstarts : w₀.Covers C log := ⟨hidle.folds hstart, hidle.keepsAll,
    fun m e he => Or.inl (hhanded.memory (.inr m) m rfl e he), hhanded.tmp, hhanded.disk⟩
  have hcovers : w.Covers C log := hreach.invariant hstarts
    fun _ _ _ hcovers hok hstep => covers_step hlog hcovers hok.1 hok.2 hstep
  exact hcovers.disk (.inr m) checkpoint hdisk m rfl

end Saved

end LiveWorld

namespace LiveWitness

open LiveWorld RunnerAnswer

theorem opened_handed (G : Registry Unit Manager) :
    Handed crates orderLog (opened G).store :=
  ⟨fun _ => covered_start _ _, nofun, nofun⟩

/-- `LosesNothing`, for runs in which no task ends: nothing is saved while a task
holds an envelope. -/
def losesNothing {G : Registry Unit Manager} (w : LiveWorld G Unit) :
    LiveAction Unit Unit → Bool
  | .poll x (.result (.ok ())) => match w.op? x with
    | some (.writeTmp _) => (w.held .live ++ w.held .stream ++ w.held (.caller ())).isEmpty
    | _ => true
  | .settle _ | .cancel _ => false
  | _ => true

theorem losesNothing_sound {G : Registry Unit Manager} (w : LiveWorld G Unit)
    (a : LiveAction Unit Unit) (hcheck : losesNothing w a = true) : w.LosesNothing a := by
  constructor
  · intro x hleaves
    cases a with
    | settle y => cases hcheck
    | cancel k => cases hcheck
    | _ => exact hleaves.elim
  · rintro x m rfl hop y work hwork
    simp only [losesNothing, hop, List.isEmpty_iff, List.append_eq_nil_iff] at hcheck
    obtain ⟨⟨hlive, hstream⟩, hcaller⟩ := hcheck
    cases y with
    | live => exact absurd hwork (hlive ▸ List.not_mem_nil)
    | stream => exact absurd hwork (hstream ▸ List.not_mem_nil)
    | caller k => exact absurd hwork (hcaller ▸ List.not_mem_nil)

/-- Billing catches up, its envelope is dispatched, it is saved, and the process
dies. -/
def billing : List (LiveAction Unit Unit) :=
  .call () .runProcessManagers :: polls (.caller ())
    [done, done, delivery, done, done, done, done, ok, done, ok, ok, done] ++ [.crash]

theorem checkpoint_behind_dispatches_billing :
    ∃ w, runActions (step crates delays) (opened (shop [] [.billing])) billing = some w ∧
      w.store.disk (.inr .billing) = some ⟨(1 : Nat), 1⟩ ∧
      ∀ e ∈ (Runner.processManager (manager .billing)).emitted crates orderLog 1,
        ⟨.billing, e⟩ ∈ w.store.dispatched ∨ ⟨.billing, e⟩ ∈ w.store.deadLetterTried := by
  refine ⟨_, rfl, rfl, ?_⟩
  have hreach : Reaches (step crates delays)
      (fun w a => w.Streams orderLog a ∧ w.LosesNothing a) (opened (shop [] [.billing])) _ :=
    .run .start billing
      (.and (allOk_of_checks streams_sound rfl) (allOk_of_checks losesNothing_sound rfl)) rfl
  exact checkpoint_behind_dispatches orderLog_increasing (opened_idle _)
    (opened_consistent _) (opened_handed _) hreach .billing ⟨(1 : Nat), 1⟩ rfl

/-- The live loop connects, its stream reacts to the order and waits for the
dispatch; the tick of the checkpoint timer then saves billing. -/
def ticking : List (LiveAction Unit Unit) :=
  [.startLive, .loopHead] ++ polls .live [done, done, done, delivery] ++ [.settle .live] ++
    polls .stream [done, done, done, done] ++ [.tick] ++ polls .live [done, ok, ok]

/-- The checkpoint of billing is on disk behind the order, whose envelope has been
neither dispatched nor dead-lettered: a crash loses it. -/
theorem tick_saves_before_dispatch :
    ∃ w, Reaches (step crates delays) (Streams orderLog) (opened (shop [] [.billing])) w ∧
      w.store.disk (.inr .billing) = some ⟨(1 : Nat), 1⟩ ∧
      ∃ e ∈ (Runner.processManager (manager .billing)).emitted crates orderLog 1,
        ⟨.billing, e⟩ ∉ w.store.dispatched ∧ ⟨.billing, e⟩ ∉ w.store.deadLetterTried := by
  refine ⟨_, .of_checks streams_sound ticking rfl rfl, rfl, ⟨0, 0, sendInvoice⟩, ?_, ?_, ?_⟩
  · exact List.mem_cons_self
  · exact List.not_mem_nil
  · exact List.not_mem_nil

end LiveWitness

end EventfoldEs
