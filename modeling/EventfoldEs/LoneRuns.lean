/-
A runner function run alone: every operation is answered at once, and nothing else
touches the store meanwhile.  What the pull passes make of a stream.
-/
import EventfoldEs.PullPasses

namespace EventfoldEs

open Async OrderedLog LiveWorld

variable {C : Crates} {π μ : Type} {G : Registry π μ}

/-- How the reading of a stream stops. -/
inductive StreamStop
  | caughtUp
  | error (status : Status)
  | ended

def streamStop : List Item → StreamStop
  | [] => .ended
  | .error status :: _ => .error status
  | .ok .caughtUp :: _ => .caughtUp
  | .ok .empty :: rest => streamStop rest
  | .ok (.event _) :: rest => streamStop rest

/-- What the environment replies to the operations of a call. -/
structure Replies (π μ : Type) where
  subscribeAllFrom : Nat → Except Status (List Item)
  writeTmp : π ⊕ μ → Except String Unit
  rename : π ⊕ μ → Except String Unit
  dispatch : Work μ → Except String Unit
  appendDeadLetter : Work μ → String → Except String Unit

namespace Replies

def answer (e : Replies π μ) : RunnerOp π μ → RunnerAnswer
  | .subscribeAllFrom position => .stream (e.subscribeAllFrom position)
  | .writeTmp r => .result (e.writeTmp r)
  | .rename r => .result (e.rename r)
  | .dispatch work => .result (e.dispatch work)
  | .appendDeadLetter work error => .result (e.appendDeadLetter work error)
  | .sendPosition _ => .receivers true
  | _ => .done

/-- How a save comes out. -/
def save (e : Replies π μ) (r : π ⊕ μ) : Except String Unit :=
  match e.writeTmp r with
  | .error error => .error error
  | .ok () => e.rename r

end Replies

/-- What an operation hands to a dispatcher. -/
def RunnerOp.attempt : RunnerOp π μ → List (Work μ)
  | .dispatch work => [work]
  | _ => []

/-- The store during a call that runs alone, and what the call has handed to a
dispatcher. -/
structure Lone (G : Registry π μ) where
  store : StoreState G
  attempts : List (Work μ)

namespace Runner

/-- The checkpoint after the records of a stream. -/
def read (C : Crates) (R : Runner) (checkpoint : Checkpoint R.State)
    (records : List RecordedEvent) : Checkpoint R.State :=
  records.foldl (fun checkpoint recorded => (R.event C checkpoint recorded).1) checkpoint

/-- What the runner produces for the records of a stream. -/
def produced (C : Crates) (R : Runner) (checkpoint : Checkpoint R.State)
    (records : List RecordedEvent) : List Emission :=
  outputs (fun checkpoint recorded => (R.event C checkpoint recorded).1)
    (fun checkpoint recorded =>
      emissions recorded.globalPosition (R.event C checkpoint recorded).2)
    checkpoint records

theorem read_append (R : Runner) (checkpoint : Checkpoint R.State)
    (older newer : List RecordedEvent) :
    R.read C checkpoint (older ++ newer) = R.read C (R.read C checkpoint older) newer :=
  List.foldl_append

theorem produced_append (R : Runner) (checkpoint : Checkpoint R.State)
    (older newer : List RecordedEvent) :
    R.produced C checkpoint (older ++ newer) =
      R.produced C checkpoint older ++ R.produced C (R.read C checkpoint older) newer :=
  outputs_append _ _ _

/-- Records below the cursor make no difference. -/
theorem read_fromOn (R : Runner) (checkpoint : Checkpoint R.State) {p : Nat}
    (hp : p ≤ checkpoint.lastGlobalPosition) (records : List RecordedEvent) :
    R.read C checkpoint (fromOn RecordedEvent.globalPosition records p) =
        R.read C checkpoint records ∧
      R.produced C checkpoint (fromOn RecordedEvent.globalPosition records p) =
        R.produced C checkpoint records := by
  induction records generalizing checkpoint with
  | nil => exact ⟨rfl, rfl⟩
  | cons recorded rest ih =>
      have hread : R.read C checkpoint (recorded :: rest) =
          R.read C (R.event C checkpoint recorded).1 rest := rfl
      have hproduced : R.produced C checkpoint (recorded :: rest) =
          emissions recorded.globalPosition (R.event C checkpoint recorded).2 ++
            R.produced C (R.event C checkpoint recorded).1 rest := rfl
      by_cases hfrom : p ≤ recorded.globalPosition
      · have hkeep : fromOn RecordedEvent.globalPosition (recorded :: rest) p =
            recorded :: fromOn RecordedEvent.globalPosition rest p := by
          simp [fromOn, hfrom]
        obtain ⟨hrest, hmore⟩ := ih (R.event C checkpoint recorded).1
          (Nat.le_trans hp (position_le_event R checkpoint recorded))
        rw [hkeep, hread, hproduced, ← hrest, ← hmore]
        exact ⟨rfl, rfl⟩
      · have hskip : fromOn RecordedEvent.globalPosition (recorded :: rest) p =
            fromOn RecordedEvent.globalPosition rest p := by
          simp [fromOn, hfrom]
        have hbehind : R.event C checkpoint recorded = (checkpoint, []) :=
          event_behind (by omega)
        rw [hskip, hread, hproduced, hbehind]
        exact ih checkpoint hp

/-- The records of a stream that was opened at the cursor move it just past the
last of them, and the checkpoint stays a fold. -/
theorem read_segment {R : Runner} {log : List RecordedEvent}
    (hlog : Increasing RecordedEvent.globalPosition log) {checkpoint : Checkpoint R.State}
    {records : List RecordedEvent}
    (hseg : Segment RecordedEvent.globalPosition log checkpoint.lastGlobalPosition records) :
    below RecordedEvent.globalPosition log
        (R.read C checkpoint records).lastGlobalPosition =
      below RecordedEvent.globalPosition log checkpoint.lastGlobalPosition ++ records ∧
    (R.Consistent C log checkpoint → R.Consistent C log (R.read C checkpoint records)) := by
  induction records generalizing checkpoint with
  | nil => exact ⟨(List.append_nil _).symm, id⟩
  | cons recorded rest ih =>
      obtain ⟨-, hahead, -, hrest⟩ := hseg.next hlog
      have hmoved := (event_ahead (C := C) hahead).1
      have hbelow := hseg.below_next hlog (Nat.le_refl _) hahead
      have hnext : Segment RecordedEvent.globalPosition log
          (R.event C checkpoint recorded).1.lastGlobalPosition rest := by
        rw [hmoved]
        exact hrest
      obtain ⟨hread, hconsistent⟩ := ih hnext
      refine ⟨?_, fun hcp => ?_⟩
      · refine hread.trans ?_
        rw [hmoved, hbelow, List.append_assoc]
        rfl
      · exact hconsistent (event_consistent hlog hcp hseg (Nat.le_refl _)).1

end Runner

/-- What a runner produced, as work; a projection produces none. -/
def runnerWork : π ⊕ μ → List Emission → List (Work μ)
  | .inl _, _ => []
  | .inr m, produced => produced.map (Work.mk m)

theorem runnerWork_append (r : π ⊕ μ) (older newer : List Emission) :
    runnerWork r (older ++ newer) = runnerWork r older ++ runnerWork r newer := by
  cases r with
  | inl p => rfl
  | inr m => exact List.map_append

theorem runnerWork_produced_cons (r : π ⊕ μ) (checkpoint : Checkpoint (G.runner r).State)
    (recorded : RecordedEvent) (rest : List RecordedEvent) :
    runnerWork r ((G.runner r).produced C checkpoint (recorded :: rest)) =
      runnerWork r (emissions recorded.globalPosition
        ((G.runner r).event C checkpoint recorded).2) ++
      runnerWork r ((G.runner r).produced C ((G.runner r).read C checkpoint [recorded])
        rest) :=
  runnerWork_append r _ _

variable [DecidableEq π] [DecidableEq μ]

namespace Lone

variable (C)

/-- The call runs alone: each operation is answered at once. -/
def serve (e : Replies π μ) (op : RunnerOp π μ) (x : Lone G) :
    Option (op.Res G × Lone G) :=
  (op.serve C (e.answer op) x.store).map fun (r, store) =>
    (r, ⟨store, x.attempts ++ op.attempt⟩)

/-- A runner in memory reads the records of a stream. -/
def read (x : Lone G) (r : π ⊕ μ) (records : List RecordedEvent) : Lone G :=
  { x with store := { x.store with
      memory := Function.update x.store.memory r
        ((G.runner r).read C (x.store.memory r) records) } }

variable {C}

@[simp] theorem read_memory_self (x : Lone G) (r : π ⊕ μ) (records : List RecordedEvent) :
    (x.read C r records).store.memory r =
      (G.runner r).read C (x.store.memory r) records :=
  Function.update_self ..

theorem read_memory_of_ne (x : Lone G) {r r' : π ⊕ μ} (hne : r' ≠ r)
    (records : List RecordedEvent) :
    (x.read C r records).store.memory r' = x.store.memory r' :=
  Function.update_of_ne hne ..

theorem read_nil (x : Lone G) (r : π ⊕ μ) : x.read C r [] = x := by
  unfold read
  rw [show (G.runner r).read C (x.store.memory r) [] = x.store.memory r from rfl,
    Function.update_eq_self]

theorem read_cons (x : Lone G) (r : π ⊕ μ) (recorded : RecordedEvent)
    (rest : List RecordedEvent) :
    (x.read C r [recorded]).read C r rest = x.read C r (recorded :: rest) := by
  simp only [read, Function.update_self, Function.update_idem]
  rfl

theorem lock_runOn {α : Type} (e : Replies π μ) (acc : List (Work μ)) (r : π ⊕ μ)
    (resume : Unit → RunnerFuture G α) (x : Lone G) :
    (Future.await acc (RunnerOp.lock r) resume).runOn (serve C e) x =
      (resume ()).runOn (serve C e) x := by
  simp only [Future.runOn, serve, RunnerOp.serve, Replies.answer, RunnerOp.attempt,
    Option.map_some, Option.bind_some, List.append_nil]

theorem unlock_runOn {α : Type} (e : Replies π μ) (acc : List (Work μ)) (r : π ⊕ μ)
    (resume : Unit → RunnerFuture G α) (x : Lone G) :
    (Future.await acc (RunnerOp.unlock r) resume).runOn (serve C e) x =
      (resume ()).runOn (serve C e) x := by
  simp only [Future.runOn, serve, RunnerOp.serve, Replies.answer, RunnerOp.attempt,
    Option.map_some, Option.bind_some, List.append_nil]

theorem applyEvent_runOn {α : Type} (e : Replies π μ) (acc : List (Work μ)) (p : π)
    (recorded : RecordedEvent) (resume : Unit → RunnerFuture G α) (x : Lone G) :
    (Future.await acc (RunnerOp.applyEvent p recorded) resume).runOn (serve C e) x =
      (resume ()).runOn (serve C e) (x.read C (.inl p) [recorded]) := by
  simp only [Future.runOn, serve, RunnerOp.serve, Replies.answer, RunnerOp.attempt,
    Option.map_some, Option.bind_some, List.append_nil]
  rfl

theorem reactEvent_runOn {α : Type} (e : Replies π μ) (acc : List (Work μ)) (m : μ)
    (recorded : RecordedEvent) (resume : List CommandEnvelope → RunnerFuture G α)
    (x : Lone G) :
    (Future.await acc (RunnerOp.reactEvent m recorded) resume).runOn (serve C e) x =
      (resume ((G.runner (.inr m)).event C (x.store.memory (.inr m)) recorded).2).runOn
        (serve C e) (x.read C (.inr m) [recorded]) := by
  simp only [Future.runOn, serve, RunnerOp.serve, Replies.answer, RunnerOp.attempt,
    Option.map_some, Option.bind_some, List.append_nil]
  rfl

/-- The result of a pass that stops so, with what it has produced. -/
def passResult (C : Crates) (works : List (Work μ)) :
    StreamStop → Pass μ (List (Work μ))
  | .error status => .error (streamErrorText C status, works)
  | _ => .ok works

/-- The next item of a stream is there when it is waited for. -/
theorem nextItem_runOn {α : Type} (e : Replies π μ) (acc : List (Work μ))
    (resume : Unit → RunnerFuture G α) (x : Lone G) :
    (Future.await acc RunnerOp.nextItem resume).runOn (serve C e) x =
      (resume ()).runOn (serve C e) x := by
  simp only [Future.runOn, serve, RunnerOp.serve, Replies.answer, RunnerOp.attempt,
    Option.map_some, Option.bind_some, List.append_nil]

/-- A pass over a stream reads its records one by one, and keeps what it has read
however the stream stops. -/
theorem processStream_runOn {e : Replies π μ} {r : π ⊕ μ}
    {onEvent : List (Work μ) → RecordedEvent → RunnerFuture G (List (Work μ))}
    (hevent : ∀ acc recorded x, (onEvent acc recorded).runOn (serve C e) x =
      some (acc ++ runnerWork r (emissions recorded.globalPosition
        ((G.runner r).event C (x.store.memory r) recorded).2), x.read C r [recorded]))
    (items : List Item) (acc : List (Work μ)) (x : Lone G) :
    (processStream C onEvent items acc).runOn (serve C e) x =
      some (passResult C (acc ++ runnerWork r ((G.runner r).produced C (x.store.memory r)
        (passRead items).1)) (streamStop items), x.read C r (passRead items).1) := by
  have hstop : ∀ (stop : StreamStop) acc (x : Lone G), some (passResult C acc stop, x) =
      some (passResult C (acc ++ runnerWork r ((G.runner r).produced C (x.store.memory r)
        [])) stop, x.read C r []) := by
    intro stop acc x
    rw [read_nil]
    cases r <;> exact congrArg (fun works => some (passResult C works stop, x))
      (List.append_nil acc).symm
  induction items generalizing acc x with
  | nil =>
      rw [processStream, nextItem_runOn]
      exact hstop .ended acc x
  | cons item rest ih =>
      rcases item with status | ⟨recorded⟩ | _ | _
      · rw [processStream, nextItem_runOn]
        exact hstop (.error status) acc x
      · rw [processStream, nextItem_runOn, Future.runOn_bind, hevent, Option.bind_some, ih,
          read_cons]
        simp only [passRead, streamStop, runnerWork_produced_cons, List.append_assoc]
        simp only [read, Function.update_self]
      · rw [processStream, nextItem_runOn]
        exact hstop .caughtUp acc x
      · rw [processStream, nextItem_runOn, ih]
        rfl

/-- What `subscribe_all_from` and `process_stream` make of the stream that the
environment opens. -/
def passOf (C : Crates) (e : Replies π μ) (r : π ⊕ μ) (x : Lone G) :
    Pass μ (List (Work μ)) × Lone G :=
  match e.subscribeAllFrom (x.store.memory r).lastGlobalPosition with
  | .error status =>
      (.error ("subscribe_all_from failed: " ++ C.statusToString status, []), x)
  | .ok items =>
      (passResult C (runnerWork r ((G.runner r).produced C (x.store.memory r)
        (passRead items).1)) (streamStop items), x.read C r (passRead items).1)

theorem passOf_of_items {e : Replies π μ} {r : π ⊕ μ} {x : Lone G} {items : List Item}
    (hitems : e.subscribeAllFrom (x.store.memory r).lastGlobalPosition = .ok items) :
    passOf C e r x = (passResult C (runnerWork r ((G.runner r).produced C
      (x.store.memory r) (passRead items).1)) (streamStop items),
      x.read C r (passRead items).1) := by
  unfold passOf
  split
  · simp_all
  · simp_all

theorem subscribeAndProcess_runOn {e : Replies π μ} {r : π ⊕ μ}
    {onEvent : List (Work μ) → RecordedEvent → RunnerFuture G (List (Work μ))}
    (hevent : ∀ acc recorded x, (onEvent acc recorded).runOn (serve C e) x =
      some (acc ++ runnerWork r (emissions recorded.globalPosition
        ((G.runner r).event C (x.store.memory r) recorded).2), x.read C r [recorded]))
    (x : Lone G) :
    (subscribeAndProcess C onEvent r).runOn (serve C e) x = some (passOf C e r x) := by
  simp only [subscribeAndProcess, Future.runOn, serve, RunnerOp.serve, Replies.answer,
    RunnerOp.attempt, Option.map_some, Option.bind_some, List.append_nil, passOf]
  cases e.subscribeAllFrom (x.store.memory r).lastGlobalPosition with
  | error status => rfl
  | ok items => exact processStream_runOn hevent items [] x

theorem processManagerCatchUp_runOn (e : Replies π μ) (m : μ) (x : Lone G) :
    (processManagerCatchUp C m).runOn (serve C e) x = some (passOf C e (.inr m) x) := by
  refine subscribeAndProcess_runOn (fun acc recorded x => ?_) x
  rw [reactEvent_runOn]
  rfl

/-- What a save leaves behind. -/
theorem save_runOn (e : Replies π μ) (r : π ⊕ μ) (x : Lone G) :
    ∃ y, (save r).runOn (serve C e) x = some (e.save r, y) ∧
      y.store.memory = x.store.memory ∧ y.attempts = x.attempts ∧
      y.store.deadLetters = x.store.deadLetters := by
  unfold save Replies.save
  cases hwrite : e.writeTmp r with
  | error error =>
      simp only [Future.runOn, serve, RunnerOp.serve, Replies.answer, hwrite,
        RunnerOp.attempt, Option.map_some, Option.bind_some, List.append_nil]
      exact ⟨_, rfl, rfl, rfl, rfl⟩
  | ok u =>
      cases hrename : e.rename r with
      | error error =>
          simp only [Future.runOn, serve, RunnerOp.serve, Replies.answer, hwrite, hrename,
            RunnerOp.attempt, Option.map_some, Option.bind_some, List.append_nil]
          exact ⟨_, rfl, rfl, rfl, rfl⟩
      | ok u =>
          simp only [Future.runOn, serve, RunnerOp.serve, Replies.answer, hwrite, hrename,
            RunnerOp.attempt, Option.map_some, Option.bind_some, List.append_nil,
            Function.update_self]
          exact ⟨_, rfl, rfl, rfl, rfl⟩

/-- How `catch_up` of a projection comes out: the pass, then the save. -/
def projectionResult (C : Crates) (e : Replies π μ) (p : π) (x : Lone G) :
    Except String Unit :=
  match (passOf C e (.inl p) x).1 with
  | .error (error, _) => .error error
  | .ok _ => e.save (.inl p)

theorem projectionCatchUp_runOn (e : Replies π μ) (p : π) (x : Lone G) :
    ∃ y, (projectionCatchUp C p).runOn (serve C e) x = some (projectionResult C e p x, y) ∧
      y.store.memory = (passOf C e (.inl p) x).2.store.memory := by
  have hpass : (subscribeAndProcess C
      (fun acc recorded => .await acc (.applyEvent p recorded) fun _ => .ready acc)
      (.inl p)).runOn (serve C e) x = some (passOf C e (.inl p) x) := by
    refine subscribeAndProcess_runOn (fun acc recorded x => ?_) x
    rw [applyEvent_runOn, runnerWork, List.append_nil]
    rfl
  rw [projectionCatchUp, Future.runOn_bind, hpass, Option.bind_some, projectionResult]
  rcases (passOf C e (.inl p) x).1 with ⟨error, dropped⟩ | works
  · exact ⟨_, rfl, rfl⟩
  · obtain ⟨y, hrun, hmemory, -⟩ := save_runOn (C := C) e (.inl p) (passOf C e (.inl p) x).2
    exact ⟨y, hrun, hmemory⟩

/-- `AggregateStore::projection` of a registered projection. -/
theorem projection_runOn (e : Replies π μ) {p : π} (hp : p ∈ G.projections) (x : Lone G) :
    ∃ y, (projection C p).runOn (serve C e) x =
      some ((projectionResult C e p x).map fun _ =>
        ((passOf C e (.inl p) x).2.store.memory (.inl p)).state, y) := by
  obtain ⟨y, hrun, hmemory⟩ := projectionCatchUp_runOn (C := C) e p x
  rw [projection, if_pos hp, lock_runOn, Future.runOn_bind, hrun, Option.bind_some,
    ← hmemory]
  cases projectionResult C e p x with
  | error error => exact ⟨y, by rw [unlock_runOn]; rfl⟩
  | ok u =>
      refine ⟨y, ?_⟩
      simp only [Future.runOn, serve, RunnerOp.serve, Replies.answer, RunnerOp.attempt,
        Option.map_some, Option.bind_some, List.append_nil]
      rfl

end Lone

end EventfoldEs
