/-
The asynchronous functions around the runners: the pull passes of a store, and
what the live loop runs, each as the tree of its awaits.
-/
import EventfoldEs.Runner
import EventfoldEs.Lib.Future

namespace EventfoldEs

open Async

/-- What a store is built with.  The lists are the values of its maps, in the
order in which these are iterated. -/
structure Registry (π μ : Type) where
  projection : π → Projection
  processManager : μ → ProcessManager
  projections : List π
  processManagers : List μ
  /-- The aggregate types that have a dispatcher. -/
  dispatchers : List String

namespace Registry

variable {π μ : Type}

@[reducible] def runner (G : Registry π μ) : π ⊕ μ → Runner
  | .inl p => .projection (G.projection p)
  | .inr m => .processManager (G.processManager m)

def runners (G : Registry π μ) : List (π ⊕ μ) :=
  G.projections.map .inl ++ G.processManagers.map .inr

end Registry

/-- An envelope on its way, with the process manager whose dead-letter log it
would go to. -/
structure Work (μ : Type) where
  pm : μ
  emission : Emission

abbrev Item := Except Status SubscribeResponse

/-- What a runner function does between two awaits, or waits for.  What a stream
will deliver is fixed when it is opened; `nextItem` waits for the next of it. -/
inductive RunnerOp (π μ : Type)
  | lock (r : π ⊕ μ)
  | unlock (r : π ⊕ μ)
  | position (r : π ⊕ μ)
  | subscribeAllFrom (position : Nat)
  | nextItem
  | applyEvent (p : π) (recorded : RecordedEvent)
  | reactEvent (m : μ) (recorded : RecordedEvent)
  | writeTmp (r : π ⊕ μ)
  | rename (r : π ⊕ μ)
  | stateAny (p : π)
  | liveHandleIsSome
  | dispatch (work : Work μ)
  | appendDeadLetter (work : Work μ) (error : String)
  | storeCaughtUp
  | sendPosition (position : Nat)

@[reducible] def RunnerOp.Res {π μ : Type} (G : Registry π μ) : RunnerOp π μ → Type
  | position _ => Nat
  | subscribeAllFrom _ => Except Status (List Item)
  | reactEvent _ _ => List CommandEnvelope
  | stateAny p => (G.projection p).State
  | liveHandleIsSome => Bool
  | writeTmp _ | rename _ | dispatch _ | appendDeadLetter _ _ => Except String Unit
  | lock _ | unlock _ | nextItem | applyEvent _ _ | storeCaughtUp | sendPosition _ => Unit

/-- The locals of a runner function are the envelopes it still has to dispatch. -/
abbrev RunnerFuture {π μ : Type} (G : Registry π μ) (α : Type) :=
  Future (List (Work μ)) (RunnerOp π μ) (RunnerOp.Res G) α

/-- The result of a function that may return early; the error comes with the
envelopes that go out of scope there. -/
abbrev Pass (μ : Type) (α : Type) := Except (String × List (Work μ)) α

structure ProcessManagerReport where
  dispatched : Nat
  deadLettered : Nat

inductive StreamOutcome
  | ended
  | error (message : String)

variable (C : Crates) {π μ : Type} {G : Registry π μ}

def streamErrorText (status : Status) : String :=
  "subscribe stream error: " ++ C.statusToString status

/-- `process_stream` of both runners: read until `CaughtUp` or the end of the
stream; `onEvent` is what the runner does with an event. -/
def processStream
    (onEvent : List (Work μ) → RecordedEvent → RunnerFuture G (List (Work μ))) :
    List Item → List (Work μ) → RunnerFuture G (Pass μ (List (Work μ)))
  | [], acc => .await acc .nextItem fun _ => .ready (.ok acc)
  | .error status :: _, acc => .await acc .nextItem fun _ =>
      .ready (.error (streamErrorText C status, acc))
  | .ok (.event recorded) :: rest, acc => .await acc .nextItem fun _ =>
      (onEvent acc recorded).bind fun acc => processStream onEvent rest acc
  | .ok .caughtUp :: _, acc => .await acc .nextItem fun _ => .ready (.ok acc)
  | .ok .empty :: rest, acc => .await acc .nextItem fun _ =>
      processStream onEvent rest acc

/-- What `subscribe_all_from` and then `process_stream` give. -/
def subscribeAndProcess
    (onEvent : List (Work μ) → RecordedEvent → RunnerFuture G (List (Work μ)))
    (r : π ⊕ μ) : RunnerFuture G (Pass μ (List (Work μ))) :=
  .await [] (.position r) fun position =>
    .await [] (.subscribeAllFrom position) fun
      | .error status =>
          .ready (.error ("subscribe_all_from failed: " ++ C.statusToString status, []))
      | .ok items => processStream C onEvent items []

/-- `save_checkpoint` and `save_pm_checkpoint`: write beside, then rename. -/
def save (r : π ⊕ μ) : RunnerFuture G (Except String Unit) :=
  .await [] (.writeTmp r) fun
    | .error e => .ready (.error e)
    | .ok () => .await [] (.rename r) fun result => .ready result

def projectionCatchUp (p : π) : RunnerFuture G (Except String Unit) :=
  (subscribeAndProcess C
    (fun acc recorded => .await acc (.applyEvent p recorded) fun _ => .ready acc)
    (.inl p)).bind fun
      | .error (e, _) => .ready (.error e)
      | .ok _ => save (.inl p)

/-- The envelopes of one reaction, as work for `m`. -/
def reactionWork (m : μ) (recorded : RecordedEvent) (produced : List CommandEnvelope) :
    List (Work μ) :=
  (emissions recorded.globalPosition produced).map (Work.mk m)

/-- `ProcessManagerRunner::catch_up`, which does not save. -/
def processManagerCatchUp (m : μ) : RunnerFuture G (Pass μ (List (Work μ))) :=
  subscribeAndProcess C
    (fun acc recorded => .await acc (.reactEvent m recorded) fun produced =>
      .ready (acc ++ reactionWork m recorded produced))
    (.inr m)

def projection [DecidableEq π] (p : π) :
    RunnerFuture G (Except String (G.projection p).State) :=
  if p ∈ G.projections then
    .await [] (.lock (.inl p)) fun _ =>
      (projectionCatchUp C p).bind fun
        | .error e => .await [] (.unlock (.inl p)) fun _ => .ready (.error e)
        | .ok () => .await [] (.stateAny p) fun state =>
            .await [] (.unlock (.inl p)) fun _ => .ready (.ok state)
  else .ready (.error ("projection '" ++ (G.projection p).name ++ "' not registered"))

def liveProjection [DecidableEq π] (p : π) :
    RunnerFuture G (Except String (G.projection p).State) :=
  .await [] .liveHandleIsSome fun isSome =>
    if isSome then
      if p ∈ G.projections then
        .await [] (.lock (.inl p)) fun _ => .await [] (.stateAny p) fun state =>
          .await [] (.unlock (.inl p)) fun _ => .ready (.ok state)
      else .ready
        (.error ("projection '" ++ (G.projection p).name ++ "' not registered"))
    else projection C p

/-- How one envelope was disposed of. -/
inductive Disposal
  | dispatched
  | deadLettered (written : Except String Unit)

/-- Write a dead letter while `rest` is still to be dispatched. -/
def deadLetter (work : Work μ) (error : String) (rest : List (Work μ)) :
    RunnerFuture G Disposal :=
  .await (work :: rest) (.appendDeadLetter work error) fun written =>
    .ready (.deadLettered written)

/-- The body of both dispatch loops: dispatch `work`, dead-letter it when that
fails or when no dispatcher is registered for its aggregate type. -/
def dispatchOne (work : Work μ) (rest : List (Work μ)) : RunnerFuture G Disposal :=
  if work.emission.envelope.aggregateType ∈ G.dispatchers then
    .await (work :: rest) (.dispatch work) fun
      | .ok () => .ready .dispatched
      | .error e => deadLetter work e rest
  else
    deadLetter work
      ("unknown aggregate type: " ++ work.emission.envelope.aggregateType) rest

/-- The first loop of `run_process_managers`: catch up each process manager. -/
def catchUpEach : List μ → List (Work μ) → RunnerFuture G (Pass μ (List (Work μ)))
  | [], allWork => .ready (.ok allWork)
  | m :: rest, allWork => .await allWork (.lock (.inr m)) fun _ =>
      ((processManagerCatchUp C m).mapLocals (allWork ++ ·)).bind fun
        | .error (e, dropped) =>
            .await (allWork ++ dropped) (.unlock (.inr m)) fun _ =>
              .ready (.error (e, allWork ++ dropped))
        | .ok envelopes =>
            .await (allWork ++ envelopes) (.unlock (.inr m)) fun _ =>
              catchUpEach rest (allWork ++ envelopes)

/-- The second loop: dispatch; a dead letter that cannot be written ends it. -/
def dispatchEach :
    List (Work μ) → ProcessManagerReport → RunnerFuture G (Pass μ ProcessManagerReport)
  | [], report => .ready (.ok report)
  | work :: rest, report => (dispatchOne work rest).bind fun
      | .dispatched =>
          dispatchEach rest { report with dispatched := report.dispatched + 1 }
      | .deadLettered (.ok ()) =>
          dispatchEach rest { report with deadLettered := report.deadLettered + 1 }
      | .deadLettered (.error e) => .ready (.error (e, rest))

/-- The third loop: save, in order, until a save fails. -/
def saveEach : List μ → RunnerFuture G (Except String Unit)
  | [] => .ready (.ok ())
  | m :: rest => .await [] (.lock (.inr m)) fun _ => (save (.inr m)).bind fun result =>
      .await [] (.unlock (.inr m)) fun _ =>
        match result with
        | .error e => .ready (.error e)
        | .ok () => saveEach rest

def saveAndReport (report : ProcessManagerReport) :
    RunnerFuture G (Pass μ ProcessManagerReport) :=
  (saveEach G.processManagers).bind fun
    | .error e => .ready (.error (e, []))
    | .ok () => .ready (.ok report)

def dispatchAndSave (allWork : List (Work μ)) :
    RunnerFuture G (Pass μ ProcessManagerReport) :=
  (dispatchEach allWork ⟨0, 0⟩).bind fun
    | .error e => .ready (.error e)
    | .ok report => saveAndReport report

def runProcessManagers : RunnerFuture G (Pass μ ProcessManagerReport) :=
  (catchUpEach C G.processManagers []).bind fun
    | .error e => .ready (.error e)
    | .ok allWork => dispatchAndSave allWork

/-- `save_all_checkpoints` over the runners: a failing save is only logged. -/
def saveCheckpoints : List (π ⊕ μ) → RunnerFuture G Unit
  | [] => .ready ()
  | r :: rest => .await [] (.lock r) fun _ => (save r).bind fun _ =>
      .await [] (.unlock r) fun _ => saveCheckpoints rest

def saveAllCheckpoints : RunnerFuture G Unit := saveCheckpoints G.runners

def minPosition : List (π ⊕ μ) → Nat → RunnerFuture G Nat
  | [], minPos => .ready minPos
  | r :: rest, minPos => .await [] (.lock r) fun _ => .await [] (.position r) fun position =>
      .await [] (.unlock r) fun _ => minPosition rest (min minPos position)

/-- `min_global_position`: `u64::MAX` stands for "nothing is registered". -/
def minGlobalPosition : RunnerFuture G Nat :=
  (minPosition G.runners u64Max).bind fun minPos =>
    .ready (if minPos = u64Max then 0 else minPos)

/-- The live loop's way to a stream. -/
def connect : RunnerFuture G (Except Status (List Item)) :=
  minGlobalPosition.bind fun fromPosition =>
    .await [] (.subscribeAllFrom fromPosition) fun result => .ready result

def fanOutProjections (recorded : RecordedEvent) : List π → RunnerFuture G Unit
  | [] => .ready ()
  | p :: rest => .await [] (.lock (.inl p)) fun _ =>
      .await [] (.applyEvent p recorded) fun _ =>
        .await [] (.unlock (.inl p)) fun _ => fanOutProjections recorded rest

def fanOutProcessManagers (recorded : RecordedEvent) :
    List μ → List (Work μ) → RunnerFuture G (List (Work μ))
  | [], all => .ready all
  | m :: rest, all => .await all (.lock (.inr m)) fun _ =>
      .await all (.reactEvent m recorded) fun produced =>
        .await (all ++ reactionWork m recorded produced) (.unlock (.inr m)) fun _ =>
          fanOutProcessManagers recorded rest (all ++ reactionWork m recorded produced)

/-- The dispatch loop of the live stream: no failure ends it. -/
def dispatchLive : List (Work μ) → RunnerFuture G Unit
  | [] => .ready ()
  | work :: rest => (dispatchOne work rest).bind fun _ => dispatchLive rest

/-- What `process_stream_with_dispatch` does with one event. -/
def processEvent (recorded : RecordedEvent) : RunnerFuture G Unit :=
  (fanOutProjections recorded G.projections).bind fun _ =>
    (fanOutProcessManagers recorded G.processManagers []).bind fun all =>
      (dispatchLive all).bind fun _ =>
        .await [] (.sendPosition recorded.globalPosition) fun _ => .ready ()

def processStreamWithDispatch : List Item → RunnerFuture G (Except String StreamOutcome)
  | [] => .await [] .nextItem fun _ => .ready (.ok .ended)
  | .error status :: _ => .await [] .nextItem fun _ =>
      .ready (.ok (.error (streamErrorText C status)))
  | .ok (.event recorded) :: rest => .await [] .nextItem fun _ =>
      (processEvent recorded).bind fun _ => processStreamWithDispatch rest
  | .ok .caughtUp :: rest => .await [] .nextItem fun _ =>
      .await [] .storeCaughtUp fun _ => processStreamWithDispatch rest
  | .ok .empty :: rest => .await [] .nextItem fun _ => processStreamWithDispatch rest

end EventfoldEs
