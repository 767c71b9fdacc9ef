/-
The actor that owns one aggregate instance: spawning with catch-up, executing
commands with optimistic concurrency retries, injecting events, and the
snapshot it leaves behind.
-/
import EventfoldEs.Server
import EventfoldEs.Lib.Future
import EventfoldEs.Lib.Replay

namespace EventfoldEs

open Async Replay

/-- `EventStoreOps`, and the operation that never returns of a task that
panics. -/
inductive StoreOp
  | append (streamId : Uuid) (expected : ExpectedVersionArg)
      (events : List ProposedEventData)
  | readStream (streamId : Uuid) (fromVersion maxCount : Nat)
  | panic

@[reducible] def StoreOp.Res : StoreOp → Type
  | append _ _ _ => Except Status AppendResponse
  | readStream _ _ _ => Except Status (List RecordedEvent)
  | panic => Empty

inductive ExecuteError (E : Type)
  | domain (e : E)
  | wrongExpectedVersion
  | io (message : String)
  | transport (status : Status)
  | actorGone
deriving DecidableEq, Repr

/-- The two locals of the actor that outlive a message. -/
@[ext] structure ActorLocals (A : Aggregate) where
  state : A.State
  streamVersion : Option Nat

structure Snapshot (S : Type) where
  state : S
  streamVersion : Nat

abbrev ActorFuture (A : Aggregate) (α : Type) :=
  Future (ActorLocals A) StoreOp StoreOp.Res α

variable (C : Crates) {A : Aggregate}

namespace ActorLocals

/-- `stream_version.map_or(0, |v| v + 1)`: where the next read starts. -/
def fromVersion (l : ActorLocals A) : Nat :=
  match l.streamVersion with
  | some v => v + 1
  | none => 0

/-- `NoStream` for a new stream, `Exact(v)` for an existing one. -/
def expected (l : ActorLocals A) : ExpectedVersionArg :=
  match l.streamVersion with
  | some v => .exact v
  | none => .noStream

/-- The loop over the events of a read: fold what decodes, advance the version
over every event. -/
def foldEvents (l : ActorLocals A) (events : List RecordedEvent) :
    ActorLocals A :=
  events.foldl (fun l ev =>
    { state := absorb (decodeDomainEvent C A) A.apply l.state ev
      streamVersion := some ev.streamVersion }) l

/-- Success of an append: fold the domain events, take the server's version. -/
def appended (l : ActorLocals A) (domainEvents : List A.DomainEvent)
    (resp : AppendResponse) : ActorLocals A where
  state := domainEvents.foldl A.apply l.state
  streamVersion := some resp.lastStreamVersion

/-- What every exit path of `run_actor` saves: `stream_version.unwrap_or(0)`. -/
def exitSnapshot (l : ActorLocals A) : Snapshot A.State where
  state := l.state
  streamVersion := l.streamVersion.getD 0

end ActorLocals

/-- Encode the events in order, stopping at the first that fails; `newV4 k` is
the event id drawn for the `k`-th of them. -/
def encodeEvents (A : Aggregate) (newV4 : Nat → Uuid) (ctx : CommandContext)
    (instanceId : String) :
    Nat → List A.DomainEvent → Except EncodeError (List ProposedEventData)
  | _, [] => .ok []
  | k, e :: rest => do
      let p ← encodeDomainEvent A (newV4 k) e ctx A.aggregateType instanceId
      let ps ← encodeEvents A newV4 ctx instanceId (k + 1) rest
      return p :: ps

def maxRetries : Nat := 3

abbrev ExecuteResult (A : Aggregate) :=
  Except (ExecuteError A.Error) (List A.DomainEvent)

/-- `execute_with_retry` with `attempts` rounds of its loop left. -/
def executeWithRetry (streamId : Uuid) (instanceId : String)
    (newV4 : Nat → Nat → Uuid) (cmd : A.Command) (ctx : CommandContext) :
    Nat → ActorLocals A → ActorFuture A (ActorLocals A × ExecuteResult A)
  | 0, l => .ready (l, .error .wrongExpectedVersion)
  | attempts + 1, l =>
      match A.handle l.state cmd with
      | .error e => .ready (l, .error (.domain e))
      | .ok domainEvents =>
          if domainEvents.isEmpty then .ready (l, .ok domainEvents)
          else
            match encodeEvents A (newV4 attempts) ctx instanceId 0 domainEvents with
            | .error (.serde message) => .ready (l, .error (.io message))
            | .error (.panic _) => .await l .panic Empty.elim
            | .ok proposed =>
                .await l (.append streamId l.expected proposed) fun
                  | .ok resp => .ready (l.appended domainEvents resp, .ok domainEvents)
                  | .error status =>
                      if status.code = .failedPrecondition then
                        -- re-read to catch up with concurrent writes
                        .await l (.readStream streamId l.fromVersion u64Max) fun
                          | .ok events =>
                              executeWithRetry streamId instanceId newV4 cmd ctx
                                attempts (l.foldEvents C events)
                          | .error status => .ready (l, .error (.transport status))
                      else .ready (l, .error (.transport status))

/-- What one round of `execute_with_retry` comes to, with `again` for the rounds that
are left. -/
inductive RetryRound (streamId : Uuid) (instanceId : String) (newV4 : Nat → Uuid)
    (cmd : A.Command) (ctx : CommandContext)
    (again : ActorLocals A → ActorFuture A (ActorLocals A × ExecuteResult A))
    (l : ActorLocals A) : ActorFuture A (ActorLocals A × ExecuteResult A) → Prop
  | refused {e : A.Error} (hhandle : A.handle l.state cmd = .error e) :
      RetryRound streamId instanceId newV4 cmd ctx again l (.ready (l, .error (.domain e)))
  | noEvents (hhandle : A.handle l.state cmd = .ok []) :
      RetryRound streamId instanceId newV4 cmd ctx again l (.ready (l, .ok []))
  | unserialized {e : A.DomainEvent} {rest : List A.DomainEvent} {message : String}
      (hhandle : A.handle l.state cmd = .ok (e :: rest))
      (henc : encodeEvents A newV4 ctx instanceId 0 (e :: rest) = .error (.serde message)) :
      RetryRound streamId instanceId newV4 cmd ctx again l
        (.ready (l, .error (.io message)))
  | panicked {e : A.DomainEvent} {rest : List A.DomainEvent} {message : String}
      (hhandle : A.handle l.state cmd = .ok (e :: rest))
      (henc : encodeEvents A newV4 ctx instanceId 0 (e :: rest) = .error (.panic message)) :
      RetryRound streamId instanceId newV4 cmd ctx again l (.await l .panic Empty.elim)
  | appends {e : A.DomainEvent} {rest : List A.DomainEvent} {proposed : List ProposedEventData}
      {resume : Except Status AppendResponse →
        ActorFuture A (ActorLocals A × ExecuteResult A)}
      {reread : Except Status (List RecordedEvent) →
        ActorFuture A (ActorLocals A × ExecuteResult A)}
      (hhandle : A.handle l.state cmd = .ok (e :: rest))
      (henc : encodeEvents A newV4 ctx instanceId 0 (e :: rest) = .ok proposed)
      (haccepted : ∀ resp,
        resume (.ok resp) = .ready (l.appended (e :: rest) resp, .ok (e :: rest)))
      (hconflict : ∀ status, status.code = .failedPrecondition →
        resume (.error status) = .await l (.readStream streamId l.fromVersion u64Max) reread)
      (hfailed : ∀ status, status.code ≠ .failedPrecondition →
        resume (.error status) = .ready (l, .error (.transport status)))
      (hagain : ∀ events, reread (.ok events) = again (l.foldEvents C events))
      (hlost : ∀ status, reread (.error status) = .ready (l, .error (.transport status))) :
      RetryRound streamId instanceId newV4 cmd ctx again l
        (.await l (.append streamId l.expected proposed) resume)

theorem executeWithRetry_round (streamId : Uuid) (instanceId : String)
    (newV4 : Nat → Nat → Uuid) (cmd : A.Command) (ctx : CommandContext) (attempts : Nat)
    (l : ActorLocals A) :
    RetryRound C streamId instanceId (newV4 attempts) cmd ctx
      (executeWithRetry C streamId instanceId newV4 cmd ctx attempts) l
      (executeWithRetry C streamId instanceId newV4 cmd ctx (attempts + 1) l) := by
  unfold executeWithRetry
  cases hhandle : A.handle l.state cmd with
  | error e => exact .refused hhandle
  | ok events =>
      cases events with
      | nil => exact .noEvents hhandle
      | cons e rest =>
          simp only [List.isEmpty_cons, Bool.false_eq_true, ↓reduceIte]
          cases henc : encodeEvents A (newV4 attempts) ctx instanceId 0 (e :: rest) with
          | error err =>
              cases err with
              | serde message => exact .unserialized hhandle henc
              | panic message => exact .panicked hhandle henc
          | ok proposed =>
              refine .appends hhandle henc (fun _ => rfl) (fun _ hcode => if_pos hcode)
                (fun _ hcode => if_neg hcode) ?_ ?_
              · exact fun _ => rfl
              · exact fun _ => rfl

/-- What every operation of `execute_with_retry` is, from its two kinds of calls. -/
theorem executeWithRetry_only {P : StoreOp → Prop} {streamId : Uuid} {instanceId : String}
    {newV4 : Nat → Nat → Uuid} {cmd : A.Command} {ctx : CommandContext}
    (happend : ∀ newV4 events proposed (l : ActorLocals A),
      encodeEvents A newV4 ctx instanceId 0 events = .ok proposed →
        P (.append streamId l.expected proposed))
    (hread : ∀ l : ActorLocals A, P (.readStream streamId l.fromVersion u64Max))
    (hpanic : P .panic) (attempts : Nat) (l : ActorLocals A) :
    (executeWithRetry C streamId instanceId newV4 cmd ctx attempts l).Only P := by
  induction attempts generalizing l with
  | zero => trivial
  | succ attempts ih =>
      have hround := executeWithRetry_round C streamId instanceId newV4 cmd ctx attempts l
      generalize executeWithRetry C streamId instanceId newV4 cmd ctx (attempts + 1) l = fut
        at hround ⊢
      cases hround with
      | refused hhandle => trivial
      | noEvents hhandle => trivial
      | unserialized hhandle henc => trivial
      | panicked hhandle henc => exact ⟨hpanic, fun r => r.elim⟩
      | appends hhandle henc haccepted hconflict hfailed hagain hlost =>
          refine ⟨happend _ _ _ l henc, ?_⟩
          rintro (status | resp)
          · by_cases hcode : status.code = .failedPrecondition
            · rw [hconflict status hcode]
              refine ⟨hread l, ?_⟩
              rintro (status₂ | newer)
              · rw [hlost]
                trivial
              · rw [hagain]
                exact ih (l.foldEvents C newer)
            · rw [hfailed status hcode]
              trivial
          · rw [haccepted]
            trivial

/-- Messages to the actor loop that it answers.  An `Execute` also carries the
event ids that will be drawn for it, by attempt and position. -/
inductive ActorMessage (A : Aggregate)
  | execute (cmd : A.Command) (ctx : CommandContext) (newV4 : Nat → Nat → Uuid)
  | getState
  | inject (proposed : ProposedEventData)

inductive Reply (A : Aggregate)
  | execute (result : ExecuteResult A)
  | getState (state : A.State)
  | inject (result : Except Status Unit)

/-- One round of the loop of `run_actor`, after `recv` has given a message. -/
def onMessage (streamId : Uuid) (instanceId : String) (l : ActorLocals A) :
    ActorMessage A → ActorFuture A (ActorLocals A × Reply A)
  | .execute cmd ctx newV4 =>
      (executeWithRetry C streamId instanceId newV4 cmd ctx maxRetries l).bind
        fun out => .ready (out.1, .execute out.2)
  | .getState => .ready (l, .getState l.state)
  | .inject proposed =>
      .await l (.append streamId .any [proposed]) fun
        | .ok _ =>
            .await l (.readStream streamId l.fromVersion u64Max) fun
              | .ok events => .ready (l.foldEvents C events, .inject (.ok ()))
              | .error _ => .ready (l, .inject (.ok ()))
        | .error status => .ready (l, .inject (.error status))

/-- The locals `spawn_actor_with_store` starts its catch-up from. -/
def startLocals (A : Aggregate) :
    Option (Snapshot A.State) → ActorLocals A
  | some snap => ⟨snap.state, some snap.streamVersion⟩
  | none => ⟨A.default, none⟩

/-- `spawn_actor_with_store`, with the snapshot it has loaded. -/
def spawnActorWithStore (A : Aggregate) (instanceId : String)
    (snapshot : Option (Snapshot A.State)) :
    ActorFuture A (Except Status (ActorLocals A)) :=
  let l := startLocals A snapshot
  .await l (.readStream (streamUuid C A.aggregateType instanceId)
      l.fromVersion u64Max) fun
    | .ok events => .ready (.ok (l.foldEvents C events))
    | .error status => .ready (.error status)

structure InjectOptions where
  runProcessManagers : Bool

/-- `AggregateStore::inject_event`; the process manager pass it may run
afterwards is a parameter. -/
def injectEvent (A : Aggregate) (instanceId : String)
    (proposed : ProposedEventData) (opts : InjectOptions)
    (runProcessManagers : Future Unit StoreOp StoreOp.Res (Except String Unit)) :
    Future Unit StoreOp StoreOp.Res (Except String Unit) :=
  .await () (.append (streamUuid C A.aggregateType instanceId) .any [proposed]) fun
    | .error status => .ready (.error ("gRPC append failed: " ++ C.statusToString status))
    | .ok _ => if opts.runProcessManagers then runProcessManagers else .ready (.ok ())

/-- How a call of the store comes out: the server answers, or the transport
fails, possibly after the server has committed. -/
inductive Answer
  | server (recordedAt : Nat)
  | fault (status : Status) (committed : Bool) (recordedAt : Nat)

/-- A block of records that one append put into a stream. -/
structure Commit where
  start : Nat
  block : List RecordedEvent

/-- What the environment remembers of one actor: the blocks its current message
put into the stream, and the records it was shown since it was spawned. -/
structure Trail where
  commits : List Commit
  seen : List RecordedEvent

/-- `EsClient::read_stream` reads the `NotFound` of a stream that was never
written as no events. -/
def clientReadStream :
    Except Status (List RecordedEvent) → Except Status (List RecordedEvent)
  | .ok events => .ok events
  | .error status => if status.code = .notFound then .ok [] else .error status

/-- The records an acknowledged append shows its caller.  An injecting actor
learns of its event only from the read that follows. -/
def shownByAppend (expected : ExpectedVersionArg) (block : List RecordedEvent) :
    List RecordedEvent :=
  match expected with
  | .any => []
  | _ => block

/-- One call of the store.  `FAILED_PRECONDITION` and `NotFound` only ever come
from the server itself. -/
def StoreOp.serve : (op : StoreOp) → Answer → Server × Trail →
    Option (op.Res × (Server × Trail))
  | .append id expected events, answer, (s, trail) =>
      let protoEvents := events.map (toProtoEvent C)
      let commit (recordedAt : Nat) : Commit :=
        ⟨(s.streams id).length, s.block C id protoEvents recordedAt⟩
      match answer with
      | .server recordedAt =>
          match s.append C id expected protoEvents recordedAt with
          | (.ok resp, s') =>
              some (.ok resp, s',
                ⟨trail.commits ++ [commit recordedAt],
                  trail.seen ++ shownByAppend expected (commit recordedAt).block⟩)
          | (.error status, s') => some (.error status, s', trail)
      | .fault status committed recordedAt =>
          if status.code = .failedPrecondition then none
          else if committed then
            match s.append C id expected protoEvents recordedAt with
            | (.ok _, s') =>
                some (.error status, s',
                  ⟨trail.commits ++ [commit recordedAt], trail.seen⟩)
            | (.error _, _) => none
          else some (.error status, s, trail)
  | .readStream id fromVersion maxCount, answer, (s, trail) =>
      match answer with
      | .server _ =>
          match clientReadStream (s.readStream id fromVersion maxCount) with
          | .ok events => some (.ok events, s, ⟨trail.commits, trail.seen ++ events⟩)
          | .error status => some (.error status, s, trail)
      | .fault status _ _ =>
          if status.code = .notFound then none else some (.error status, s, trail)
  | .panic, _, _ => none

def StoreOp.failed : (op : StoreOp) → op.Res → Prop
  | .append _ _ _, r => ∃ status, r = .error status
  | .readStream _ _ _, r => ∃ status, r = .error status
  | .panic, _ => False

end EventfoldEs
