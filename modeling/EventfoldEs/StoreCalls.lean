/-
One store used sequentially: each call of it is awaited before the next, and nobody
else writes.  What the calls answer, compared with the fold of the events that they
have acknowledged.
-/
import EventfoldEs.StreamIsolation

namespace EventfoldEs

open Async Replay

/-- A handle names the actor it was given for by the number of its spawn. -/
structure Handle (ι : Type) where
  id : ι
  spawned : Nat

/-- The calls of a store and of its handles; `send` is `execute`, `state` or
`inject_via_actor`.  In between an actor may find itself idle and stop. -/
inductive StoreCall (ι : Type) (A : ι → Aggregate)
  | get (i : ι)
  | send (h : Handle ι) (msg : ActorMessage (A h.id)) (recordedAt : Nat)
  | injectEvent (i : ι) (proposed : ProposedEventData) (opts : InjectOptions)
      (recordedAt : Nat)
  | idle (i : ι) (saved : Bool)

variable (C : Crates) {ι : Type} {A : ι → Aggregate}

/-- The domain event that an injected event is read back as, if it is one. -/
def injectedEvent (A : Aggregate) (proposed : ProposedEventData) : Option A.DomainEvent :=
  decodeDomainEvent C A (recordEvent C 0 0 0 0 (toProtoEvent C proposed))

/-- The domain events that a reply acknowledges. -/
def acknowledges (A : Aggregate) : ActorMessage A → Reply A → List A.DomainEvent
  | .execute _ _ _, .execute (.ok events) => events
  | .inject proposed, .inject (.ok ()) => (injectedEvent C A proposed).toList
  | _, _ => []

/-- A message that an actor has answered, and what had been acknowledged before. -/
structure Answered (A : Aggregate) where
  before : List A.DomainEvent
  msg : ActorMessage A
  reply : Reply A

/-- A store between two calls, with what its callers have been told. -/
structure OpenStore (A : ι → Aggregate) where
  server : Server
  running : ∀ i, Option (ActorLocals (A i))
  spawned : ι → Nat
  disk : ∀ i, Option (Snapshot (A i).State)
  acknowledged : ∀ i, List (A i).DomainEvent
  answered : List (Σ i, Answered (A i))

/-- The server answers every operation of a call. -/
def answering (recordedAt : Nat) (op : StoreOp) (x : Server × Trail) :
    Option (op.Res × (Server × Trail)) :=
  op.serve C (.server recordedAt) x

variable [DecidableEq ι] (instanceId : ι → String)

namespace OpenStore

/-- `AggregateStore::get` finds a running actor in the cache, or spawns one. -/
def get (w : OpenStore A) (i : ι) : Option (OpenStore A) :=
  match w.running i with
  | some _ => some w
  | none =>
      ((spawnActorWithStore C (A i) (instanceId i) (w.disk i)).runOn (answering C 0)
        (w.server, ⟨[], []⟩)).map fun
          | (.ok l, s, _) => { w with
              server := s
              running := Function.update w.running i (some l)
              spawned := Function.update w.spawned i (w.spawned i + 1) }
          | (.error _, s, _) => { w with server := s }

/-- A message to the actor of a handle; the actor of an older spawn is gone. -/
def send (w : OpenStore A) (h : Handle ι) (msg : ActorMessage (A h.id))
    (recordedAt : Nat) : Option (OpenStore A) :=
  match w.running h.id with
  | none => some w
  | some l =>
      if h.spawned = w.spawned h.id then
        ((onMessage C (streamOf C A instanceId h.id) (instanceId h.id) l msg).runOn
          (answering C recordedAt) (w.server, ⟨[], []⟩)).map fun ((l', reply), s, _) =>
            { w with
              server := s
              running := Function.update w.running h.id (some l')
              acknowledged := Function.update w.acknowledged h.id
                (w.acknowledged h.id ++ acknowledges C (A h.id) msg reply)
              answered := w.answered ++ [⟨h.id, w.acknowledged h.id, msg, reply⟩] }
      else some w

/-- `AggregateStore::inject_event`.  The dispatches of a process manager pass that it
starts are calls of their own. -/
def injectEvent (w : OpenStore A) (i : ι) (proposed : ProposedEventData)
    (opts : InjectOptions) (recordedAt : Nat) : Option (OpenStore A) :=
  ((EventfoldEs.injectEvent C (A i) (instanceId i) proposed opts (.ready (.ok ()))).runOn
    (answering C recordedAt) (w.server, ⟨[], []⟩)).map fun
      | (.ok (), s, _) => { w with
          server := s
          acknowledged := Function.update w.acknowledged i
            (w.acknowledged i ++ (injectedEvent C (A i) proposed).toList) }
      | (.error _, s, _) => { w with server := s }

def step (w : OpenStore A) : StoreCall ι A → Option (OpenStore A)
  | .get i => w.get C instanceId i
  | .send h msg recordedAt => w.send C instanceId h msg recordedAt
  | .injectEvent i proposed opts recordedAt =>
      w.injectEvent C instanceId i proposed opts recordedAt
  | .idle i saved =>
      (w.running i).map fun l => { w with
        running := Function.update w.running i none
        disk := if saved then Function.update w.disk i (some l.exitSnapshot) else w.disk }

end OpenStore

section Answers

variable {C} {A : Aggregate} {id : Uuid} {instanceId : String}

/-- What `handle` at the state `s` makes of a command, and nothing else; events that
cannot be encoded are reported as such. -/
def ExecutesAt (A : Aggregate) (instanceId : String) (s : A.State) (cmd : A.Command)
    (ctx : CommandContext) (newV4 : Nat → Nat → Uuid) (result : ExecuteResult A) : Prop :=
  match A.handle s cmd with
  | .error e => result = .error (.domain e)
  | .ok [] => result = .ok []
  | .ok (e :: rest) => result = .ok (e :: rest) ∨
      ∃ attempt message, result = .error (.io message) ∧
        encodeEvents A (newV4 attempt) ctx instanceId 0 (e :: rest) = .error (.serde message)

/-- The reply of an actor whose state is `s`. -/
def AnswersAt (A : Aggregate) (instanceId : String) (s : A.State) :
    ActorMessage A → Reply A → Prop
  | .execute cmd ctx newV4, .execute result => ExecutesAt A instanceId s cmd ctx newV4 result
  | .getState, .getState state => state = s
  | .inject _, .inject _ => True
  | _, _ => False

end Answers

namespace OpenStore

/-- A store that has just been opened on what an earlier one has left behind. -/
structure Opened (i : ι) (w : OpenStore A) : Prop where
  wellFormed : w.server.WellFormed
  idle : w.running i = none
  disk : ∀ snap ∈ w.disk i,
    snap.Transparent C (w.server.streams (streamOf C A instanceId i))
  acknowledged : w.acknowledged i =
    (w.server.streams (streamOf C A instanceId i)).filterMap (decodeDomainEvent C (A i))
  unanswered : w.answered = []

/-- What every call keeps: the actor names a prefix of its stream, the snapshot can be
trusted, the stream is what has been acknowledged, and every answer was given at the
fold of what had been acknowledged before. -/
structure Consistent (i : ι) (w : OpenStore A) : Prop where
  wellFormed : w.server.WellFormed
  running : ∀ l, w.running i = some l →
    ExactPrefix C l (w.server.streams (streamOf C A instanceId i))
  disk : ∀ snap ∈ w.disk i,
    snap.Transparent C (w.server.streams (streamOf C A instanceId i))
  acknowledged : w.acknowledged i =
    (w.server.streams (streamOf C A instanceId i)).filterMap (decodeDomainEvent C (A i))
  answered : ∀ done : Answered (A i), (⟨i, done⟩ : Σ i, Answered (A i)) ∈ w.answered →
    AnswersAt (A i) (instanceId i) (done.before.foldl (A i).apply (A i).default)
      done.msg done.reply

variable {C} {instanceId}

omit [DecidableEq ι] in
/-- A call that has to do with another stream. -/
theorem Consistent.elsewhere {i : ι} {w w' : OpenStore A} (hw : w.Consistent C instanceId i)
    (hwf : w'.server.WellFormed)
    (hstream : w'.server.streams (streamOf C A instanceId i) =
      w.server.streams (streamOf C A instanceId i))
    (hrunning : w'.running i = w.running i) (hdisk : w'.disk i = w.disk i)
    (hacknowledged : w'.acknowledged i = w.acknowledged i)
    (hanswered : ∀ done : Answered (A i),
      (⟨i, done⟩ : Σ i, Answered (A i)) ∈ w'.answered → ⟨i, done⟩ ∈ w.answered) :
    w'.Consistent C instanceId i where
  wellFormed := hwf
  running l hl := by
    rw [hstream]
    exact hw.running l (hrunning ▸ hl)
  disk snap hsnap := by
    rw [hstream]
    exact hw.disk snap (hdisk ▸ hsnap)
  acknowledged := by
    rw [hstream, hacknowledged]
    exact hw.acknowledged
  answered done hdone := hw.answered done (hanswered done hdone)

end OpenStore

namespace StoreCallsWitness

open EventCodecWitness ActorRunsWitness ActorRestartWitness OpenStore

end StoreCallsWitness

end EventfoldEs
