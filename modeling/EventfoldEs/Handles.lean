/-
The actors of one aggregate instance as the users of a store see them: the cached
handle, the channel of every actor, and the replies.  A user makes one call of `get`, or
one call on a handle, or both after each other.  What the event store answers is left
open, so that everything here holds for any answers.
-/
import EventfoldEs.Actor
import EventfoldEs.Lib.Run

namespace EventfoldEs

open Async

variable (C : Crates) {A : Aggregate} (instanceId : String)

/-- What goes through the channel of an actor.  A request carries the reply sender of
the user that waits for it. -/
inductive Sent (A : Aggregate)
  | request (user : Nat) (msg : ActorMessage A)
  | shutdown

/-- The task of one spawn, from `tokio::spawn` to the end of `run_actor`. -/
inductive ActorTask (A : Aggregate)
  | unborn
  | receiving (l : ActorLocals A)
  | handling (user : Nat) (fut : ActorFuture A (ActorLocals A × Reply A))
  | stopping (l : ActorLocals A)
  | saved
  | gone

structure SpawnedActor (A : Aggregate) where
  task : ActorTask A
  queue : List (Sent A)

/-- Where a user is.  The errand of a `get` is the message it is going to send over the
handle, if any; the answer `none` stands for `ActorGone`. -/
inductive User (A : Aggregate)
  | idle
  | evicting (errand : Option (ActorMessage A))
  | loading (errand : Option (ActorMessage A))
  | spawning (errand : Option (ActorMessage A))
      (fut : ActorFuture A (Except Status (ActorLocals A)))
  | inserting (errand : Option (ActorMessage A)) (n : Nat)
  | refused (status : Status)
  | holding (errand : Option (ActorMessage A)) (n : Nat)
  | sending (n : Nat) (msg : ActorMessage A)
  | waiting (n : Nat) (msg : ActorMessage A)
  | answered (n : Nat) (msg : ActorMessage A) (reply : Option (Reply A))

/-- `mpsc::channel(32)`. -/
def channelCapacity : Nat := 32

/-- One instance of a store: the actors are numbered in the order of their spawns, the
cache holds at most one of them.  Of what has happened it is remembered whose requests
were received, and for whose the event store was asked to append. -/
structure Instance (A : Aggregate) where
  cache : Option Nat
  spawned : Nat
  actors : Nat → SpawnedActor A
  users : Nat → User A
  disk : Option (Snapshot A.State)
  received : List Nat
  appends : List Nat

/-- One step of a user, of an actor, or of whoever sends `Shutdown`.  `quit` is the idle
timeout, or the end of a channel without senders. -/
inductive InstanceAction (A : Aggregate)
  | get (u : Nat) (errand : Option (ActorMessage A))
  | evict (u : Nat)
  | load (u : Nat) (failure : Option String)
  | serveSpawn (u : Nat) (respond : (op : StoreOp) → Option op.Res)
  | spawned (u : Nat)
  | insert (u : Nat)
  | call (u n : Nat) (msg : ActorMessage A)
  | errand (u : Nat)
  | send (u : Nat)
  | shutdown (n : Nat)
  | receive (n : Nat)
  | serve (n : Nat) (respond : (op : StoreOp) → Option op.Res)
  | reply (n : Nat)
  | unwind (n : Nat)
  | quit (n : Nat)
  | save (n : Nat) (written : Bool)
  | close (n : Nat)

/-- `is_alive`: the receiver of the channel still exists. -/
def SpawnedActor.isAlive (a : SpawnedActor A) : Bool :=
  match a.task with
  | .unborn | .gone => false
  | _ => true

@[simp] theorem isAlive_requeue (a : SpawnedActor A) (queue : List (Sent A)) :
    SpawnedActor.isAlive ⟨a.task, queue⟩ = a.isAlive := rfl

def Sent.request? : Sent A → Option (Nat × ActorMessage A)
  | .request u msg => some (u, msg)
  | .shutdown => none

/-- The requests in a queue, each with the user that waits for its reply. -/
def requests (queue : List (Sent A)) : List (Nat × ActorMessage A) :=
  queue.filterMap Sent.request?

def StoreOp.isAppend : StoreOp → Bool
  | .append _ _ _ => true
  | _ => false

namespace User

/-- The reply arrives over the oneshot channel. -/
def accept (reply : Reply A) : User A → User A
  | .waiting n msg => .answered n msg (some reply)
  | other => other

/-- The reply sender is dropped. -/
def hangUp : User A → User A
  | .waiting n msg => .answered n msg none
  | other => other

end User

namespace Instance

def setUser (w : Instance A) (u : Nat) (user : User A) : Instance A :=
  { w with users := Function.update w.users u user }

def setActor (w : Instance A) (n : Nat) (a : SpawnedActor A) : Instance A :=
  { w with actors := Function.update w.actors n a }

/-- Dropping requests drops their reply senders. -/
def drop (w : Instance A) (dropped : List Nat) : Instance A :=
  { w with users := fun u => if u ∈ dropped then (w.users u).hangUp else w.users u }

/-- The receiver of a channel is dropped, with everything that is queued in it. -/
def closeChannel (w : Instance A) (n : Nat) : Instance A :=
  (w.setActor n ⟨.gone, []⟩).drop ((requests (w.actors n).queue).map Prod.fst)

/-- The cached handle, if its actor is alive. -/
def cachedAlive (w : Instance A) : Option Nat :=
  w.cache.filter fun n => (w.actors n).isAlive

/-- The steps of `AggregateStore::get`, the lock being released between them. -/
def getStep (w : Instance A) : InstanceAction A → Option (Instance A)
  | .get u errand =>
      match w.users u, w.cachedAlive with
      | .idle, some n => some (w.setUser u (.holding errand n))
      | .idle, none => some (w.setUser u (.evicting errand))
      | _, _ => none
  | .evict u =>
      match w.users u with
      | .evicting errand => some { w.setUser u (.loading errand) with cache := none }
      | _ => none
  | .load u failure =>
      match w.users u, failure with
      | .loading errand, none =>
          some (w.setUser u (.spawning errand (spawnActorWithStore C A instanceId w.disk)))
      | .loading _, some message =>
          some (w.setUser u (.refused ⟨.internal, "snapshot load error: " ++ message⟩))
      | _, _ => none
  | .serveSpawn u respond =>
      match w.users u with
      | .spawning errand (.await _ op resume) =>
          (respond op).map fun r => w.setUser u (.spawning errand (resume r))
      | _ => none
  | .spawned u =>
      match w.users u with
      | .spawning errand (.ready (.ok l)) =>
          some { (w.setUser u (.inserting errand w.spawned)).setActor w.spawned
            ⟨.receiving l, []⟩ with spawned := w.spawned + 1 }
      | .spawning _ (.ready (.error status)) => some (w.setUser u (.refused status))
      | _ => none
  | .insert u =>
      match w.users u with
      | .inserting errand n => some { w.setUser u (.holding errand n) with cache := some n }
      | _ => none
  | _ => none

/-- The steps of a call on a handle: it takes its place in the channel, which may have
to be waited for. -/
def callStep (w : Instance A) : InstanceAction A → Option (Instance A)
  | .call u n msg =>
      match w.users u with
      | .idle => if n < w.spawned then some (w.setUser u (.sending n msg)) else none
      | _ => none
  | .errand u =>
      match w.users u with
      | .holding (some msg) n => some (w.setUser u (.sending n msg))
      | _ => none
  | .send u =>
      match w.users u with
      | .sending n msg =>
          let a := w.actors n
          if a.isAlive then
            if a.queue.length < channelCapacity then
              some ((w.setUser u (.waiting n msg)).setActor n
                { a with queue := a.queue ++ [.request u msg] })
            else none
          else some (w.setUser u (.answered n msg none))
      | _ => none
  | .shutdown n =>
      let a := w.actors n
      if a.isAlive ∧ a.queue.length < channelCapacity then
        some (w.setActor n { a with queue := a.queue ++ [.shutdown] })
      else none
  | _ => none

/-- The steps of `run_actor`. -/
def taskStep (w : Instance A) : InstanceAction A → Option (Instance A)
  | .receive n =>
      match w.actors n with
      | ⟨.receiving l, .request u msg :: rest⟩ =>
          some { w.setActor n ⟨.handling u (onMessage C
              (streamUuid C A.aggregateType instanceId) instanceId l msg), rest⟩ with
            received := u :: w.received }
      | ⟨.receiving l, .shutdown :: rest⟩ => some (w.setActor n ⟨.stopping l, rest⟩)
      | _ => none
  | .serve n respond =>
      match w.actors n with
      | ⟨.handling u (.await _ op resume), queue⟩ =>
          (respond op).map fun r => { w.setActor n ⟨.handling u (resume r), queue⟩ with
            appends := if op.isAppend then u :: w.appends else w.appends }
      | _ => none
  | .reply n =>
      match w.actors n with
      | ⟨.handling u (.ready (l, reply)), queue⟩ =>
          some ((w.setActor n ⟨.receiving l, queue⟩).setUser u ((w.users u).accept reply))
      | _ => none
  | .unwind n =>
      match w.actors n with
      | ⟨.handling u (.await _ .panic _), _⟩ => some ((w.closeChannel n).drop [u])
      | _ => none
  | .quit n =>
      match w.actors n with
      | ⟨.receiving l, []⟩ => some (w.setActor n ⟨.stopping l, []⟩)
      | _ => none
  | .save n written =>
      match w.actors n with
      | ⟨.stopping l, queue⟩ => some { w.setActor n ⟨.saved, queue⟩ with
          disk := if written then some l.exitSnapshot else w.disk }
      | _ => none
  | .close n =>
      match w.actors n with
      | ⟨.saved, _⟩ => some (w.closeChannel n)
      | _ => none
  | _ => none

def step (w : Instance A) (a : InstanceAction A) : Option (Instance A) :=
  (w.getStep C instanceId a).or ((w.callStep a).or (w.taskStep C instanceId a))

/-- No actor has been spawned yet, and nobody has called. -/
structure Unused (w : Instance A) : Prop where
  uncached : w.cache = none
  unborn : ∀ n, w.actors n = ⟨.unborn, []⟩
  idle : ∀ u, w.users u = .idle
  unspawned : w.spawned = 0
  unreceived : w.received = []
  unasked : w.appends = []

@[simp] theorem setUser_users_self (w : Instance A) (u : Nat) (user : User A) :
    (w.setUser u user).users u = user := by
  simp [setUser]

theorem setUser_users_ne (w : Instance A) {u v : Nat} (hne : v ≠ u) (user : User A) :
    (w.setUser u user).users v = w.users v := by
  simp [setUser, Function.update_of_ne hne]

@[simp] theorem setUser_actors (w : Instance A) (u : Nat) (user : User A) :
    (w.setUser u user).actors = w.actors := rfl

@[simp] theorem setActor_actors_self (w : Instance A) (n : Nat) (a : SpawnedActor A) :
    (w.setActor n a).actors n = a := by
  simp [setActor]

theorem setActor_actors_ne (w : Instance A) {n m : Nat} (hne : m ≠ n)
    (a : SpawnedActor A) : (w.setActor n a).actors m = w.actors m := by
  simp [setActor, Function.update_of_ne hne]

@[simp] theorem setActor_users (w : Instance A) (n : Nat) (a : SpawnedActor A) :
    (w.setActor n a).users = w.users := rfl

theorem drop_users (w : Instance A) (dropped : List Nat) (u : Nat) :
    (w.drop dropped).users u =
      if u ∈ dropped then (w.users u).hangUp else w.users u := rfl

@[simp] theorem closeChannel_actors (w : Instance A) (n : Nat) :
    (w.closeChannel n).actors = (w.setActor n ⟨.gone, []⟩).actors := rfl

theorem closeChannel_users (w : Instance A) (n u : Nat) :
    (w.closeChannel n).users u = if u ∈ (requests (w.actors n).queue).map Prod.fst then
      (w.users u).hangUp else w.users u := rfl

/-- The steps after which only the user `u` itself is somewhere else. -/
inductive Passes (w : Instance A) : InstanceAction A → Nat → User A → Prop
  | hit {u : Nat} {errand : Option (ActorMessage A)} {n : Nat}
      (huser : w.users u = .idle) (hcached : w.cachedAlive = some n) :
      Passes w (.get u errand) u (.holding errand n)
  | miss {u : Nat} {errand : Option (ActorMessage A)}
      (huser : w.users u = .idle) (hcached : w.cachedAlive = none) :
      Passes w (.get u errand) u (.evicting errand)
  | loaded {u : Nat} {errand : Option (ActorMessage A)}
      (huser : w.users u = .loading errand) :
      Passes w (.load u none) u
        (.spawning errand (spawnActorWithStore C A instanceId w.disk))
  | unloadable {u : Nat} {errand : Option (ActorMessage A)} {message : String}
      (huser : w.users u = .loading errand) :
      Passes w (.load u (some message)) u
        (.refused ⟨.internal, "snapshot load error: " ++ message⟩)
  | readServed {u : Nat} {errand : Option (ActorMessage A)} {l : ActorLocals A}
      {op : StoreOp} {resume : op.Res → ActorFuture A (Except Status (ActorLocals A))}
      {respond : (op : StoreOp) → Option op.Res} {r : op.Res}
      (huser : w.users u = .spawning errand (.await l op resume)) :
      Passes w (.serveSpawn u respond) u (.spawning errand (resume r))
  | unspawnable {u : Nat} {errand : Option (ActorMessage A)} {status : Status}
      (huser : w.users u = .spawning errand (.ready (.error status))) :
      Passes w (.spawned u) u (.refused status)
  | called {u n : Nat} {msg : ActorMessage A} (huser : w.users u = .idle)
      (hspawned : n < w.spawned) : Passes w (.call u n msg) u (.sending n msg)
  | sentOff {u n : Nat} {msg : ActorMessage A}
      (huser : w.users u = .holding (some msg) n) :
      Passes w (.errand u) u (.sending n msg)
  | actorGone {u n : Nat} {msg : ActorMessage A} (huser : w.users u = .sending n msg)
      (hgone : (w.actors n).isAlive = false) :
      Passes w (.send u) u (.answered n msg none)

/-- Everything that a step can do. -/
inductive Stepped (w : Instance A) : InstanceAction A → Instance A → Prop
  | passed {a : InstanceAction A} {u : Nat} {user : User A}
      (hpasses : Passes C instanceId w a u user) : Stepped w a (w.setUser u user)
  | evicted {u : Nat} {errand : Option (ActorMessage A)}
      (huser : w.users u = .evicting errand) :
      Stepped w (.evict u) { w.setUser u (.loading errand) with cache := none }
  | spawned {u : Nat} {errand : Option (ActorMessage A)} {l : ActorLocals A}
      (huser : w.users u = .spawning errand (.ready (.ok l))) :
      Stepped w (.spawned u)
        { (w.setUser u (.inserting errand w.spawned)).setActor w.spawned
          ⟨.receiving l, []⟩ with spawned := w.spawned + 1 }
  | inserted {u n : Nat} {errand : Option (ActorMessage A)}
      (huser : w.users u = .inserting errand n) :
      Stepped w (.insert u) { w.setUser u (.holding errand n) with cache := some n }
  | sent {u n : Nat} {msg : ActorMessage A} (huser : w.users u = .sending n msg)
      (halive : (w.actors n).isAlive = true)
      (hroom : (w.actors n).queue.length < channelCapacity) :
      Stepped w (.send u) ((w.setUser u (.waiting n msg)).setActor n
        ⟨(w.actors n).task, (w.actors n).queue ++ [.request u msg]⟩)
  | shutdownSent {n : Nat} (halive : (w.actors n).isAlive = true)
      (hroom : (w.actors n).queue.length < channelCapacity) :
      Stepped w (.shutdown n)
        (w.setActor n ⟨(w.actors n).task, (w.actors n).queue ++ [.shutdown]⟩)
  | received {n u : Nat} {l : ActorLocals A} {msg : ActorMessage A} {rest : List (Sent A)}
      (hactor : w.actors n = ⟨.receiving l, .request u msg :: rest⟩) :
      Stepped w (.receive n) { w.setActor n ⟨.handling u (onMessage C
          (streamUuid C A.aggregateType instanceId) instanceId l msg), rest⟩ with
        received := u :: w.received }
  | shutdownReceived {n : Nat} {l : ActorLocals A} {rest : List (Sent A)}
      (hactor : w.actors n = ⟨.receiving l, .shutdown :: rest⟩) :
      Stepped w (.receive n) (w.setActor n ⟨.stopping l, rest⟩)
  | served {n u : Nat} {l : ActorLocals A} {op : StoreOp}
      {resume : op.Res → ActorFuture A (ActorLocals A × Reply A)} {queue : List (Sent A)}
      {respond : (op : StoreOp) → Option op.Res} {r : op.Res}
      (hactor : w.actors n = ⟨.handling u (.await l op resume), queue⟩)
      (hresponds : respond op = some r) :
      Stepped w (.serve n respond) { w.setActor n ⟨.handling u (resume r), queue⟩ with
        appends := if op.isAppend then u :: w.appends else w.appends }
  | replied {n u : Nat} {l : ActorLocals A} {reply : Reply A} {queue : List (Sent A)}
      (hactor : w.actors n = ⟨.handling u (.ready (l, reply)), queue⟩) :
      Stepped w (.reply n)
        ((w.setActor n ⟨.receiving l, queue⟩).setUser u ((w.users u).accept reply))
  | unwound {n u : Nat} {l : ActorLocals A}
      {resume : Empty → ActorFuture A (ActorLocals A × Reply A)} {queue : List (Sent A)}
      (hactor : w.actors n = ⟨.handling u (.await l .panic resume), queue⟩) :
      Stepped w (.unwind n) ((w.closeChannel n).drop [u])
  | quit {n : Nat} {l : ActorLocals A} (hactor : w.actors n = ⟨.receiving l, []⟩) :
      Stepped w (.quit n) (w.setActor n ⟨.stopping l, []⟩)
  | saved {n : Nat} {l : ActorLocals A} {queue : List (Sent A)} {written : Bool}
      (hactor : w.actors n = ⟨.stopping l, queue⟩) :
      Stepped w (.save n written) { w.setActor n ⟨.saved, queue⟩ with
        disk := if written then some l.exitSnapshot else w.disk }
  | closed {n : Nat} {queue : List (Sent A)} (hactor : w.actors n = ⟨.saved, queue⟩) :
      Stepped w (.close n) (w.closeChannel n)

variable {C} {instanceId}

theorem stepped_of_step {w w' : Instance A} {a : InstanceAction A}
    (hstep : w.step C instanceId a = some w') : Stepped C instanceId w a w' := by
  cases a with
  | get u errand =>
      simp only [step, getStep, callStep, taskStep, Option.or_none] at hstep
      split at hstep <;> simp only [Option.some.injEq, reduceCtorEq] at hstep
      · exact hstep ▸ .passed (.hit ‹_› ‹_›)
      · exact hstep ▸ .passed (.miss ‹_› ‹_›)
  | evict u =>
      simp only [step, getStep, callStep, taskStep, Option.or_none] at hstep
      split at hstep <;> simp only [Option.some.injEq, reduceCtorEq] at hstep
      exact hstep ▸ .evicted ‹_›
  | load u failure =>
      simp only [step, getStep, callStep, taskStep, Option.or_none] at hstep
      split at hstep <;> simp only [Option.some.injEq, reduceCtorEq] at hstep
      · exact hstep ▸ .passed (.loaded ‹_›)
      · exact hstep ▸ .passed (.unloadable ‹_›)
  | serveSpawn u respond =>
      simp only [step, getStep, callStep, taskStep, Option.or_none] at hstep
      split at hstep <;> simp only [Option.map_eq_some_iff, reduceCtorEq] at hstep
      obtain ⟨r, -, hnext⟩ := hstep
      exact hnext ▸ .passed (.readServed ‹_›)
  | spawned u =>
      simp only [step, getStep, callStep, taskStep, Option.or_none] at hstep
      split at hstep <;> simp only [Option.some.injEq, reduceCtorEq] at hstep
      · exact hstep ▸ .spawned ‹_›
      · exact hstep ▸ .passed (.unspawnable ‹_›)
  | insert u =>
      simp only [step, getStep, callStep, taskStep, Option.or_none] at hstep
      split at hstep <;> simp only [Option.some.injEq, reduceCtorEq] at hstep
      exact hstep ▸ .inserted ‹_›
  | call u n msg =>
      simp only [step, getStep, callStep, taskStep, Option.none_or, Option.or_none] at hstep
      split at hstep <;> try cases hstep
      split at hstep <;> simp only [Option.some.injEq, reduceCtorEq] at hstep
      exact hstep ▸ .passed (.called ‹_› ‹_›)
  | errand u =>
      simp only [step, getStep, callStep, taskStep, Option.none_or, Option.or_none] at hstep
      split at hstep <;> simp only [Option.some.injEq, reduceCtorEq] at hstep
      exact hstep ▸ .passed (.sentOff ‹_›)
  | send u =>
      simp only [step, getStep, callStep, taskStep, Option.none_or, Option.or_none] at hstep
      split at hstep <;> try cases hstep
      rename_i n msg huser
      by_cases halive : (w.actors n).isAlive = true
      · simp only [halive, ↓reduceIte, Option.ite_none_right_eq_some,
          Option.some.injEq] at hstep
        exact hstep.2 ▸ .sent huser halive hstep.1
      · simp only [halive, Bool.false_eq_true, ↓reduceIte, Option.some.injEq] at hstep
        exact hstep ▸ .passed (.actorGone huser (Bool.eq_false_iff.mpr halive))
  | shutdown n =>
      simp only [step, getStep, callStep, taskStep, Option.none_or, Option.or_none,
        Option.ite_none_right_eq_some, Option.some.injEq] at hstep
      exact hstep.2 ▸ .shutdownSent hstep.1.1 hstep.1.2
  | receive n =>
      simp only [step, getStep, callStep, taskStep, Option.none_or] at hstep
      split at hstep <;> simp only [Option.some.injEq, reduceCtorEq] at hstep
      · exact hstep ▸ .received ‹_›
      · exact hstep ▸ .shutdownReceived ‹_›
  | serve n respond =>
      simp only [step, getStep, callStep, taskStep, Option.none_or] at hstep
      split at hstep <;> simp only [Option.map_eq_some_iff, reduceCtorEq] at hstep
      obtain ⟨r, hresponds, hnext⟩ := hstep
      exact hnext ▸ .served ‹_› hresponds
  | reply n =>
      simp only [step, getStep, callStep, taskStep, Option.none_or] at hstep
      split at hstep <;> simp only [Option.some.injEq, reduceCtorEq] at hstep
      exact hstep ▸ .replied ‹_›
  | unwind n =>
      simp only [step, getStep, callStep, taskStep, Option.none_or] at hstep
      split at hstep <;> simp only [Option.some.injEq, reduceCtorEq] at hstep
      exact hstep ▸ .unwound ‹_›
  | quit n =>
      simp only [step, getStep, callStep, taskStep, Option.none_or] at hstep
      split at hstep <;> simp only [Option.some.injEq, reduceCtorEq] at hstep
      exact hstep ▸ .quit ‹_›
  | save n written =>
      simp only [step, getStep, callStep, taskStep, Option.none_or] at hstep
      split at hstep <;> simp only [Option.some.injEq, reduceCtorEq] at hstep
      exact hstep ▸ .saved ‹_›
  | close n =>
      simp only [step, getStep, callStep, taskStep, Option.none_or] at hstep
      split at hstep <;> simp only [Option.some.injEq, reduceCtorEq] at hstep
      exact hstep ▸ .closed ‹_›

/-- What a step makes of the user `u`. -/
inductive UserStep (C : Crates) (instanceId : String) (w : Instance A) (u : Nat) :
    InstanceAction A → User A → Prop
  | stays {a : InstanceAction A} (hother : a ≠ .send u) :
      UserStep C instanceId w u a (w.users u)
  | passes {a : InstanceAction A} {user : User A}
      (hpasses : Passes C instanceId w a u user) : UserStep C instanceId w u a user
  | evicted {errand : Option (ActorMessage A)} (huser : w.users u = .evicting errand) :
      UserStep C instanceId w u (.evict u) (.loading errand)
  | spawned {errand : Option (ActorMessage A)} {l : ActorLocals A}
      (huser : w.users u = .spawning errand (.ready (.ok l))) :
      UserStep C instanceId w u (.spawned u) (.inserting errand w.spawned)
  | inserted {n : Nat} {errand : Option (ActorMessage A)}
      (huser : w.users u = .inserting errand n) :
      UserStep C instanceId w u (.insert u) (.holding errand n)
  | sent {n : Nat} {msg : ActorMessage A} (huser : w.users u = .sending n msg) :
      UserStep C instanceId w u (.send u) (.waiting n msg)
  | replied {n : Nat} {l : ActorLocals A} {reply : Reply A} {queue : List (Sent A)}
      (hactor : w.actors n = ⟨.handling u (.ready (l, reply)), queue⟩) :
      UserStep C instanceId w u (.reply n) ((w.users u).accept reply)
  | hungUp {a : InstanceAction A} (hother : a ≠ .send u) :
      UserStep C instanceId w u a (w.users u).hangUp

/-- A step of the user `v` leaves every other user where it is. -/
theorem UserStep.of_setUser {w w' : Instance A} {a : InstanceAction A} {u v : Nat}
    {user : User A} (husers : w'.users = (w.setUser v user).users)
    (hself : u = v → UserStep C instanceId w u a user) (hother : u ≠ v → a ≠ .send u) :
    UserStep C instanceId w u a (w'.users u) := by
  rw [husers]
  by_cases heq : u = v
  · subst heq
    rw [setUser_users_self]
    exact hself rfl
  · rw [setUser_users_ne w heq]
    exact .stays (hother heq)

theorem UserStep.of_drop {w v : Instance A} {a : InstanceAction A} {u : Nat}
    {dropped : List Nat} (husers : v.users u = w.users u ∨ v.users u = (w.users u).hangUp)
    (hother : a ≠ .send u) : UserStep C instanceId w u a ((v.drop dropped).users u) := by
  have hgone : (w.users u).hangUp.hangUp = (w.users u).hangUp := by
    cases w.users u <;> rfl
  rw [drop_users]
  split <;> rcases husers with hsame | hsame <;> rw [hsame]
  · exact .hungUp hother
  · rw [hgone]
    exact .hungUp hother
  · exact .stays hother
  · exact .hungUp hother

theorem Stepped.user {w w' : Instance A} {a : InstanceAction A}
    (hstep : Stepped C instanceId w a w') (u : Nat) :
    UserStep C instanceId w u a (w'.users u) := by
  cases hstep with
  | passed hpasses =>
      refine .of_setUser rfl (fun heq => heq ▸ .passes hpasses) fun hne hsend => ?_
      subst hsend
      cases hpasses
      exact hne rfl
  | evicted huser =>
      exact .of_setUser rfl (fun heq => by subst heq; exact .evicted huser)
        fun _ hsend => by cases hsend
  | spawned huser =>
      exact .of_setUser rfl (fun heq => by subst heq; exact .spawned huser)
        fun _ hsend => by cases hsend
  | inserted huser =>
      exact .of_setUser rfl (fun heq => by subst heq; exact .inserted huser)
        fun _ hsend => by cases hsend
  | sent huser halive hroom =>
      refine .of_setUser rfl (fun heq => by subst heq; exact .sent huser) fun hne hsend => ?_
      cases hsend
      exact hne rfl
  | replied hactor =>
      refine .of_setUser rfl (fun heq => ?_) fun _ hsend => by cases hsend
      subst heq
      exact .replied hactor
  | unwound hactor =>
      refine .of_drop ?_ fun hsend => by cases hsend
      rw [closeChannel_users]
      split
      · exact Or.inr rfl
      · exact Or.inl rfl
  | closed hactor => exact .of_drop (Or.inl rfl) fun hsend => by cases hsend
  | shutdownSent halive hroom => exact .stays fun hsend => by cases hsend
  | received hactor => exact .stays fun hsend => by cases hsend
  | shutdownReceived hactor => exact .stays fun hsend => by cases hsend
  | served hactor => exact .stays fun hsend => by cases hsend
  | quit hactor => exact .stays fun hsend => by cases hsend
  | saved hactor => exact .stays fun hsend => by cases hsend

end Instance

end EventfoldEs
