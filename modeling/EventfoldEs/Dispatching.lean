/-
The command of a process manager on its way to the actor of its target: what
`TypedDispatcher::dispatch` fails with, and when an actor that goes idle is to blame.
-/
import EventfoldEs.HandleAnswers
import EventfoldEs.ActorCache
import EventfoldEs.Runner

namespace EventfoldEs

open Async

variable {C : Crates} {A : Aggregate} {instanceId : String}

/-- Why `dispatch` fails. -/
inductive DispatchFailure (A : Aggregate)
  | deserialization (message : String)
  | spawn (status : Status)
  | execution (e : ExecuteError A.Error)

/-- `ExecuteError` as it is displayed. -/
def ExecuteError.message {E : Type} (C : Crates) (display : E → String) :
    ExecuteError E → String
  | .domain e => display e
  | .wrongExpectedVersion => "wrong expected version: retries exhausted"
  | .io message => "I/O error: " ++ message
  | .transport status => "gRPC transport error: " ++ C.statusToString status
  | .actorGone => "aggregate actor is no longer running"

/-- The `io::Error` that becomes the error of the dead letter. -/
def DispatchFailure.message (C : Crates) (display : A.Error → String) :
    DispatchFailure A → String
  | .deserialization message => "command deserialization failed: " ++ message
  | .spawn status => "actor spawn failed: " ++ C.statusToString status
  | .execution e => "command execution failed: " ++ e.message C display

/-- How a dispatch has come out, from where its user is. -/
def User.dispatched : User A → Option (Except (DispatchFailure A) Unit)
  | .refused status => some (.error (.spawn status))
  | .answered n msg reply =>
      ((User.answered n msg reply).executeResult).map fun
        | .ok _ => .ok ()
        | .error e => .error (.execution e)
  | _ => none

/-- The message that a user is going to send, or has sent. -/
def User.message : User A → Option (ActorMessage A)
  | .idle | .refused _ => none
  | .evicting errand | .loading errand | .spawning errand _ => errand
  | .inserting errand _ | .holding errand _ => errand
  | .sending _ msg | .waiting _ msg | .answered _ msg _ => some msg

/-- `TypedDispatcher::dispatch`: the command is read, then `get` and `execute` follow. -/
def dispatchResult (readCommand : Value → Except String A.Command)
    (envelope : CommandEnvelope) (user : User A) :
    Option (Except (DispatchFailure A) Unit) :=
  match readCommand envelope.command with
  | .error message => some (.error (.deserialization message))
  | .ok _ => user.dispatched

/-- The task has left its loop, or never was in it. -/
def ActorTask.stopped : ActorTask A → Bool
  | .receiving _ | .handling _ _ => false
  | _ => true

namespace Instance

/-- The user dispatches the envelope, if it does anything. -/
def Dispatches (readCommand : Value → Except String A.Command)
    (newV4 : Nat → Nat → Uuid) (envelope : CommandEnvelope) (u : Nat) :
    InstanceAction A → Prop
  | .get v errand => v = u → ∃ cmd, readCommand envelope.command = .ok cmd ∧
      errand = some (.execute cmd envelope.context newV4)
  | .call v _ _ => v ≠ u
  | _ => True

/-- The call of the user holds a handle of the actor, and has not been received. -/
inductive Bound (w : Instance A) (u n : Nat) : Prop
  | holding {msg : ActorMessage A} (huser : w.users u = .holding (some msg) n)
  | sending {msg : ActorMessage A} (huser : w.users u = .sending n msg)
  | waiting {msg : ActorMessage A} (huser : w.users u = .waiting n msg)
      (hnew : u ∉ w.received)

/-- No actor stops while the call of the user is bound to it, and `get` does not return
to the user the handle of an actor that has stopped. -/
def LetsIn (u : Nat) (w : Instance A) : InstanceAction A → Prop
  | .quit n | .unwind n => ¬ w.Bound u n
  | .receive n => ∀ l rest, w.actors n = ⟨.receiving l, .shutdown :: rest⟩ → ¬ w.Bound u n
  | .get v _ => v = u → ∀ n, w.cachedAlive = some n → (w.actors n).task.stopped = false
  | .insert v => v = u → ∀ errand n, w.users u = .inserting errand n →
      (w.actors n).task.stopped = false
  | _ => True

/-- The actor that the call is bound to is in its loop; who hears that it is gone has
been received. -/
structure Welcome (u : Nat) (w : Instance A) : Prop where
  bound : ∀ n, w.Bound u n → (w.actors n).task.stopped = false
  heard : ∀ n msg, w.users u = .answered n msg none → u ∈ w.received

theorem alive_of_not_stopped {a : SpawnedActor A} (hin : a.task.stopped = false) :
    a.isAlive = true := by
  unfold ActorTask.stopped at hin
  unfold SpawnedActor.isAlive
  cases htask : a.task <;> rw [htask] at hin <;> first | rfl | cases hin

theorem Unused.welcome {w : Instance A} (hunused : w.Unused) (u : Nat) : w.Welcome u where
  bound n hbound := by
    cases hbound with
    | holding huser => cases (hunused.idle u).symm.trans huser
    | sending huser => cases (hunused.idle u).symm.trans huser
    | waiting huser hnew => cases (hunused.idle u).symm.trans huser
  heard n msg hu := by
    rw [hunused.idle u] at hu
    cases hu

theorem Bound.of_same {w w' : Instance A} {u n : Nat} (husers : w'.users u = w.users u)
    (hreceived : w'.received = w.received) (hbound : w'.Bound u n) : w.Bound u n := by
  cases hbound with
  | holding huser => exact .holding (husers ▸ huser)
  | sending huser => exact .sending (husers ▸ huser)
  | waiting huser hnew => exact .waiting (husers ▸ huser) (hreceived ▸ hnew)

/-- A step that leaves the user where it is, and its actor in its loop. -/
theorem Welcome.still {u : Nat} {w w' : Instance A} (hw : w.Welcome u)
    (husers : w'.users u = w.users u) (hreceived : w'.received = w.received)
    (htask : ∀ n, w.Bound u n → (w.actors n).task.stopped = false →
      (w'.actors n).task.stopped = false) : w'.Welcome u where
  bound n hbound := by
    have hold := hbound.of_same husers hreceived
    exact htask n hold (hw.bound n hold)
  heard n msg hu := by
    rw [hreceived]
    exact hw.heard n msg (husers ▸ hu)

/-- A step of one actor. -/
theorem stopped_of_setActor {w w' : Instance A} {u n : Nat} {a : SpawnedActor A}
    (hactors : w'.actors = (w.setActor n a).actors)
    (ha : w.Bound u n → (w.actors n).task.stopped = false → a.task.stopped = false) (m : Nat)
    (hbound : w.Bound u m) (hin : (w.actors m).task.stopped = false) :
    (w'.actors m).task.stopped = false := by
  rw [hactors]
  by_cases heq : m = n
  · subst heq
    rw [setActor_actors_self]
    exact ha hbound hin
  · rw [setActor_actors_ne w heq]
    exact hin

/-- The user moves on, bound to an actor only if that one is in its loop. -/
theorem Welcome.moved {u : Nat} {w' : Instance A} {user : User A}
    (husers : w'.users u = user) (hreceived : ∀ n msg, user = .answered n msg none →
      u ∈ w'.received)
    (hbound : ∀ n, w'.Bound u n → (w'.actors n).task.stopped = false) : w'.Welcome u :=
  ⟨hbound, fun n msg hu => hreceived n msg (husers.symm.trans hu)⟩

/-- The user that a step has moved to a place where it is bound to no actor. -/
theorem Welcome.unbound {u : Nat} {w' : Instance A} {user : User A}
    (husers : w'.users u = user) (hengaged : user.engaged = false)
    (hholding : ∀ n msg, user ≠ .holding (some msg) n)
    (hsending : ∀ n msg, user ≠ .sending n msg) : w'.Welcome u := by
  refine .moved husers (fun n msg hu => ?_) fun n hbound => ?_
  · rw [hu] at hengaged
    cases hengaged
  · cases hbound with
    | holding huser => exact absurd (husers.symm.trans huser) (hholding n _)
    | sending huser => exact absurd (husers.symm.trans huser) (hsending n _)
    | waiting huser hnew =>
        rw [husers.symm.trans huser] at hengaged
        cases hengaged

theorem Welcome.passed {u : Nat} {w : Instance A} (hw : w.Welcome u)
    {readCommand : Value → Except String A.Command} {newV4 : Nat → Nat → Uuid}
    {envelope : CommandEnvelope} {a : InstanceAction A}
    (hours : Dispatches readCommand newV4 envelope u a) (hlets : w.LetsIn u a) {v : Nat}
    {user : User A} (hpasses : Passes C instanceId w a v user) :
    (w.setUser v user).Welcome u := by
  by_cases heq : u = v
  · subst heq
    have hself : (w.setUser u user).users u = user := setUser_users_self w u user
    cases hpasses with
    | @hit u errand n huser hcached =>
        refine .moved hself (fun n msg hu => by cases hu) fun m hbound => ?_
        cases hbound with
        | holding hholding =>
            cases hself.symm.trans hholding
            exact hlets rfl n hcached
        | sending hsending => cases hself.symm.trans hsending
        | waiting hwaiting hnew => cases hself.symm.trans hwaiting
    | sentOff huser =>
        refine .moved hself (fun n msg hu => by cases hu) fun m hbound => ?_
        cases hbound with
        | holding hholding => cases hself.symm.trans hholding
        | sending hsending =>
            cases hself.symm.trans hsending
            exact hw.bound _ (.holding huser)
        | waiting hwaiting hnew => cases hself.symm.trans hwaiting
    | actorGone huser hgone =>
        have halive := alive_of_not_stopped (hw.bound _ (.sending huser))
        rw [hgone] at halive
        cases halive
    | called huser hspawned => exact absurd rfl hours
    | miss huser hcached =>
        exact .unbound hself rfl (fun n msg hu => by cases hu) fun n msg hu => by cases hu
    | loaded huser =>
        exact .unbound hself rfl (fun n msg hu => by cases hu) fun n msg hu => by cases hu
    | unloadable huser =>
        exact .unbound hself rfl (fun n msg hu => by cases hu) fun n msg hu => by cases hu
    | readServed huser =>
        exact .unbound hself rfl (fun n msg hu => by cases hu) fun n msg hu => by cases hu
    | unspawnable huser =>
        exact .unbound hself rfl (fun n msg hu => by cases hu) fun n msg hu => by cases hu
  · exact hw.still (setUser_users_ne w heq user) rfl fun n _ hin => hin

theorem Located.bound_of_queued {w : Instance A} (hw : w.Located C instanceId) {u n : Nat}
    (hin : u ∈ (requests (w.actors n).queue).map Prod.fst) : w.Bound u n := by
  obtain ⟨⟨_, msg⟩, hmem, rfl⟩ := List.mem_map.mp hin
  obtain ⟨hwaiting, hnew⟩ := hw.queued n _ msg hmem
  exact .waiting hwaiting hnew

/-- As long as the call is let in, its actor is in its loop until it is received. -/
theorem Welcome.step {u : Nat} {w w' : Instance A} (hw : w.Welcome u)
    (hlocated : w.Located C instanceId) {readCommand : Value → Except String A.Command}
    {newV4 : Nat → Nat → Uuid} {envelope : CommandEnvelope} {a : InstanceAction A}
    (hours : Dispatches readCommand newV4 envelope u a) (hlets : w.LetsIn u a)
    (hstep : Stepped C instanceId w a w') : w'.Welcome u := by
  cases hstep with
  | passed hpasses => exact hw.passed hours hlets hpasses
  | @evicted v errand huser =>
      by_cases heq : u = v
      · subst heq
        exact .unbound (setUser_users_self w u _) rfl (fun n msg hu => by cases hu)
          fun n msg hu => by cases hu
      · exact hw.still (setUser_users_ne w heq _) rfl fun n _ hin => hin
  | @spawned v errand l huser =>
      by_cases heq : u = v
      · subst heq
        exact .unbound (setUser_users_self w u _) rfl (fun n msg hu => by cases hu)
          fun n msg hu => by cases hu
      · exact hw.still (setUser_users_ne w heq _) rfl
          (stopped_of_setActor rfl fun _ _ => rfl)
  | @inserted v n errand huser =>
      by_cases heq : u = v
      · subst heq
        have hself := setUser_users_self w u (.holding errand n)
        refine .moved hself (fun n msg hu => by cases hu) fun m hbound => ?_
        cases hbound with
        | holding hholding =>
            cases hself.symm.trans hholding
            exact hlets rfl _ n huser
        | sending hsending => cases hself.symm.trans hsending
        | waiting hwaiting hnew => cases hself.symm.trans hwaiting
      · exact hw.still (setUser_users_ne w heq _) rfl fun n _ hin => hin
  | @sent v n msg huser halive hroom =>
      have htask := fun m => stopped_of_setActor (w := w) (u := u) (n := n)
        (a := ⟨(w.actors n).task, (w.actors n).queue ++ [.request v msg]⟩)
        rfl (fun _ hin => hin) m
      by_cases heq : u = v
      · subst heq
        have hself := setUser_users_self w u (.waiting n msg)
        refine .moved hself (fun n msg hu => by cases hu) fun m hbound => ?_
        cases hbound with
        | holding hholding => cases hself.symm.trans hholding
        | sending hsending => cases hself.symm.trans hsending
        | waiting hwaiting hnew =>
            cases hself.symm.trans hwaiting
            exact htask n (.sending huser) (hw.bound n (.sending huser))
      · exact hw.still (setUser_users_ne w heq _) rfl htask
  | shutdownSent halive hroom =>
      exact hw.still rfl rfl (stopped_of_setActor rfl fun _ hin => hin)
  | @received n v l msg rest hactor =>
      refine .moved rfl (fun m msg' hu => ?_) fun m hbound => ?_
      · exact List.mem_cons_of_mem _ (hw.heard m msg' hu)
      · have hold : w.Bound u m := by
          cases hbound with
          | holding huser => exact .holding huser
          | sending huser => exact .sending huser
          | waiting huser hnew =>
              exact .waiting huser fun hin => hnew (List.mem_cons_of_mem _ hin)
        exact stopped_of_setActor rfl (fun _ _ => rfl) m hold (hw.bound m hold)
  | shutdownReceived hactor =>
      refine hw.still rfl rfl (stopped_of_setActor rfl fun hbound _ => ?_)
      exact absurd hbound (hlets _ _ hactor)
  | served hactor => exact hw.still rfl rfl (stopped_of_setActor rfl fun _ _ => rfl)
  | @replied n v l reply queue hactor =>
      obtain ⟨hin, msg, l₀, hwaiting, -⟩ :=
        hlocated.handled n v (.ready (l, reply)) (by rw [hactor]; rfl)
      by_cases heq : u = v
      · subst heq
        have hself : ((w.setActor n ⟨.receiving l, queue⟩).setUser u
            ((w.users u).accept reply)).users u = .answered n msg (some reply) := by
          rw [setUser_users_self, hwaiting]
          rfl
        refine .moved hself (fun m msg' hu => by cases hu) fun m hbound => ?_
        cases hbound with
        | holding hholding => cases hself.symm.trans hholding
        | sending hsending => cases hself.symm.trans hsending
        | waiting hwaiting' hnew => exact absurd hin hnew
      · exact hw.still (setUser_users_ne _ heq _) rfl
          (stopped_of_setActor rfl fun _ _ => rfl)
  | @unwound n v l resume queue hactor =>
      have hout : u ∉ (requests (w.actors n).queue).map Prod.fst := fun hin =>
        hlets (hlocated.bound_of_queued hin)
      by_cases heq : u = v
      · subst heq
        obtain ⟨hin, msg, l₀, hwaiting, -⟩ :=
          hlocated.handled n u _ (by rw [hactor]; rfl)
        have hself : ((w.closeChannel n).drop [u]).users u = .answered n msg none := by
          rw [drop_users, if_pos (List.mem_singleton_self u), closeChannel_users,
            if_neg hout, hwaiting]
          rfl
        refine .moved hself (fun m msg' hu => hin) fun m hbound => ?_
        cases hbound with
        | holding hholding => cases hself.symm.trans hholding
        | sending hsending => cases hself.symm.trans hsending
        | waiting hwaiting' hnew => exact absurd hin hnew
      · refine hw.still ?_ rfl (stopped_of_setActor rfl fun hbound _ => ?_)
        · rw [drop_users, if_neg (fun hv => heq (List.mem_singleton.mp hv)),
            closeChannel_users, if_neg hout]
        · exact absurd hbound hlets
  | quit hactor =>
      refine hw.still rfl rfl (stopped_of_setActor rfl fun hbound _ => ?_)
      exact absurd hbound hlets
  | saved hactor =>
      refine hw.still rfl rfl (stopped_of_setActor rfl fun hbound hin => ?_)
      rw [hactor] at hin
      cases hin
  | @closed n queue hactor =>
      have hunbound : ¬ w.Bound u n := by
        intro hbound
        have hin := hw.bound n hbound
        rw [hactor] at hin
        cases hin
      refine hw.still ?_ rfl (stopped_of_setActor rfl fun hbound _ => ?_)
      · rw [closeChannel_users, if_neg fun hin => hunbound (hlocated.bound_of_queued hin)]
      · exact absurd hbound hunbound

theorem welcome_of_reaches {w₀ w : Instance A} (hunused : w₀.Unused) {u : Nat}
    {readCommand : Value → Except String A.Command} {newV4 : Nat → Nat → Uuid}
    {envelope : CommandEnvelope}
    (hreach : Reaches (step C instanceId) (fun w a =>
      Dispatches readCommand newV4 envelope u a ∧ w.LetsIn u a) w₀ w) : w.Welcome u := by
  induction hreach with
  | start => exact hunused.welcome u
  | next hprior hok hstep ih =>
      exact ih.step (sound_of_reaches hunused hprior).1 hok.1 hok.2 (stepped_of_step hstep)

/-- What the user carries is the command of the envelope. -/
def Carries (readCommand : Value → Except String A.Command) (newV4 : Nat → Nat → Uuid)
    (envelope : CommandEnvelope) (user : User A) : Prop :=
  ∀ msg ∈ user.message, ∃ cmd, readCommand envelope.command = .ok cmd ∧
    msg = .execute cmd envelope.context newV4

theorem hangUp_message (user : User A) : user.hangUp.message = user.message := by
  cases user <;> rfl

theorem accept_message (user : User A) (reply : Reply A) :
    (user.accept reply).message = user.message := by
  cases user <;> rfl

/-- A user takes on what it carries when it begins. -/
theorem Stepped.message {w w' : Instance A} {a : InstanceAction A}
    (hstep : Stepped C instanceId w a w') (u : Nat) :
    (w'.users u).message = (w.users u).message ∨ (w'.users u).message = none ∨
      a = .get u (w'.users u).message ∨ ∃ n msg, a = .call u n msg := by
  have huserStep := hstep.user u
  generalize w'.users u = user at huserStep ⊢
  cases huserStep with
  | stays hother => exact Or.inl rfl
  | passes hpasses =>
      cases hpasses with
      | hit huser hcached => exact Or.inr (Or.inr (Or.inl rfl))
      | miss huser hcached => exact Or.inr (Or.inr (Or.inl rfl))
      | loaded huser => exact Or.inl (by rw [huser]; rfl)
      | unloadable huser => exact Or.inr (Or.inl rfl)
      | readServed huser => exact Or.inl (by rw [huser]; rfl)
      | unspawnable huser => exact Or.inr (Or.inl rfl)
      | called huser hspawned => exact Or.inr (Or.inr (Or.inr ⟨_, _, rfl⟩))
      | sentOff huser => exact Or.inl (by rw [huser]; rfl)
      | actorGone huser hgone => exact Or.inl (by rw [huser]; rfl)
  | evicted huser => exact Or.inl (by rw [huser]; rfl)
  | spawned huser => exact Or.inl (by rw [huser]; rfl)
  | inserted huser => exact Or.inl (by rw [huser]; rfl)
  | sent huser => exact Or.inl (by rw [huser]; rfl)
  | replied hactor => exact Or.inl (accept_message _ _)
  | hungUp hother => exact Or.inl (hangUp_message _)

theorem carries_of_reaches {w₀ w : Instance A} (hunused : w₀.Unused) {u : Nat}
    {readCommand : Value → Except String A.Command} {newV4 : Nat → Nat → Uuid}
    {envelope : CommandEnvelope}
    (hreach : Reaches (step C instanceId) (fun w a =>
      Dispatches readCommand newV4 envelope u a ∧ w.LetsIn u a) w₀ w) :
    Carries readCommand newV4 envelope (w.users u) := by
  induction hreach with
  | start =>
      intro msg hmsg
      rw [hunused.idle u] at hmsg
      cases hmsg
  | next hprior hok hstep ih =>
      intro msg hmsg
      rcases (stepped_of_step hstep).message u with hsame | hnone | hget | ⟨n, msg', hcall⟩
      · exact ih msg (hsame ▸ hmsg)
      · rw [hnone] at hmsg
        cases hmsg
      · have hours := hok.1
        rw [hget] at hours
        obtain ⟨cmd, hcmd, herrand⟩ := hours rfl
        rw [herrand] at hmsg
        exact ⟨cmd, hcmd, (Option.some.inj hmsg).symm⟩
      · have hours := hok.1
        rw [hcall] at hours
        exact absurd rfl hours

/-- The dispatch has failed by itself: its command is not readable, no actor could be
spawned for it, or an actor has received it, and processing it has ended in this error or
in a panic. -/
def FailsItself (C : Crates) (instanceId : String)
    (readCommand : Value → Except String A.Command) (newV4 : Nat → Nat → Uuid)
    (envelope : CommandEnvelope) (u : Nat) (w : Instance A) : DispatchFailure A → Prop
  | .deserialization message => readCommand envelope.command = .error message
  | .spawn status => w.users u = .refused status
  | .execution e => u ∈ w.received ∧ (e = .actorGone ∨
      ∃ l l' cmd, readCommand envelope.command = .ok cmd ∧
        (processing C instanceId l (.execute cmd envelope.context newV4)).Comes
          (.ready (l', .execute (.error e))))

/-- A dispatch that is let in fails, and is dead-lettered, only by itself. -/
theorem dispatch_fails_itself {w₀ w : Instance A} (hunused : w₀.Unused) (u : Nat)
    (readCommand : Value → Except String A.Command) (newV4 : Nat → Nat → Uuid)
    (envelope : CommandEnvelope)
    (hreach : Reaches (step C instanceId) (fun w a =>
      Dispatches readCommand newV4 envelope u a ∧ w.LetsIn u a) w₀ w)
    (failure : DispatchFailure A)
    (hfails : dispatchResult readCommand envelope (w.users u) = some (.error failure)) :
    w.FailsItself C instanceId readCommand newV4 envelope u failure := by
  have hlocated := (sound_of_reaches hunused hreach).1
  have hwelcome := welcome_of_reaches hunused hreach
  have hcarries := carries_of_reaches hunused hreach
  unfold dispatchResult at hfails
  cases hread : readCommand envelope.command with
  | error message =>
      rw [hread] at hfails
      cases hfails
      exact hread
  | ok cmd =>
      rw [hread] at hfails
      cases huser : w.users u with
      | refused status =>
          rw [huser] at hfails
          cases hfails
          exact huser
      | answered n msg reply =>
          simp only [huser, User.dispatched, Option.map_eq_some_iff] at hfails
          obtain ⟨result, hresult, hout⟩ := hfails
          rw [huser] at hcarries
          obtain ⟨cmd', hcmd, rfl⟩ := hcarries msg rfl
          cases result with
          | ok events => cases hout
          | error e =>
              cases hout
              cases reply with
              | none =>
                  cases hresult
                  exact ⟨hwelcome.heard n _ huser, Or.inl rfl⟩
              | some reply =>
                  obtain ⟨hin, l, l', hcomes⟩ := hlocated.answered u n _ reply huser
                  cases reply with
                  | execute result =>
                      cases hresult
                      exact ⟨hin, Or.inr ⟨l, l', cmd', hcmd, hcomes⟩⟩
                  | getState state => cases hresult
                  | inject result => cases hresult
      | _ =>
          rw [huser] at hfails
          cases hfails

end Instance

namespace DispatchingWitness

open EventCodecWitness ActorRunsWitness ActorCacheWitness Instance

/-- The door has one command, which is read from `null`. -/
def readDoorCommand : Value → Except String door.Command
  | .null => .ok ()
  | _ => .error "invalid type, expected unit"

def doorEnvelope : CommandEnvelope := ⟨"door", "m-1", .null, .default⟩

def sevens : Nat → Nat → Uuid := fun _ _ => 7

def doorErrand : ActorMessage door := .execute () .default sevens

/-- An event store that can be read, but not written. -/
def readOnlyAnswers : (op : StoreOp) → Option op.Res
  | .append _ _ _ => some (.error ⟨.unavailable, "read only"⟩)
  | .readStream _ _ _ => some (.ok [])
  | .panic => none

def dispatchStep := Instance.step (A := door) crates "m-1"

/-- The dispatch spawns its actor, which cannot append. -/
def dispatchingReadOnly : List (InstanceAction door) :=
  [.get 0 (some doorErrand), .evict 0, .load 0 none, .serveSpawn 0 readOnlyAnswers,
    .spawned 0, .insert 0, .errand 0, .send 0, .receive 0, .serve 0 readOnlyAnswers,
    .reply 0]

theorem dispatch_fails_itself_read_only :
    ∃ w, runActions dispatchStep (unusedDoor ()) dispatchingReadOnly = some w ∧
      w.FailsItself crates "m-1" readDoorCommand sevens doorEnvelope 0
        (.execution (.transport ⟨.unavailable, "read only"⟩)) := by
  refine ⟨_, rfl, @dispatch_fails_itself crates door "m-1" _ _ (unusedDoor_unused ()) 0
    readDoorCommand sevens doorEnvelope (.run .start dispatchingReadOnly ?_ rfl) _ rfl⟩
  refine allOk_cons ⟨fun _ => ⟨(), rfl, rfl⟩, fun _ n hn => by cases hn⟩ rfl ?_
  refine allOk_cons ⟨trivial, trivial⟩ rfl ?_
  refine allOk_cons ⟨trivial, trivial⟩ rfl ?_
  refine allOk_cons ⟨trivial, trivial⟩ rfl ?_
  refine allOk_cons ⟨trivial, trivial⟩ rfl ?_
  refine allOk_cons ⟨trivial, fun _ errand n hn => by cases hn; rfl⟩ rfl ?_
  refine allOk_cons ⟨trivial, trivial⟩ rfl ?_
  refine allOk_cons ⟨trivial, trivial⟩ rfl ?_
  refine allOk_cons ⟨trivial, fun l rest hn => by cases hn⟩ rfl ?_
  refine allOk_cons ⟨trivial, trivial⟩ rfl ?_
  exact allOk_cons ⟨trivial, trivial⟩ rfl trivial

/-- The cached actor finds itself idle just before the dispatch asks for it. -/
def dispatchingToIdle : List (InstanceAction door) :=
  [.get 0 none, .evict 0, .load 0 none, .serveSpawn 0 emptyStoreAnswers, .spawned 0,
    .insert 0, .quit 0, .get 1 (some doorErrand), .errand 1, .send 1, .save 0 true,
    .close 0]

/-- The channel of an actor that saves its snapshot is still open: the command is sent,
never received, and dead-lettered as `ActorGone`. -/
theorem idle_actor_drops_command :
    ∃ w, runActions dispatchStep (unusedDoor ()) dispatchingToIdle = some w ∧
      dispatchResult readDoorCommand doorEnvelope (w.users 1) =
        some (.error (.execution .actorGone)) ∧
      w.received = [] ∧
      ¬ w.FailsItself crates "m-1" readDoorCommand sevens doorEnvelope 1
        (.execution .actorGone) :=
  ⟨_, rfl, rfl, rfl, fun hitself => List.not_mem_nil hitself.1⟩

end DispatchingWitness

end EventfoldEs
