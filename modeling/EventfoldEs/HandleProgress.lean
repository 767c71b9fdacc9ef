/-
Every call on a handle returns: in a run in which the actors keep working and the
channels are fair to their senders, nothing waits for ever.
-/
import EventfoldEs.HandleTraces
import EventfoldEs.ActorCache

namespace EventfoldEs

open Async

variable {C : Crates} {A : Aggregate} {instanceId : String}

/-- The task has something to do: it does not wait for a message that is not there. -/
def SpawnedActor.hasWork (a : SpawnedActor A) : Bool :=
  match a.task with
  | .receiving _ => !a.queue.isEmpty
  | .handling _ _ | .stopping _ | .saved => true
  | .unborn | .gone => false

/-- How a task goes on between two messages, and at its end. -/
inductive ActorTask.After : ActorTask A → ActorTask A → Prop
  | served (u : Nat) {fut fut' : ActorFuture A (ActorLocals A × Reply A)}
      (hresumes : Future.Resumes fut' fut) : After (.handling u fut') (.handling u fut)
  | replied (u : Nat) (l l' : ActorLocals A) (reply : Reply A) :
      After (.receiving l) (.handling u (.ready (l', reply)))
  | saved (l : ActorLocals A) : After .saved (.stopping l)

/-- How long the request of `u` has to wait for the actor: what is queued before it
comes first, then what the task is doing now. -/
def SpawnedActor.ahead (a : SpawnedActor A) (u : Nat) : Nat :=
  if a.task.handled.map Prod.fst = some u then 0
  else a.queue.findIdx (fun s => s.request?.map Prod.fst == some u) + 1

def Sooner : Nat × ActorTask A → Nat × ActorTask A → Prop :=
  Prod.Lex (· < ·) ActorTask.After

theorem ActorTask.after_wellFounded : WellFounded (ActorTask.After (A := A)) := by
  have hreceiving : ∀ l : ActorLocals A, Acc ActorTask.After (.receiving l) :=
    fun l => ⟨_, fun _ hafter => by cases hafter⟩
  have hhandling : ∀ u (fut : ActorFuture A (ActorLocals A × Reply A)),
      Acc ActorTask.After (.handling u fut) := by
    intro u fut
    induction fut using Future.resumes_wellFounded.induction with
    | _ fut ih =>
        refine ⟨_, fun next hafter => ?_⟩
        cases hafter with
        | served _ hresumes => exact ih _ hresumes
        | replied _ l _ _ => exact hreceiving l
  have hsaved : Acc (ActorTask.After (A := A)) .saved :=
    ⟨_, fun _ hafter => by cases hafter⟩
  refine ⟨fun task => ?_⟩
  cases task with
  | receiving l => exact hreceiving l
  | handling u fut => exact hhandling u fut
  | saved => exact hsaved
  | stopping l =>
      refine ⟨_, fun next hafter => ?_⟩
      cases hafter
      exact hsaved
  | unborn => exact ⟨_, fun _ hafter => by cases hafter⟩
  | gone => exact ⟨_, fun _ hafter => by cases hafter⟩

theorem sooner_wellFounded : WellFounded (Sooner (A := A)) :=
  WellFounded.prod_lex Nat.lt_wfRel.wf ActorTask.after_wellFounded

theorem SpawnedActor.ahead_handled {a : SpawnedActor A} {u : Nat}
    (htask : a.task.handled.map Prod.fst = some u) : a.ahead u = 0 := if_pos htask

theorem SpawnedActor.ahead_unhandled {a : SpawnedActor A} {u : Nat}
    (htask : a.task.handled.map Prod.fst ≠ some u) :
    a.ahead u = a.queue.findIdx (fun s => s.request?.map Prod.fst == some u) + 1 :=
  if_neg htask

theorem mem_requests {queue : List (Sent A)} {u : Nat} {msg : ActorMessage A}
    (hmem : (u, msg) ∈ requests queue) : .request u msg ∈ queue := by
  obtain ⟨s, hs, hrequest⟩ := List.mem_filterMap.mp hmem
  cases s with
  | request v msg' =>
      cases hrequest
      exact hs
  | shutdown => cases hrequest

/-- What is sent later does not come in before. -/
theorem SpawnedActor.ahead_append {task : ActorTask A} {queue : List (Sent A)} {u : Nat}
    (hplace : (∃ msg, (u, msg) ∈ requests queue) ∨ task.handled.map Prod.fst = some u)
    (s : Sent A) :
    SpawnedActor.ahead ⟨task, queue ++ [s]⟩ u = SpawnedActor.ahead ⟨task, queue⟩ u := by
  by_cases hhandled : task.handled.map Prod.fst = some u
  · rw [ahead_handled hhandled, ahead_handled hhandled]
  · obtain ⟨msg, hmem⟩ := hplace.resolve_right hhandled
    have hlt := List.findIdx_lt_length_of_exists
      (p := fun s : Sent A => s.request?.map Prod.fst == some u)
      ⟨_, mem_requests hmem, by simp [Sent.request?]⟩
    rw [ahead_unhandled hhandled, ahead_unhandled hhandled, List.findIdx_append, if_pos hlt]

/-- The head of the channel is not the request that waits. -/
theorem SpawnedActor.ahead_tail {task task' : ActorTask A} {s : Sent A}
    {rest : List (Sent A)} {u : Nat} (hhead : s.request?.map Prod.fst ≠ some u)
    (htask : task.handled.map Prod.fst ≠ some u) :
    SpawnedActor.ahead ⟨task', rest⟩ u < SpawnedActor.ahead ⟨task, s :: rest⟩ u := by
  rw [ahead_unhandled (a := ⟨task, s :: rest⟩) htask, List.findIdx_cons,
    beq_eq_false_iff_ne.mpr hhead]
  unfold ahead
  split
  · exact Nat.succ_pos _
  · exact Nat.lt_succ_self _

namespace Instance

/-- The rank of a request of `u` to actor `n`. -/
def rank (w : Instance A) (n u : Nat) : Nat × ActorTask A :=
  ((w.actors n).ahead u, (w.actors n).task)

/-- What a step does for a user that waits for actor `n`. -/
inductive MovesOn (w w' : Instance A) (a : InstanceAction A) (n u : Nat)
    (msg : ActorMessage A) : Prop
  | answered (reply : Option (Reply A)) (huser : w'.users u = .answered n msg reply)
  | sooner (huser : w'.users u = .waiting n msg)
      (hsooner : Sooner (w'.rank n u) (w.rank n u))
  | elsewhere (huser : w'.users u = .waiting n msg) (hsame : w'.rank n u = w.rank n u)
      (hother : a.task? ≠ some n)

/-- The actor that a user waits for has it in its channel, or is processing its request. -/
theorem Located.place {w : Instance A} (hw : w.Located C instanceId) {u n : Nat}
    {msg : ActorMessage A} (huser : w.users u = .waiting n msg) :
    (∃ msg, (u, msg) ∈ requests (w.actors n).queue) ∨
      (w.actors n).task.handled.map Prod.fst = some u := by
  rcases hw.waiting u n msg huser with hin | ⟨fut, hfut⟩
  · exact Or.inl ⟨msg, hin⟩
  · exact Or.inr (by rw [hfut]; rfl)

theorem Located.awaited_alive {w : Instance A} (hw : w.Located C instanceId)
    (hchannels : w.Channels) {u n : Nat} {msg : ActorMessage A}
    (huser : w.users u = .waiting n msg) : (w.actors n).isAlive = true := by
  by_contra hdead
  rw [Bool.not_eq_true] at hdead
  rcases hw.waiting u n msg huser with hin | ⟨fut, hfut⟩
  · rw [hchannels.emptied n hdead] at hin
    cases hin
  · unfold SpawnedActor.isAlive at hdead
    cases htask : (w.actors n).task <;> rw [htask] at hdead hfut <;> cases hdead <;> cases hfut

/-- A step of another user, or of another actor. -/
theorem MovesOn.of_same {w w' : Instance A} {a : InstanceAction A} {n u : Nat}
    {msg : ActorMessage A} (huser : w.users u = .waiting n msg)
    (husers : w'.users u = w.users u) (hactor : w'.actors n = w.actors n)
    (hother : a.task? ≠ some n) : MovesOn w w' a n u msg :=
  .elsewhere (husers.trans huser) (by rw [rank, rank, hactor]) hother

theorem MovesOn.of_setUser {w : Instance A} {a : InstanceAction A} {n u v : Nat}
    {msg : ActorMessage A} {user : User A} (huser : w.users u = .waiting n msg)
    (hne : w.users v ≠ w.users u) (hother : a.task? ≠ some n) :
    MovesOn w (w.setUser v user) a n u msg := by
  refine .of_same huser (setUser_users_ne w ?_ user) rfl hother
  rintro rfl
  exact hne rfl

/-- Something is sent to an actor. -/
theorem MovesOn.of_append {w w' : Instance A} (hw : w.Located C instanceId)
    {a : InstanceAction A} {n m u : Nat} {msg : ActorMessage A} {s : Sent A}
    (huser : w.users u = .waiting n msg) (husers : w'.users u = w.users u)
    (hactors : w'.actors =
      (w.setActor m ⟨(w.actors m).task, (w.actors m).queue ++ [s]⟩).actors)
    (hother : a.task? = none) : MovesOn w w' a n u msg := by
  refine .elsewhere (husers.trans huser) ?_ (by rw [hother]; exact fun h => by cases h)
  rw [rank, rank, hactors]
  by_cases heq : n = m
  · subst heq
    rw [setActor_actors_self, SpawnedActor.ahead_append (hw.place huser)]
  · rw [setActor_actors_ne w heq]

/-- A step of one task; if it is the one that is waited for, the answer comes sooner. -/
theorem MovesOn.of_task {w w' : Instance A} {a : InstanceAction A} {n m u : Nat}
    {msg : ActorMessage A} {x : SpawnedActor A} (huser : w.users u = .waiting n msg)
    (husers : w'.users u = w.users u) (hactors : w'.actors = (w.setActor m x).actors)
    (htask : a.task? = some m)
    (hsooner : n = m → Sooner (x.ahead u, x.task) (w.rank n u)) :
    MovesOn w w' a n u msg := by
  by_cases heq : n = m
  · refine .sooner (husers.trans huser) ?_
    rw [rank, hactors, heq, setActor_actors_self, ← heq]
    exact hsooner heq
  · refine .of_same huser husers (by rw [hactors, setActor_actors_ne w heq]) ?_
    rw [htask]
    exact fun hsame => heq (Option.some.inj hsame).symm

/-- Every step, short of a panic, brings a waiting user its answer, or sooner to it, or
leaves it and its actor alone. -/
theorem Located.movesOn {w w' : Instance A} (hw : w.Located C instanceId)
    (hchannels : w.Channels) {a : InstanceAction A} (hcalm : NoPanic w a)
    (hstep : Stepped C instanceId w a w') {u n : Nat} {msg : ActorMessage A}
    (huser : w.users u = .waiting n msg) : MovesOn w w' a n u msg := by
  cases hstep with
  | @passed a v user hpasses =>
      have hunengaged := hpasses.unengaged.1
      refine .of_setUser huser (fun hsame => ?_) ?_
      · rw [hsame, huser] at hunengaged
        cases hunengaged
      · cases hpasses <;> exact fun htask => by cases htask
  | evicted hv =>
      refine .of_same huser (setUser_users_ne w ?_ _) rfl fun htask => by cases htask
      rintro rfl
      cases hv.symm.trans huser
  | spawned hv =>
      have hlt := hchannels.lt_spawned (hw.awaited_alive hchannels huser)
      refine .of_same huser (setUser_users_ne w ?_ _) ?_ fun htask => by cases htask
      · rintro rfl
        cases hv.symm.trans huser
      · exact setActor_actors_ne w (Nat.ne_of_lt hlt) _
  | inserted hv =>
      refine .of_same huser (setUser_users_ne w ?_ _) rfl fun htask => by cases htask
      rintro rfl
      cases hv.symm.trans huser
  | sent hv halive hroom =>
      refine .of_append hw huser (setUser_users_ne w ?_ _) rfl rfl
      rintro rfl
      cases hv.symm.trans huser
  | shutdownSent halive hroom => exact .of_append hw huser rfl rfl rfl
  | @received m v l msg' rest hactor =>
      refine .of_task huser rfl rfl rfl fun heq => .left _ _ ?_
      subst heq
      rw [hactor]
      by_cases hvu : v = u
      · rw [SpawnedActor.ahead_handled (by rw [hvu]; rfl),
          SpawnedActor.ahead_unhandled (fun hnone => by cases hnone)]
        exact Nat.succ_pos _
      · exact SpawnedActor.ahead_tail (fun hsame => hvu (Option.some.inj hsame))
          fun hnone => by cases hnone
  | shutdownReceived hactor =>
      refine .of_task huser rfl rfl rfl fun heq => .left _ _ ?_
      subst heq
      rw [hactor]
      exact SpawnedActor.ahead_tail (fun hnone => by cases hnone) fun hnone => by cases hnone
  | @served m v l op resume queue respond r hactor =>
      refine .of_task huser rfl rfl rfl fun heq => ?_
      subst heq
      rw [rank, hactor]
      exact .right _ (.served v (.mk l op resume r))
  | @replied m v l reply queue hactor =>
      have hhandled : (w.actors m).task.handled = some (v, .ready (l, reply)) := by
        rw [hactor]
        rfl
      obtain ⟨-, msg', l₀, hwaiting, -⟩ := hw.handled m v _ hhandled
      by_cases hvu : v = u
      · subst hvu
        cases hwaiting.symm.trans huser
        refine .answered (some reply) ?_
        rw [setUser_users_self, hwaiting]
        rfl
      · refine .of_task (x := ⟨.receiving l, queue⟩) huser
          (setUser_users_ne _ (Ne.symm hvu) _) rfl rfl fun heq => ?_
        subst heq
        have hahead : SpawnedActor.ahead ⟨.receiving l, queue⟩ u =
            SpawnedActor.ahead ⟨.handling v (.ready (l, reply)), queue⟩ u := by
          have hother : (some v : Option Nat) ≠ some u :=
            fun hsame => hvu (Option.some.inj hsame)
          rw [SpawnedActor.ahead_unhandled (fun hnone => by cases hnone),
            SpawnedActor.ahead_unhandled (a := ⟨.handling v _, queue⟩) hother]
        rw [rank, hactor, hahead]
        exact .right _ (.replied v l l reply)
  | unwound hactor => exact hcalm.elim
  | @quit m l hactor =>
      refine .of_task huser rfl rfl rfl fun heq => ?_
      subst heq
      have hplace := hw.place huser
      rw [hactor] at hplace
      rcases hplace with ⟨msg', hmem⟩ | hhandled
      · cases hmem
      · cases hhandled
  | @saved m l queue written hactor =>
      refine .of_task huser rfl rfl rfl fun heq => ?_
      subst heq
      rw [rank, hactor]
      exact .right _ (.saved l)
  | @closed m queue hactor =>
      by_cases hin : u ∈ (requests (w.actors m).queue).map Prod.fst
      · obtain ⟨⟨_, msg'⟩, hmem, rfl⟩ := List.mem_map.mp hin
        cases (hw.queued m _ msg' hmem).1.symm.trans huser
        refine .answered none ?_
        rw [closeChannel_users, if_pos hin, huser]
        rfl
      · refine .of_task huser (by rw [closeChannel_users, if_neg hin]) rfl rfl fun heq => ?_
        subst heq
        rcases hw.place huser with ⟨msg', hmem⟩ | hhandled
        · exact absurd (List.mem_map.mpr ⟨_, hmem, rfl⟩) hin
        · rw [hactor] at hhandled
          cases hhandled

/-- A user stays where it sends until it gets in, or hears that the actor is gone. -/
theorem Stepped.sending {w w' : Instance A} {a : InstanceAction A}
    (hstep : Stepped C instanceId w a w') {u n : Nat} {msg : ActorMessage A}
    (huser : w.users u = .sending n msg) :
    (a ≠ .send u ∧ w'.users u = .sending n msg) ∨
      (a = .send u ∧ (w'.users u = .waiting n msg ∨ w'.users u = .answered n msg none)) := by
  have huserStep := hstep.user u
  generalize w'.users u = user at huserStep ⊢
  cases huserStep with
  | stays hother => exact Or.inl ⟨hother, huser⟩
  | passes hpasses =>
      cases hpasses with
      | actorGone hu hgone =>
          cases hu.symm.trans huser
          exact Or.inr ⟨rfl, Or.inr rfl⟩
      | hit hu hcached => cases hu.symm.trans huser
      | miss hu hcached => cases hu.symm.trans huser
      | loaded hu => cases hu.symm.trans huser
      | unloadable hu => cases hu.symm.trans huser
      | readServed hu => cases hu.symm.trans huser
      | unspawnable hu => cases hu.symm.trans huser
      | called hu hspawned => cases hu.symm.trans huser
      | sentOff hu => cases hu.symm.trans huser
  | evicted hu => cases hu.symm.trans huser
  | spawned hu => cases hu.symm.trans huser
  | inserted hu => cases hu.symm.trans huser
  | sent hu =>
      cases hu.symm.trans huser
      exact Or.inr ⟨rfl, Or.inl rfl⟩
  | replied hactor =>
      rw [huser]
      exact Or.inl ⟨fun hsend => (by cases hsend), rfl⟩
  | hungUp hother =>
      rw [huser]
      exact Or.inl ⟨hother, rfl⟩

/-- A user may send: there is room in the channel, or it is closed. -/
def CanSend (w : Instance A) (u : Nat) : Prop :=
  ∃ n msg, w.users u = .sending n msg ∧
    ((w.actors n).isAlive = true → (w.actors n).queue.length < channelCapacity)

/-- What a step does to an actor whose channel is full. -/
inductive FullStep (w w' : Instance A) (a : InstanceAction A) (n : Nat) : Prop
  | elsewhere (hsame : w'.actors n = w.actors n) (hother : a.task? ≠ some n)
  | goesOn (halive : (w'.actors n).isAlive = true)
      (hqueue : (w'.actors n).queue = (w.actors n).queue)
      (hafter : ActorTask.After (w'.actors n).task (w.actors n).task)
  | opens (hroom : (w'.actors n).isAlive = true →
      (w'.actors n).queue.length < channelCapacity)

theorem FullStep.of_setActor {w w' : Instance A} {a : InstanceAction A} {n m : Nat}
    {x : SpawnedActor A} (hactors : w'.actors = (w.setActor m x).actors)
    (htask : n ≠ m → a.task? ≠ some n)
    (hself : n = m → (x.isAlive = true ∧ x.queue = (w.actors n).queue ∧
        ActorTask.After x.task (w.actors n).task) ∨
      (x.isAlive = true → x.queue.length < channelCapacity)) : FullStep w w' a n := by
  by_cases heq : n = m
  · have hx : w'.actors n = x := by rw [hactors, heq, setActor_actors_self]
    rw [← hx] at hself
    rcases hself heq with ⟨halive, hqueue, hafter⟩ | hroom
    · exact .goesOn halive hqueue hafter
    · exact .opens hroom
  · exact .elsewhere (by rw [hactors, setActor_actors_ne w heq]) (htask heq)

theorem Channels.fullStep {w w' : Instance A} (hw : w.Channels) {a : InstanceAction A}
    (hcalm : NoPanic w a) (hstep : Stepped C instanceId w a w') {n : Nat}
    (halive : (w.actors n).isAlive = true)
    (hfull : channelCapacity ≤ (w.actors n).queue.length) : FullStep w w' a n := by
  -- a received message makes room
  have hroom : ∀ {l : ActorLocals A} {s : Sent A} {rest : List (Sent A)},
      w.actors n = ⟨.receiving l, s :: rest⟩ → rest.length < channelCapacity := by
    intro l s rest hactor
    have hle := hw.bounded n
    rw [hactor] at hle
    exact hle
  have hown : ∀ {b : InstanceAction A} {m : Nat}, b.task? = some m → n ≠ m →
      b.task? ≠ some n := by
    intro b m hb hne hn
    exact hne (Option.some.inj (hn.symm.trans hb))
  cases hstep with
  | passed hpasses =>
      refine .elsewhere rfl ?_
      cases hpasses <;> exact fun htask => by cases htask
  | evicted hv => exact .elsewhere rfl fun htask => by cases htask
  | spawned hv =>
      refine .elsewhere ?_ fun htask => by cases htask
      exact setActor_actors_ne w (Nat.ne_of_lt (hw.lt_spawned halive)) _
  | inserted hv => exact .elsewhere rfl fun htask => by cases htask
  | sent hv hlive hspace =>
      refine .of_setActor rfl (fun _ htask => by cases htask) fun heq => ?_
      subst heq
      exact absurd hspace (Nat.not_lt.mpr hfull)
  | shutdownSent hlive hspace =>
      refine .of_setActor rfl (fun _ htask => by cases htask) fun heq => ?_
      subst heq
      exact absurd hspace (Nat.not_lt.mpr hfull)
  | received hactor =>
      refine .of_setActor rfl (hown rfl) fun heq => Or.inr fun _ => ?_
      subst heq
      exact hroom hactor
  | shutdownReceived hactor =>
      refine .of_setActor rfl (hown rfl) fun heq => Or.inr fun _ => ?_
      subst heq
      exact hroom hactor
  | @served m v l op resume queue respond r hactor =>
      refine .of_setActor (x := ⟨.handling v (resume r), queue⟩) rfl (hown rfl)
        fun heq => Or.inl ⟨rfl, ?_, ?_⟩
      · rw [heq, hactor]
      · rw [heq, hactor]
        exact .served v (.mk l op resume r)
  | @replied m v l reply queue hactor =>
      refine .of_setActor (x := ⟨.receiving l, queue⟩) rfl (hown rfl)
        fun heq => Or.inl ⟨rfl, ?_, ?_⟩
      · rw [heq, hactor]
      · rw [heq, hactor]
        exact .replied v l l reply
  | unwound hactor => exact hcalm.elim
  | @quit m l hactor =>
      refine .of_setActor rfl (hown rfl) fun heq => Or.inr fun _ => ?_
      exact Nat.zero_lt_succ 31
  | @saved m l queue written hactor =>
      refine .of_setActor (x := ⟨.saved, queue⟩) rfl (hown rfl)
        fun heq => Or.inl ⟨rfl, ?_, ?_⟩
      · rw [heq, hactor]
      · rw [heq, hactor]
        exact .saved l
  | closed hactor =>
      exact .of_setActor rfl (hown rfl) fun _ => Or.inr fun hdead => by cases hdead

theorem answered_of_executeResult {user : User A} {result : ExecuteResult A}
    (hresult : user.executeResult = some result) :
    ∃ n msg reply, user = .answered n msg reply := by
  cases user with
  | answered n msg reply => exact ⟨n, msg, reply, rfl⟩
  | _ => cases hresult

theorem refusesUnreceived_of_reaches {w₀ w : Instance A} (hunused : w₀.Unused)
    (hreach : Reaches (step C instanceId) NoPanic w₀ w) : w.RefusesUnreceived := by
  induction hreach with
  | start => exact hunused.refusesUnreceived
  | next hprior hcalm hstep ih =>
      exact ih.step (sound_of_reaches hunused hprior).1 hcalm (stepped_of_step hstep)

/-- An actor that a user waits for is not idle. -/
theorem Located.awaited_hasWork {w : Instance A} (hw : w.Located C instanceId)
    (hchannels : w.Channels) {u n : Nat} {msg : ActorMessage A}
    (huser : w.users u = .waiting n msg) : (w.actors n).hasWork = true := by
  have halive := hw.awaited_alive hchannels huser
  have hplace := hw.place huser
  unfold SpawnedActor.isAlive at halive
  unfold SpawnedActor.hasWork
  cases htask : (w.actors n).task with
  | unborn => simp [htask] at halive
  | gone => simp [htask] at halive
  | receiving l =>
      rw [htask] at hplace
      rcases hplace with ⟨msg', hmem⟩ | hhandled
      · have hne := List.ne_nil_of_mem (mem_requests hmem)
        simpa using hne
      · cases hhandled
  | handling v fut => rfl
  | stopping l => rfl
  | saved => rfl

/-- An actor with a full channel is not idle. -/
theorem full_hasWork {a : SpawnedActor A} (halive : a.isAlive = true)
    (hfull : channelCapacity ≤ a.queue.length) : a.hasWork = true := by
  have hne : a.queue ≠ [] := by
    intro hnil
    rw [hnil] at hfull
    exact absurd hfull (Nat.not_succ_le_zero 31)
  unfold SpawnedActor.isAlive at halive
  unfold SpawnedActor.hasWork
  cases htask : a.task with
  | unborn => simp [htask] at halive
  | gone => simp [htask] at halive
  | receiving l => simpa using hne
  | handling v fut => rfl
  | stopping l => rfl
  | saved => rfl

theorem answered_of_reaches {ok : Instance A → InstanceAction A → Prop}
    {w w' : Instance A} {u n : Nat} {msg : ActorMessage A} {reply : Option (Reply A)}
    (huser : w.users u = .answered n msg reply)
    (hreach : Reaches (step C instanceId) ok w w') :
    w'.users u = .answered n msg reply := by
  induction hreach with
  | start => exact huser
  | next _ _ hstep ih => exact (stepped_of_step hstep).answered_kept ih

variable {w₀ : Instance A}

/-- What is asked of the runtime: a task with something to do takes a step again, which
includes that the event store answers its calls, and a sender that finds room again and
again is let in. -/
structure Fair (run : Trace (step C instanceId) NoPanic w₀) : Prop where
  tasks : ∀ t n, ((run.state t).actors n).hasWork = true →
    ∃ t', t ≤ t' ∧ ∃ a, run.action t' = some a ∧ a.task? = some n
  sends : ∀ t u, (∀ t₁, t ≤ t₁ → ∃ t', t₁ ≤ t' ∧ (run.state t').CanSend u) →
    ∃ t', t ≤ t' ∧ run.action t' = some (.send u)

variable {run : Trace (step C instanceId) NoPanic w₀}

/-- Who waits for a reply gets an answer. -/
theorem Fair.waiting_answered (hfair : Fair run) (hunused : w₀.Unused) {t u n : Nat}
    {msg : ActorMessage A} (huser : (run.state t).users u = .waiting n msg) :
    ∃ t', t ≤ t' ∧ ∃ reply, (run.state t').users u = .answered n msg reply := by
  have hsound := fun t => sound_of_reaches hunused (run.reaches t)
  have hmoves : ∀ t a, (run.state t).users u = .waiting n msg → run.action t = some a →
      MovesOn (run.state t) (run.state (t + 1)) a n u msg := by
    intro t a hwaiting haction
    obtain ⟨hcalm, hstep⟩ := run.steps t a haction
    exact (hsound t).1.movesOn (hsound t).2 hcalm (stepped_of_step hstep) hwaiting
  refine run.leads_of_rank sooner_wellFounded (P := fun w => w.users u = .waiting n msg)
    (Q := fun w => ∃ reply, w.users u = .answered n msg reply) (fun w => w.rank n u)
    (fun t hwaiting => ?_) (fun t hwaiting => ?_) huser
  · cases haction : run.action t with
    | none =>
        rw [run.rests t haction]
        exact Or.inr ⟨hwaiting, Or.inl rfl⟩
    | some a =>
        cases hmoves t a hwaiting haction with
        | answered reply hanswered => exact Or.inl ⟨reply, hanswered⟩
        | sooner hstill hsooner => exact Or.inr ⟨hstill, Or.inr hsooner⟩
        | elsewhere hstill hsame hother => exact Or.inr ⟨hstill, Or.inl hsame⟩
  · obtain ⟨t', hle, a, haction, htask⟩ :=
      hfair.tasks t n ((hsound t).1.awaited_hasWork (hsound t).2 hwaiting)
    refine ⟨t', hle, fun hwaiting' => ?_⟩
    cases hmoves t' a hwaiting' haction with
    | answered reply hanswered => exact Or.inl ⟨reply, hanswered⟩
    | sooner hstill hsooner => exact Or.inr hsooner
    | elsewhere hstill hsame hother => exact absurd htask hother

/-- A full channel is opened: its actor receives a message, or goes. -/
theorem Fair.finds_room (hfair : Fair run) (hunused : w₀.Unused) {t u n : Nat}
    {msg : ActorMessage A} (huser : ∀ t', t ≤ t' → (run.state t').users u = .sending n msg) :
    ∃ t', t ≤ t' ∧ (run.state t').CanSend u := by
  have hsound := fun t => sound_of_reaches hunused (run.reaches t)
  have hroom : ∀ t', ¬ (((run.state t').actors n).isAlive = true ∧
      channelCapacity ≤ ((run.state t').actors n).queue.length) →
      ((run.state t').actors n).isAlive = true →
        ((run.state t').actors n).queue.length < channelCapacity :=
    fun t' hnot halive => Nat.lt_of_not_le fun hle => hnot ⟨halive, hle⟩
  by_cases hfull : ((run.state t).actors n).isAlive = true ∧
      channelCapacity ≤ ((run.state t).actors n).queue.length
  · have hsteps : ∀ t a, ((run.state t).actors n).isAlive = true ∧
        channelCapacity ≤ ((run.state t).actors n).queue.length → run.action t = some a →
        FullStep (run.state t) (run.state (t + 1)) a n := by
      intro t a hfull haction
      obtain ⟨hcalm, hstep⟩ := run.steps t a haction
      exact (hsound t).2.fullStep hcalm (stepped_of_step hstep) hfull.1 hfull.2
    have hopens : ∃ t', t ≤ t' ∧ (((run.state t').actors n).isAlive = true →
        ((run.state t').actors n).queue.length < channelCapacity) := by
      refine run.leads_of_rank ActorTask.after_wellFounded
        (P := fun w => (w.actors n).isAlive = true ∧
          channelCapacity ≤ (w.actors n).queue.length)
        (Q := fun w => (w.actors n).isAlive = true →
          (w.actors n).queue.length < channelCapacity)
        (fun w => (w.actors n).task) (fun t hfull => ?_) (fun t hfull => ?_) hfull
      · cases haction : run.action t with
        | none =>
            rw [run.rests t haction]
            exact Or.inr ⟨hfull, Or.inl rfl⟩
        | some a =>
            cases hsteps t a hfull haction with
            | elsewhere hsame hother =>
                rw [hsame]
                exact Or.inr ⟨hfull, Or.inl rfl⟩
            | goesOn halive hqueue hafter =>
                exact Or.inr ⟨⟨halive, hqueue ▸ hfull.2⟩, Or.inr hafter⟩
            | opens hopen => exact Or.inl hopen
      · obtain ⟨t', hle, a, haction, htask⟩ :=
          hfair.tasks t n (full_hasWork hfull.1 hfull.2)
        refine ⟨t', hle, fun hfull' => ?_⟩
        cases hsteps t' a hfull' haction with
        | elsewhere hsame hother => exact absurd htask hother
        | goesOn halive hqueue hafter => exact Or.inr hafter
        | opens hopen => exact Or.inl hopen
    obtain ⟨t', hle, hopen⟩ := hopens
    exact ⟨t', hle, n, msg, huser t' hle, hopen⟩
  · exact ⟨t, Nat.le_refl t, n, msg, huser t (Nat.le_refl t), hroom t hfull⟩

/-- Who sends gets in, or hears that the actor is gone. -/
theorem Fair.sending_leaves (hfair : Fair run) (hunused : w₀.Unused) {t u n : Nat}
    {msg : ActorMessage A} (huser : (run.state t).users u = .sending n msg) :
    ∃ t', t ≤ t' ∧ ((run.state t').users u = .waiting n msg ∨
      (run.state t').users u = .answered n msg none) := by
  by_contra hnever
  have hleaves : ∀ t', t ≤ t' → (run.state t').users u = .sending n msg →
      run.action t' ≠ some (.send u) ∧ (run.state (t' + 1)).users u = .sending n msg := by
    intro t' hle hsending
    cases haction : run.action t' with
    | none =>
        rw [run.rests t' haction]
        exact ⟨fun hsame => (by cases hsame), hsending⟩
    | some a =>
        have hstepped := stepped_of_step (run.steps t' a haction).2
        rcases hstepped.sending hsending with ⟨hne, hstill⟩ | ⟨-, hdone⟩
        · exact ⟨fun hsame => hne (Option.some.inj hsame), hstill⟩
        · exact absurd ⟨t' + 1, Nat.le_succ_of_le hle, hdone⟩ hnever
  have hstays : ∀ t', t ≤ t' → (run.state t').users u = .sending n msg := by
    intro t' hle
    induction hle with
    | refl => exact huser
    | @step t' hle ih => exact (hleaves t' hle ih).2
  obtain ⟨t', hle, hsend⟩ := hfair.sends t u fun t₁ hle₁ =>
    hfair.finds_room hunused fun t' hle' => hstays t' (Nat.le_trans hle₁ hle')
  exact (hleaves t' hle (hstays t' hle)).1 hsend

/-- No request is processed twice.  An execute is answered once: with the result of
processing its own command, which its actor took from the channel with these locals and
processed with what the event store answered in this run, or with `ActorGone`, and then no
append was or ever will be issued for it.  And in a fair run the answer comes. -/
theorem execute_answered_once (hunused : w₀.Unused) :
    (∀ w, Reaches (step C instanceId) NoPanic w₀ w → w.received.Nodup ∧ ∀ u result,
      (w.users u).executeResult = some result →
        ((result ≠ .error .actorGone ∧ u ∈ w.received ∧
            ∃ n cmd ctx newV4 reply l l',
              w.users u = .answered n (.execute cmd ctx newV4) reply ∧
              (processing C instanceId l (.execute cmd ctx newV4)).Comes
                (.ready (l', .execute result)) ∧
              Replied C instanceId w₀ w n u l (.execute cmd ctx newV4) l'
                (.execute result)) ∨
          (result = .error .actorGone ∧ u ∉ w.received ∧ u ∉ w.appends)) ∧
        ∀ w', Reaches (step C instanceId) NoPanic w w' →
          (w'.users u).executeResult = some result) ∧
      ∀ run : Trace (step C instanceId) NoPanic w₀, Fair run → ∀ t u n cmd ctx newV4,
        (run.state t).users u = .sending n (.execute cmd ctx newV4) →
          ∃ t', t ≤ t' ∧ ∃ result, ((run.state t').users u).executeResult = some result := by
  have hanswers : ∀ w, Reaches (step C instanceId) NoPanic w₀ w →
      ∀ u n cmd ctx newV4 reply, w.users u = .answered n (.execute cmd ctx newV4) reply →
        ∃ result, (w.users u).executeResult = some result := by
    intro w hreach u n cmd ctx newV4 reply huser
    rw [huser]
    cases reply with
    | none => exact ⟨_, rfl⟩
    | some reply =>
        obtain ⟨-, l, l', hcomes⟩ :=
          (sound_of_reaches hunused hreach).1.answered u n _ reply huser
        obtain ⟨result, hsame, -⟩ := (processing_execute_ends l cmd ctx newV4).of_comes hcomes
        change reply = .execute result at hsame
        exact ⟨result, by rw [hsame]; rfl⟩
  refine ⟨fun w hreach => ⟨(sound_of_reaches hunused hreach).1.once,
    fun u result hresult => ⟨?_, fun w' hreach' => ?_⟩⟩, ?_⟩
  · exact (traced_of_reaches hunused hreach).executeResult
      (sound_of_reaches hunused hreach).1 (refusesUnreceived_of_reaches hunused hreach) hresult
  · obtain ⟨n, msg, reply, huser⟩ := answered_of_executeResult hresult
    rw [answered_of_reaches huser hreach', ← huser]
    exact hresult
  · intro run hfair t u n cmd ctx newV4 huser
    obtain ⟨t₁, hle₁, hsent | hgone⟩ := hfair.sending_leaves hunused huser
    · obtain ⟨t₂, hle₂, reply, hanswered⟩ := hfair.waiting_answered hunused hsent
      exact ⟨t₂, Nat.le_trans hle₁ hle₂, hanswers _ (run.reaches t₂) u n cmd ctx newV4 reply
        hanswered⟩
    · exact ⟨t₁, hle₁, hanswers _ (run.reaches t₁) u n cmd ctx newV4 none hgone⟩

end Instance

namespace HandleProgressWitness

open EventCodecWitness ActorRunsWitness ActorCacheWitness Instance

def openDoor : ActorMessage door := .execute () .default fun _ _ => 7

/-- User 0 gets the door, user 1 opens it over a clone of the handle. -/
def gettingAndOpening : List (InstanceAction door) :=
  [.get 0 none, .evict 0, .load 0 none, .serveSpawn 0 emptyStoreAnswers, .spawned 0,
    .insert 0, .call 1 0 openDoor, .send 1, .receive 0, .serve 0 emptyStoreAnswers,
    .reply 0]

def doorTask := Instance.step (A := door) crates "m-1"

theorem gettingAndOpening_calm :
    AllOk doorTask NoPanic (unusedDoor ()) gettingAndOpening := by
  refine allOk_of_mem (fun a ha w => ?_) _
  simp only [gettingAndOpening, List.mem_cons, List.not_mem_nil, or_false] at ha
  rcases ha with rfl | rfl | rfl | rfl | rfl | rfl | rfl | rfl | rfl | rfl | rfl <;> trivial

/-- In the end nobody has anything left to do. -/
theorem gettingAndOpening_done :
    ∃ w, runActions doorTask (unusedDoor ()) gettingAndOpening = some w ∧
      (∀ n, (w.actors n).hasWork = false) ∧ ∀ u n msg, w.users u ≠ .sending n msg := by
  refine ⟨_, rfl, fun n => ?_, fun u n msg => ?_⟩
  · cases n <;> rfl
  · rcases u with _ | _ | u <;> exact fun hsending => by cases hsending

theorem gettingAndOpening_spawned : ∀ t < 12,
    (runActions doorTask (unusedDoor ()) (gettingAndOpening.take t)).all
      (fun w => decide (w.spawned ≤ 1)) = true := by
  decide

theorem execute_answered_once_open_door :
    ∃ run : Trace doorTask NoPanic (unusedDoor ()), Fair run ∧
      (run.state 7).users 1 = .sending 0 openDoor ∧
      ∃ t, 7 ≤ t ∧ ∃ result, ((run.state t).users 1).executeResult = some result := by
  obtain ⟨w, hrun, hidle, hnobody⟩ := gettingAndOpening_done
  obtain ⟨run, haction, hstate⟩ :=
    Trace.exists_of_actions gettingAndOpening gettingAndOpening_calm hrun
  have hend : ∀ t, 11 ≤ t → run.state t = w := by
    intro t hle
    have hat := hstate t
    rw [List.take_of_length_le (by exact hle), hrun] at hat
    exact (Option.some.inj hat).symm
  have hone : ∀ t, t < 12 → (run.state t).spawned ≤ 1 := by
    intro t hlt
    have hchecked := gettingAndOpening_spawned t hlt
    rw [hstate t] at hchecked
    simpa using hchecked
  have hsending : (run.state 7).users 1 = .sending 0 openDoor :=
    congrArg (fun w => w.users 1) (Option.some.inj (hstate 7)).symm
  have hfair : @Fair crates door "m-1" (unusedDoor ()) run := by
    refine ⟨fun t n hwork => ?_, fun t u hroom => ?_⟩
    · by_cases hle : 11 ≤ t
      · rw [hend t hle, hidle n] at hwork
        cases hwork
      · -- the only actor there is replies in the end
        have hn : n = 0 := by
          by_contra hne
          have hspawned := hone t (by omega)
          have hreach : Reaches (Instance.step crates "m-1") NoPanic (unusedDoor ())
              (run.state t) := run.reaches t
          have hchannels := (sound_of_reaches (unusedDoor_unused ()) hreach).2
          rw [hchannels.unborn n (by omega)] at hwork
          cases hwork
        exact ⟨10, by omega, .reply 0, haction 10, by rw [hn]; rfl⟩
    · obtain ⟨t', hle, n, msg, huser, -⟩ := hroom (t + 11) (Nat.le_add_right t 11)
      rw [hend t' (by omega)] at huser
      exact absurd huser (hnobody u n msg)
  exact ⟨run, hfair, hsending, (@execute_answered_once crates door "m-1" _
    (unusedDoor_unused ())).2 run hfair 7 1 0 () .default (fun _ _ => 7) hsending⟩

end HandleProgressWitness

end EventfoldEs
