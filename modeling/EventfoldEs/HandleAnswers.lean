/-
The answers of the calls on the handles of one instance: every request is in one place
until it is answered, and only a request that its actor has received is ever executed.
-/
import EventfoldEs.Handles
import EventfoldEs.Lib.Progress

namespace EventfoldEs

open Async

variable {C : Crates} {A : Aggregate} {instanceId : String}

/-- What `execute` returns. -/
def User.executeResult : User A → Option (ExecuteResult A)
  | .answered _ (.execute _ _ _) none => some (.error .actorGone)
  | .answered _ (.execute _ _ _) (some (.execute result)) => some result
  | _ => none

/-- The request whose message the task is processing. -/
def ActorTask.handled : ActorTask A →
    Option (Nat × ActorFuture A (ActorLocals A × Reply A))
  | .handling u fut => some (u, fut)
  | _ => none

/-- A user whose call is in the channel, or over. -/
def User.engaged : User A → Bool
  | .waiting _ _ | .answered _ _ _ => true
  | _ => false

/-- A user whose request has been accepted, and not been dropped. -/
def User.accepted : User A → Bool
  | .waiting _ _ | .answered _ _ (some _) => true
  | _ => false

/-- `handle`, `apply` and the encoding of events do not panic. -/
def NoPanic (_ : Instance A) : InstanceAction A → Prop
  | .unwind _ => False
  | _ => True

variable (C) (instanceId) in
/-- The processing of a message by the actor of the instance. -/
abbrev processing (l : ActorLocals A) (msg : ActorMessage A) :
    ActorFuture A (ActorLocals A × Reply A) :=
  onMessage C (streamUuid C A.aggregateType instanceId) instanceId l msg

namespace Instance

/-- The channel of an actor that is not spawned, or gone, is empty, and none holds more
than its capacity. -/
structure Channels (w : Instance A) : Prop where
  unborn : ∀ n, w.spawned ≤ n → w.actors n = ⟨.unborn, []⟩
  emptied : ∀ n, (w.actors n).isAlive = false → (w.actors n).queue = []
  bounded : ∀ n, (w.actors n).queue.length ≤ channelCapacity

theorem Unused.channels {w : Instance A} (hunused : w.Unused) : w.Channels where
  unborn n _ := hunused.unborn n
  emptied n _ := by rw [hunused.unborn n]
  bounded n := by
    rw [hunused.unborn n]
    exact Nat.zero_le _

theorem Channels.lt_spawned {w : Instance A} (hw : w.Channels) {n : Nat}
    (halive : (w.actors n).isAlive = true) : n < w.spawned := by
  by_contra hge
  rw [hw.unborn n (Nat.le_of_not_lt hge)] at halive
  cases halive

/-- A step of one actor that was alive before. -/
theorem Channels.acted {w w' : Instance A} (hw : w.Channels) {n : Nat}
    {a : SpawnedActor A} (halive : (w.actors n).isAlive = true)
    (hspawned : w'.spawned = w.spawned) (hactors : w'.actors = (w.setActor n a).actors)
    (hemptied : a.isAlive = false → a.queue = [])
    (hbounded : a.queue.length ≤ channelCapacity) : w'.Channels := by
  have hself : w'.actors n = a := by rw [hactors, setActor_actors_self]
  have hother : ∀ m, m ≠ n → w'.actors m = w.actors m := by
    intro m hne
    rw [hactors, setActor_actors_ne w hne]
  refine ⟨fun m hm => ?_, fun m hm => ?_, fun m => ?_⟩
  · rw [hspawned] at hm
    have hlt := hw.lt_spawned halive
    rw [hother m (by omega)]
    exact hw.unborn m hm
  · by_cases heq : m = n
    · subst heq
      rw [hself] at hm ⊢
      exact hemptied hm
    · rw [hother m heq] at hm ⊢
      exact hw.emptied m hm
  · by_cases heq : m = n
    · subst heq
      rw [hself]
      exact hbounded
    · rw [hother m heq]
      exact hw.bounded m

theorem Channels.spawned {w w' : Instance A} (hw : w.Channels) {l : ActorLocals A}
    (hspawned : w'.spawned = w.spawned + 1)
    (hactors : w'.actors = (w.setActor w.spawned ⟨.receiving l, []⟩).actors) :
    w'.Channels := by
  have hother : ∀ m, m ≠ w.spawned → w'.actors m = w.actors m := by
    intro m hne
    rw [hactors, setActor_actors_ne w hne]
  have hself : w'.actors w.spawned = ⟨.receiving l, []⟩ := by
    rw [hactors, setActor_actors_self]
  refine ⟨fun m hm => ?_, fun m hm => ?_, fun m => ?_⟩
  · rw [hspawned] at hm
    rw [hother m (by omega)]
    exact hw.unborn m (by omega)
  · by_cases heq : m = w.spawned
    · rw [heq, hself]
    · rw [hother m heq] at hm ⊢
      exact hw.emptied m hm
  · by_cases heq : m = w.spawned
    · rw [heq, hself]
      exact Nat.zero_le _
    · rw [hother m heq]
      exact hw.bounded m

theorem Channels.step {w w' : Instance A} (hw : w.Channels) {a : InstanceAction A}
    (hstep : Stepped C instanceId w a w') : w'.Channels := by
  have hsame : ∀ {n task queue}, w.actors n = ⟨task, queue⟩ →
      queue.length ≤ channelCapacity := by
    intro n task queue hactor
    have hle := hw.bounded n
    rwa [hactor] at hle
  cases hstep with
  | passed hpasses => exact ⟨hw.unborn, hw.emptied, hw.bounded⟩
  | evicted huser => exact ⟨hw.unborn, hw.emptied, hw.bounded⟩
  | spawned huser => exact hw.spawned rfl rfl
  | inserted huser => exact ⟨hw.unborn, hw.emptied, hw.bounded⟩
  | sent huser halive hroom =>
      refine hw.acted halive rfl rfl (fun hdead => ?_) ?_
      · rw [isAlive_requeue, halive] at hdead
        cases hdead
      · rw [List.length_append]
        exact hroom
  | shutdownSent halive hroom =>
      refine hw.acted halive rfl rfl (fun hdead => ?_) ?_
      · rw [isAlive_requeue, halive] at hdead
        cases hdead
      · rw [List.length_append]
        exact hroom
  | received hactor =>
      exact hw.acted (by rw [hactor]; rfl) rfl rfl (fun hdead => by cases hdead)
        (Nat.le_of_succ_le (hsame hactor))
  | shutdownReceived hactor =>
      exact hw.acted (by rw [hactor]; rfl) rfl rfl (fun hdead => by cases hdead)
        (Nat.le_of_succ_le (hsame hactor))
  | served hactor =>
      exact hw.acted (by rw [hactor]; rfl) rfl rfl (fun hdead => by cases hdead)
        (hsame hactor)
  | replied hactor =>
      exact hw.acted (by rw [hactor]; rfl) rfl rfl (fun hdead => by cases hdead)
        (hsame hactor)
  | unwound hactor =>
      exact hw.acted (by rw [hactor]; rfl) rfl rfl (fun _ => rfl) (Nat.zero_le _)
  | quit hactor =>
      exact hw.acted (by rw [hactor]; rfl) rfl rfl (fun hdead => by cases hdead)
        (Nat.zero_le _)
  | saved hactor =>
      exact hw.acted (by rw [hactor]; rfl) rfl rfl (fun hdead => by cases hdead)
        (hsame hactor)
  | closed hactor =>
      exact hw.acted (by rw [hactor]; rfl) rfl rfl (fun _ => rfl) (Nat.zero_le _)

variable (C) (instanceId) in
/-- Where every request is: in the queue, being processed, or answered. -/
structure Located (w : Instance A) : Prop where
  queued : ∀ n u msg, (u, msg) ∈ requests (w.actors n).queue →
    w.users u = .waiting n msg ∧ u ∉ w.received
  distinct : ∀ n, ((requests (w.actors n).queue).map Prod.fst).Nodup
  handled : ∀ n u fut, (w.actors n).task.handled = some (u, fut) →
    u ∈ w.received ∧ ∃ msg l, w.users u = .waiting n msg ∧
      (processing C instanceId l msg).Comes fut
  waiting : ∀ u n msg, w.users u = .waiting n msg →
    (u, msg) ∈ requests (w.actors n).queue ∨
      ∃ fut, (w.actors n).task.handled = some (u, fut)
  answered : ∀ u n msg reply, w.users u = .answered n msg (some reply) →
    u ∈ w.received ∧ ∃ l l', (processing C instanceId l msg).Comes (.ready (l', reply))
  received : ∀ u ∈ w.received, (∃ n msg reply, w.users u = .answered n msg reply) ∨
    ∃ n fut, (w.actors n).task.handled = some (u, fut)
  appended : ∀ u ∈ w.appends, u ∈ w.received
  once : w.received.Nodup

theorem Unused.located {w : Instance A} (hunused : w.Unused) :
    w.Located C instanceId where
  queued n u msg hu := by
    rw [hunused.unborn n] at hu
    cases hu
  distinct n := by
    rw [hunused.unborn n]
    exact List.nodup_nil
  handled n u fut hu := by
    rw [hunused.unborn n] at hu
    cases hu
  waiting u n msg hu := by
    rw [hunused.idle u] at hu
    cases hu
  answered u n msg reply hu := by
    rw [hunused.idle u] at hu
    cases hu
  received u hu := by
    rw [hunused.unreceived] at hu
    cases hu
  appended u hu := by
    rw [hunused.unasked] at hu
    cases hu
  once := by
    rw [hunused.unreceived]
    exact List.nodup_nil

/-- A step that touches no request, and no user who has one. -/
theorem Located.still {w w' : Instance A} (hw : w.Located C instanceId)
    (husers : ∀ u, w'.users u = w.users u ∨
      (w.users u).engaged = false ∧ (w'.users u).accepted = false)
    (hqueue : ∀ n, requests (w'.actors n).queue = requests (w.actors n).queue)
    (htask : ∀ n, (w'.actors n).task.handled = (w.actors n).task.handled)
    (hreceived : w'.received = w.received) (happends : w'.appends = w.appends) :
    w'.Located C instanceId := by
  have hkept : ∀ u, (w.users u).engaged = true → w'.users u = w.users u := by
    intro u hu
    rcases husers u with hsame | ⟨hno, -⟩
    · exact hsame
    · rw [hu] at hno
      cases hno
  have hkept' : ∀ u, (w'.users u).accepted = true → w.users u = w'.users u := by
    intro u hu
    rcases husers u with hsame | ⟨-, hno⟩
    · exact hsame.symm
    · rw [hu] at hno
      cases hno
  refine ⟨fun n u msg hu => ?_, fun n => ?_, fun n u fut hu => ?_, fun u n msg hu => ?_,
    fun u n msg reply hu => ?_, fun u hu => ?_, fun u hu => ?_, hreceived ▸ hw.once⟩
  · rw [hqueue] at hu
    obtain ⟨hwaiting, hnew⟩ := hw.queued n u msg hu
    rw [hkept u (by rw [hwaiting]; rfl), hreceived]
    exact ⟨hwaiting, hnew⟩
  · rw [hqueue]
    exact hw.distinct n
  · rw [htask] at hu
    obtain ⟨hin, msg, l, hwaiting, hcomes⟩ := hw.handled n u fut hu
    rw [hkept u (by rw [hwaiting]; rfl), hreceived]
    exact ⟨hin, msg, l, hwaiting, hcomes⟩
  · rw [hqueue, htask]
    exact hw.waiting u n msg ((hkept' u (by rw [hu]; rfl)).trans hu)
  · rw [hreceived]
    exact hw.answered u n msg reply ((hkept' u (by rw [hu]; rfl)).trans hu)
  · rw [hreceived] at hu
    rcases hw.received u hu with ⟨n, msg, reply, hanswered⟩ | ⟨n, fut, hfut⟩
    · exact Or.inl ⟨n, msg, reply, by rw [hkept u (by rw [hanswered]; rfl), hanswered]⟩
    · exact Or.inr ⟨n, fut, (htask n).trans hfut⟩
  · rw [happends] at hu
    rw [hreceived]
    exact hw.appended u hu

/-- A request that has been received is answered, or being processed. -/
theorem Located.unreceived {w : Instance A} (hw : w.Located C instanceId) {u : Nat}
    (hengaged : (w.users u).engaged = false) : u ∉ w.received := by
  intro hin
  rcases hw.received u hin with ⟨n, msg, reply, hanswered⟩ | ⟨n, fut, hfut⟩
  · rw [hanswered] at hengaged
    cases hengaged
  · obtain ⟨-, msg, l, hwaiting, -⟩ := hw.handled n u fut hfut
    rw [hwaiting] at hengaged
    cases hengaged

theorem requests_append (queue : List (Sent A)) (s : Sent A) :
    requests (queue ++ [s]) = requests queue ++ s.request?.toList := by
  rw [requests, List.filterMap_append]
  cases s <;> rfl

/-- A request takes its place in a channel. -/
theorem Located.sent {w w' : Instance A} (hw : w.Located C instanceId) {u n : Nat}
    {msg : ActorMessage A} (huser : w.users u = .sending n msg)
    (husers : w'.users = (w.setUser u (.waiting n msg)).users)
    (hactors : w'.actors = (w.setActor n
      ⟨(w.actors n).task, (w.actors n).queue ++ [.request u msg]⟩).actors)
    (hreceived : w'.received = w.received) (happends : w'.appends = w.appends) :
    w'.Located C instanceId := by
  have hself : w'.users u = .waiting n msg := by rw [husers, setUser_users_self]
  have hother : ∀ v, v ≠ u → w'.users v = w.users v := by
    intro v hne
    rw [husers, setUser_users_ne w hne]
  have htask : ∀ m, (w'.actors m).task = (w.actors m).task := by
    intro m
    rw [hactors]
    by_cases heq : m = n
    · subst heq
      rw [setActor_actors_self]
    · rw [setActor_actors_ne w heq]
  have hqueue : ∀ m, requests (w'.actors m).queue =
      requests (w.actors m).queue ++ if m = n then [(u, msg)] else [] := by
    intro m
    rw [hactors]
    by_cases heq : m = n
    · subst heq
      rw [setActor_actors_self, requests_append, if_pos rfl]
      rfl
    · rw [setActor_actors_ne w heq, if_neg heq, List.append_nil]
  -- nobody has heard of the request before
  have hfresh : ∀ m msg', (u, msg') ∉ requests (w.actors m).queue := by
    intro m msg' hu
    cases huser.symm.trans (hw.queued m u msg' hu).1
  have hunhandled : ∀ m fut, (w.actors m).task.handled ≠ some (u, fut) := by
    intro m fut hu
    obtain ⟨-, msg', l, hwaiting, -⟩ := hw.handled m u fut hu
    cases huser.symm.trans hwaiting
  have hunreceived : u ∉ w.received := hw.unreceived (by rw [huser]; rfl)
  refine ⟨fun m v msg' hv => ?_, fun m => ?_, fun m v fut hv => ?_, fun v m msg' hv => ?_,
    fun v m msg' reply hv => ?_, fun v hv => ?_, fun v hv => ?_, hreceived ▸ hw.once⟩
  · rw [hqueue, List.mem_append] at hv
    rw [hreceived]
    rcases hv with hold | hnew
    · obtain ⟨hwaiting, hnot⟩ := hw.queued m v msg' hold
      rw [hother v (by rintro rfl; exact hfresh m msg' hold)]
      exact ⟨hwaiting, hnot⟩
    · by_cases heq : m = n
      · rw [if_pos heq, List.mem_singleton, Prod.mk.injEq] at hnew
        obtain ⟨rfl, rfl⟩ := hnew
        exact ⟨heq ▸ hself, hunreceived⟩
      · rw [if_neg heq] at hnew
        cases hnew
  · rw [hqueue]
    by_cases heq : m = n
    · rw [if_pos heq, List.map_append, List.nodup_append]
      refine ⟨hw.distinct m, by simp, fun v hv v' hv' => ?_⟩
      obtain ⟨⟨v₀, msg'⟩, hmem, rfl⟩ := List.mem_map.mp hv
      rw [List.map_singleton, List.mem_singleton] at hv'
      rintro rfl
      obtain rfl : v₀ = u := hv'
      exact hfresh m msg' hmem
    · rw [if_neg heq, List.append_nil]
      exact hw.distinct m
  · rw [htask] at hv
    rw [hreceived, hother v (by rintro rfl; exact hunhandled m fut hv)]
    exact hw.handled m v fut hv
  · rw [hqueue, htask]
    by_cases heq : v = u
    · subst heq
      rw [hself] at hv
      cases hv
      exact Or.inl (by simp)
    · rw [hother v heq] at hv
      rcases hw.waiting v m msg' hv with hin | hhandled
      · exact Or.inl (List.mem_append_left _ hin)
      · exact Or.inr hhandled
  · have hne : v ≠ u := by
      rintro rfl
      rw [hself] at hv
      cases hv
    rw [hother v hne] at hv
    rw [hreceived]
    exact hw.answered v m msg' reply hv
  · rw [hreceived] at hv
    rw [hother v (by rintro rfl; exact hunreceived hv)]
    simp only [htask]
    exact hw.received v hv
  · rw [happends] at hv
    rw [hreceived]
    exact hw.appended v hv

/-- An actor receives a request. -/
theorem Located.taken {w w' : Instance A} (hw : w.Located C instanceId) {u n : Nat}
    {msg : ActorMessage A} {l : ActorLocals A} {rest : List (Sent A)}
    (hactor : w.actors n = ⟨.receiving l, .request u msg :: rest⟩)
    (husers : w'.users = w.users)
    (hactors : w'.actors =
      (w.setActor n ⟨.handling u (processing C instanceId l msg), rest⟩).actors)
    (hreceived : w'.received = u :: w.received) (happends : w'.appends = w.appends) :
    w'.Located C instanceId := by
  have hself : w'.actors n = ⟨.handling u (processing C instanceId l msg), rest⟩ := by
    rw [hactors, setActor_actors_self]
  have hother : ∀ m, m ≠ n → w'.actors m = w.actors m := by
    intro m hne
    rw [hactors, setActor_actors_ne w hne]
  have hhead : requests (w.actors n).queue = (u, msg) :: requests rest := by
    rw [hactor]
    rfl
  have hwaiting : w.users u = .waiting n msg :=
    (hw.queued n u msg (by rw [hhead]; exact List.mem_cons_self)).1
  have hdistinct := hw.distinct n
  rw [hhead, List.map_cons, List.nodup_cons] at hdistinct
  have hfree : ∀ v fut, (w.actors n).task.handled ≠ some (v, fut) := by
    intro v fut hv
    rw [hactor] at hv
    cases hv
  refine ⟨fun m v msg' hv => ?_, fun m => ?_, fun m v fut hv => ?_, fun v m msg' hv => ?_,
    fun v m msg' reply hv => ?_, fun v hv => ?_, fun v hv => ?_, ?_⟩
  · have hold : (v, msg') ∈ requests (w.actors m).queue ∧ v ≠ u := by
      by_cases heq : m = n
      · subst heq
        rw [hself] at hv
        refine ⟨by rw [hhead]; exact List.mem_cons_of_mem _ hv, ?_⟩
        rintro rfl
        exact hdistinct.1 (List.mem_map.mpr ⟨_, hv, rfl⟩)
      · rw [hother m heq] at hv
        refine ⟨hv, ?_⟩
        rintro rfl
        cases hwaiting.symm.trans (hw.queued m v msg' hv).1
        exact heq rfl
    obtain ⟨hw₁, hnew⟩ := hw.queued m v msg' hold.1
    rw [husers, hreceived]
    exact ⟨hw₁, List.not_mem_cons_of_ne_of_not_mem hold.2 hnew⟩
  · by_cases heq : m = n
    · subst heq
      rw [hself]
      exact hdistinct.2
    · rw [hother m heq]
      exact hw.distinct m
  · rw [husers, hreceived]
    by_cases heq : m = n
    · subst heq
      rw [hself] at hv
      cases hv
      exact ⟨List.mem_cons_self, msg, l, hwaiting, .here⟩
    · rw [hother m heq] at hv
      obtain ⟨hin, hrest⟩ := hw.handled m v fut hv
      exact ⟨List.mem_cons_of_mem _ hin, hrest⟩
  · rw [husers] at hv
    by_cases heq : m = n
    · subst heq
      rw [hself]
      rcases hw.waiting v m msg' hv with hin | ⟨fut, hfut⟩
      · rw [hhead, List.mem_cons] at hin
        rcases hin with hpair | hin
        · obtain ⟨rfl, rfl⟩ := Prod.mk.inj hpair
          exact Or.inr ⟨_, rfl⟩
        · exact Or.inl hin
      · exact absurd hfut (hfree v fut)
    · rw [hother m heq]
      exact hw.waiting v m msg' hv
  · rw [husers] at hv
    rw [hreceived]
    obtain ⟨hin, hrest⟩ := hw.answered v m msg' reply hv
    exact ⟨List.mem_cons_of_mem _ hin, hrest⟩
  · rw [hreceived, List.mem_cons] at hv
    rw [husers]
    rcases hv with rfl | hv
    · exact Or.inr ⟨n, _, by rw [hself]; rfl⟩
    · rcases hw.received v hv with hdone | ⟨m, fut, hfut⟩
      · exact Or.inl hdone
      · have hne : m ≠ n := by
          rintro rfl
          exact hfree v fut hfut
        exact Or.inr ⟨m, fut, by rw [hother m hne]; exact hfut⟩
  · rw [happends] at hv
    rw [hreceived]
    exact List.mem_cons_of_mem _ (hw.appended v hv)
  · rw [hreceived, List.nodup_cons]
    exact ⟨(hw.queued n u msg (by rw [hhead]; exact List.mem_cons_self)).2, hw.once⟩

/-- An operation of the processing is answered. -/
theorem Located.advanced {w w' : Instance A} (hw : w.Located C instanceId) {u n : Nat}
    {l : ActorLocals A} {op : StoreOp}
    {resume : op.Res → ActorFuture A (ActorLocals A × Reply A)} {queue : List (Sent A)}
    {r : op.Res} (hactor : w.actors n = ⟨.handling u (.await l op resume), queue⟩)
    (husers : w'.users = w.users)
    (hactors : w'.actors = (w.setActor n ⟨.handling u (resume r), queue⟩).actors)
    (hreceived : w'.received = w.received)
    (happends : ∀ v ∈ w'.appends, v = u ∨ v ∈ w.appends) : w'.Located C instanceId := by
  have hself : w'.actors n = ⟨.handling u (resume r), queue⟩ := by
    rw [hactors, setActor_actors_self]
  have hother : ∀ m, m ≠ n → w'.actors m = w.actors m := by
    intro m hne
    rw [hactors, setActor_actors_ne w hne]
  have hqueue : ∀ m, (w'.actors m).queue = (w.actors m).queue := by
    intro m
    by_cases heq : m = n
    · subst heq
      rw [hself, hactor]
    · rw [hother m heq]
  have hhandled : (w.actors n).task.handled = some (u, .await l op resume) := by
    rw [hactor]
    rfl
  have hcarried : ∀ v m, (∃ fut, (w.actors m).task.handled = some (v, fut)) →
      ∃ fut, (w'.actors m).task.handled = some (v, fut) := by
    rintro v m ⟨fut, hfut⟩
    by_cases heq : m = n
    · subst heq
      cases hhandled.symm.trans hfut
      exact ⟨_, by rw [hself]; rfl⟩
    · exact ⟨fut, by rw [hother m heq]; exact hfut⟩
  obtain ⟨hin, msg, l₀, hwaiting, hcomes⟩ := hw.handled n u _ hhandled
  refine ⟨fun m v msg' hv => ?_, fun m => ?_, fun m v fut hv => ?_, fun v m msg' hv => ?_,
    fun v m msg' reply hv => ?_, fun v hv => ?_, fun v hv => ?_, hreceived ▸ hw.once⟩
  · rw [hqueue] at hv
    rw [husers, hreceived]
    exact hw.queued m v msg' hv
  · rw [hqueue]
    exact hw.distinct m
  · rw [husers, hreceived]
    by_cases heq : m = n
    · subst heq
      rw [hself] at hv
      cases hv
      exact ⟨hin, msg, l₀, hwaiting, hcomes.on r⟩
    · rw [hother m heq] at hv
      exact hw.handled m v fut hv
  · rw [husers] at hv
    rw [hqueue]
    exact (hw.waiting v m msg' hv).imp_right (hcarried v m)
  · rw [husers] at hv
    rw [hreceived]
    exact hw.answered v m msg' reply hv
  · rw [hreceived] at hv
    rw [husers]
    exact (hw.received v hv).imp_right fun ⟨m, hm⟩ => ⟨m, hcarried v m hm⟩
  · rw [hreceived]
    rcases happends v hv with rfl | hold
    · exact hin
    · exact hw.appended v hold

/-- The actor replies to the request it has processed. -/
theorem Located.replied {w w' : Instance A} (hw : w.Located C instanceId) {u n : Nat}
    {l : ActorLocals A} {reply : Reply A} {queue : List (Sent A)}
    (hactor : w.actors n = ⟨.handling u (.ready (l, reply)), queue⟩)
    (husers : w'.users = (w.setUser u ((w.users u).accept reply)).users)
    (hactors : w'.actors = (w.setActor n ⟨.receiving l, queue⟩).actors)
    (hreceived : w'.received = w.received) (happends : w'.appends = w.appends) :
    w'.Located C instanceId := by
  have hhandled : (w.actors n).task.handled = some (u, .ready (l, reply)) := by
    rw [hactor]
    rfl
  obtain ⟨hin, msg, l₀, hwaiting, hcomes⟩ := hw.handled n u _ hhandled
  have hanswered : w'.users u = .answered n msg (some reply) := by
    rw [husers, setUser_users_self, hwaiting]
    rfl
  have hothers : ∀ v, v ≠ u → w'.users v = w.users v := by
    intro v hne
    rw [husers, setUser_users_ne w hne]
  have hself : w'.actors n = ⟨.receiving l, queue⟩ := by
    rw [hactors, setActor_actors_self]
  have hother : ∀ m, m ≠ n → w'.actors m = w.actors m := by
    intro m hne
    rw [hactors, setActor_actors_ne w hne]
  have hqueue : ∀ m, (w'.actors m).queue = (w.actors m).queue := by
    intro m
    by_cases heq : m = n
    · subst heq
      rw [hself, hactor]
    · rw [hother m heq]
  -- whoever is being processed elsewhere is another user
  have hhandled' : ∀ m v fut, (w'.actors m).task.handled = some (v, fut) →
      m ≠ n ∧ v ≠ u ∧ (w.actors m).task.handled = some (v, fut) := by
    intro m v fut hv
    have hne : m ≠ n := by
      rintro rfl
      rw [hself] at hv
      cases hv
    rw [hother m hne] at hv
    refine ⟨hne, ?_, hv⟩
    rintro rfl
    obtain ⟨-, _, _, hwaiting', -⟩ := hw.handled m v fut hv
    cases hwaiting.symm.trans hwaiting'
    exact hne rfl
  have hstays : ∀ v m, v ≠ u → (∃ fut, (w.actors m).task.handled = some (v, fut)) →
      ∃ fut, (w'.actors m).task.handled = some (v, fut) := by
    rintro v m hne ⟨fut, hfut⟩
    have hmn : m ≠ n := by
      rintro rfl
      cases hhandled.symm.trans hfut
      exact hne rfl
    exact ⟨fut, by rw [hother m hmn]; exact hfut⟩
  refine ⟨fun m v msg' hv => ?_, fun m => ?_, fun m v fut hv => ?_, fun v m msg' hv => ?_,
    fun v m msg' reply' hv => ?_, fun v hv => ?_, fun v hv => ?_, hreceived ▸ hw.once⟩
  · rw [hqueue] at hv
    obtain ⟨hwaiting', hnew⟩ := hw.queued m v msg' hv
    rw [hothers v (by rintro rfl; exact hnew hin), hreceived]
    exact ⟨hwaiting', hnew⟩
  · rw [hqueue]
    exact hw.distinct m
  · obtain ⟨-, hne, hold⟩ := hhandled' m v fut hv
    rw [hothers v hne, hreceived]
    exact hw.handled m v fut hold
  · have hne : v ≠ u := by
      rintro rfl
      cases hanswered.symm.trans hv
    rw [hothers v hne] at hv
    rw [hqueue]
    exact (hw.waiting v m msg' hv).imp_right (hstays v m hne)
  · rw [hreceived]
    by_cases heq : v = u
    · subst heq
      cases hanswered.symm.trans hv
      exact ⟨hin, l₀, l, hcomes⟩
    · rw [hothers v heq] at hv
      exact hw.answered v m msg' reply' hv
  · rw [hreceived] at hv
    by_cases heq : v = u
    · subst heq
      exact Or.inl ⟨n, msg, reply, hanswered⟩
    · rw [hothers v heq]
      exact (hw.received v hv).imp_right fun ⟨m, hm⟩ => ⟨m, hstays v m heq hm⟩
  · rw [happends] at hv
    rw [hreceived]
    exact hw.appended v hv

/-- An actor goes: everyone who waits for it hears so. -/
theorem Located.deserted {w w' : Instance A} (hw : w.Located C instanceId) {n : Nat}
    (hgone : ∀ u msg, w.users u = .waiting n msg → w'.users u = .answered n msg none)
    (hkept : ∀ u, (∀ msg, w.users u ≠ .waiting n msg) → w'.users u = w.users u)
    (hactors : w'.actors = (w.setActor n ⟨.gone, []⟩).actors)
    (hreceived : w'.received = w.received) (happends : w'.appends = w.appends) :
    w'.Located C instanceId := by
  have hself : w'.actors n = ⟨.gone, []⟩ := by rw [hactors, setActor_actors_self]
  have hother : ∀ m, m ≠ n → w'.actors m = w.actors m := by
    intro m hne
    rw [hactors, setActor_actors_ne w hne]
  have helsewhere : ∀ {u m msg}, m ≠ n → w.users u = .waiting m msg →
      w'.users u = w.users u := by
    intro u m msg hne hwaiting
    refine hkept u fun msg' hn => ?_
    cases hwaiting.symm.trans hn
    exact hne rfl
  have hback : ∀ {u}, (w'.users u).accepted = true → w'.users u = w.users u := by
    intro u hu
    refine hkept u fun msg hwaiting => ?_
    rw [hgone u msg hwaiting] at hu
    cases hu
  refine ⟨fun m v msg' hv => ?_, fun m => ?_, fun m v fut hv => ?_, fun v m msg' hv => ?_,
    fun v m msg' reply hv => ?_, fun v hv => ?_, fun v hv => ?_, hreceived ▸ hw.once⟩
  · have hne : m ≠ n := by
      rintro rfl
      rw [hself] at hv
      cases hv
    rw [hother m hne] at hv
    obtain ⟨hwaiting, hnew⟩ := hw.queued m v msg' hv
    rw [helsewhere hne hwaiting, hreceived]
    exact ⟨hwaiting, hnew⟩
  · by_cases heq : m = n
    · subst heq
      rw [hself]
      exact List.nodup_nil
    · rw [hother m heq]
      exact hw.distinct m
  · have hne : m ≠ n := by
      rintro rfl
      rw [hself] at hv
      cases hv
    rw [hother m hne] at hv
    obtain ⟨hin, msg, l, hwaiting, hcomes⟩ := hw.handled m v fut hv
    rw [helsewhere hne hwaiting, hreceived]
    exact ⟨hin, msg, l, hwaiting, hcomes⟩
  · have hsame := hback (u := v) (by rw [hv]; rfl)
    have hne : m ≠ n := by
      rintro rfl
      cases (hgone v msg' (hsame.symm.trans hv)).symm.trans hv
    rw [hother m hne]
    exact hw.waiting v m msg' (hsame.symm.trans hv)
  · rw [hreceived]
    exact hw.answered v m msg' reply ((hback (by rw [hv]; rfl)).symm.trans hv)
  · rw [hreceived] at hv
    rcases hw.received v hv with ⟨m, msg, reply, hanswered⟩ | ⟨m, fut, hfut⟩
    · refine Or.inl ⟨m, msg, reply, (hkept v fun msg' hwaiting => ?_).trans hanswered⟩
      cases hanswered.symm.trans hwaiting
    · obtain ⟨-, msg, l, hwaiting, -⟩ := hw.handled m v fut hfut
      by_cases heq : m = n
      · subst heq
        exact Or.inl ⟨m, msg, none, hgone v msg hwaiting⟩
      · exact Or.inr ⟨m, fut, by rw [hother m heq]; exact hfut⟩
  · rw [happends] at hv
    rw [hreceived]
    exact hw.appended v hv

/-- Who waits for an actor is in its channel, or is the one it is processing. -/
theorem Located.waits_iff {w : Instance A} (hw : w.Located C instanceId) {n u : Nat} :
    (∃ msg, w.users u = .waiting n msg) ↔
      u ∈ (requests (w.actors n).queue).map Prod.fst ∨
        ∃ fut, (w.actors n).task.handled = some (u, fut) := by
  constructor
  · rintro ⟨msg, hwaiting⟩
    exact (hw.waiting u n msg hwaiting).imp_left fun hin => List.mem_map.mpr ⟨_, hin, rfl⟩
  · rintro (hin | ⟨fut, hfut⟩)
    · obtain ⟨⟨_, msg⟩, hmem, rfl⟩ := List.mem_map.mp hin
      exact ⟨msg, (hw.queued n _ msg hmem).1⟩
    · obtain ⟨-, msg, l, hwaiting, -⟩ := hw.handled n u fut hfut
      exact ⟨msg, hwaiting⟩

/-- A channel is closed while none of its requests is being processed. -/
theorem Located.closed {w : Instance A} (hw : w.Located C instanceId) {n : Nat}
    (hunhandled : (w.actors n).task.handled = none) :
    (w.closeChannel n).Located C instanceId := by
  have hiff : ∀ u, (∃ msg, w.users u = .waiting n msg) ↔
      u ∈ (requests (w.actors n).queue).map Prod.fst := by
    intro u
    rw [hw.waits_iff, hunhandled]
    exact or_iff_left fun ⟨_, hnone⟩ => by cases hnone
  refine hw.deserted (n := n) (fun u msg hwaiting => ?_) (fun u hnot => ?_) rfl rfl rfl
  · rw [closeChannel_users, if_pos ((hiff u).mp ⟨msg, hwaiting⟩), hwaiting]
    rfl
  · rw [closeChannel_users, if_neg fun hin => ?_]
    obtain ⟨msg, hwaiting⟩ := (hiff u).mpr hin
    exact hnot msg hwaiting

/-- A channel is closed because the processing of a request has panicked. -/
theorem Located.unwound {w : Instance A} (hw : w.Located C instanceId) {n v : Nat}
    {fut : ActorFuture A (ActorLocals A × Reply A)}
    (hhandled : (w.actors n).task.handled = some (v, fut)) :
    ((w.closeChannel n).drop [v]).Located C instanceId := by
  have hiff : ∀ u, (∃ msg, w.users u = .waiting n msg) ↔
      u ∈ (requests (w.actors n).queue).map Prod.fst ∨ u ∈ [v] := by
    intro u
    rw [hw.waits_iff, hhandled]
    refine or_congr_right ⟨fun ⟨_, hsame⟩ => ?_, fun hmem => ?_⟩
    · cases hsame
      exact List.mem_singleton_self v
    · exact ⟨fut, by rw [List.mem_singleton.mp hmem]⟩
  refine hw.deserted (n := n) (fun u msg hwaiting => ?_) (fun u hnot => ?_) rfl rfl rfl
  · rw [drop_users, closeChannel_users]
    rcases (hiff u).mp ⟨msg, hwaiting⟩ with hin | hin
    · rw [if_pos hin, hwaiting]
      split <;> rfl
    · rw [if_pos hin]
      split <;> rw [hwaiting] <;> rfl
  · have hout : ¬ (u ∈ (requests (w.actors n).queue).map Prod.fst ∨ u ∈ [v]) := by
      intro hin
      obtain ⟨msg, hwaiting⟩ := (hiff u).mpr hin
      exact hnot msg hwaiting
    rw [drop_users, closeChannel_users, if_neg fun hin => hout (Or.inr hin),
      if_neg fun hin => hout (Or.inl hin)]

/-- A step of one user that has no request before or after it. -/
theorem setUser_unengaged {w : Instance A} {u : Nat} {user : User A}
    (hbefore : (w.users u).engaged = false) (hafter : user.accepted = false) (v : Nat) :
    (w.setUser u user).users v = w.users v ∨
      (w.users v).engaged = false ∧ ((w.setUser u user).users v).accepted = false := by
  by_cases heq : v = u
  · subst heq
    exact Or.inr ⟨hbefore, by rw [setUser_users_self]; exact hafter⟩
  · exact Or.inl (setUser_users_ne w heq user)

/-- A step of one actor whose requests and processing stay as they are. -/
theorem setActor_requests {w : Instance A} {n : Nat} {a : SpawnedActor A}
    (hqueue : requests a.queue = requests (w.actors n).queue)
    (htask : a.task.handled = (w.actors n).task.handled) (m : Nat) :
    requests ((w.setActor n a).actors m).queue = requests (w.actors m).queue ∧
      ((w.setActor n a).actors m).task.handled = (w.actors m).task.handled := by
  by_cases heq : m = n
  · subst heq
    rw [setActor_actors_self]
    exact ⟨hqueue, htask⟩
  · rw [setActor_actors_ne w heq]
    exact ⟨rfl, rfl⟩

theorem Passes.unengaged {w : Instance A} {a : InstanceAction A} {u : Nat} {user : User A}
    (hpasses : Passes C instanceId w a u user) :
    (w.users u).engaged = false ∧ user.accepted = false := by
  cases hpasses with
  | hit huser hcached => exact ⟨by rw [huser]; rfl, rfl⟩
  | miss huser hcached => exact ⟨by rw [huser]; rfl, rfl⟩
  | loaded huser => exact ⟨by rw [huser]; rfl, rfl⟩
  | unloadable huser => exact ⟨by rw [huser]; rfl, rfl⟩
  | readServed huser => exact ⟨by rw [huser]; rfl, rfl⟩
  | unspawnable huser => exact ⟨by rw [huser]; rfl, rfl⟩
  | called huser hspawned => exact ⟨by rw [huser]; rfl, rfl⟩
  | sentOff huser => exact ⟨by rw [huser]; rfl, rfl⟩
  | actorGone huser hgone => exact ⟨by rw [huser]; rfl, rfl⟩

/-- Every step keeps every request in its place. -/
theorem Located.step {w w' : Instance A} (hw : w.Located C instanceId)
    (hchannels : w.Channels) {a : InstanceAction A}
    (hstep : Stepped C instanceId w a w') : w'.Located C instanceId := by
  cases hstep with
  | passed hpasses =>
      obtain ⟨hbefore, hafter⟩ := hpasses.unengaged
      exact hw.still (setUser_unengaged hbefore hafter) (fun _ => rfl) (fun _ => rfl) rfl rfl
  | evicted huser =>
      exact hw.still (setUser_unengaged (by rw [huser]; rfl) rfl) (fun _ => rfl)
        (fun _ => rfl) rfl rfl
  | spawned huser =>
      have hborn := hchannels.unborn w.spawned (Nat.le_refl _)
      have hsame := setActor_requests (w := w) (n := w.spawned)
        (a := ⟨.receiving ‹_›, []⟩) (by rw [hborn]) (by rw [hborn]; rfl)
      exact hw.still (setUser_unengaged (by rw [huser]; rfl) rfl) (fun m => (hsame m).1)
        (fun m => (hsame m).2) rfl rfl
  | inserted huser =>
      exact hw.still (setUser_unengaged (by rw [huser]; rfl) rfl) (fun _ => rfl)
        (fun _ => rfl) rfl rfl
  | sent huser halive hroom => exact hw.sent huser rfl rfl rfl rfl
  | @shutdownSent n halive hroom =>
      have hsame := setActor_requests (w := w) (n := n)
        (a := ⟨(w.actors n).task, (w.actors n).queue ++ [.shutdown]⟩)
        (by rw [requests_append]; exact List.append_nil _) rfl
      exact hw.still (fun _ => Or.inl rfl) (fun m => (hsame m).1) (fun m => (hsame m).2)
        rfl rfl
  | received hactor => exact hw.taken hactor rfl rfl rfl rfl
  | @shutdownReceived n l rest hactor =>
      have hsame := setActor_requests (w := w) (n := n) (a := ⟨.stopping l, rest⟩)
        (by rw [hactor]; rfl) (by rw [hactor]; rfl)
      exact hw.still (fun _ => Or.inl rfl) (fun m => (hsame m).1) (fun m => (hsame m).2)
        rfl rfl
  | @served n u l op resume queue respond r hactor =>
      refine hw.advanced hactor rfl rfl rfl fun v hv => ?_
      change v ∈ (if op.isAppend then u :: w.appends else w.appends) at hv
      split at hv
      · exact List.mem_cons.mp hv
      · exact Or.inr hv
  | replied hactor => exact hw.replied hactor rfl rfl rfl rfl
  | unwound hactor => exact hw.unwound (by rw [hactor]; rfl)
  | @quit n l hactor =>
      have hsame := setActor_requests (w := w) (n := n) (a := ⟨.stopping l, []⟩)
        (by rw [hactor]) (by rw [hactor]; rfl)
      exact hw.still (fun _ => Or.inl rfl) (fun m => (hsame m).1) (fun m => (hsame m).2)
        rfl rfl
  | @saved n l queue written hactor =>
      have hsame := setActor_requests (w := w) (n := n) (a := ⟨.saved, queue⟩)
        (by rw [hactor]) (by rw [hactor]; rfl)
      exact hw.still (fun _ => Or.inl rfl) (fun m => (hsame m).1) (fun m => (hsame m).2)
        rfl rfl
  | closed hactor => exact hw.closed (by rw [hactor]; rfl)

theorem Passes.unanswered {w : Instance A} {a : InstanceAction A} {u : Nat} {user : User A}
    (hpasses : Passes C instanceId w a u user) (n : Nat) (msg : ActorMessage A)
    (reply : Option (Reply A)) : w.users u ≠ .answered n msg reply := by
  intro hanswered
  cases hpasses with
  | hit huser hcached => cases huser.symm.trans hanswered
  | miss huser hcached => cases huser.symm.trans hanswered
  | loaded huser => cases huser.symm.trans hanswered
  | unloadable huser => cases huser.symm.trans hanswered
  | readServed huser => cases huser.symm.trans hanswered
  | unspawnable huser => cases huser.symm.trans hanswered
  | called huser hspawned => cases huser.symm.trans hanswered
  | sentOff huser => cases huser.symm.trans hanswered
  | actorGone huser hgone => cases huser.symm.trans hanswered

/-- A call that has returned stays as it is. -/
theorem Stepped.answered_kept {w w' : Instance A} {a : InstanceAction A}
    (hstep : Stepped C instanceId w a w') {u n : Nat} {msg : ActorMessage A}
    {reply : Option (Reply A)} (huser : w.users u = .answered n msg reply) :
    w'.users u = .answered n msg reply := by
  have huserStep := hstep.user u
  generalize w'.users u = user at huserStep ⊢
  cases huserStep with
  | stays hother => exact huser
  | passes hpasses => exact absurd huser (hpasses.unanswered n msg reply)
  | evicted hu => cases hu.symm.trans huser
  | spawned hu => cases hu.symm.trans huser
  | inserted hu => cases hu.symm.trans huser
  | sent hu => cases hu.symm.trans huser
  | replied hactor =>
      rw [huser]
      rfl
  | hungUp hother =>
      rw [huser]
      rfl

end Instance

/-- The actor itself never answers that it is gone. -/
theorem executeWithRetry_ends (streamId : Uuid) (newV4 : Nat → Nat → Uuid)
    (cmd : A.Command) (ctx : CommandContext) (attempts : Nat) (l : ActorLocals A) :
    (executeWithRetry C streamId instanceId newV4 cmd ctx attempts l).Ends
      (fun _ _ _ => True) fun out => out.2 ≠ .error .actorGone := by
  induction attempts generalizing l with
  | zero => exact fun hgone => by cases hgone
  | succ attempts ih =>
      have hround := executeWithRetry_round C streamId instanceId newV4 cmd ctx attempts l
      generalize executeWithRetry C streamId instanceId newV4 cmd ctx (attempts + 1) l = fut
        at hround ⊢
      cases hround with
      | refused hhandle => exact fun hgone => by cases hgone
      | noEvents hhandle => exact fun hgone => by cases hgone
      | unserialized hhandle henc => exact fun hgone => by cases hgone
      | panicked hhandle henc => exact fun r => r.elim
      | appends hhandle henc haccepted hconflict hfailed hagain hlost =>
          rintro (status | resp) -
          · by_cases hcode : status.code = .failedPrecondition
            · rw [hconflict status hcode]
              rintro (status₂ | newer) -
              · rw [hlost]
                exact fun hgone => by cases hgone
              · rw [hagain]
                exact ih (l.foldEvents C newer)
            · rw [hfailed status hcode]
              exact fun hgone => by cases hgone
          · rw [haccepted]
            exact fun hgone => by cases hgone

theorem processing_execute_ends (l : ActorLocals A) (cmd : A.Command)
    (ctx : CommandContext) (newV4 : Nat → Nat → Uuid) :
    (processing C instanceId l (.execute cmd ctx newV4)).Ends (fun _ _ _ => True)
      fun out => ∃ result, out.2 = .execute result ∧ result ≠ .error .actorGone := by
  refine Future.Ends.bind ?_
  exact (executeWithRetry_ends _ newV4 cmd ctx maxRetries l).weaken
    fun out hout => ⟨out.2, rfl, hout⟩

namespace Instance

theorem sound_of_reaches {ok : Instance A → InstanceAction A → Prop} {w₀ w : Instance A}
    (hunused : w₀.Unused) (hreach : Reaches (step C instanceId) ok w₀ w) :
    w.Located C instanceId ∧ w.Channels := by
  induction hreach with
  | start => exact ⟨hunused.located, hunused.channels⟩
  | next _ _ hstep ih =>
      have hstepped := stepped_of_step hstep
      exact ⟨ih.1.step ih.2 hstepped, ih.2.step hstepped⟩

/-- Whose call returns `ActorGone` has not been received. -/
def RefusesUnreceived (w : Instance A) : Prop :=
  ∀ u n msg, w.users u = .answered n msg none → u ∉ w.received

theorem Unused.refusesUnreceived {w : Instance A} (hunused : w.Unused) :
    w.RefusesUnreceived := by
  intro u n msg hu
  rw [hunused.idle u] at hu
  cases hu

/-- A step of one user that returns `ActorGone`, if at all, for a call that is not in the
channel. -/
theorem RefusesUnreceived.setUser {w w' : Instance A} (hw : w.RefusesUnreceived)
    (hlocated : w.Located C instanceId) {v : Nat} {user : User A}
    (hbefore : (w.users v).engaged = false)
    (husers : w'.users = (w.setUser v user).users) (hreceived : w'.received = w.received) :
    w'.RefusesUnreceived := by
  intro u n msg hu
  rw [hreceived]
  by_cases heq : u = v
  · subst heq
    exact hlocated.unreceived hbefore
  · rw [husers, setUser_users_ne w heq] at hu
    exact hw u n msg hu

/-- Short of a panic, nobody who has been received hears that the actor is gone. -/
theorem RefusesUnreceived.step {w w' : Instance A} (hw : w.RefusesUnreceived)
    (hlocated : w.Located C instanceId) {a : InstanceAction A} (hcalm : NoPanic w a)
    (hstep : Stepped C instanceId w a w') : w'.RefusesUnreceived := by
  cases hstep with
  | passed hpasses => exact hw.setUser hlocated hpasses.unengaged.1 rfl rfl
  | evicted huser => exact hw.setUser hlocated (by rw [huser]; rfl) rfl rfl
  | spawned huser => exact hw.setUser hlocated (by rw [huser]; rfl) rfl rfl
  | inserted huser => exact hw.setUser hlocated (by rw [huser]; rfl) rfl rfl
  | sent huser halive hroom => exact hw.setUser hlocated (by rw [huser]; rfl) rfl rfl
  | @received n v l msg rest hactor =>
      have hwaiting := (hlocated.queued n v msg (by rw [hactor]; exact List.mem_cons_self)).1
      intro u m msg' hu
      refine List.not_mem_cons_of_ne_of_not_mem ?_ (hw u m msg' hu)
      rintro rfl
      cases hwaiting.symm.trans hu
  | @replied n v l reply queue hactor =>
      obtain ⟨-, msg, l₀, hwaiting, -⟩ :=
        hlocated.handled n v (.ready (l, reply)) (by rw [hactor]; rfl)
      intro u m msg' hu
      by_cases heq : u = v
      · subst heq
        rw [setUser_users_self, hwaiting] at hu
        cases hu
      · rw [setUser_users_ne _ heq] at hu
        exact hw u m msg' hu
  | unwound hactor => exact hcalm.elim
  | @closed n queue hactor =>
      intro u m msg' hu
      by_cases hin : u ∈ (requests (w.actors n).queue).map Prod.fst
      · obtain ⟨⟨_, msg⟩, hmem, rfl⟩ := List.mem_map.mp hin
        exact (hlocated.queued n _ msg hmem).2
      · rw [closeChannel_users, if_neg hin] at hu
        exact hw u m msg' hu
  | shutdownSent halive hroom => exact hw
  | shutdownReceived hactor => exact hw
  | served hactor => exact hw
  | quit hactor => exact hw
  | saved hactor => exact hw

end Instance

end EventfoldEs
