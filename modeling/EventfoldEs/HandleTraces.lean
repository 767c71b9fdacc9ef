/-
Where the answers of the calls on the handles of one instance come from: every request
that is being processed, or has been answered, was taken from the channel of its actor,
which has processed it from its locals of then with what the event store has answered since.
-/
import EventfoldEs.HandleAnswers

namespace EventfoldEs

open Async

variable {C : Crates} {A : Aggregate} {instanceId : String}

/-- The actor whose task takes the step. -/
def InstanceAction.task? : InstanceAction A → Option Nat
  | .receive n | .serve n _ | .reply n | .unwind n | .quit n | .save n _ | .close n => some n
  | _ => none

namespace Instance

variable (C) (instanceId) in
/-- In a run from `w₀` actor `n` has taken up the request of `u`, its locals being `l`
then, and the answers of the event store since have brought the processing to this point. -/
inductive Handling (w₀ : Instance A) (n u : Nat) (l : ActorLocals A) (msg : ActorMessage A) :
    Instance A → ActorFuture A (ActorLocals A × Reply A) → Prop
  | taken {w w' : Instance A} {rest : List (Sent A)}
      (hreach : Reaches (step C instanceId) NoPanic w₀ w)
      (hactor : w.actors n = ⟨.receiving l, .request u msg :: rest⟩)
      (hstep : w.step C instanceId (.receive n) = some w') :
      Handling w₀ n u l msg w' (processing C instanceId l msg)
  | served {w w' : Instance A} {l' : ActorLocals A} {op : StoreOp}
      {resume : op.Res → ActorFuture A (ActorLocals A × Reply A)} {r : op.Res}
      {respond : (op : StoreOp) → Option op.Res}
      (hbefore : Handling w₀ n u l msg w (.await l' op resume))
      (hresponds : respond op = some r)
      (hstep : w.step C instanceId (.serve n respond) = some w') :
      Handling w₀ n u l msg w' (resume r)
  | meanwhile {w w' : Instance A} {fut : ActorFuture A (ActorLocals A × Reply A)}
      {a : InstanceAction A} (hbefore : Handling w₀ n u l msg w fut)
      (hother : a.task? ≠ some n) (hstep : w.step C instanceId a = some w') :
      Handling w₀ n u l msg w' fut

theorem Handling.comes {w₀ w : Instance A} {n u : Nat} {l : ActorLocals A}
    {msg : ActorMessage A} {fut : ActorFuture A (ActorLocals A × Reply A)}
    (hhandling : Handling C instanceId w₀ n u l msg w fut) :
    (processing C instanceId l msg).Comes fut := by
  induction hhandling with
  | taken _ _ _ => exact .here
  | served _ _ _ ih => exact ih.on _
  | meanwhile _ _ _ ih => exact ih

variable (C) (instanceId) in
/-- Actor `n` has processed the request of `u`, has replied to it, and the run has gone on
to `w`. -/
def Replied (w₀ w : Instance A) (n u : Nat) (l : ActorLocals A) (msg : ActorMessage A)
    (l' : ActorLocals A) (reply : Reply A) : Prop :=
  ∃ w₁ w₂, Handling C instanceId w₀ n u l msg w₁ (.ready (l', reply)) ∧
    w₁.step C instanceId (.reply n) = some w₂ ∧ Reaches (step C instanceId) NoPanic w₂ w

theorem Replied.comes {w₀ w : Instance A} {n u : Nat} {l l' : ActorLocals A}
    {msg : ActorMessage A} {reply : Reply A}
    (hreplied : Replied C instanceId w₀ w n u l msg l' reply) :
    (processing C instanceId l msg).Comes (.ready (l', reply)) := by
  obtain ⟨w₁, w₂, hhandling, -⟩ := hreplied
  exact hhandling.comes

/-- How the processing of actor `m` got to where a step leaves it. -/
inductive HandledFrom (C : Crates) (instanceId : String) (w : Instance A)
    (a : InstanceAction A) (m u : Nat) (fut : ActorFuture A (ActorLocals A × Reply A)) : Prop
  | taken {l : ActorLocals A} {msg : ActorMessage A} {rest : List (Sent A)}
      (haction : a = .receive m)
      (hactor : w.actors m = ⟨.receiving l, .request u msg :: rest⟩)
      (hfut : fut = processing C instanceId l msg)
  | served {l : ActorLocals A} {op : StoreOp}
      {resume : op.Res → ActorFuture A (ActorLocals A × Reply A)} {r : op.Res}
      {respond : (op : StoreOp) → Option op.Res} (haction : a = .serve m respond)
      (hbefore : (w.actors m).task.handled = some (u, .await l op resume))
      (hresponds : respond op = some r) (hfut : fut = resume r)
  | meanwhile (hother : a.task? ≠ some m)
      (hbefore : (w.actors m).task.handled = some (u, fut))

/-- A step of actor `n`, after which it processes nothing, or what `hown` tells. -/
theorem HandledFrom.of_setActor {w w' : Instance A} {a : InstanceAction A} {n m u : Nat}
    {x : SpawnedActor A} {fut : ActorFuture A (ActorLocals A × Reply A)}
    (hactors : w'.actors = (w.setActor n x).actors) (htask : a.task? = some n)
    (hfut : (w'.actors m).task.handled = some (u, fut))
    (hown : m = n → x.task.handled = some (u, fut) → HandledFrom C instanceId w a m u fut) :
    HandledFrom C instanceId w a m u fut := by
  rw [hactors] at hfut
  by_cases heq : m = n
  · subst heq
    rw [setActor_actors_self] at hfut
    exact hown rfl hfut
  · rw [setActor_actors_ne w heq] at hfut
    refine .meanwhile ?_ hfut
    rw [htask]
    exact fun hsame => heq (Option.some.inj hsame).symm

theorem handled_requeue (w : Instance A) (n m : Nat) (queue : List (Sent A)) :
    ((w.setActor n ⟨(w.actors n).task, queue⟩).actors m).task.handled =
      (w.actors m).task.handled := by
  by_cases heq : m = n
  · subst heq
    rw [setActor_actors_self]
  · rw [setActor_actors_ne w heq]

theorem handledFrom_of_stepped {w w' : Instance A} {a : InstanceAction A}
    (hstep : Stepped C instanceId w a w') {m u : Nat}
    {fut : ActorFuture A (ActorLocals A × Reply A)}
    (hfut : (w'.actors m).task.handled = some (u, fut)) :
    HandledFrom C instanceId w a m u fut := by
  cases hstep with
  | passed hpasses =>
      refine .meanwhile ?_ hfut
      cases hpasses <;> exact fun htask => by cases htask
  | evicted huser => exact .meanwhile (fun htask => by cases htask) hfut
  | spawned huser =>
      refine .meanwhile (fun htask => by cases htask) ?_
      by_cases heq : m = w.spawned
      · subst heq
        change ((w.setActor w.spawned ⟨.receiving _, []⟩).actors w.spawned).task.handled =
          some (u, fut) at hfut
        rw [setActor_actors_self] at hfut
        cases hfut
      · rw [← hfut]
        exact congrArg (fun x => x.task.handled) (setActor_actors_ne w heq _).symm
  | inserted huser => exact .meanwhile (fun htask => by cases htask) hfut
  | sent huser halive hroom =>
      exact .meanwhile (fun htask => by cases htask)
        ((handled_requeue w _ m _).symm.trans hfut)
  | shutdownSent halive hroom =>
      exact .meanwhile (fun htask => by cases htask)
        ((handled_requeue w _ m _).symm.trans hfut)
  | received hactor =>
      refine .of_setActor rfl rfl hfut fun heq htaken => ?_
      subst heq
      cases htaken
      exact .taken rfl hactor rfl
  | shutdownReceived hactor =>
      exact .of_setActor rfl rfl hfut fun _ hnone => by cases hnone
  | served hactor hresponds =>
      refine .of_setActor rfl rfl hfut fun heq hserved => ?_
      subst heq
      cases hserved
      exact .served rfl (by rw [hactor]; rfl) hresponds rfl
  | replied hactor =>
      exact .of_setActor rfl rfl hfut fun _ hnone => by cases hnone
  | unwound hactor =>
      exact .of_setActor rfl rfl hfut fun _ hnone => by cases hnone
  | quit hactor =>
      exact .of_setActor rfl rfl hfut fun _ hnone => by cases hnone
  | saved hactor =>
      exact .of_setActor rfl rfl hfut fun _ hnone => by cases hnone
  | closed hactor =>
      exact .of_setActor rfl rfl hfut fun _ hnone => by cases hnone

/-- A reply that is there after a step was there before, or has just been given. -/
theorem Located.answered_from {w w' : Instance A} (hw : w.Located C instanceId)
    {a : InstanceAction A} (hstep : Stepped C instanceId w a w') {u n : Nat}
    {msg : ActorMessage A} {reply : Reply A}
    (huser : w'.users u = .answered n msg (some reply)) :
    w.users u = .answered n msg (some reply) ∨
      a = .reply n ∧ w.users u = .waiting n msg ∧
        ∃ l, (w.actors n).task.handled = some (u, .ready (l, reply)) := by
  have huserStep := hstep.user u
  rw [huser] at huserStep
  generalize hafter : User.answered n msg (some reply) = user at huserStep
  cases huserStep with
  | stays hother => exact Or.inl rfl
  | passes hpasses =>
      have hno := hpasses.unengaged.2
      rw [← hafter] at hno
      cases hno
  | evicted hu => cases hafter
  | spawned hu => cases hafter
  | inserted hu => cases hafter
  | sent hu => cases hafter
  | @replied m l reply' queue hactor =>
      have hhandled : (w.actors m).task.handled = some (u, .ready (l, reply')) := by
        rw [hactor]
        rfl
      obtain ⟨-, msg', -, hwaiting, -⟩ := hw.handled m u _ hhandled
      rw [hwaiting] at hafter
      cases hafter
      exact Or.inr ⟨rfl, hwaiting, l, hhandled⟩
  | hungUp hother =>
      cases hu : w.users u <;> rw [hu] at hafter <;> cases hafter
      exact Or.inl rfl

/-- Who waits for an actor goes on waiting for it, or is answered. -/
theorem Stepped.waiting_kept {w w' : Instance A} {a : InstanceAction A}
    (hstep : Stepped C instanceId w a w') {u n : Nat} {msg : ActorMessage A}
    (huser : w.users u = .waiting n msg) :
    w'.users u = .waiting n msg ∨ ∃ reply, w'.users u = .answered n msg reply := by
  have huserStep := hstep.user u
  generalize w'.users u = user at huserStep ⊢
  cases huserStep with
  | stays hother => exact Or.inl huser
  | passes hpasses =>
      have hno := hpasses.unengaged.1
      rw [huser] at hno
      cases hno
  | evicted hu => cases hu.symm.trans huser
  | spawned hu => cases hu.symm.trans huser
  | inserted hu => cases hu.symm.trans huser
  | sent hu => cases hu.symm.trans huser
  | @replied n l reply queue hactor =>
      rw [huser]
      exact Or.inr ⟨some reply, rfl⟩
  | hungUp hother =>
      rw [huser]
      exact Or.inr ⟨none, rfl⟩

variable (C) (instanceId) in
/-- Every processing and every answer goes back to the receipt of its request. -/
structure Traced (w₀ w : Instance A) : Prop where
  handling : ∀ n u fut msg, (w.actors n).task.handled = some (u, fut) →
    w.users u = .waiting n msg → ∃ l, Handling C instanceId w₀ n u l msg w fut
  answered : ∀ u n msg reply, w.users u = .answered n msg (some reply) →
    ∃ l l', Replied C instanceId w₀ w n u l msg l' reply

theorem Unused.traced {w₀ : Instance A} (hunused : w₀.Unused) :
    Traced C instanceId w₀ w₀ where
  handling n u fut msg hu := by
    rw [hunused.unborn n] at hu
    cases hu
  answered u n msg reply hu := by
    rw [hunused.idle u] at hu
    cases hu

theorem Traced.step {w₀ w w' : Instance A} (hw : Traced C instanceId w₀ w)
    (hlocated : w.Located C instanceId) (hreach : Reaches (step C instanceId) NoPanic w₀ w)
    {a : InstanceAction A} (hcalm : NoPanic w a) (hstep : w.step C instanceId a = some w') :
    Traced C instanceId w₀ w' := by
  have hstepped := stepped_of_step hstep
  -- whoever waits after the step for what it has waited for before
  have hwaits : ∀ {u n msg msg'}, w.users u = .waiting n msg' →
      w'.users u = .waiting n msg → msg' = msg := by
    intro u n msg msg' hbefore hafter
    rcases hstepped.waiting_kept hbefore with hsame | ⟨reply, hanswered⟩
    · cases hsame.symm.trans hafter
      rfl
    · cases hanswered.symm.trans hafter
  refine ⟨fun n u fut msg hfut hu => ?_, fun u n msg reply hu => ?_⟩
  · cases handledFrom_of_stepped hstepped hfut with
    | @taken l msg' rest haction hactor hsame =>
        have hwaiting := (hlocated.queued n u msg' (by
          rw [hactor]
          exact List.mem_cons_self)).1
        obtain rfl := hwaits hwaiting hu
        subst haction hsame
        exact ⟨l, .taken hreach hactor hstep⟩
    | @served l' op resume r respond haction hbefore hresponds hsame =>
        obtain ⟨-, msg', -, hwaiting, -⟩ := hlocated.handled n u _ hbefore
        obtain rfl := hwaits hwaiting hu
        obtain ⟨l, hhandling⟩ := hw.handling n u _ msg' hbefore hwaiting
        subst haction hsame
        exact ⟨l, .served hhandling hresponds hstep⟩
    | meanwhile hother hbefore =>
        obtain ⟨-, msg', -, hwaiting, -⟩ := hlocated.handled n u _ hbefore
        obtain rfl := hwaits hwaiting hu
        obtain ⟨l, hhandling⟩ := hw.handling n u _ msg' hbefore hwaiting
        exact ⟨l, .meanwhile hhandling hother hstep⟩
  · rcases hlocated.answered_from hstepped hu with hbefore | ⟨haction, hwaiting, l', hready⟩
    · obtain ⟨l, l', w₁, w₂, hhandling, hreplies, hlater⟩ := hw.answered u n msg reply hbefore
      exact ⟨l, l', w₁, w₂, hhandling, hreplies, .next hlater hcalm hstep⟩
    · obtain ⟨l, hhandling⟩ := hw.handling n u _ msg hready hwaiting
      subst haction
      exact ⟨l, l', w, w', hhandling, hstep, .start⟩

theorem traced_of_reaches {w₀ w : Instance A} (hunused : w₀.Unused)
    (hreach : Reaches (step C instanceId) NoPanic w₀ w) : Traced C instanceId w₀ w := by
  induction hreach with
  | start => exact hunused.traced
  | next hprior hcalm hstep ih =>
      exact ih.step (sound_of_reaches hunused hprior).1 hprior hcalm hstep

/-- What an `execute` returns is the result of processing its own command, or `ActorGone`
for a command that no actor has ever received. -/
theorem Traced.executeResult {w₀ w : Instance A} (hw : Traced C instanceId w₀ w)
    (hlocated : w.Located C instanceId) (hrefuses : w.RefusesUnreceived) {u : Nat}
    {result : ExecuteResult A} (hresult : (w.users u).executeResult = some result) :
    (result ≠ .error .actorGone ∧ u ∈ w.received ∧
      ∃ n cmd ctx newV4 reply l l', w.users u = .answered n (.execute cmd ctx newV4) reply ∧
        (processing C instanceId l (.execute cmd ctx newV4)).Comes
          (.ready (l', .execute result)) ∧
        Replied C instanceId w₀ w n u l (.execute cmd ctx newV4) l' (.execute result)) ∨
      (result = .error .actorGone ∧ u ∉ w.received ∧ u ∉ w.appends) := by
  cases huser : w.users u with
  | answered n msg reply =>
      rw [huser] at hresult
      cases msg with
      | execute cmd ctx newV4 =>
          cases reply with
          | none =>
              cases hresult
              have hnever := hrefuses u n _ huser
              exact Or.inr ⟨rfl, hnever, fun hin => hnever (hlocated.appended u hin)⟩
          | some reply =>
              obtain ⟨l, l', hreplied⟩ := hw.answered u n _ reply huser
              have hcomes := hreplied.comes
              obtain ⟨result', hsame, hne⟩ :=
                (processing_execute_ends l cmd ctx newV4).of_comes hcomes
              change reply = .execute result' at hsame
              subst hsame
              cases hresult
              exact Or.inl ⟨hne, (hlocated.answered u n _ _ huser).1, n, cmd, ctx, newV4, _,
                l, l', rfl, hcomes, hreplied⟩
      | getState => cases reply <;> cases hresult
      | inject proposed => cases reply <;> cases hresult
  | _ =>
      rw [huser] at hresult
      cases hresult

end Instance

end EventfoldEs
