/-
Any number of actors, each with its own aggregate type and instance id, in any
number of processes, over one server to which others append as well.  One step
is one call of the store, one message received or answered, one spawn or exit.
-/
import EventfoldEs.ActorSafety
import EventfoldEs.Lib.Run

namespace EventfoldEs

open Async Replay

/-- An answered message, with the blocks it put into the stream. -/
structure Completed (A : Aggregate) where
  msg : ActorMessage A
  commits : List Commit
  reply : Reply A

/-- Where the task of one actor is. -/
inductive Slot (A : Aggregate)
  | absent
  | spawning (trail : Trail) (fut : ActorFuture A (Except Status (ActorLocals A)))
  | idle (seen : List RecordedEvent) (l : ActorLocals A)
  | busy (msg : ActorMessage A) (trail : Trail)
      (fut : ActorFuture A (ActorLocals A × Reply A))

variable (C : Crates) {ι : Type} [DecidableEq ι] (A : ι → Aggregate)
variable (instanceId : ι → String)

/-- The stream of an actor. -/
def streamOf (i : ι) : Uuid := streamUuid C (A i).aggregateType (instanceId i)

structure World where
  server : Server
  slots : ∀ i, Slot (A i)
  disk : ∀ i, Option (Snapshot (A i).State)
  history : List (Σ i, Completed (A i))

/-- `exit` is the message `Shutdown`, the closed channel or the idle timeout:
all three save the same snapshot; `saved` tells whether the write succeeds. -/
inductive WorldAction (ι : Type) (A : ι → Aggregate)
  | foreign (id : Uuid) (events : List ProposedEvent) (recordedAt : Nat)
  | spawn (i : ι) (snapshot : Option (Snapshot (A i).State))
  | serve (i : ι) (answer : Answer)
  | settle (i : ι)
  | receive (i : ι) (msg : ActorMessage (A i))
  | exit (i : ι) (saved : Bool)

namespace World

variable {A}

def setSlot (w : World A) (i : ι) (slot : Slot (A i)) : World A :=
  { w with slots := Function.update w.slots i slot }

/-- The call slot `i` waits for is answered. -/
def serveSlot (w : World A) (i : ι) (answer : Answer) : Option (World A) :=
  match w.slots i with
  | .spawning trail (.await _ op resume) =>
      (op.serve C answer (w.server, trail)).map fun (r, s, trail') =>
        { w.setSlot i (.spawning trail' (resume r)) with server := s }
  | .busy msg trail (.await _ op resume) =>
      (op.serve C answer (w.server, trail)).map fun (r, s, trail') =>
        { w.setSlot i (.busy msg trail' (resume r)) with server := s }
  | _ => none

/-- The future of slot `i` is done: the loop goes on, or the task ends. -/
def settleSlot (w : World A) (i : ι) : Option (World A) :=
  match w.slots i with
  | .spawning trail (.ready (.ok l)) => some (w.setSlot i (.idle trail.seen l))
  | .spawning _ (.ready (.error _)) => some (w.setSlot i .absent)
  | .busy msg trail (.ready (l, reply)) =>
      some { w.setSlot i (.idle trail.seen l) with
        history := w.history ++ [⟨i, msg, trail.commits, reply⟩] }
  | .busy _ _ (.await _ .panic _) => some (w.setSlot i .absent)
  | _ => none

def step (w : World A) : WorldAction ι A → Option (World A)
  | .foreign id events recordedAt =>
      some { w with server := w.server.commit C id events recordedAt }
  | .spawn i snapshot =>
      match w.slots i with
      | .absent =>
          some (w.setSlot i (.spawning ⟨[], []⟩
            (spawnActorWithStore C (A i) (instanceId i) snapshot)))
      | _ => none
  | .serve i answer => w.serveSlot C i answer
  | .settle i => w.settleSlot i
  | .receive i msg =>
      match w.slots i with
      | .idle seen l =>
          some (w.setSlot i (.busy msg ⟨[], seen⟩
            (onMessage C (streamOf C A instanceId i) (instanceId i) l msg)))
      | _ => none
  | .exit i saved =>
      match w.slots i with
      | .idle _ l =>
          some { w.setSlot i .absent with
            disk := if saved then Function.update w.disk i (some l.exitSnapshot)
              else w.disk }
      | _ => none

@[simp] theorem setSlot_slots_self (w : World A) (i : ι) (slot : Slot (A i)) :
    (w.setSlot i slot).slots i = slot := by
  simp [setSlot]

theorem setSlot_slots_ne (w : World A) {i j : ι} (hne : j ≠ i) (slot : Slot (A i)) :
    (w.setSlot i slot).slots j = w.slots j := by
  simp [setSlot, Function.update_of_ne hne]

@[simp] theorem setSlot_server (w : World A) (i : ι) (slot : Slot (A i)) :
    (w.setSlot i slot).server = w.server := rfl

@[simp] theorem setSlot_history (w : World A) (i : ι) (slot : Slot (A i)) :
    (w.setSlot i slot).history = w.history := rfl

@[simp] theorem setSlot_disk (w : World A) (i : ι) (slot : Slot (A i)) :
    (w.setSlot i slot).disk = w.disk := rfl

/-- What a call of slot `i` does. -/
inductive Served (w : World A) (i : ι) (answer : Answer) (w' : World A) : Prop
  | spawning {trail trail' : Trail} {l : ActorLocals (A i)} {op : StoreOp}
      {resume : op.Res → ActorFuture (A i) (Except Status (ActorLocals (A i)))}
      {r : op.Res} {s : Server}
      (hslot : w.slots i = .spawning trail (.await l op resume))
      (hserve : op.serve C answer (w.server, trail) = some (r, (s, trail')))
      (hnext : w' = { w.setSlot i (.spawning trail' (resume r)) with server := s })
  | busy {msg : ActorMessage (A i)} {trail trail' : Trail} {l : ActorLocals (A i)}
      {op : StoreOp}
      {resume : op.Res → ActorFuture (A i) (ActorLocals (A i) × Reply (A i))}
      {r : op.Res} {s : Server}
      (hslot : w.slots i = .busy msg trail (.await l op resume))
      (hserve : op.serve C answer (w.server, trail) = some (r, (s, trail')))
      (hnext : w' = { w.setSlot i (.busy msg trail' (resume r)) with server := s })

theorem served_of_serveSlot {w w' : World A} {i : ι} {answer : Answer}
    (hstep : w.serveSlot C i answer = some w') : Served C w i answer w' := by
  unfold serveSlot at hstep
  split at hstep
  · rename_i hslot
    simp only [Option.map_eq_some_iff] at hstep
    obtain ⟨⟨r, s, trail'⟩, hserve, rfl⟩ := hstep
    exact .spawning hslot hserve rfl
  · rename_i hslot
    simp only [Option.map_eq_some_iff] at hstep
    obtain ⟨⟨r, s, trail'⟩, hserve, rfl⟩ := hstep
    exact .busy hslot hserve rfl
  · cases hstep

/-- What the end of a future of slot `i` does. -/
inductive Settled (w : World A) (i : ι) (w' : World A) : Prop
  | spawned {trail : Trail} {l : ActorLocals (A i)}
      (hslot : w.slots i = .spawning trail (.ready (.ok l)))
      (hnext : w' = w.setSlot i (.idle trail.seen l))
  | replied {msg : ActorMessage (A i)} {trail : Trail} {l : ActorLocals (A i)}
      {reply : Reply (A i)} (hslot : w.slots i = .busy msg trail (.ready (l, reply)))
      (hnext : w' = { w.setSlot i (.idle trail.seen l) with
        history := w.history ++ [⟨i, msg, trail.commits, reply⟩] })
  | ended (hnext : w' = w.setSlot i .absent)

theorem settled_of_settleSlot {w w' : World A} {i : ι}
    (hstep : w.settleSlot i = some w') : Settled w i w' := by
  unfold settleSlot at hstep
  split at hstep
  · rename_i hslot
    exact .spawned hslot (Option.some.inj hstep).symm
  · exact .ended (Option.some.inj hstep).symm
  · rename_i hslot
    exact .replied hslot (Option.some.inj hstep).symm
  · exact .ended (Option.some.inj hstep).symm
  · cases hstep

/-- What a slot holds, in a run that admits its actor. -/
def SlotSafe (w : World A) (i : ι) : Prop :=
  match w.slots i with
  | .absent => True
  | .spawning trail fut =>
      fut.Safe (spawnTerms C (A i) (streamOf C A instanceId i))
        (fun out y => ∀ l, out = .ok l → Named C (streamOf C A instanceId i) l y)
        (w.server, trail)
  | .idle seen l => Named C (streamOf C A instanceId i) l (w.server, ⟨[], seen⟩)
  | .busy msg trail fut =>
      fut.Safe (actorTerms C (A i) (streamOf C A instanceId i))
        (fun out y => Named C (streamOf C A instanceId i) out.1 y ∧
          RepliedTo C (A i) (streamOf C A instanceId i) (instanceId i) msg
            y.2.commits y.1 out.2)
        (w.server, trail)

/-- What a run owes the actors of `T`: a spawn loads no snapshot or a
transparent one, and what a received command decides survives. -/
def Admits (T : ι → Prop) (w : World A) : WorldAction ι A → Prop
  | .spawn i snapshot => T i → ∀ snap ∈ snapshot,
      snap.Transparent C (w.server.streams (streamOf C A instanceId i))
  | .receive i msg => T i → msg.Survives C
  | _ => True

/-- No actor is running, nothing was answered yet. -/
structure Fresh (w : World A) : Prop where
  wellFormed : w.server.WellFormed
  absent : ∀ i, w.slots i = .absent
  unanswered : w.history = []

/-- The invariant of every run that admits the actors of `T`. -/
structure Inv (T : ι → Prop) (w : World A) : Prop where
  wellFormed : w.server.WellFormed
  slots : ∀ i, T i → w.SlotSafe C instanceId i
  answered : ∀ i, T i → ∀ done : Completed (A i),
    (⟨i, done⟩ : Σ i, Completed (A i)) ∈ w.history →
      RepliedTo C (A i) (streamOf C A instanceId i) (instanceId i) done.msg
        done.commits w.server done.reply

variable {C} {instanceId} {T : ι → Prop}

omit [DecidableEq ι] in
theorem Fresh.inv {w : World A} (hfresh : w.Fresh) : w.Inv C instanceId T where
  wellFormed := hfresh.wellFormed
  slots i _ := by
    rw [SlotSafe, hfresh.absent i]
    trivial
  answered i _ done hdone := by
    rw [hfresh.unanswered] at hdone
    cases hdone

omit [DecidableEq ι] in
/-- A slot that a step leaves alone stays safe while the server is extended. -/
theorem SlotSafe.stable {w w' : World A} {i : ι} (hsafe : w.SlotSafe C instanceId i)
    (hslot : w'.slots i = w.slots i) (hext : w.server.Extends w'.server)
    (hwf : w'.server.WellFormed) : w'.SlotSafe C instanceId i := by
  unfold SlotSafe at hsafe ⊢
  rw [hslot]
  split at hsafe
  · trivial
  · refine hsafe.stable ?_ ⟨hext, hwf, rfl⟩
    intro out s t hout hrely l hl
    exact (hout l hl).stable hrely
  · exact Named.stable hsafe ⟨hext, hwf, rfl⟩
  · refine hsafe.stable ?_ ⟨hext, hwf, rfl⟩
    rintro out s t ⟨hnamed, hreply⟩ hrely
    refine ⟨hnamed.stable hrely, ?_⟩
    rw [show t.2 = s.2 from hrely.2.2]
    exact hreply.stable hrely.1

/-- A step that extends the server and touches slot `i` alone. -/
theorem Inv.of_slot {w w' : World A} (hinv : w.Inv C instanceId T) (i : ι)
    (hothers : ∀ j, j ≠ i → w'.slots j = w.slots j)
    (hext : w.server.Extends w'.server) (hwf : w'.server.WellFormed)
    (hi : T i → w'.SlotSafe C instanceId i)
    (hhistory : ∀ j, T j → ∀ done : Completed (A j),
      (⟨j, done⟩ : Σ i, Completed (A i)) ∈ w'.history →
        (⟨j, done⟩ : Σ i, Completed (A i)) ∈ w.history ∨
          RepliedTo C (A j) (streamOf C A instanceId j) (instanceId j) done.msg
            done.commits w'.server done.reply) :
    w'.Inv C instanceId T where
  wellFormed := hwf
  slots j hj := by
    by_cases heq : j = i
    · exact heq ▸ hi (heq ▸ hj)
    · exact (hinv.slots j hj).stable (hothers j heq) hext hwf
  answered j hj done hdone := by
    rcases hhistory j hj done hdone with hold | hnew
    · exact (hinv.answered j hj done hold).stable hext
    · exact hnew

theorem inv_serve {w w' : World A} (hinv : w.Inv C instanceId T) {i : ι}
    {answer : Answer} (hserved : Served C w i answer w')
    (hgrows : w.server.Extends w'.server ∧ w'.server.WellFormed) :
    w'.Inv C instanceId T := by
  have hrefl : w.server.Extends w.server ∧ w.server.WellFormed :=
    ⟨Server.Extends.refl _, hinv.wellFormed⟩
  cases hserved with
  | spawning hslot hserve hnext =>
      subst hnext
      refine hinv.of_slot i (fun j hj => setSlot_slots_ne w hj _) hgrows.1 hgrows.2
        (fun hi => ?_) (fun j _ done hdone => Or.inl hdone)
      have hsafe := hinv.slots i hi
      rw [SlotSafe, hslot] at hsafe
      have hafter := hsafe.served ⟨hrefl.1, hrefl.2, rfl⟩ ⟨answer, hserve⟩
      simpa [SlotSafe] using hafter.2
  | busy hslot hserve hnext =>
      subst hnext
      refine hinv.of_slot i (fun j hj => setSlot_slots_ne w hj _) hgrows.1 hgrows.2
        (fun hi => ?_) (fun j _ done hdone => Or.inl hdone)
      have hsafe := hinv.slots i hi
      rw [SlotSafe, hslot] at hsafe
      have hafter := hsafe.served ⟨hrefl.1, hrefl.2, rfl⟩ ⟨answer, hserve⟩
      simpa [SlotSafe] using hafter.2

end World

/-- Every call of the store extends it and keeps it well formed. -/
theorem StoreOp.serve_grows {C : Crates} {op : StoreOp} {answer : Answer}
    {s s' : Server} {trail trail' : Trail} {r : op.Res} (hs : s.WellFormed)
    (hserve : op.serve C answer (s, trail) = some (r, (s', trail'))) :
    s.Extends s' ∧ s'.WellFormed := by
  cases op with
  | append id expected events =>
      rcases serve_append_cases hserve with
        ⟨_, at', -, -, -, rfl, -⟩ | ⟨_, -, -, -, rfl, -⟩ |
        ⟨_, -, -, ⟨rfl, -⟩ | ⟨at', -, rfl, -⟩⟩
      · exact ⟨Server.commit_extends C s id _ at',
          Server.commit_wellFormed C hs id _ at'⟩
      · exact ⟨Server.Extends.refl _, hs⟩
      · exact ⟨Server.Extends.refl _, hs⟩
      · exact ⟨Server.commit_extends C s id _ at',
          Server.commit_wellFormed C hs id _ at'⟩
  | readStream id n count =>
      have hsame : s' = s := by
        cases answer with
        | server recordedAt =>
            simp only [StoreOp.serve] at hserve
            split at hserve <;>
              simp only [Option.some.injEq, Prod.mk.injEq] at hserve <;>
              exact hserve.2.1.symm
        | fault status committed recordedAt =>
            simp only [StoreOp.serve] at hserve
            split at hserve
            · cases hserve
            · simp only [Option.some.injEq, Prod.mk.injEq] at hserve
              exact hserve.2.1.symm
      subst hsame
      exact ⟨Server.Extends.refl _, hs⟩
  | panic => exact r.elim

namespace World

variable {C : Crates} {ι : Type} [DecidableEq ι] {A : ι → Aggregate}
variable {instanceId : ι → String} {T : ι → Prop}

theorem step_grows {w w' : World A} (hwf : w.server.WellFormed)
    {a : WorldAction ι A} (hstep : w.step C instanceId a = some w') :
    w.server.Extends w'.server ∧ w'.server.WellFormed := by
  have hsame : w.server.Extends w.server ∧ w.server.WellFormed :=
    ⟨Server.Extends.refl _, hwf⟩
  cases a with
  | foreign id events recordedAt =>
      simp only [step, Option.some.injEq] at hstep
      subst hstep
      exact ⟨Server.commit_extends C _ id _ _, Server.commit_wellFormed C hwf id _ _⟩
  | serve i answer =>
      cases served_of_serveSlot C hstep with
      | spawning _ hserve hnext => exact hnext ▸ StoreOp.serve_grows hwf hserve
      | busy _ hserve hnext => exact hnext ▸ StoreOp.serve_grows hwf hserve
  | settle i =>
      cases settled_of_settleSlot hstep with
      | spawned _ hnext => exact hnext ▸ hsame
      | replied _ hnext => exact hnext ▸ hsame
      | ended hnext => exact hnext ▸ hsame
  | spawn i snapshot =>
      simp only [step] at hstep
      split at hstep <;> simp only [Option.some.injEq, reduceCtorEq] at hstep
      exact hstep ▸ hsame
  | receive i msg =>
      simp only [step] at hstep
      split at hstep <;> simp only [Option.some.injEq, reduceCtorEq] at hstep
      exact hstep ▸ hsame
  | exit i saved =>
      simp only [step] at hstep
      split at hstep <;> simp only [Option.some.injEq, reduceCtorEq] at hstep
      exact hstep ▸ hsame

theorem inv_step {w w' : World A} (hinv : w.Inv C instanceId T)
    {a : WorldAction ι A} (hadmits : w.Admits C instanceId T a)
    (hstep : w.step C instanceId a = some w') : w'.Inv C instanceId T := by
  have hgrows := step_grows hinv.wellFormed hstep
  cases a with
  | foreign id events recordedAt =>
      simp only [step, Option.some.injEq] at hstep
      subst hstep
      exact {
        wellFormed := hgrows.2
        slots := fun i hi => (hinv.slots i hi).stable rfl hgrows.1 hgrows.2
        answered := fun i hi done hdone =>
          (hinv.answered i hi done hdone).stable hgrows.1 }
  | spawn i snapshot =>
      simp only [step] at hstep
      split at hstep <;> simp only [Option.some.injEq, reduceCtorEq] at hstep
      subst hstep
      refine hinv.of_slot i (fun j hj => setSlot_slots_ne w hj _) hgrows.1 hgrows.2
        (fun hi => ?_) (fun j _ done hdone => Or.inl hdone)
      have hsafe := spawnActorWithStore_safe (instanceId i)
        (w.server, ⟨[], []⟩) rfl (hadmits hi)
      simpa [SlotSafe, streamOf] using hsafe
  | serve i answer => exact inv_serve hinv (served_of_serveSlot C hstep) hgrows
  | settle i =>
      cases settled_of_settleSlot hstep with
      | spawned hslot hnext =>
          subst hnext
          refine hinv.of_slot i (fun j hj => setSlot_slots_ne w hj _) hgrows.1 hgrows.2
            (fun hi => ?_) (fun j _ done hdone => Or.inl hdone)
          have hsafe := hinv.slots i hi
          rw [SlotSafe, hslot] at hsafe
          have hnamed := hsafe _ rfl
          simpa [SlotSafe] using
            (⟨hnamed.exact, hnamed.unseen⟩ : Named C _ _ (w.server, ⟨[], _⟩))
      | replied hslot hnext =>
          subst hnext
          refine hinv.of_slot i (fun j hj => setSlot_slots_ne w hj _) hgrows.1 hgrows.2
            (fun hi => ?_) (fun j hj done hdone => ?_)
          · have hsafe := hinv.slots i hi
            rw [SlotSafe, hslot] at hsafe
            simpa [SlotSafe] using
              (⟨hsafe.1.exact, hsafe.1.unseen⟩ : Named C _ _ (w.server, ⟨[], _⟩))
          · rcases List.mem_append.mp hdone with hold | hnew
            · exact Or.inl hold
            · rw [List.mem_singleton] at hnew
              cases hnew
              have hsafe := hinv.slots _ hj
              rw [SlotSafe, hslot] at hsafe
              exact Or.inr hsafe.2
      | ended hnext =>
          subst hnext
          refine hinv.of_slot i (fun j hj => setSlot_slots_ne w hj _) hgrows.1 hgrows.2
            (fun _ => ?_) (fun j _ done hdone => Or.inl hdone)
          simp [SlotSafe]
  | receive i msg =>
      simp only [step] at hstep
      split at hstep <;> simp only [Option.some.injEq, reduceCtorEq] at hstep
      rename_i seen l hslot
      subst hstep
      refine hinv.of_slot i (fun j hj => setSlot_slots_ne w hj _) hgrows.1 hgrows.2
        (fun hi => ?_) (fun j _ done hdone => Or.inl hdone)
      have hidle := hinv.slots i hi
      rw [SlotSafe, hslot] at hidle
      have hsafe := onMessage_safe (instanceId i) msg (hadmits hi) l
        (w.server, ⟨[], seen⟩) hinv.wellFormed hidle rfl
      simpa [SlotSafe] using hsafe
  | exit i saved =>
      simp only [step] at hstep
      split at hstep <;> simp only [Option.some.injEq, reduceCtorEq] at hstep
      subst hstep
      refine hinv.of_slot i (fun j hj => setSlot_slots_ne w hj _) hgrows.1 hgrows.2
        (fun _ => ?_) (fun j _ done hdone => Or.inl hdone)
      simp [SlotSafe]

/-- The invariant holds in every world that an admitting run reaches. -/
theorem inv_of_reaches {w₀ w : World A} (hfresh : w₀.Fresh)
    (hreach : Reaches (step C instanceId) (Admits C instanceId T) w₀ w) :
    w.Inv C instanceId T :=
  hreach.invariant hfresh.inv fun _ _ _ hinv hadmits hstep =>
    inv_step hinv hadmits hstep

end World

end EventfoldEs
