/-
What holds in every run of the actors: the pair of an actor is an exact prefix
of its stream that only moves forward, and an execute is serialised at the
prefix it was decided on.
-/
import EventfoldEs.ActorWorld
import EventfoldEs.EventCodec

namespace EventfoldEs

open Async Replay

variable {C : Crates}

/-- What the pair of an actor needs to know of a response: a checked append is
acknowledged above the version it was checked against, and a read returns
nothing older than what it asked for. -/
def StoreOp.Truthful : (op : StoreOp) → op.Res → Prop
  | .append _ (.exact v) _, .ok resp => v ≤ resp.lastStreamVersion
  | .readStream _ n _, .ok events => ∀ ev ∈ events, n ≤ ev.streamVersion
  | _, _ => True

/-- How one response may move the pair: never back, and not at all if it is an
error. -/
def movesPair {A : Aggregate} (op : StoreOp) (r : op.Res) (l l' : ActorLocals A) :
    Prop :=
  l.fromVersion ≤ l'.fromVersion ∧ (op.failed r → l' = l)

theorem StoreOp.serve_truthful {op : StoreOp} {answer : Answer}
    {x y : Server × Trail} {r : op.Res} (hserve : op.serve C answer x = some (r, y)) :
    op.Truthful r := by
  obtain ⟨s, trail⟩ := x
  obtain ⟨s', trail'⟩ := y
  cases op with
  | append id expected events =>
      cases expected with
      | any => trivial
      | noStream => trivial
      | exact v =>
          rcases serve_append_cases hserve with
            ⟨resp, at', rfl, hacc, hlast, -, -⟩ | ⟨status, rfl, -⟩ | ⟨status, rfl, -⟩
          · simp only [ExpectedVersionArg.accepts, beq_iff_eq] at hacc
            change v ≤ resp.lastStreamVersion
            omega
          · trivial
          · trivial
  | readStream id n count =>
      cases r with
      | error status => trivial
      | ok events =>
          have hread : ∀ ev ∈ events, ev ∈ (s.streams id).filter
              fun r => decide (n ≤ r.streamVersion) := by
            cases answer with
            | fault status committed recordedAt =>
                simp only [StoreOp.serve] at hserve
                split at hserve <;> simp at hserve
            | server recordedAt =>
                simp only [StoreOp.serve, Server.readStream] at hserve
                intro ev hev
                by_cases hempty : (s.streams id).isEmpty = true
                · simp only [hempty, ↓reduceIte, clientReadStream, Option.some.injEq,
                    Prod.mk.injEq, Except.ok.injEq] at hserve
                  obtain ⟨rfl, -⟩ := hserve
                  cases hev
                · simp only [hempty, Bool.false_eq_true, ↓reduceIte, clientReadStream,
                    Option.some.injEq, Prod.mk.injEq, Except.ok.injEq] at hserve
                  obtain ⟨rfl, -⟩ := hserve
                  split at hev
                  · exact hev
                  · exact List.mem_of_mem_take hev
          intro ev hev
          simpa using (List.mem_filter.mp (hread ev hev)).2
  | panic => exact r.elim

section Moves

variable {A : Aggregate}

theorem ActorLocals.fromVersion_le_foldEvents {l : ActorLocals A}
    {events : List RecordedEvent}
    (hnewer : ∀ ev ∈ events, l.fromVersion ≤ ev.streamVersion) :
    l.fromVersion ≤ (l.foldEvents C events).fromVersion := by
  rcases List.eq_nil_or_concat events with rfl | ⟨init, last, rfl⟩
  · exact Nat.le_refl _
  · rw [List.concat_eq_append] at hnewer ⊢
    rw [ActorLocals.foldEvents_concat]
    have := hnewer last (by simp)
    change l.fromVersion ≤ last.streamVersion + 1
    omega

/-- A read moves the pair forward, or leaves it if it fails. -/
theorem movesPair_readStream {l : ActorLocals A} {id : Uuid}
    {events : List RecordedEvent}
    (htrue : (StoreOp.readStream id l.fromVersion u64Max).Truthful (.ok events)) :
    movesPair (.readStream id l.fromVersion u64Max) (.ok events) l
      (l.foldEvents C events) := by
  refine ⟨ActorLocals.fromVersion_le_foldEvents htrue, ?_⟩
  rintro ⟨status, hfailed⟩
  cases hfailed

theorem movesPair_self (op : StoreOp) (r : op.Res) (l : ActorLocals A) :
    movesPair op r l l :=
  ⟨Nat.le_refl _, fun _ => rfl⟩

theorem executeWithRetry_moves (id : Uuid) (instanceId : String)
    (newV4 : Nat → Nat → Uuid) (cmd : A.Command) (ctx : CommandContext)
    (attempts : Nat) (l : ActorLocals A) :
    (executeWithRetry C id instanceId newV4 cmd ctx attempts l).Moves Prod.fst
        StoreOp.Truthful movesPair ∧
      (executeWithRetry C id instanceId newV4 cmd ctx attempts l).now Prod.fst = l := by
  induction attempts generalizing l with
  | zero => exact ⟨trivial, rfl⟩
  | succ attempts ih =>
      have hround := executeWithRetry_round C id instanceId newV4 cmd ctx attempts l
      generalize executeWithRetry C id instanceId newV4 cmd ctx (attempts + 1) l = fut
        at hround ⊢
      cases hround with
      | refused hhandle => exact ⟨trivial, rfl⟩
      | noEvents hhandle => exact ⟨trivial, rfl⟩
      | unserialized hhandle henc => exact ⟨trivial, rfl⟩
      | panicked hhandle henc => exact ⟨fun r => r.elim, rfl⟩
      | appends hhandle henc haccepted hconflict hfailed hagain hlost =>
          refine ⟨?_, rfl⟩
          rintro (status | resp) htrue
          · by_cases hcode : status.code = .failedPrecondition
            · rw [hconflict status hcode]
              refine ⟨movesPair_self _ _ l, ?_⟩
              rintro (status₂ | newer) htrue₂
              · rw [hlost]
                exact ⟨movesPair_self _ _ l, trivial⟩
              · obtain ⟨hmoves, hnow⟩ := ih (l.foldEvents C newer)
                rw [hagain]
                refine ⟨?_, hmoves⟩
                rw [hnow]
                exact movesPair_readStream htrue₂
            · rw [hfailed status hcode]
              exact ⟨movesPair_self _ _ l, trivial⟩
          · rw [haccepted]
            refine ⟨⟨?_, ?_⟩, trivial⟩
            · change l.fromVersion ≤ resp.lastStreamVersion + 1
              unfold ActorLocals.expected at htrue
              unfold ActorLocals.fromVersion
              cases hversion : l.streamVersion with
              | none => exact Nat.zero_le _
              | some v =>
                  rw [hversion] at htrue
                  exact Nat.succ_le_succ htrue
            · rintro ⟨status, hfailed⟩
              cases hfailed

/-- No message moves the pair back, and no failed call moves it at all. -/
theorem onMessage_moves (id : Uuid) (instanceId : String) (l : ActorLocals A)
    (msg : ActorMessage A) :
    (onMessage C id instanceId l msg).Moves Prod.fst StoreOp.Truthful movesPair ∧
      (onMessage C id instanceId l msg).now Prod.fst = l := by
  cases msg with
  | execute cmd ctx newV4 =>
      obtain ⟨hmoves, hnow⟩ :=
        executeWithRetry_moves (C := C) id instanceId newV4 cmd ctx maxRetries l
      refine ⟨Future.Moves.bind hmoves fun _ => trivial, ?_⟩
      rw [onMessage, Future.now_bind]
      exact hnow
  | getState => exact ⟨trivial, rfl⟩
  | inject proposed =>
      refine ⟨?_, rfl⟩
      rintro (status | resp) -
      · exact ⟨movesPair_self _ _ l, trivial⟩
      · refine ⟨movesPair_self _ _ l, ?_⟩
        rintro (status | newer) htrue
        · exact ⟨movesPair_self _ _ l, trivial⟩
        · exact ⟨movesPair_readStream htrue, trivial⟩

end Moves

namespace Slot

variable {A : Aggregate}

/-- The pair of a running actor. -/
def pair? : Slot A → Option (ActorLocals A)
  | .idle _ l => some l
  | .busy _ _ fut => some (fut.now Prod.fst)
  | _ => none

/-- The events the actor was shown since it was spawned. -/
def seen : Slot A → List RecordedEvent
  | .absent => []
  | .spawning trail _ => trail.seen
  | .idle seen _ => seen
  | .busy _ trail _ => trail.seen

def Moving : Slot A → Prop
  | .busy _ _ fut => fut.Moves Prod.fst StoreOp.Truthful movesPair
  | _ => True

end Slot

namespace World

variable {ι : Type} [DecidableEq ι] {A : ι → Aggregate} {instanceId : ι → String}

omit [DecidableEq ι] in
theorem SlotSafe.named {w : World A} {i : ι} (hsafe : w.SlotSafe C instanceId i)
    {l : ActorLocals (A i)} (hpair : (w.slots i).pair? = some l) :
    ∃ commits, Named C (streamOf C A instanceId i) l
      (w.server, ⟨commits, (w.slots i).seen⟩) := by
  unfold SlotSafe at hsafe
  cases hslot : w.slots i with
  | absent => simp [hslot, Slot.pair?] at hpair
  | spawning trail fut => simp [hslot, Slot.pair?] at hpair
  | idle seen l' =>
      simp only [hslot, Slot.pair?, Option.some.injEq] at hpair hsafe
      subst hpair
      exact ⟨[], hsafe⟩
  | busy msg trail fut =>
      simp only [hslot, Slot.pair?, Option.some.injEq] at hpair hsafe
      subst hpair
      refine ⟨trail.commits, ?_⟩
      cases fut with
      | ready out => exact hsafe.1
      | await l' op resume => exact hsafe.during rfl

/-- Nothing moves back from one world to the next. -/
def Forward (w w' : World A) : Prop :=
  (∀ i, (w'.slots i).Moving) ∧
    ∀ i l l', (w.slots i).pair? = some l → (w'.slots i).pair? = some l' →
      l.fromVersion ≤ l'.fromVersion

/-- A step that puts `slot` in place of slot `i` only has to answer for it. -/
theorem forward_of_slot {w : World A} (hmoving : ∀ i, (w.slots i).Moving) {i : ι}
    {slot : Slot (A i)} (hslot : slot.Moving)
    (hpair : ∀ l l', (w.slots i).pair? = some l → slot.pair? = some l' →
      l.fromVersion ≤ l'.fromVersion) : w.Forward (w.setSlot i slot) := by
  refine ⟨fun j => ?_, fun j l l' hl hl' => ?_⟩
  · by_cases heq : j = i
    · subst heq
      rw [setSlot_slots_self]
      exact hslot
    · rw [setSlot_slots_ne w heq]
      exact hmoving j
  · by_cases heq : j = i
    · subst heq
      rw [setSlot_slots_self] at hl'
      exact hpair l l' hl hl'
    · rw [setSlot_slots_ne w heq] at hl'
      cases Option.some.inj (hl.symm.trans hl')
      exact Nat.le_refl _

theorem step_forward {w w' : World A} {a : WorldAction ι A}
    (hmoving : ∀ i, (w.slots i).Moving) (hstep : w.step C instanceId a = some w') :
    w.Forward w' := by
  cases a with
  | foreign id events recordedAt =>
      simp only [step, Option.some.injEq] at hstep
      subst hstep
      refine ⟨hmoving, fun i l l' hl hl' => ?_⟩
      cases Option.some.inj (hl.symm.trans hl')
      exact Nat.le_refl _
  | spawn i snapshot =>
      simp only [step] at hstep
      split at hstep <;> simp only [Option.some.injEq, reduceCtorEq] at hstep
      rw [← hstep]
      exact forward_of_slot hmoving trivial fun l l' _ hl' => by simp [Slot.pair?] at hl'
  | serve i answer =>
      cases served_of_serveSlot C hstep with
      | spawning hslot hserve hnext =>
          rw [hnext]
          exact forward_of_slot hmoving trivial fun l l' _ hl' => by simp [Slot.pair?] at hl'
      | busy hslot hserve hnext =>
          have hfut := hmoving i
          rw [hslot] at hfut
          obtain ⟨hmove, hrest⟩ := hfut _ (StoreOp.serve_truthful hserve)
          rw [hnext]
          refine forward_of_slot hmoving hrest fun l l' hl hl' => ?_
          rw [hslot] at hl
          cases hl
          cases hl'
          exact hmove.1
  | settle i =>
      cases settled_of_settleSlot hstep with
      | spawned hslot hnext =>
          rw [hnext]
          refine forward_of_slot hmoving trivial fun l l' hl _ => ?_
          rw [hslot] at hl
          cases hl
      | replied hslot hnext =>
          rw [hnext]
          refine forward_of_slot hmoving trivial fun l l' hl hl' => ?_
          rw [hslot] at hl
          cases hl
          cases hl'
          exact Nat.le_refl _
      | ended hnext =>
          rw [hnext]
          exact forward_of_slot hmoving trivial fun l l' _ hl' => by simp [Slot.pair?] at hl'
  | receive i msg =>
      simp only [step] at hstep
      split at hstep <;> simp only [Option.some.injEq, reduceCtorEq] at hstep
      rename_i seen l₀ hslot
      obtain ⟨hmoves, hnow⟩ :=
        onMessage_moves (C := C) (streamOf C A instanceId i) (instanceId i) l₀ msg
      rw [← hstep]
      refine forward_of_slot hmoving hmoves fun l l' hl hl' => ?_
      rw [hslot] at hl
      cases hl
      simp only [Slot.pair?, hnow, Option.some.injEq] at hl'
      exact hl' ▸ Nat.le_refl _
  | exit i saved =>
      simp only [step] at hstep
      split at hstep <;> simp only [Option.some.injEq, reduceCtorEq] at hstep
      rw [← hstep]
      exact forward_of_slot hmoving trivial fun l l' _ hl' => by simp [Slot.pair?] at hl'

omit [DecidableEq ι] in
theorem Fresh.moving {w : World A} (hfresh : w.Fresh) (i : ι) :
    (w.slots i).Moving := by
  rw [hfresh.absent i]
  trivial

theorem moving_of_reaches {ok : World A → WorldAction ι A → Prop} {w₀ w : World A}
    (hfresh : w₀.Fresh) (hreach : Reaches (step C instanceId) ok w₀ w) (i : ι) :
    (w.slots i).Moving := by
  have hall : ∀ i, (w.slots i).Moving :=
    hreach.invariant hfresh.moving fun _ _ _ hmoving _ hstep =>
      (step_forward hmoving hstep).1
  exact hall i

variable (C) (instanceId)

/-- Actor `i` is spawned without a snapshot, or from one that equals the
replay of the prefix it names. -/
def SpawnsGood (i : ι) (w : World A) : WorldAction ι A → Prop
  | .spawn j snapshot => j = i → ∀ snap ∈ snapshot,
      snap.Good C (w.server.streams (streamOf C A instanceId j))
  | _ => True

/-- What the commands that actor `i` receives decide survives. -/
def ExecutesSurviving (i : ι) : WorldAction ι A → Prop
  | .receive j msg => j = i → msg.Survives C
  | _ => True

variable {C} {instanceId}

omit [DecidableEq ι] in
theorem SpawnsGood.admits {w : World A} {i : ι} {a : WorldAction ι A}
    (hgood : w.SpawnsGood C instanceId i a) (hsurvive : ExecutesSurviving C i a) :
    w.Admits C instanceId (· = i) a := by
  cases a with
  | spawn j snapshot => exact fun hj snap hsnap => (hgood hj snap hsnap).transparent
  | receive j msg => exact hsurvive
  | _ => trivial

omit [DecidableEq ι] in
theorem executesSurviving_of_eventsSurvive {i : ι}
    (hsurvive : (A i).EventsSurvive C) (a : WorldAction ι A) :
    ExecutesSurviving C i a := by
  cases a with
  | receive j msg =>
      intro hj
      subst hj
      cases msg with
      | execute cmd ctx newV4 => exact fun _ _ _ e _ => hsurvive e
      | _ => trivial
  | _ => trivial

/-- At every await of a message, after every message and after the spawn: the
pair is exactly a prefix of the stream, no step moves its version back, and a
call that fails leaves it as it was. -/
theorem pair_names_prefix_exactly {w₀ w : World A} (hfresh : w₀.Fresh) (i : ι)
    (hreach : Reaches (step C instanceId) (SpawnsGood C instanceId i) w₀ w)
    (hsurvive : (A i).EventsSurvive C) :
    (∀ l, (w.slots i).pair? = some l →
      match l.streamVersion with
      | none => l.state = (A i).default ∧ (w.slots i).seen = []
      | some v => v < (w.server.streams (streamOf C A instanceId i)).length ∧
          l.state = (((w.server.streams (streamOf C A instanceId i)).take
            (v + 1)).filterMap (decodeDomainEvent C (A i))).foldl
              (A i).apply (A i).default) ∧
      (∀ a w', w.step C instanceId a = some w' → ∀ l l' v,
        (w.slots i).pair? = some l → (w'.slots i).pair? = some l' →
        l.streamVersion = some v → ∃ v', l'.streamVersion = some v' ∧ v ≤ v') ∧
      ∀ msg trail l op resume answer r y,
        w.slots i = .busy msg trail (.await l op resume) →
        op.serve C answer (w.server, trail) = some (r, y) → op.failed r →
        ∃ w', w.step C instanceId (.serve i answer) = some w' ∧
          (w'.slots i).pair? = some l := by
  have hinv : w.Inv C instanceId (· = i) :=
    inv_of_reaches hfresh (hreach.mono fun _ a hgood =>
      hgood.admits (executesSurviving_of_eventsSurvive hsurvive a))
  have hmoving := moving_of_reaches hfresh hreach
  refine ⟨?_, ?_, ?_⟩
  · intro l hpair
    obtain ⟨commits, hexact, hunseen⟩ := (hinv.slots i rfl).named hpair
    have hbounded := hexact.bounded
    have hfolded := hexact.folded
    rw [replayEvents, replay_eq_foldl_filterMap] at hfolded
    cases hversion : l.streamVersion with
    | none =>
        rw [ActorLocals.fromVersion, hversion] at hfolded
        exact ⟨hfolded, hunseen hversion⟩
    | some v =>
        rw [ActorLocals.fromVersion, hversion] at hbounded hfolded
        exact ⟨hbounded, hfolded⟩
  · intro a w' hstep l l' v hl hl' hversion
    have hle := (step_forward hmoving hstep).2 i l l' hl hl'
    unfold ActorLocals.fromVersion at hle
    rw [hversion] at hle
    cases hversion' : l'.streamVersion with
    | none =>
        rw [hversion'] at hle
        exact absurd hle (Nat.not_succ_le_zero v)
    | some v' =>
        rw [hversion'] at hle
        exact ⟨v', rfl, Nat.le_of_succ_le_succ hle⟩
  · intro msg trail l op resume answer r y hslot hserve hfailed
    have hfut := hmoving i
    rw [hslot] at hfut
    obtain ⟨hmove, -⟩ := hfut r (StoreOp.serve_truthful hserve)
    refine ⟨{ w.setSlot i (.busy msg y.2 (resume r)) with server := y.1 }, ?_, ?_⟩
    · simp only [step, serveSlot, hslot, hserve, Option.map_some]
    · simp only [setSlot_slots_self, Slot.pair?, hmove.2 hfailed]

/-- An execute that is answered is serialised: the blocks it put into the
stream are decided at exactly the prefix before them. -/
theorem execute_is_serialised {w₀ w : World A} (hfresh : w₀.Fresh) (i : ι)
    (hreach : Reaches (step C instanceId)
      (fun w a => w.SpawnsGood C instanceId i a ∧ ExecutesSurviving C i a) w₀ w)
    (cmd : (A i).Command) (ctx : CommandContext) (newV4 : Nat → Nat → Uuid)
    (commits : List Commit) (result : ExecuteResult (A i))
    (hdone : (⟨i, .execute cmd ctx newV4, commits, .execute result⟩ :
      Σ i, Completed (A i)) ∈ w.history) :
    ExecuteSpec C (A i) (streamOf C A instanceId i) (instanceId i) cmd ctx commits
      w.server result := by
  have hinv : w.Inv C instanceId (· = i) :=
    inv_of_reaches hfresh (hreach.mono fun _ _ hok => hok.1.admits hok.2)
  exact hinv.answered i rfl _ hdone

end World

namespace ActorRunsWitness

open EventCodecWitness World

/-- Nothing is stored yet, and no actor runs. -/
def emptyWorld (A : Aggregate) : World fun _ : Unit => A where
  server := ⟨fun _ => [], 0⟩
  slots _ := .absent
  disk _ := none
  history := []

theorem emptyWorld_fresh (A : Aggregate) : (emptyWorld A).Fresh :=
  ⟨fun _ => trivial, fun _ => rfl, rfl⟩

def firstId : Unit → String := fun _ => "m-1"

/-- Spawn without a snapshot, then execute the commands one after the other. -/
def executing {A : Aggregate} (cmds : List A.Command) :
    List (WorldAction Unit fun _ => A) :=
  [.spawn () none, .serve () (.server 0), .settle ()] ++ cmds.flatMap fun cmd =>
    [.receive () (.execute cmd .default fun _ _ => 7), .serve () (.server 0),
      .settle ()]

theorem executing_spawnsGood {A : Aggregate} (cmds : List A.Command) :
    ∀ a ∈ executing cmds, ∀ w, SpawnsGood crates firstId () w a := by
  intro a ha w
  simp only [executing, List.mem_append, List.mem_cons, List.mem_flatMap,
    List.not_mem_nil, or_false] at ha
  rcases ha with (rfl | rfl | rfl) | ⟨cmd, -, rfl | rfl | rfl⟩
  · rintro - _ ⟨⟩
  all_goals trivial

/-- A door that can only be opened; its one event is a unit variant. -/
def doorOf (aggregateType : String) : Aggregate where
  State := Nat
  Command := Unit
  DomainEvent := Unit
  Error := String
  aggregateType := aggregateType
  default := 0
  handle _ _ := .ok [()]
  apply opened _ := opened + 1
  toValue _ := .ok (.object [("type", .string "Opened")])
  fromValue v :=
    match (v.get "type").bind Value.asStr with
    | some "Opened" => .ok ()
    | _ => .error "unknown variant"

def door : Aggregate := doorOf "door"

theorem door_eventsSurvive : door.EventsSurvive crates := by
  intro e newV4 ctx aggregateType instanceId p henc streamId version position recordedAt
  cases henc
  rw [decodeDomainEvent_of_parses crates_parses_null rfl]
  rfl

theorem door_executesSurviving (a : WorldAction Unit fun _ => door) :
    ExecutesSurviving crates () a :=
  executesSurviving_of_eventsSurvive (A := fun _ => door) (i := ())
    door_eventsSurvive a

theorem pair_names_prefix_exactly_opened_door :
    ∃ w, runActions (step crates firstId) (emptyWorld door) (executing [(), ()]) = some w ∧
      ∀ l, (w.slots ()).pair? = some l →
        match l.streamVersion with
        | none => l.state = (0 : Nat) ∧ (w.slots ()).seen = []
        | some v => v < (w.server.streams (streamOf crates (fun _ => door) firstId ())).length ∧
            l.state = (((w.server.streams (streamOf crates (fun _ => door) firstId ())).take
              (v + 1)).filterMap (decodeDomainEvent crates door)).foldl door.apply (0 : Nat) :=
  ⟨_, rfl, (pair_names_prefix_exactly (emptyWorld_fresh door) ()
    (Reaches.run .start _ (allOk_of_mem (executing_spawnsGood [(), ()]) _) rfl)
    door_eventsSurvive).1⟩

theorem execute_is_serialised_opened_door :
    ∃ w, runActions (step crates firstId) (emptyWorld door) (executing [(), ()]) = some w ∧
      ∃ commits, ExecuteSpec crates door (streamOf crates (fun _ => door) firstId ()) "m-1"
        () .default commits w.server (.ok [()]) :=
  ⟨_, rfl, _, execute_is_serialised (emptyWorld_fresh door) ()
    (Reaches.run .start _ (allOk_of_mem (fun a ha w =>
      ⟨executing_spawnsGood [(), ()] a ha w, door_executesSurviving a⟩) _) rfl)
    () .default (fun _ _ => 7) _ _ (List.mem_cons_of_mem _ List.mem_cons_self)⟩

/-- `Marked(())` is appended, but no replay sees it: the next command is then
decided at a state that is not the replay of the prefix before its block. -/
theorem open_not_decided_at_replay :
    ∃ w, Reaches (step crates firstId) (SpawnsGood crates firstId ())
        (emptyWorld marker) w ∧
      ∃ commits, (⟨(), .execute .open .default fun _ _ => 7, commits,
          .execute (.ok [.opened])⟩ : Σ _ : Unit, Completed marker) ∈ w.history ∧
        ¬ ExecuteSpec crates marker (streamOf crates (fun _ => marker) firstId ()) "m-1"
          .open .default commits w.server (.ok [.opened]) := by
  refine ⟨_, Reaches.run .start (executing [.mark, .open])
    (allOk_of_mem (executing_spawnsGood _) _) rfl, _,
    List.mem_cons_of_mem _ List.mem_cons_self, ?_⟩
  rintro ⟨c, hcommits, hc⟩
  cases hcommits
  have hpre : marker.handle (replayEvents crates marker [recordEvent crates
      (streamOf crates (fun _ => marker) firstId ()) 0 0 0
      (toProtoEvent crates ⟨7, "Marked", .null, "marker", "m-1", none, none, none⟩)])
      .open = .ok [.opened] := hc.decided
  have hmarked : decodeDomainEvent crates marker (recordEvent crates
      (streamOf crates (fun _ => marker) firstId ()) 0 0 0
      (toProtoEvent crates ⟨7, "Marked", .null, "marker", "m-1", none, none, none⟩)) =
        none := by
    rw [decodeDomainEvent_of_parses crates_parses_null rfl]
    rfl
  rw [replayEvents, replay_cons, replay_nil, absorb_of_undecodable hmarked] at hpre
  cases hpre

end ActorRunsWitness

end EventfoldEs
