/-
What the pair of an actor means: its state is the replay of exactly the stream
prefix its version names.  Each function of the actor keeps this at every
await, whatever others append to the stream meanwhile.
-/
import EventfoldEs.Actor
import Mathlib.Data.List.Induction

namespace EventfoldEs

open Async Replay

variable {C : Crates} {A : Aggregate}

/-- The state that replaying records from the default state gives. -/
abbrev replayEvents (C : Crates) (A : Aggregate) (rs : List RecordedEvent) :
    A.State :=
  replay (decodeDomainEvent C A) A.apply A.default rs

theorem replayEvents_append (older newer : List RecordedEvent) :
    replayEvents C A (older ++ newer) =
      replay (decodeDomainEvent C A) A.apply (replayEvents C A older) newer :=
  replay_append A.default older newer

/-- The pair names an exact prefix of the stream. -/
structure ExactPrefix (C : Crates) (l : ActorLocals A)
    (stream : List RecordedEvent) : Prop where
  bounded : l.fromVersion ≤ stream.length
  folded : l.state = replayEvents C A (stream.take l.fromVersion)

/-- A snapshot that equals the replay of the prefix it names. -/
def Snapshot.Good (C : Crates) (snap : Snapshot A.State)
    (stream : List RecordedEvent) : Prop :=
  snap.streamVersion < stream.length ∧
    snap.state = replayEvents C A (stream.take (snap.streamVersion + 1))

theorem ExactPrefix.mono {l : ActorLocals A} {older newer : List RecordedEvent}
    (hl : ExactPrefix C l older) (hpre : older <+: newer) :
    ExactPrefix C l newer := by
  obtain ⟨added, rfl⟩ := hpre
  constructor
  · rw [List.length_append]
    exact Nat.le_add_right_of_le hl.bounded
  · rw [List.take_append_of_le_length hl.bounded]
    exact hl.folded

namespace ActorLocals

@[simp] theorem foldEvents_nil (l : ActorLocals A) : l.foldEvents C [] = l := rfl

theorem foldEvents_concat (l : ActorLocals A) (events : List RecordedEvent)
    (ev : RecordedEvent) :
    l.foldEvents C (events ++ [ev]) =
      { state := absorb (decodeDomainEvent C A) A.apply
          (l.foldEvents C events).state ev
        streamVersion := some ev.streamVersion } := by
  simp [foldEvents, List.foldl_append]

theorem foldEvents_state (l : ActorLocals A) (events : List RecordedEvent) :
    (l.foldEvents C events).state =
      replay (decodeDomainEvent C A) A.apply l.state events := by
  induction events using List.reverseRecOn with
  | nil => rfl
  | append_singleton events ev ih => rw [foldEvents_concat, ih, replay_concat]

/-- An expected version made from the pair is accepted exactly by a stream
that ends where the pair does. -/
theorem expected_accepts_iff (l : ActorLocals A) (n : Nat) :
    l.expected.accepts n = true ↔ l.fromVersion = n := by
  unfold expected fromVersion
  cases l.streamVersion with
  | none =>
      simp only [ExpectedVersionArg.accepts, beq_iff_eq]
      exact eq_comm
  | some v =>
      simp only [ExpectedVersionArg.accepts, beq_iff_eq]
      exact eq_comm

theorem fromVersion_eq_zero_iff (l : ActorLocals A) :
    l.fromVersion = 0 ↔ l.streamVersion = none := by
  unfold fromVersion
  cases l.streamVersion <;> simp

end ActorLocals

/-- A read of everything that is newer brings an exact prefix to the end of
the stream. -/
theorem ExactPrefix.catchUp {l : ActorLocals A} {stream : List RecordedEvent}
    (hstream : Versioned 0 stream) (hl : ExactPrefix C l stream) :
    (l.foldEvents C (stream.drop l.fromVersion)).fromVersion = stream.length ∧
      ExactPrefix C (l.foldEvents C (stream.drop l.fromVersion)) stream := by
  have hend : (l.foldEvents C (stream.drop l.fromVersion)).fromVersion =
      stream.length := by
    rcases List.eq_nil_or_concat (stream.drop l.fromVersion) with hnil | ⟨init, last, hlast⟩
    · rw [hnil, ActorLocals.foldEvents_nil]
      exact Nat.le_antisymm hl.bounded (List.drop_eq_nil_iff.mp hnil)
    · rw [List.concat_eq_append] at hlast
      have hsplit : stream = stream.take l.fromVersion ++ init ++ [last] := by
        rw [List.append_assoc, ← hlast, List.take_append_drop]
      have hversion := hstream.last (r := last) (by rw [hsplit]; simp)
      rw [hlast, ActorLocals.foldEvents_concat]
      change last.streamVersion + 1 = stream.length
      omega
  refine ⟨hend, Nat.le_of_eq hend, ?_⟩
  rw [hend, List.take_length, ActorLocals.foldEvents_state, hl.folded,
    ← replay_append, List.take_append_drop]

theorem startLocals_exactPrefix {snapshot : Option (Snapshot A.State)}
    {stream : List RecordedEvent}
    (hgood : ∀ snap ∈ snapshot, snap.Good C stream) :
    ExactPrefix C (startLocals A snapshot) stream := by
  cases snapshot with
  | none => exact ⟨Nat.zero_le _, rfl⟩
  | some snap =>
      obtain ⟨hlt, hstate⟩ := hgood snap rfl
      exact ⟨hlt, hstate⟩

/-- A snapshot from which every later spawn reaches the pair that a spawn
without a snapshot reaches. -/
def Snapshot.Transparent (C : Crates) (snap : Snapshot A.State)
    (stream : List RecordedEvent) : Prop :=
  ∀ later, stream <+: later → Versioned 0 later →
    (startLocals A (some snap)).foldEvents C (later.drop (snap.streamVersion + 1)) =
      (startLocals A none).foldEvents C later

theorem Snapshot.Transparent.mono {snap : Snapshot A.State}
    {older newer : List RecordedEvent} (hsnap : snap.Transparent C older)
    (hpre : older <+: newer) : snap.Transparent C newer :=
  fun later hlater => hsnap later (hpre.trans hlater)

/-- Pairs that name the same prefix of a stream are the same. -/
theorem ExactPrefix.unique {l l' : ActorLocals A} {stream : List RecordedEvent}
    (hl : ExactPrefix C l stream) (hl' : ExactPrefix C l' stream)
    (hfrom : l.fromVersion = l'.fromVersion) : l = l' := by
  have hstate : l.state = l'.state := by
    rw [hl.folded, hl'.folded, hfrom]
  have hversion : l.streamVersion = l'.streamVersion := by
    unfold ActorLocals.fromVersion at hfrom
    cases hv : l.streamVersion <;> cases hv' : l'.streamVersion <;>
      simp_all
  exact ActorLocals.ext hstate hversion

theorem Snapshot.Good.transparent {snap : Snapshot A.State}
    {stream : List RecordedEvent} (hgood : snap.Good C stream) :
    snap.Transparent C stream := by
  intro later hpre hlater
  have hstart : ExactPrefix C (startLocals A (some snap)) later := by
    refine (startLocals_exactPrefix ?_).mono hpre
    rintro _ ⟨⟩
    exact hgood
  have hnone : ExactPrefix C (startLocals A none) later :=
    startLocals_exactPrefix (by rintro _ ⟨⟩)
  obtain ⟨hend, hexact⟩ := hstart.catchUp hlater
  obtain ⟨hend', hexact'⟩ := hnone.catchUp hlater
  exact hexact.unique hexact' (hend.trans hend'.symm)

/-- Whatever transparent snapshot a spawn loads, its catch-up ends in the pair
of a full replay. -/
theorem startLocals_foldEvents {snapshot : Option (Snapshot A.State)}
    {stream : List RecordedEvent}
    (hload : ∀ snap ∈ snapshot, snap.Transparent C stream)
    (hstream : Versioned 0 stream) :
    (startLocals A snapshot).foldEvents C
        (stream.drop (startLocals A snapshot).fromVersion) =
      (startLocals A none).foldEvents C stream := by
  cases snapshot with
  | none => rfl
  | some snap => exact hload snap rfl stream List.prefix_rfl hstream

/-- The event is decoded from its record again, if it is encoded at all. -/
def Aggregate.Survives (C : Crates) (A : Aggregate) (e : A.DomainEvent) : Prop :=
  ∀ newV4 ctx aggregateType instanceId p,
    encodeDomainEvent A newV4 e ctx aggregateType instanceId = .ok p →
    ∀ streamId version position recordedAt,
      decodeDomainEvent C A (recordEvent C streamId version position recordedAt
        (toProtoEvent C p)) = some e

def Aggregate.EventsSurvive (C : Crates) (A : Aggregate) : Prop :=
  ∀ e, A.Survives C e

/-- Whatever the command decides, in whatever state, survives. -/
def Aggregate.DecidesSurviving (C : Crates) (A : Aggregate) (cmd : A.Command) :
    Prop :=
  ∀ state events, A.handle state cmd = .ok events → ∀ e ∈ events, A.Survives C e

theorem encodeEvents_cons_eq_ok {newV4 : Nat → Uuid} {ctx : CommandContext}
    {instanceId : String} {k : Nat} {e : A.DomainEvent}
    {rest : List A.DomainEvent} {ps : List ProposedEventData}
    (henc : encodeEvents A newV4 ctx instanceId k (e :: rest) = .ok ps) :
    ∃ p ps', encodeDomainEvent A (newV4 k) e ctx A.aggregateType instanceId = .ok p ∧
      encodeEvents A newV4 ctx instanceId (k + 1) rest = .ok ps' ∧
      ps = p :: ps' := by
  simp only [encodeEvents, bind, Except.bind] at henc
  split at henc
  · cases henc
  · rename_i p hp
    split at henc
    · cases henc
    · rename_i ps' hps'
      exact ⟨p, ps', hp, hps', (Except.ok.inj henc).symm⟩

theorem encodeEvents_length {newV4 : Nat → Uuid} {ctx : CommandContext}
    {instanceId : String} {k : Nat} {events : List A.DomainEvent}
    {ps : List ProposedEventData}
    (henc : encodeEvents A newV4 ctx instanceId k events = .ok ps) :
    ps.length = events.length := by
  induction events generalizing k ps with
  | nil =>
      cases henc
      rfl
  | cons e rest ih =>
      obtain ⟨p, ps', -, hrest, rfl⟩ := encodeEvents_cons_eq_ok henc
      simp [ih hrest]

/-- Replaying the block of an append is applying the appended events. -/
theorem replay_recordBlock {newV4 : Nat → Uuid}
    {ctx : CommandContext} {instanceId : String} {k : Nat}
    {events : List A.DomainEvent} {ps : List ProposedEventData}
    (hsurvive : ∀ e ∈ events, A.Survives C e)
    (henc : encodeEvents A newV4 ctx instanceId k events = .ok ps)
    (id : Uuid) (version position recordedAt : Nat) (s : A.State) :
    replay (decodeDomainEvent C A) A.apply s
      (recordBlock C id version position recordedAt (ps.map (toProtoEvent C))) =
        events.foldl A.apply s := by
  induction events generalizing k ps version position s with
  | nil =>
      cases henc
      rfl
  | cons e rest ih =>
      obtain ⟨p, ps', hp, hrest, rfl⟩ := encodeEvents_cons_eq_ok henc
      have hhead := hsurvive e (by simp) (newV4 k) ctx A.aggregateType instanceId p
        hp id version position recordedAt
      simp only [List.map_cons, recordBlock, replay_cons,
        absorb_of_decodes hhead, List.foldl_cons]
      exact ih (fun e' he' => hsurvive e' (List.mem_cons_of_mem _ he')) hrest
        (version + 1) (position + 1) (A.apply s e)

/-- The three ways an append comes out. -/
theorem serve_append_cases {id : Uuid} {expected : ExpectedVersionArg}
    {events : List ProposedEventData} {answer : Answer} {s s' : Server}
    {trail trail' : Trail} {r : Except Status AppendResponse}
    (hserve : (StoreOp.append id expected events).serve C answer (s, trail) =
      some (r, (s', trail'))) :
    (∃ resp recordedAt, r = .ok resp ∧
      expected.accepts (s.streams id).length = true ∧
      resp.lastStreamVersion = (s.streams id).length + events.length - 1 ∧
      s' = s.commit C id (events.map (toProtoEvent C)) recordedAt ∧
      trail' = ⟨trail.commits ++ [⟨(s.streams id).length,
          s.block C id (events.map (toProtoEvent C)) recordedAt⟩],
        trail.seen ++ shownByAppend expected
          (s.block C id (events.map (toProtoEvent C)) recordedAt)⟩) ∨
    (∃ status, r = .error status ∧ status.code = .failedPrecondition ∧
      expected.accepts (s.streams id).length = false ∧
      s' = s ∧ trail' = trail) ∨
    (∃ status, r = .error status ∧ status.code ≠ .failedPrecondition ∧
      (s' = s ∧ trail' = trail ∨
        ∃ recordedAt, expected.accepts (s.streams id).length = true ∧
          s' = s.commit C id (events.map (toProtoEvent C)) recordedAt ∧
          trail' = ⟨trail.commits ++ [⟨(s.streams id).length,
            s.block C id (events.map (toProtoEvent C)) recordedAt⟩],
            trail.seen⟩)) := by
  cases haccepts : expected.accepts (s.streams id).length with
  | false =>
      cases answer with
      | server recordedAt =>
          simp only [StoreOp.serve, Server.append, haccepts,
            Bool.false_eq_true, ↓reduceIte, Option.some.injEq, Prod.mk.injEq] at hserve
          obtain ⟨rfl, rfl, rfl⟩ := hserve
          exact Or.inr (Or.inl ⟨_, rfl, rfl, rfl, rfl, rfl⟩)
      | fault status committed recordedAt =>
          simp only [StoreOp.serve, Server.append, haccepts,
            Bool.false_eq_true, ↓reduceIte] at hserve
          split at hserve
          · cases hserve
          · rename_i hcode
            split at hserve
            · cases hserve
            · simp only [Option.some.injEq, Prod.mk.injEq] at hserve
              obtain ⟨rfl, rfl, rfl⟩ := hserve
              exact Or.inr (Or.inr ⟨status, rfl, hcode, Or.inl ⟨rfl, rfl⟩⟩)
  | true =>
      cases answer with
      | server recordedAt =>
          simp only [StoreOp.serve, Server.append, haccepts, ↓reduceIte,
            List.length_map, Option.some.injEq, Prod.mk.injEq] at hserve
          obtain ⟨rfl, rfl, rfl⟩ := hserve
          exact Or.inl ⟨_, recordedAt, rfl, rfl, rfl, rfl, rfl⟩
      | fault status committed recordedAt =>
          simp only [StoreOp.serve, Server.append, haccepts, ↓reduceIte] at hserve
          split at hserve
          · cases hserve
          · rename_i hcode
            split at hserve
            · simp only [Option.some.injEq, Prod.mk.injEq] at hserve
              obtain ⟨rfl, rfl, rfl⟩ := hserve
              exact Or.inr (Or.inr ⟨status, rfl, hcode,
                Or.inr ⟨recordedAt, rfl, rfl, rfl⟩⟩)
            · simp only [Option.some.injEq, Prod.mk.injEq] at hserve
              obtain ⟨rfl, rfl, rfl⟩ := hserve
              exact Or.inr (Or.inr ⟨status, rfl, hcode, Or.inl ⟨rfl, rfl⟩⟩)

/-- A read of everything from `n` on returns exactly the newer part. -/
theorem clientReadStream_all {s : Server} (hs : s.WellFormed) (id : Uuid) (n : Nat) :
    clientReadStream (s.readStream id n u64Max) = .ok ((s.streams id).drop n) := by
  have hnewer := Server.filter_newer hs id n
  by_cases hempty : (s.streams id).isEmpty = true
  · rw [List.isEmpty_iff] at hempty
    simp [Server.readStream, clientReadStream, hempty]
  · simp [Server.readStream, clientReadStream, hempty, hnewer]

theorem serve_readStream_cases {id : Uuid} {n : Nat} {answer : Answer}
    {s s' : Server} (hs : s.WellFormed) {trail trail' : Trail}
    {r : Except Status (List RecordedEvent)}
    (hserve : (StoreOp.readStream id n u64Max).serve C answer (s, trail) =
      some (r, (s', trail'))) :
    s' = s ∧
      (r = .ok ((s.streams id).drop n) ∧
          trail' = ⟨trail.commits, trail.seen ++ (s.streams id).drop n⟩ ∨
        ∃ status, r = .error status ∧ trail' = trail) := by
  cases answer with
  | server recordedAt =>
      simp only [StoreOp.serve, clientReadStream_all hs, Option.some.injEq,
        Prod.mk.injEq] at hserve
      obtain ⟨rfl, rfl, rfl⟩ := hserve
      exact ⟨rfl, Or.inl ⟨rfl, rfl⟩⟩
  | fault status committed recordedAt =>
      simp only [StoreOp.serve] at hserve
      split at hserve
      · cases hserve
      · simp only [Option.some.injEq, Prod.mk.injEq] at hserve
        obtain ⟨rfl, rfl, rfl⟩ := hserve
        exact ⟨rfl, Or.inr ⟨status, rfl, rfl⟩⟩

/-- The pair names an exact prefix, and has no version only if the actor was
shown nothing yet. -/
structure Named (C : Crates) (id : Uuid) (l : ActorLocals A)
    (x : Server × Trail) : Prop where
  exact : ExactPrefix C l (x.1.streams id)
  unseen : l.streamVersion = none → x.2.seen = []

/-- The terms of an actor: others only ever extend the streams. -/
def actorTerms (C : Crates) (A : Aggregate) (id : Uuid) :
    Terms (ActorLocals A) StoreOp StoreOp.Res (Server × Trail) where
  rely x y := x.1.Extends y.1 ∧ y.1.WellFormed ∧ y.2 = x.2
  serves op x r y := ∃ answer, op.serve C answer x = some (r, y)
  guarantee _ _ x y := x.1.Extends y.1 ∧ y.1.WellFormed
  during l x := Named C id l x
  rely_trans := by
    rintro s t v ⟨hst, -, hts⟩ ⟨htv, hv, hvt⟩
    exact ⟨hst.trans htv, hv, hvt.trans hts⟩
  during_stable := by
    rintro l s t hl ⟨hst, -, hts⟩
    exact ⟨hl.exact.mono (hst id), fun hnone => hts ▸ hl.unseen hnone⟩

/-- The terms of a spawn, which shows its pair to nobody before it is done. -/
def spawnTerms (C : Crates) (A : Aggregate) (id : Uuid) :
    Terms (ActorLocals A) StoreOp StoreOp.Res (Server × Trail) where
  rely := (actorTerms C A id).rely
  serves := (actorTerms C A id).serves
  guarantee := (actorTerms C A id).guarantee
  during _ _ := True
  rely_trans := (actorTerms C A id).rely_trans
  during_stable _ _ := trivial

theorem Named.stable {id : Uuid} {l : ActorLocals A} {x y : Server × Trail}
    (hl : Named C id l x) (hrely : (actorTerms C A id).rely x y) :
    Named C id l y :=
  (actorTerms C A id).during_stable hl hrely

/-- A re-read keeps the pair named, and brings it to the end of the stream. -/
theorem Named.reread {id : Uuid} {l : ActorLocals A} {s : Server}
    (hs : s.WellFormed) {trail : Trail} (hl : Named C id l (s, trail)) :
    Named C id (l.foldEvents C ((s.streams id).drop l.fromVersion))
      (s, ⟨trail.commits, trail.seen ++ (s.streams id).drop l.fromVersion⟩) := by
  obtain ⟨hend, hexact⟩ := hl.exact.catchUp (hs id)
  refine ⟨hexact, fun hnone => ?_⟩
  rw [← ActorLocals.fromVersion_eq_zero_iff, hend, List.length_eq_zero_iff] at hnone
  have hl0 : l.streamVersion = none := by
    rw [← ActorLocals.fromVersion_eq_zero_iff]
    have := hl.exact.bounded
    simp only [hnone, List.length_nil] at this
    omega
  simp only [hnone, List.drop_nil, List.append_nil]
  exact hl.unseen hl0

end EventfoldEs
