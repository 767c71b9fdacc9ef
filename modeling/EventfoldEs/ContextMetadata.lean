/-
The context of a command on its way to projections and process managers: over a handle
or in a dispatched envelope, stamped on the events, and read from their records.
-/
import EventfoldEs.Dispatching
import EventfoldEs.StoredCodec

namespace EventfoldEs

open Async

variable {C : Crates} {A : Aggregate} {instanceId : String}

/-- The two ways of a command, with its context, to the actor of an instance. -/
inductive Route (A : Aggregate)
  | execute (ctx : CommandContext)
  | dispatch (readCommand : Value → Except String A.Command) (newV4 : Nat → Nat → Uuid)
      (envelope : CommandEnvelope)

def Route.context : Route A → CommandContext
  | .execute ctx => ctx
  | .dispatch _ _ envelope => envelope.context

/-- The message executes a command under the context. -/
def ActorMessage.Under (ctx : CommandContext) : ActorMessage A → Prop
  | .execute _ under _ => under = ctx
  | _ => False

/-- What the user does, it does on the route. -/
def Route.Takes (u : Nat) : Route A → InstanceAction A → Prop
  | .execute ctx, .get v errand => v = u → ∀ msg ∈ errand, msg.Under ctx
  | .execute ctx, .call v _ msg => v = u → msg.Under ctx
  | .execute _, _ => True
  | .dispatch readCommand newV4 envelope, a =>
      Instance.Dispatches readCommand newV4 envelope u a

/-- The actor that executes the command of the user asks the store to append the
event. -/
def Instance.Asks (w : Instance A) (u : Nat) (p : ProposedEventData) : Prop :=
  ∃ n l id expected events resume,
    (w.actors n).task = .handling u (.await l (.append id expected events) resume) ∧
      p ∈ events

/-- What a projection or a process manager receives for the event, wherever the server
has put it. -/
def StoredEvent.Of (C : Crates) (p : ProposedEventData) (stored : StoredEvent) : Prop :=
  ∃ streamId version position recordedAt,
    decodeStoredEvent C (recordEvent C streamId version position recordedAt
      (toProtoEvent C p)) = some stored

/-- Every field that is set is found in the metadata of an event, under its name. -/
structure CommandContext.ReadBack (ctx : CommandContext) (found : Value) : Prop where
  actor : ∀ s, ctx.actor = some s → found.get "actor" = some (.string s)
  correlationId : ∀ s, ctx.correlationId = some s →
    found.get "correlation_id" = some (.string s)
  metadata : ∀ v, ctx.metadata = some v → found.get "metadata" = some v
  sourceDevice : ∀ s, ctx.sourceDevice = some s →
    found.get "source_device" = some (.string s)

/-- What is stamped on every event of a command under the context. -/
def CommandContext.stamp (ctx : CommandContext) (aggregateType instanceId : String) :
    EventMetadata :=
  ⟨aggregateType, instanceId, ctx.actor, ctx.correlationId, ctx.sourceDevice⟩

/-- An append carries nothing but events with this metadata. -/
def StoreOp.Stamps (metadata : EventMetadata) : StoreOp → Prop
  | .append _ _ events => ∀ p ∈ events, p.metadata = metadata
  | _ => True

theorem encodeEvents_stamp {newV4 : Nat → Uuid} {ctx : CommandContext} {k : Nat}
    {events : List A.DomainEvent} {ps : List ProposedEventData}
    (henc : encodeEvents A newV4 ctx instanceId k events = .ok ps) :
    ∀ p ∈ ps, p.metadata = ctx.stamp A.aggregateType instanceId := by
  induction events generalizing k ps with
  | nil =>
      cases henc
      exact fun p hp => by cases hp
  | cons e rest ih =>
      obtain ⟨p, ps', hp, hps', rfl⟩ := encodeEvents_cons_eq_ok henc
      obtain ⟨obj, -, -, -, -, hstamped⟩ := encodeDomainEvent_eq_ok hp
      intro q hq
      rcases List.mem_cons.mp hq with rfl | hq
      · exact hstamped
      · exact ih hps' q hq

theorem executeWithRetry_stamps (id : Uuid) (newV4 : Nat → Nat → Uuid)
    (cmd : A.Command) (ctx : CommandContext) (attempts : Nat) (l : ActorLocals A) :
    (executeWithRetry C id instanceId newV4 cmd ctx attempts l).Only
      (StoreOp.Stamps (ctx.stamp A.aggregateType instanceId)) :=
  executeWithRetry_only C (fun _ _ _ _ henc => encodeEvents_stamp henc) (fun _ => trivial)
    trivial attempts l

theorem onMessage_stamps {id : Uuid} {ctx : CommandContext} {msg : ActorMessage A}
    (hunder : msg.Under ctx) (l : ActorLocals A) :
    (onMessage C id instanceId l msg).Only
      (StoreOp.Stamps (ctx.stamp A.aggregateType instanceId)) := by
  cases msg with
  | execute cmd under newV4 =>
      cases hunder
      exact (executeWithRetry_stamps id newV4 cmd ctx maxRetries l).bind fun _ => trivial
  | getState => exact hunder.elim
  | inject proposed => exact hunder.elim

/-- A call on a handle is what the user carries from then on. -/
theorem Instance.Stepped.called_message {w w' : Instance A} {u n : Nat}
    {msg : ActorMessage A} (hstep : Stepped C instanceId w (.call u n msg) w') :
    (w'.users u).message = some msg := by
  cases hstep with
  | passed hpasses =>
      cases hpasses with
      | called huser hspawned =>
          rw [Instance.setUser_users_self]
          rfl

/-- What the user carries is a command under the context of its route. -/
theorem under_of_reaches {w₀ w : Instance A} (hunused : w₀.Unused) {u : Nat}
    {route : Route A}
    (hreach : Reaches (Instance.step C instanceId) (fun _ a => route.Takes u a) w₀ w) :
    ∀ msg ∈ (w.users u).message, msg.Under route.context := by
  induction hreach with
  | start =>
      intro msg hmsg
      rw [hunused.idle u] at hmsg
      cases hmsg
  | next hprior hok hstep ih =>
      have hstepped := Instance.stepped_of_step hstep
      intro msg hmsg
      rcases hstepped.message u with hsame | hnone | hget | ⟨n, msg', hcall⟩
      · exact ih msg (hsame ▸ hmsg)
      · rw [hnone] at hmsg
        cases hmsg
      · rw [hget] at hok
        cases route with
        | execute ctx => exact hok rfl msg hmsg
        | dispatch readCommand newV4 envelope =>
            obtain ⟨cmd, -, herrand⟩ := hok rfl
            rw [herrand] at hmsg
            cases hmsg
            rfl
      · subst hcall
        cases route with
        | execute ctx =>
            rw [hstepped.called_message] at hmsg
            cases hmsg
            exact hok rfl
        | dispatch readCommand newV4 envelope => exact absurd rfl hok

/-- An event that the store is asked to append for a user is stamped with the context of
its route. -/
theorem stamp_of_asked {w₀ w : Instance A} (hunused : w₀.Unused) {u : Nat}
    {route : Route A}
    (hreach : Reaches (Instance.step C instanceId) (fun _ a => route.Takes u a) w₀ w)
    {p : ProposedEventData} (hasked : w.Asks u p) :
    p.metadata = route.context.stamp A.aggregateType instanceId := by
  obtain ⟨n, l, id, expected, events, resume, htask, hp⟩ := hasked
  obtain ⟨-, msg, l₀, hwaiting, hcomes⟩ :=
    (Instance.sound_of_reaches hunused hreach).1.handled n u _ (by rw [htask]; rfl)
  have hunder : msg.Under route.context :=
    under_of_reaches hunused hreach msg (by rw [hwaiting]; rfl)
  exact ((onMessage_stamps hunder l₀).of_comes hcomes).1 p hp

/-- What is read is the metadata that was stamped. -/
theorem StoredEvent.Of.metadata {p : ProposedEventData} {stored : StoredEvent}
    (hstored : StoredEvent.Of C p stored) (hprints : C.Parses p.metadata.toValue) :
    stored.metadata = p.metadata.toValue := by
  obtain ⟨streamId, version, position, recordedAt, hdecode⟩ := hstored
  obtain ⟨text, hprint, -, hread⟩ := hprints
  simp only [decodeStoredEvent, recordEvent, toProtoEvent, hprint, Option.getD_some,
    utf8_bytes_decode, hread, bind, Option.bind_some, Option.bind_eq_some_iff] at hdecode
  obtain ⟨_, -, _, -, _, -, _, -, hpayload⟩ := hdecode
  split at hpayload
  · cases hpayload
    rfl
  · obtain ⟨payload, -, hout⟩ := Option.bind_eq_some_iff.mp hpayload
    cases hout
    rfl

theorem CommandContext.stamp_showsEntries (ctx : CommandContext)
    (aggregateType instanceId : String) :
    ShowsEntries (metadataEntry ctx aggregateType instanceId)
      (ctx.stamp aggregateType instanceId).toValue :=
  EventMetadata.toValue_showsEntries ctx aggregateType instanceId

theorem ShowsEntries.get {entry : String → Option String} {metadata : Value}
    (hshows : ShowsEntries entry metadata) (key : String) :
    metadata.get key = (entry key).map .string := by
  obtain ⟨fields, rfl, -, hlookup⟩ := hshows
  exact hlookup key

/-- Contexts that are stamped alike agree in all but what they set as `metadata`. -/
theorem eq_of_stamp_toValue_eq {ctx ctx' : CommandContext}
    {aggregateType instanceId : String}
    (hsame : (ctx.stamp aggregateType instanceId).toValue =
      (ctx'.stamp aggregateType instanceId).toValue)
    (hmetadata : ctx.metadata = ctx'.metadata) : ctx = ctx' := by
  have hshows := ctx.stamp_showsEntries aggregateType instanceId
  have hshows' := ctx'.stamp_showsEntries aggregateType instanceId
  have hentry : ∀ key, metadataEntry ctx aggregateType instanceId key =
      metadataEntry ctx' aggregateType instanceId key := by
    intro key
    have hget := hshows.get key
    rw [hsame, hshows'.get key] at hget
    exact Option.map_injective (fun _ _ h => Value.string.inj h) hget.symm
  have hactor : ctx.actor = ctx'.actor := hentry "actor"
  have hcorrelation : ctx.correlationId = ctx'.correlationId := hentry "correlation_id"
  have hdevice : ctx.sourceDevice = ctx'.sourceDevice := hentry "source_device"
  cases ctx
  cases ctx'
  simp_all

/-- A stamp shows everything that a context has set exactly if that is no `metadata`. -/
theorem readBack_stamp_iff (ctx : CommandContext) (aggregateType instanceId : String) :
    ctx.ReadBack (ctx.stamp aggregateType instanceId).toValue ↔ ctx.metadata = none := by
  have hshows := ctx.stamp_showsEntries aggregateType instanceId
  constructor
  · intro hread
    cases hset : ctx.metadata with
    | none => rfl
    | some v =>
        have hget := (hshows.get "metadata").symm.trans (hread.metadata v hset)
        cases hget
  · intro hunset
    refine ⟨fun s hs => ?_, fun s hs => ?_, fun v hv => ?_, fun s hs => ?_⟩
    · refine (hshows.get "actor").trans ?_
      change ctx.actor.map Value.string = some (.string s)
      rw [hs]
      rfl
    · refine (hshows.get "correlation_id").trans ?_
      change ctx.correlationId.map Value.string = some (.string s)
      rw [hs]
      rfl
    · rw [hunset] at hv
      cases hv
    · refine (hshows.get "source_device").trans ?_
      change ctx.sourceDevice.map Value.string = some (.string s)
      rw [hs]
      rfl

/-- The contexts of two commands of an instance are told apart by the metadata of their
events, and read back from it, exactly if neither sets `metadata`. -/
theorem context_reaches_metadata_iff {w₀ w₀' w w' : Instance A} (hunused : w₀.Unused)
    (hunused' : w₀'.Unused) {u u' : Nat} {route route' : Route A}
    (hreach : Reaches (Instance.step C instanceId) (fun _ a => route.Takes u a) w₀ w)
    (hreach' : Reaches (Instance.step C instanceId) (fun _ a => route'.Takes u' a) w₀' w')
    {p p' : ProposedEventData} (hasked : w.Asks u p) (hasked' : w'.Asks u' p')
    {stored stored' : StoredEvent} (hstored : StoredEvent.Of C p stored)
    (hstored' : StoredEvent.Of C p' stored') (hprints : C.Parses p.metadata.toValue)
    (hprints' : C.Parses p'.metadata.toValue) :
    ((route.context ≠ route'.context → stored.metadata ≠ stored'.metadata) ∧
      route.context.ReadBack stored.metadata ∧
      route'.context.ReadBack stored'.metadata) ↔
      route.context.metadata = none ∧ route'.context.metadata = none := by
  have hfound : stored.metadata = (route.context.stamp A.aggregateType instanceId).toValue := by
    rw [hstored.metadata hprints, stamp_of_asked hunused hreach hasked]
  have hfound' : stored'.metadata =
      (route'.context.stamp A.aggregateType instanceId).toValue := by
    rw [hstored'.metadata hprints', stamp_of_asked hunused' hreach' hasked']
  rw [hfound, hfound', readBack_stamp_iff, readBack_stamp_iff]
  constructor
  · exact fun hkept => hkept.2
  · intro hunset
    refine ⟨fun hne hsame => hne ?_, hunset⟩
    exact eq_of_stamp_toValue_eq hsame (hunset.1.trans hunset.2.symm)

namespace ContextMetadataWitness

open EventCodecWitness StoredCodecWitness ActorCacheWitness

def unusedMarker : Instance marker := {
  cache := none
  spawned := 0
  actors := fun _ => ⟨.unborn, []⟩
  users := fun _ => .idle
  disk := none
  received := []
  appends := [] }

theorem unusedMarker_unused : unusedMarker.Unused :=
  ⟨rfl, fun _ => rfl, fun _ => rfl, rfl, rfl, rfl⟩

/-- The command is read from `null`. -/
def readMark : Value → Except String marker.Command
  | .null => .ok .mark
  | _ => .error "unknown variant"

def sevens : Nat → Nat → Uuid := fun _ _ => 7

/-- The context that also sets `metadata`. -/
def byUserOfApi : CommandContext := { byUser with metadata := some (.string "api") }

def marking (ctx : CommandContext) : Route marker :=
  .dispatch readMark sevens ⟨"marker", "m-1", .null, ctx⟩

def contextStep := Instance.step StoredCodecWitness.crates "m-1" (A := marker)

/-- A command under the context comes to the point where its event is appended. -/
def appending (ctx : CommandContext) : List (InstanceAction marker) :=
  [.get 0 (some (.execute .mark ctx sevens)), .evict 0, .load 0 none,
    .serveSpawn 0 emptyStoreAnswers, .spawned 0, .insert 0, .errand 0, .send 0,
    .receive 0]

theorem appending_executes (ctx : CommandContext) :
    ∀ a ∈ appending ctx, (Route.execute ctx).Takes 0 a := by
  intro a ha
  simp only [appending, List.mem_cons, List.not_mem_nil, or_false] at ha
  rcases ha with rfl | rfl | rfl | rfl | rfl | rfl | rfl | rfl | rfl
  · intro _ msg hmsg
    cases hmsg
    rfl
  all_goals trivial

theorem appending_dispatches (ctx : CommandContext) :
    ∀ a ∈ appending ctx, (marking ctx).Takes 0 a := by
  intro a ha
  simp only [appending, List.mem_cons, List.not_mem_nil, or_false] at ha
  rcases ha with rfl | rfl | rfl | rfl | rfl | rfl | rfl | rfl | rfl
  · exact fun _ => ⟨.mark, rfl, rfl⟩
  all_goals trivial

def marked (ctx : CommandContext) : ProposedEventData :=
  ⟨7, "Marked", .null, ctx.stamp "marker" "m-1"⟩

theorem appending_asks (ctx : CommandContext) :
    ∃ w, runActions contextStep unusedMarker (appending ctx) = some w ∧
      w.Asks 0 (marked ctx) :=
  ⟨_, rfl, 0, _, _, _, _, _, rfl, List.mem_singleton_self _⟩

/-- The event as a projection receives it. -/
def markedStored : StoredEvent :=
  ⟨7, 3, "marker", "m-1", 0, 0, "Marked", .null, openedMetadata, 6⟩

theorem markedStored_of :
    StoredEvent.Of StoredCodecWitness.crates (marked byUser) markedStored :=
  ⟨3, 0, 0, 6, (decodeStoredEvent_of_parses StoredCodecWitness.crates_parses_null
    crates_parses_openedMetadata rfl rfl 0 0 6).trans rfl⟩

theorem context_reaches_metadata_iff_marked :
    (byUser ≠ byUser → markedStored.metadata ≠ markedStored.metadata) ∧
        byUser.ReadBack markedStored.metadata ∧ byUser.ReadBack markedStored.metadata ↔
      byUser.metadata = none ∧ byUser.metadata = none := by
  obtain ⟨w, hrun, hasked⟩ := appending_asks byUser
  have hexecutes := @allOk_of_mem _ _ contextStep _ _
    (fun a ha _ => appending_executes byUser a ha) unusedMarker
  have hdispatches := @allOk_of_mem _ _ contextStep _ _
    (fun a ha _ => appending_dispatches byUser a ha) unusedMarker
  exact context_reaches_metadata_iff unusedMarker_unused unusedMarker_unused
    (.run .start _ hexecutes hrun) (.run .start _ hdispatches hrun) hasked hasked
    markedStored_of markedStored_of crates_parses_openedMetadata crates_parses_openedMetadata

/-- A handle executes under one context, a dispatched envelope carries another that sets
`metadata` besides: both events arrive with the same metadata. -/
theorem context_metadata_dropped :
    ∃ w w', Reaches contextStep (fun _ a => (Route.execute byUser).Takes 0 a)
        unusedMarker w ∧ w.Asks 0 (marked byUser) ∧
      Reaches contextStep (fun _ a => (marking byUserOfApi).Takes 0 a) unusedMarker w' ∧
      w'.Asks 0 (marked byUserOfApi) ∧
      byUser ≠ (marking byUserOfApi).context ∧
      StoredEvent.Of StoredCodecWitness.crates (marked byUser) markedStored ∧
      StoredEvent.Of StoredCodecWitness.crates (marked byUserOfApi) markedStored ∧
      ¬ (marking byUserOfApi).context.ReadBack markedStored.metadata := by
  obtain ⟨w, hrun, hasked⟩ := appending_asks byUser
  obtain ⟨w', hrun', hasked'⟩ := appending_asks byUserOfApi
  refine ⟨w, w', .run .start _ ?_ hrun, hasked, .run .start _ ?_ hrun', hasked', ?_,
    markedStored_of, markedStored_of, ?_⟩
  · exact allOk_of_mem (fun a ha _ => appending_executes byUser a ha) _
  · exact allOk_of_mem (fun a ha _ => appending_dispatches byUserOfApi a ha) _
  · intro hsame
    cases congrArg CommandContext.metadata hsame
  · intro hread
    cases hread.metadata (.string "api") rfl

end ContextMetadataWitness

end EventfoldEs
