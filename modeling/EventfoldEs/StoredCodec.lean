/-
The way of a domain event to the read models: what `decode_stored_event` hands
to projections and process managers for an event that an aggregate wrote.
-/
import EventfoldEs.EventCodec
import Mathlib.Tactic.SplitIfs

namespace EventfoldEs

variable {C : Crates} {A : Aggregate}

/-- What is written under a key of the metadata of an event. -/
def metadataEntry (ctx : CommandContext) (aggregateType instanceId key : String) :
    Option String :=
  if key = "actor" then ctx.actor
  else if key = "aggregate_type" then some aggregateType
  else if key = "correlation_id" then ctx.correlationId
  else if key = "instance_id" then some instanceId
  else if key = "source_device" then ctx.sourceDevice
  else none

/-- An object with one entry for every key that has one. -/
def ShowsEntries (entry : String → Option String) (metadata : Value) : Prop :=
  ∃ fields, metadata = .object fields ∧ (fields.map Prod.fst).Nodup ∧
    ∀ key, fields.lookup key = (entry key).map .string

/-- The stored event shows what was encoded of the domain event and what the
server assigned, and its metadata has an entry for exactly what was set. -/
structure StoredEvent.Shows (e : A.DomainEvent) (newV4 : Uuid) (ctx : CommandContext)
    (aggregateType instanceId : String) (p : ProposedEventData) (streamId : Uuid)
    (version position recordedAt : Nat) (stored : StoredEvent) : Prop where
  eventId : stored.eventId = newV4
  streamId : stored.streamId = streamId
  owner : stored.aggregateType = aggregateType ∧ stored.instanceId = instanceId
  proposed : stored.eventId = p.eventId ∧ stored.eventType = p.eventType ∧
    stored.payload = p.payload
  original : ∃ obj, A.toValue e = .ok (.object obj) ∧
    obj.lookup "type" = some (.string stored.eventType) ∧
    stored.payload = (obj.lookup "data").getD .null
  assigned : stored.streamVersion = version ∧ stored.globalPosition = position ∧
    stored.recordedAt = recordedAt
  metadata : ShowsEntries (metadataEntry ctx aggregateType instanceId) stored.metadata

/-- A field that serde skips when it is `None`. -/
theorem lookup_optional (key name : String) (field : Option String) :
    ((field.map fun s => (name, Value.string s)).toList).lookup key =
      if key = name then field.map .string else none := by
  cases field with
  | none => simp
  | some s =>
      by_cases hkey : key = name
      · simp [hkey]
      · have hne : (key == name) = false := by simpa using hkey
        simp [List.lookup_cons, hkey, hne]

theorem lookup_required (key name : String) (v : Value) :
    [(name, v)].lookup key = if key = name then some v else none := by
  by_cases hkey : key = name
  · simp [hkey]
  · have hne : (key == name) = false := by simpa using hkey
    simp [List.lookup_cons, hkey, hne]

theorem keys_optional (name : String) (field : Option String) :
    ((field.map fun s => (name, Value.string s)).toList).map Prod.fst =
      if field.isSome then [name] else [] := by
  cases field <;> rfl

/-- What the derived `Serialize` of the metadata writes. -/
theorem EventMetadata.toValue_showsEntries (ctx : CommandContext)
    (aggregateType instanceId : String) :
    ShowsEntries (metadataEntry ctx aggregateType instanceId)
      (EventMetadata.toValue ⟨aggregateType, instanceId, ctx.actor,
        ctx.correlationId, ctx.sourceDevice⟩) := by
  refine ⟨_, rfl, ?_, fun key => ?_⟩
  · simp only [List.map_append, keys_optional, List.map_cons, List.map_nil]
    cases ctx.actor.isSome <;> cases ctx.correlationId.isSome <;>
      cases ctx.sourceDevice.isSome <;> decide
  · simp only [List.lookup_append, lookup_optional, lookup_required, metadataEntry]
    split_ifs <;> simp_all

theorem ShowsEntries.metadataField {entry : String → Option String} {metadata : Value}
    (hshows : ShowsEntries entry metadata) (key : String) :
    metadataField metadata key = (entry key).filter fun s => !s.isEmpty := by
  obtain ⟨fields, rfl, -, hlookup⟩ := hshows
  rw [EventfoldEs.metadataField, Value.get, hlookup]
  cases entry key <;> rfl

theorem toUTF8_isEmpty {text : String} (hne : text ≠ "") :
    text.toUTF8.isEmpty = false := by
  have hsize : text.utf8ByteSize ≠ 0 := fun h => hne (String.utf8ByteSize_eq_zero_iff.mp h)
  exact beq_false_of_ne hsize

/-- What `decode_stored_event` makes of the record of a proposed event whose
texts are read back. -/
theorem decodeStoredEvent_of_parses {p : ProposedEventData}
    (hpayload : C.Parses p.payload) (hmetadata : C.Parses p.metadata.toValue)
    {streamId : Uuid} (hevent : C.uuidParseStr (C.uuidToString p.eventId) = some p.eventId)
    (hstream : C.uuidParseStr (C.uuidToString streamId) = some streamId)
    (version position recordedAt : Nat) :
    decodeStoredEvent C (recordEvent C streamId version position recordedAt
        (toProtoEvent C p)) =
      (metadataField p.metadata.toValue "aggregate_type").bind fun aggregateType =>
        (metadataField p.metadata.toValue "instance_id").map fun instanceId =>
          ⟨p.eventId, streamId, aggregateType, instanceId, version, position,
            p.eventType, p.payload, p.metadata.toValue, recordedAt⟩ := by
  obtain ⟨text, hprint, hne, hread⟩ := hpayload
  obtain ⟨stamped, hprint', -, hread'⟩ := hmetadata
  simp only [decodeStoredEvent, recordEvent, toProtoEvent, hprint, hprint',
    Option.getD_some, utf8_bytes_decode, hread, hread', hevent, hstream,
    toUTF8_isEmpty hne, bind, Option.bind]
  cases metadataField p.metadata.toValue "aggregate_type" with
  | none => rfl
  | some aggregateType =>
      cases metadataField p.metadata.toValue "instance_id" <;> rfl

/-- The two fields that `decode_stored_event` insists on. -/
theorem filter_nonempty (s : String) :
    (some s).filter (fun s => !s.isEmpty) = if s = "" then none else some s := by
  by_cases hs : s = ""
  · rw [if_pos hs, hs]
    rfl
  · rw [if_neg hs, Option.filter_some_pos]
    simpa using hs

/-- An event that an aggregate wrote reaches the read models exactly when its
aggregate type and instance id are not empty, and then nothing of it is
changed. -/
theorem decode_stored_iff_named {e : A.DomainEvent} {newV4 : Uuid}
    {ctx : CommandContext} {aggregateType instanceId : String}
    {p : ProposedEventData}
    (henc : encodeDomainEvent A newV4 e ctx aggregateType instanceId = .ok p)
    (hpayload : C.Parses p.payload) (hmetadata : C.Parses p.metadata.toValue)
    {streamId : Uuid} (hevent : C.uuidParseStr (C.uuidToString newV4) = some newV4)
    (hstream : C.uuidParseStr (C.uuidToString streamId) = some streamId)
    (version position recordedAt : Nat) :
    ((decodeStoredEvent C (recordEvent C streamId version position recordedAt
        (toProtoEvent C p))).isSome ↔ aggregateType ≠ "" ∧ instanceId ≠ "") ∧
      ∀ stored, decodeStoredEvent C (recordEvent C streamId version position recordedAt
          (toProtoEvent C p)) = some stored →
        stored.Shows e newV4 ctx aggregateType instanceId p streamId version position
          recordedAt := by
  obtain ⟨obj, hvalue, htype, hdata, hid, hstamped⟩ := encodeDomainEvent_eq_ok henc
  have hdecode := decodeStoredEvent_of_parses hpayload hmetadata
    (by rw [hid]; exact hevent) hstream version position recordedAt
  have hshows : ShowsEntries (metadataEntry ctx aggregateType instanceId)
      p.metadata.toValue := by
    rw [hstamped]
    exact EventMetadata.toValue_showsEntries ctx aggregateType instanceId
  have htypeEntry : metadataEntry ctx aggregateType instanceId "aggregate_type" =
    some aggregateType := rfl
  have hidEntry : metadataEntry ctx aggregateType instanceId "instance_id" =
    some instanceId := rfl
  rw [hshows.metadataField, hshows.metadataField, htypeEntry, hidEntry,
    filter_nonempty, filter_nonempty] at hdecode
  rw [hdecode]
  by_cases htypeNe : aggregateType = ""
  · simp [htypeNe]
  by_cases hidNe : instanceId = ""
  · simp [htypeNe, hidNe]
  rw [if_neg htypeNe, if_neg hidNe]
  refine ⟨⟨fun _ => ⟨htypeNe, hidNe⟩, fun _ => rfl⟩, fun stored hstored => ?_⟩
  cases hstored
  exact
    { eventId := hid
      streamId := rfl
      owner := ⟨rfl, rfl⟩
      proposed := ⟨rfl, rfl, rfl⟩
      original := ⟨obj, hvalue, htype, hdata⟩
      assigned := ⟨rfl, rfl, rfl⟩
      metadata := hshows }

namespace StoredCodecWitness

open EventCodecWitness

/-- A context that names only who acts. -/
def byUser : CommandContext := ⟨some "user-1", none, none, none⟩

def openedMetadata : Value :=
  .object [("actor", .string "user-1"), ("aggregate_type", .string "marker"),
    ("instance_id", .string "m-1")]

def openedMetadataText : String :=
  "\x7b\"actor\":\"user-1\",\"aggregate_type\":\"marker\",\"instance_id\":\"m-1\"\x7d"

/-- The crates print and read back this metadata, too. -/
def crates : Crates where
  newV5 := EventCodecWitness.crates.newV5
  uuidToString := EventCodecWitness.crates.uuidToString
  uuidParseStr := EventCodecWitness.crates.uuidParseStr
  toVec
    | .null => some "null".toUTF8
    | .object _ => some openedMetadataText.toUTF8
    | _ => none
  fromStr text :=
    if text = "null" then some .null
    else if text = openedMetadataText then some openedMetadata
    else none
  statusToString status := status.message
  joinErrorToString message := message

theorem crates_parses_null : crates.Parses .null :=
  ⟨"null", rfl, by decide, rfl⟩

theorem crates_parses_openedMetadata : crates.Parses openedMetadata :=
  ⟨openedMetadataText, rfl, by decide, rfl⟩

theorem decode_stored_iff_named_opened :
    ((decodeStoredEvent crates (recordEvent crates 3 4 5 6 (toProtoEvent crates
        ⟨7, "Opened", .null, "marker", "m-1", some "user-1", none, none⟩))).isSome ↔
          "marker" ≠ "" ∧ "m-1" ≠ "") ∧
      ∀ stored, decodeStoredEvent crates (recordEvent crates 3 4 5 6 (toProtoEvent crates
          ⟨7, "Opened", .null, "marker", "m-1", some "user-1", none, none⟩)) = some stored →
        stored.Shows (A := marker) .opened 7 byUser "marker" "m-1"
          ⟨7, "Opened", .null, "marker", "m-1", some "user-1", none, none⟩ 3 4 5 6 :=
  decode_stored_iff_named rfl crates_parses_null crates_parses_openedMetadata rfl rfl 4 5 6

end StoredCodecWitness

end EventfoldEs
