/-
Events: the aggregate trait, the metadata stamped on an event, and the two
encodings it goes through between a command handler and the wire.
-/
import EventfoldEs.Proto

namespace EventfoldEs

/-- A domain aggregate.  Its state is the fold of its event history; the last
two fields are the `Serialize` and `Deserialize` implementations of its event
type, through `serde_json::to_value` and `serde_json::from_value`. -/
structure Aggregate where
  State : Type
  Command : Type
  DomainEvent : Type
  Error : Type
  aggregateType : String
  default : State
  handle : State → Command → Except Error (List DomainEvent)
  apply : State → DomainEvent → State
  toValue : DomainEvent → Except String Value
  fromValue : Value → Except String DomainEvent

structure CommandContext where
  actor : Option String
  correlationId : Option String
  metadata : Option Value
  sourceDevice : Option String

def CommandContext.default : CommandContext := ⟨none, none, none, none⟩

/-- Infrastructure metadata stamped on every event the crate writes. -/
structure EventMetadata where
  aggregateType : String
  instanceId : String
  actor : Option String
  correlationId : Option String
  sourceDevice : Option String
deriving DecidableEq, Repr

/-- The derived `Serialize`: an optional field is skipped when it is `None`. -/
def EventMetadata.toValue (m : EventMetadata) : Value :=
  let optional (key : String) (field : Option String) : List (String × Value) :=
    (field.map fun s => (key, Value.string s)).toList
  .object
    (optional "actor" m.actor ++ [("aggregate_type", .string m.aggregateType)] ++
      optional "correlation_id" m.correlationId ++
      [("instance_id", .string m.instanceId)] ++
      optional "source_device" m.sourceDevice)

structure ProposedEventData where
  eventId : Uuid
  eventType : String
  payload : Value
  metadata : EventMetadata

/-- How `encode_domain_event` can stop: one of its `expect`s panics, or serde
reports an error. -/
inductive EncodeError
  | panic (message : String)
  | serde (message : String)
deriving DecidableEq, Repr

/-- `encode_domain_event`; `newV4` is the event id that `Uuid::new_v4` draws. -/
def encodeDomainEvent (A : Aggregate) (newV4 : Uuid) (event : A.DomainEvent)
    (ctx : CommandContext) (aggregateType instanceId : String) :
    Except EncodeError ProposedEventData := do
  let value ← (A.toValue event).mapError .serde
  let some obj := value.asObject
    | throw (.panic "adjacently tagged enum must serialize to a JSON object")
  let some tag := obj.lookup "type"
    | throw (.panic "no entry found for key")
  let some eventType := tag.asStr
    | throw (.panic "adjacently tagged enum must have a string 'type' field")
  let payload := (obj.lookup "data").getD .null
  let metadata : EventMetadata :=
    { aggregateType, instanceId, actor := ctx.actor
      correlationId := ctx.correlationId, sourceDevice := ctx.sourceDevice }
  return { eventId := newV4, eventType, payload, metadata }

variable (C : Crates)

/-- `to_proto_event`.  A failing `to_vec` leaves the bytes empty. -/
def toProtoEvent (data : ProposedEventData) : ProposedEvent where
  eventId := C.uuidToString data.eventId
  eventType := data.eventType
  payload := (C.toVec data.payload).getD .empty
  metadata := (C.toVec data.metadata.toValue).getD .empty

/-- The adjacently tagged envelope `decode_domain_event` rebuilds: the `data`
key is left out for a null payload. -/
def taggedEnvelope (eventType : String) (payload : Value) : Value :=
  if payload.isNull then .object [("type", .string eventType)]
  else .object [("data", payload), ("type", .string eventType)]

def decodeDomainEvent (A : Aggregate) (recorded : RecordedEvent) :
    Option A.DomainEvent := do
  let payloadStr ← String.fromUTF8? recorded.payload
  let payloadValue ←
    if payloadStr.isEmpty then some .null else C.fromStr payloadStr
  (A.fromValue (taggedEnvelope recorded.eventType payloadValue)).toOption

/-- An event as delivered to projections and process managers. -/
structure StoredEvent where
  eventId : Uuid
  streamId : Uuid
  aggregateType : String
  instanceId : String
  streamVersion : Nat
  globalPosition : Nat
  eventType : String
  payload : Value
  metadata : Value
  recordedAt : Nat

/-- A non-empty string field of the metadata object. -/
def metadataField (metadata : Value) (key : String) : Option String :=
  ((metadata.get key).bind Value.asStr).filter fun s => !s.isEmpty

def decodeStoredEvent (recorded : RecordedEvent) : Option StoredEvent := do
  let metadataStr ← String.fromUTF8? recorded.metadata
  let metadata ← C.fromStr metadataStr
  let aggregateType ← metadataField metadata "aggregate_type"
  let instanceId ← metadataField metadata "instance_id"
  let eventId ← C.uuidParseStr recorded.eventId
  let streamId ← C.uuidParseStr recorded.streamId
  let payload ←
    if recorded.payload.isEmpty then some .null
    else (String.fromUTF8? recorded.payload).bind C.fromStr
  return { eventId, streamId, aggregateType, instanceId
           streamVersion := recorded.streamVersion
           globalPosition := recorded.globalPosition
           eventType := recorded.eventType, payload, metadata
           recordedAt := recorded.recordedAt }

/-- Fixed namespace UUID for deterministic stream ID derivation. -/
def streamNamespace : Uuid := 0x9a1e7c3b4d2f4a8eb56c1f3d7e9a0bc4#128

def streamName (aggregateType instanceId : String) : String :=
  aggregateType ++ "/" ++ instanceId

def streamUuid (aggregateType instanceId : String) : Uuid :=
  C.newV5 streamNamespace (streamName aggregateType instanceId).toUTF8

end EventfoldEs
