/-
The wire types of the event store and the JSON values they carry, with the
third-party functions the crate calls on them.
-/
import Mathlib.Data.List.Basic

namespace EventfoldEs

/-- `tonic::Code`. -/
inductive Code
  | ok | cancelled | unknown | invalidArgument | deadlineExceeded | notFound
  | alreadyExists | permissionDenied | resourceExhausted | failedPrecondition
  | aborted | outOfRange | unimplemented | internal | unavailable | dataLoss
  | unauthenticated
deriving DecidableEq, Repr

structure Status where
  code : Code
  message : String
deriving DecidableEq, Repr

abbrev Uuid := BitVec 128

/-- The three shapes of a `serde_json::Number`; a float is its 64 bits. -/
inductive Number
  | posInt (n : Nat)
  | negInt (n : Int)
  | float (bits : BitVec 64)
deriving DecidableEq, Repr

/-- `serde_json::Value`.  An object lists its entries in key order, as the
`BTreeMap` behind `serde_json::Map` does. -/
inductive Value
  | null
  | bool (b : Bool)
  | number (n : Number)
  | string (s : String)
  | array (items : List Value)
  | object (fields : List (String × Value))

namespace Value

def isNull : Value → Bool
  | null => true
  | _ => false

def asStr : Value → Option String
  | string s => some s
  | _ => none

def asObject : Value → Option (List (String × Value))
  | object fields => some fields
  | _ => none

/-- `Value::get` with a string key: `None` unless the value is an object that
has the key. -/
def get (key : String) : Value → Option Value
  | object fields => fields.lookup key
  | _ => none

theorem isNull_iff (v : Value) : v.isNull = true ↔ v = null := by
  cases v <;> simp [isNull]

end Value

structure ProposedEvent where
  eventId : String
  eventType : String
  metadata : ByteArray
  payload : ByteArray

-- the instance of the core library, whatever a later import adds
local instance byteArrayDecidableEq : DecidableEq ByteArray := ByteArray.decEq

structure RecordedEvent where
  eventId : String
  streamId : String
  streamVersion : Nat
  globalPosition : Nat
  eventType : String
  metadata : ByteArray
  payload : ByteArray
  recordedAt : Nat
deriving DecidableEq

structure AppendResponse where
  firstStreamVersion : Nat
  lastStreamVersion : Nat
  firstGlobalPosition : Nat
  lastGlobalPosition : Nat
deriving DecidableEq, Repr

/-- One message of a `SubscribeAll` stream: the `oneof content` or nothing. -/
inductive SubscribeResponse
  | event (recorded : RecordedEvent)
  | caughtUp
  | empty

/-- Expected stream version for optimistic concurrency. -/
inductive ExpectedVersionArg
  | any
  | noStream
  | exact (version : Nat)
deriving DecidableEq, Repr

def u64Max : Nat := UInt64.size - 1

/-- What the crate calls in `uuid`, `serde_json`, `tonic` and `tokio`. -/
structure Crates where
  /-- `Uuid::new_v5`. -/
  newV5 : Uuid → ByteArray → Uuid
  uuidToString : Uuid → String
  /-- `Uuid::parse_str`. -/
  uuidParseStr : String → Option Uuid
  /-- `serde_json::to_vec` of something whose `to_value` is the argument. -/
  toVec : Value → Option ByteArray
  /-- `serde_json::from_str::<Value>`. -/
  fromStr : String → Option Value
  /-- `Display` of a `tonic::Status`. -/
  statusToString : Status → String
  /-- `Display` of the `JoinError` of a task that has panicked with this message. -/
  joinErrorToString : String → String

/-- `serde_json` parses back what it printed for `v`; no JSON text is empty. -/
def Crates.Parses (C : Crates) (v : Value) : Prop :=
  ∃ text : String, C.toVec v = some text.toUTF8 ∧ text ≠ "" ∧
    C.fromStr text = some v

/-- `std::str::from_utf8` gives a string back from its bytes. -/
theorem utf8_bytes_decode (text : String) :
    String.fromUTF8? text.toUTF8 = some text :=
  dif_pos text.isValidUTF8

end EventfoldEs
