/-
Projections and process managers: a state and a cursor into the global log,
moved by one recorded event at a time.
-/
import EventfoldEs.Event
import EventfoldEs.Lib.Replay
import EventfoldEs.Lib.OrderedLog

namespace EventfoldEs

open Replay OrderedLog

/-- A command that a process manager asks to be dispatched. -/
structure CommandEnvelope where
  aggregateType : String
  instanceId : String
  command : Value
  context : CommandContext

/-- A cross-stream read model. -/
structure Projection where
  name : String
  State : Type
  default : State
  apply : State → StoredEvent → State

/-- A workflow coordinator that reacts to an event by producing commands. -/
structure ProcessManager where
  name : String
  State : Type
  default : State
  react : State → StoredEvent → State × List CommandEnvelope

/-- `ProjectionCheckpoint` and `ProcessManagerCheckpoint`: the cursor is the
next global position to read from. -/
structure Checkpoint (S : Type) where
  state : S
  lastGlobalPosition : Nat

variable (C : Crates)

/-- What `apply_recorded_event` and `react_recorded_event` share: an event
below the cursor is skipped, an event that does not decode only moves it. -/
def recordedEvent {S O : Type} (react : S → StoredEvent → S × List O)
    (checkpoint : Checkpoint S) (recorded : RecordedEvent) :
    Checkpoint S × List O :=
  if recorded.globalPosition < checkpoint.lastGlobalPosition then (checkpoint, [])
  else
    match decodeStoredEvent C recorded with
    | some stored =>
        let (state, produced) := react checkpoint.state stored
        (⟨state, recorded.globalPosition + 1⟩, produced)
    | none => (⟨checkpoint.state, recorded.globalPosition + 1⟩, [])

def applyRecordedEvent (P : Projection) (checkpoint : Checkpoint P.State)
    (recorded : RecordedEvent) : Checkpoint P.State :=
  (recordedEvent C (fun s e => (P.apply s e, ([] : List CommandEnvelope)))
    checkpoint recorded).1

def reactRecordedEvent (PM : ProcessManager) (checkpoint : Checkpoint PM.State)
    (recorded : RecordedEvent) : Checkpoint PM.State × List CommandEnvelope :=
  recordedEvent C PM.react checkpoint recorded

/-- The type-erased runners of a store. -/
inductive Runner
  | projection (P : Projection)
  | processManager (PM : ProcessManager)

/-- An envelope with the place it was produced at: the position of the event
reacted to, and the index among the envelopes of that reaction. -/
structure Emission where
  position : Nat
  index : Nat
  envelope : CommandEnvelope

def emissions (position : Nat) (envelopes : List CommandEnvelope) : List Emission :=
  envelopes.zipIdx.map fun (envelope, index) => ⟨position, index, envelope⟩

namespace Runner

@[reducible] def State : Runner → Type
  | projection P => P.State
  | processManager PM => PM.State

def default : (R : Runner) → R.State
  | projection P => P.default
  | processManager PM => PM.default

/-- `ProjectionCheckpoint::default` and `ProcessManagerCheckpoint::default`. -/
def start (R : Runner) : Checkpoint R.State := ⟨R.default, 0⟩

def react : (R : Runner) → R.State → StoredEvent → R.State × List CommandEnvelope
  | projection P, s, e => (P.apply s e, [])
  | processManager PM, s, e => PM.react s e

/-- `apply_event` and `react_event` of the type-erased traits. -/
def event : (R : Runner) → Checkpoint R.State → RecordedEvent →
    Checkpoint R.State × List CommandEnvelope
  | projection P, checkpoint, recorded => (applyRecordedEvent C P checkpoint recorded, [])
  | processManager PM, checkpoint, recorded => reactRecordedEvent C PM checkpoint recorded

/-- The state after an event, and after a record that may not decode. -/
def next (R : Runner) (s : R.State) (e : StoredEvent) : R.State := (R.react s e).1

def emit (R : Runner) (s : R.State) (recorded : RecordedEvent) : List Emission :=
  match decodeStoredEvent C recorded with
  | some stored => emissions recorded.globalPosition (R.react s stored).2
  | none => []

/-- The checkpoint is the default state folded with exactly the decodable
events below its cursor, in order. -/
def Consistent (R : Runner) (log : List RecordedEvent)
    (checkpoint : Checkpoint R.State) : Prop :=
  checkpoint.state = ((below RecordedEvent.globalPosition log
    checkpoint.lastGlobalPosition).filterMap (decodeStoredEvent C)).foldl R.next R.default

/-- Everything the runner produces for the events below a cursor. -/
def emitted (R : Runner) (log : List RecordedEvent) (p : Nat) : List Emission :=
  outputs (absorb (decodeStoredEvent C) R.next) (R.emit C) R.default
    (below RecordedEvent.globalPosition log p)

variable {C}

theorem event_eq_recordedEvent (R : Runner) (checkpoint : Checkpoint R.State)
    (recorded : RecordedEvent) :
    R.event C checkpoint recorded = recordedEvent C R.react checkpoint recorded := by
  cases R with
  | projection P =>
      unfold event applyRecordedEvent recordedEvent
      by_cases hbehind : recorded.globalPosition < checkpoint.lastGlobalPosition
      · simp only [if_pos hbehind]
      · simp only [if_neg hbehind]
        cases decodeStoredEvent C recorded <;> rfl
  | processManager PM => rfl

/-- An event that is behind the cursor does nothing. -/
theorem event_behind {R : Runner} {checkpoint : Checkpoint R.State}
    {recorded : RecordedEvent}
    (hbehind : recorded.globalPosition < checkpoint.lastGlobalPosition) :
    R.event C checkpoint recorded = (checkpoint, []) := by
  rw [event_eq_recordedEvent, recordedEvent, if_pos hbehind]

/-- An event that is not behind the cursor is absorbed, and the cursor moves
just past it. -/
theorem event_ahead {R : Runner} {checkpoint : Checkpoint R.State}
    {recorded : RecordedEvent}
    (hahead : checkpoint.lastGlobalPosition ≤ recorded.globalPosition) :
    (R.event C checkpoint recorded).1 =
        ⟨absorb (decodeStoredEvent C) R.next checkpoint.state recorded,
          recorded.globalPosition + 1⟩ ∧
      emissions recorded.globalPosition (R.event C checkpoint recorded).2 =
        R.emit C checkpoint.state recorded := by
  rw [event_eq_recordedEvent, recordedEvent, if_neg (Nat.not_lt.mpr hahead), emit]
  cases hdecode : decodeStoredEvent C recorded with
  | none => exact ⟨by rw [absorb_of_undecodable hdecode], rfl⟩
  | some stored => exact ⟨by rw [absorb_of_decodes hdecode]; rfl, rfl⟩

theorem position_le_event (R : Runner) (checkpoint : Checkpoint R.State)
    (recorded : RecordedEvent) :
    checkpoint.lastGlobalPosition ≤ (R.event C checkpoint recorded).1.lastGlobalPosition := by
  by_cases hbehind : recorded.globalPosition < checkpoint.lastGlobalPosition
  · exact Nat.le_of_eq (by rw [event_behind hbehind])
  · rw [(event_ahead (Nat.not_lt.mp hbehind)).1]
    exact Nat.le_succ_of_le (Nat.not_lt.mp hbehind)

theorem lt_position_event (R : Runner) (checkpoint : Checkpoint R.State)
    (recorded : RecordedEvent) :
    recorded.globalPosition <
      (R.event C checkpoint recorded).1.lastGlobalPosition := by
  by_cases hbehind : recorded.globalPosition < checkpoint.lastGlobalPosition
  · rw [event_behind hbehind]
    exact hbehind
  · rw [(event_ahead (Nat.not_lt.mp hbehind)).1]
    exact Nat.lt_succ_self _

theorem consistent_iff_replay {R : Runner} {log : List RecordedEvent}
    {checkpoint : Checkpoint R.State} :
    R.Consistent C log checkpoint ↔
      checkpoint.state = replay (decodeStoredEvent C) R.next R.default
        (below RecordedEvent.globalPosition log checkpoint.lastGlobalPosition) := by
  rw [Consistent, replay_eq_foldl_filterMap]

theorem start_consistent (R : Runner) (log : List RecordedEvent) :
    R.Consistent C log R.start := by
  rw [Consistent, start, below_zero]
  rfl

theorem emitted_zero (R : Runner) (log : List RecordedEvent) : R.emitted C log 0 = [] := by
  rw [emitted, below_zero]
  rfl

/-- What a consistent checkpoint does with the next record of a stream that is
not ahead of it: it stays consistent, and what it produces is what the fold
emits for the events it moves over. -/
theorem event_consistent {R : Runner} {log : List RecordedEvent}
    (hlog : Increasing RecordedEvent.globalPosition log)
    {checkpoint : Checkpoint R.State} (hcp : R.Consistent C log checkpoint) {p : Nat}
    {recorded : RecordedEvent} {rest : List RecordedEvent}
    (hseg : Segment RecordedEvent.globalPosition log p (recorded :: rest))
    (hp : p ≤ checkpoint.lastGlobalPosition) :
    R.Consistent C log (R.event C checkpoint recorded).1 ∧
      R.emitted C log (R.event C checkpoint recorded).1.lastGlobalPosition =
        R.emitted C log checkpoint.lastGlobalPosition ++
          emissions recorded.globalPosition (R.event C checkpoint recorded).2 := by
  by_cases hbehind : recorded.globalPosition < checkpoint.lastGlobalPosition
  · rw [event_behind hbehind]
    exact ⟨hcp, by simp [emissions]⟩
  · have hahead := Nat.not_lt.mp hbehind
    have hnext := hseg.below_next hlog hp hahead
    obtain ⟨hmoved, hemits⟩ := event_ahead (C := C) hahead
    rw [consistent_iff_replay] at hcp
    constructor
    · rw [consistent_iff_replay, hmoved]
      change absorb (decodeStoredEvent C) R.next checkpoint.state recorded = replay
        (decodeStoredEvent C) R.next R.default (below RecordedEvent.globalPosition log
          (recorded.globalPosition + 1))
      rw [hnext, replay_concat, ← hcp]
    · rw [hemits, hmoved]
      change R.emitted C log (recorded.globalPosition + 1) = _
      rw [emitted, hnext, outputs_append]
      change _ ++ (R.emit C (replay (decodeStoredEvent C) R.next R.default _) recorded ++
        []) = _
      rw [List.append_nil, ← hcp]
      rfl

end Runner

end EventfoldEs
