/-
The event store the crate talks to, as far as the crate relies on it: streams
with contiguous versions from 0, atomic appends checked against the expected
version, and reads that return everything from a version on.
-/
import EventfoldEs.Event

namespace EventfoldEs

variable (C : Crates)

/-- The record the server makes of a proposed event.  It stores the fields of
the client unchanged and adds its own. -/
def recordEvent (streamId : Uuid) (version position recordedAt : Nat)
    (e : ProposedEvent) : RecordedEvent where
  eventId := e.eventId
  streamId := C.uuidToString streamId
  streamVersion := version
  globalPosition := position
  eventType := e.eventType
  metadata := e.metadata
  payload := e.payload
  recordedAt := recordedAt

def recordBlock (streamId : Uuid) (version position recordedAt : Nat) :
    List ProposedEvent → List RecordedEvent
  | [] => []
  | e :: rest =>
      recordEvent C streamId version position recordedAt e ::
        recordBlock streamId (version + 1) (position + 1) recordedAt rest

/-- The records carry the versions `start, start + 1, ...`. -/
def Versioned : Nat → List RecordedEvent → Prop
  | _, [] => True
  | start, r :: rest => r.streamVersion = start ∧ Versioned (start + 1) rest

theorem Versioned.append {start : Nat} {older newer : List RecordedEvent} :
    Versioned start (older ++ newer) ↔
      Versioned start older ∧ Versioned (start + older.length) newer := by
  induction older generalizing start with
  | nil => simp [Versioned]
  | cons r rest ih =>
      simp only [List.cons_append, Versioned, ih, List.length_cons, and_assoc]
      rw [show start + 1 + rest.length = start + (rest.length + 1) by omega]

theorem Versioned.lower_bound {start : Nat} {rs : List RecordedEvent}
    (hrs : Versioned start rs) : ∀ r ∈ rs, start ≤ r.streamVersion := by
  induction rs generalizing start with
  | nil => simp
  | cons head rest ih =>
      intro r hr
      rcases List.mem_cons.mp hr with rfl | hr
      · exact Nat.le_of_eq hrs.1.symm
      · have := ih hrs.2 r hr
        omega

/-- Selecting the records of version at least `n` drops a prefix. -/
theorem Versioned.filter_eq_drop {start : Nat} {rs : List RecordedEvent}
    (hrs : Versioned start rs) (n : Nat) :
    rs.filter (fun r => decide (n ≤ r.streamVersion)) = rs.drop (n - start) := by
  induction rs generalizing start with
  | nil => simp
  | cons head rest ih =>
      have hrest := ih hrs.2
      by_cases hle : n ≤ start
      · have hall : ∀ r ∈ head :: rest, decide (n ≤ r.streamVersion) = true := by
          intro r hr
          have := hrs.lower_bound r hr
          simp only [decide_eq_true_eq]
          omega
        rw [List.filter_eq_self.mpr hall, Nat.sub_eq_zero_of_le hle, List.drop_zero]
      · have hhead : ¬ n ≤ head.streamVersion := by
          rw [hrs.1]
          exact hle
        rw [List.filter_cons_of_neg (by simpa using hhead), hrest,
          show n - start = n - (start + 1) + 1 by omega, List.drop_succ_cons]

theorem Versioned.last {start : Nat} {rs : List RecordedEvent}
    (hrs : Versioned start rs) {r : RecordedEvent}
    (hlast : rs.getLast? = some r) :
    r.streamVersion + 1 = start + rs.length := by
  have hsplit := List.getLast?_eq_some_iff.mp hlast
  obtain ⟨older, rfl⟩ := hsplit
  have hr := (Versioned.append.mp hrs).2.1
  simp only [List.length_append, List.length_singleton]
  omega

@[simp] theorem recordBlock_length (streamId : Uuid) (version position at' : Nat)
    (es : List ProposedEvent) :
    (recordBlock C streamId version position at' es).length = es.length := by
  induction es generalizing version position with
  | nil => rfl
  | cons e rest ih => simp [recordBlock, ih]

theorem recordBlock_versioned (streamId : Uuid) (version position at' : Nat)
    (es : List ProposedEvent) :
    Versioned version (recordBlock C streamId version position at' es) := by
  induction es generalizing version position with
  | nil => trivial
  | cons e rest ih => exact ⟨rfl, ih (version + 1) (position + 1)⟩

/-- The server checks an expected version against the length of the stream. -/
def ExpectedVersionArg.accepts : ExpectedVersionArg → Nat → Bool
  | any, _ => true
  | noStream, length => length == 0
  | exact version, length => length == version + 1

structure Server where
  streams : Uuid → List RecordedEvent
  nextPosition : Nat

namespace Server

/-- The versions of every stream are contiguous from 0. -/
def WellFormed (s : Server) : Prop :=
  ∀ id, Versioned 0 (s.streams id)

/-- Nothing is ever removed from or changed in a stream. -/
def Extends (s t : Server) : Prop :=
  ∀ id, s.streams id <+: t.streams id

theorem Extends.refl (s : Server) : s.Extends s := fun _ => List.prefix_rfl

theorem Extends.trans {s t v : Server} (hst : s.Extends t) (htv : t.Extends v) :
    s.Extends v := fun id => (hst id).trans (htv id)

/-- The block of records an append adds, and the server after it. -/
def block (s : Server) (id : Uuid) (events : List ProposedEvent)
    (recordedAt : Nat) : List RecordedEvent :=
  recordBlock C id (s.streams id).length s.nextPosition recordedAt events

def commit (s : Server) (id : Uuid) (events : List ProposedEvent)
    (recordedAt : Nat) : Server where
  streams := Function.update s.streams id
    (s.streams id ++ s.block C id events recordedAt)
  nextPosition := s.nextPosition + events.length

/-- The `Append` RPC. -/
def append (s : Server) (id : Uuid) (expected : ExpectedVersionArg)
    (events : List ProposedEvent) (recordedAt : Nat) :
    Except Status AppendResponse × Server :=
  let length := (s.streams id).length
  if expected.accepts length then
    (.ok { firstStreamVersion := length
           lastStreamVersion := length + events.length - 1
           firstGlobalPosition := s.nextPosition
           lastGlobalPosition := s.nextPosition + events.length - 1 },
      s.commit C id events recordedAt)
  else (.error ⟨.failedPrecondition, "wrong expected version"⟩, s)

/-- The `ReadStream` RPC.  `u64::MAX` as the maximal count asks for all. -/
def readStream (s : Server) (id : Uuid) (fromVersion maxCount : Nat) :
    Except Status (List RecordedEvent) :=
  let stream := s.streams id
  if stream.isEmpty then .error ⟨.notFound, "stream not found"⟩
  else
    let newer := stream.filter fun r => decide (fromVersion ≤ r.streamVersion)
    .ok (if maxCount = u64Max then newer else newer.take maxCount)

@[simp] theorem commit_streams_self (s : Server) (id : Uuid)
    (events : List ProposedEvent) (recordedAt : Nat) :
    (s.commit C id events recordedAt).streams id =
      s.streams id ++ s.block C id events recordedAt := by
  simp [commit]

theorem commit_streams_ne (s : Server) {id other : Uuid} (hne : other ≠ id)
    (events : List ProposedEvent) (recordedAt : Nat) :
    (s.commit C id events recordedAt).streams other = s.streams other := by
  simp [commit, Function.update_of_ne hne]

@[simp] theorem block_length (s : Server) (id : Uuid)
    (events : List ProposedEvent) (recordedAt : Nat) :
    (s.block C id events recordedAt).length = events.length := by
  simp [block]

theorem commit_extends (s : Server) (id : Uuid) (events : List ProposedEvent)
    (recordedAt : Nat) : s.Extends (s.commit C id events recordedAt) := by
  intro other
  by_cases heq : other = id
  · subst heq
    rw [commit_streams_self]
    exact List.prefix_append _ _
  · exact (commit_streams_ne C s heq events recordedAt) ▸ List.prefix_rfl

theorem commit_wellFormed {s : Server} (hs : s.WellFormed) (id : Uuid)
    (events : List ProposedEvent) (recordedAt : Nat) :
    (s.commit C id events recordedAt).WellFormed := by
  intro other
  by_cases heq : other = id
  · subst heq
    rw [commit_streams_self, Versioned.append]
    refine ⟨hs other, ?_⟩
    rw [Nat.zero_add]
    exact recordBlock_versioned C other _ _ _ _
  · rw [commit_streams_ne C s heq]
    exact hs other

/-- What a read of everything from `n` on returns, once the never written
stream of a `NotFound` is read as empty. -/
theorem filter_newer {s : Server} (hs : s.WellFormed) (id : Uuid) (n : Nat) :
    (s.streams id).filter (fun r => decide (n ≤ r.streamVersion)) =
      (s.streams id).drop n := by
  simpa using (hs id).filter_eq_drop n

end Server

end EventfoldEs
