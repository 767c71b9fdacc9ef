/-
The two ways to read a stream, the replay of an actor and the fold of a projection over
the global log, come to the same state wherever both have read the same records.
-/
import EventfoldEs.GlobalLog
import EventfoldEs.ActorRuns
import EventfoldEs.StoredCodec
import EventfoldEs.Runner

namespace EventfoldEs

open Async Replay OrderedLog

variable {C : Crates} {A : Aggregate}

/-- The read models are shown the record. -/
def readable (C : Crates) (r : RecordedEvent) : Bool := (decodeStoredEvent C r).isSome

/-- Apply the events of one stream as the aggregate does. -/
def mirrorApply (A : Aggregate) (id : Uuid) (s : A.State) (e : StoredEvent) : A.State :=
  if e.streamId = id then
    match A.fromValue (taggedEnvelope e.eventType e.payload) with
    | .ok event => A.apply s event
    | .error _ => s
  else s

/-- The projection that shows the state of one instance. -/
def mirror (A : Aggregate) (id : Uuid) (name : String) : Projection where
  name := name
  State := A.State
  default := A.default
  apply := mirrorApply A id

/-- Bytes that are text are empty exactly when the text is. -/
theorem isEmpty_of_fromUTF8? {bytes : ByteArray} {text : String}
    (htext : String.fromUTF8? bytes = some text) : text.isEmpty = bytes.isEmpty := by
  unfold String.fromUTF8? at htext
  split at htext
  · cases htext
    rfl
  · cases htext

/-- Where both decoders read a record, they read the same content. -/
theorem decoders_agree {r : RecordedEvent} {stored : StoredEvent}
    (hstored : decodeStoredEvent C r = some stored) :
    C.uuidParseStr r.streamId = some stored.streamId ∧
      decodeDomainEvent C A r =
        (A.fromValue (taggedEnvelope stored.eventType stored.payload)).toOption := by
  by_cases hempty : r.payload.isEmpty = true
  · simp only [decodeStoredEvent, hempty, ↓reduceIte, Option.bind_eq_bind,
      Option.bind_eq_some_iff, Option.some.injEq] at hstored
    obtain ⟨text, -, metadata, -, aggregateType, -, instanceId, -, eventId, -, streamId,
      hstream, payload, hpayload, hmade⟩ := hstored
    cases hpayload
    cases hmade
    refine ⟨hstream, ?_⟩
    have hbytes : r.payload = "".toUTF8 := by
      have hsize : r.payload.size = 0 := by simpa [ByteArray.isEmpty] using hempty
      exact ByteArray.ext (Array.eq_empty_of_size_eq_zero hsize)
    simp only [decodeDomainEvent, hbytes, utf8_bytes_decode, bind, Option.bind]
    rfl
  · simp only [decodeStoredEvent, hempty, Bool.false_eq_true, ↓reduceIte,
      Option.bind_eq_bind, Option.bind_eq_some_iff] at hstored
    obtain ⟨text, -, metadata, -, aggregateType, -, instanceId, -, eventId, -, streamId,
      hstream, payload, ⟨text', htext, hread⟩, hmade⟩ := hstored
    cases hmade
    refine ⟨hstream, ?_⟩
    have hne : text'.isEmpty = false := by
      rw [isEmpty_of_fromUTF8? htext]
      simpa using hempty
    simp only [decodeDomainEvent, htext, hne, hread, bind, Option.bind]
    rfl

/-- What the mirror does with a record of a stream. -/
theorem mirror_absorb (huuid : UuidsReadBack C) {id other : Uuid} {r : RecordedEvent}
    (hr : r.streamId = C.uuidToString other) (s : A.State) :
    absorb (decodeStoredEvent C) (mirrorApply A id) s r =
      if other = id ∧ readable C r = true then absorb (decodeDomainEvent C A) A.apply s r
      else s := by
  cases hstored : decodeStoredEvent C r with
  | none =>
      rw [absorb_of_undecodable hstored, if_neg]
      simp [readable, hstored]
  | some stored =>
      obtain ⟨hparse, hdomain⟩ := decoders_agree (A := A) hstored
      rw [hr, huuid other, Option.some.injEq] at hparse
      rw [absorb_of_decodes hstored, absorb, hdomain]
      rw [mirrorApply, ← hparse]
      by_cases hid : other = id
      · rw [if_pos hid, if_pos ⟨hid, by simp [readable, hstored]⟩]
        cases A.fromValue (taggedEnvelope stored.eventType stored.payload) <;> rfl
      · rw [if_neg hid, if_neg fun h => hid h.1]

/-- The mirror of a stream replays what it can read of the stream. -/
theorem mirror_replay (huuid : UuidsReadBack C) {id : Uuid} {log : List RecordedEvent}
    (hnamed : ∀ r ∈ log, ∃ id, r.streamId = C.uuidToString id) (s : A.State) :
    replay (decodeStoredEvent C) (mirrorApply A id) s log =
      replay (decodeDomainEvent C A) A.apply s ((ofStream C id log).filter (readable C)) := by
  induction log generalizing s with
  | nil => rfl
  | cons r rest ih =>
      obtain ⟨other, hr⟩ := hnamed r List.mem_cons_self
      have hrest := fun s => ih (fun r hr => hnamed r (List.mem_cons_of_mem _ hr)) s
      rw [replay_cons, mirror_absorb huuid hr, hrest]
      by_cases hid : other = id
      · rw [ofStream_cons_self (hid ▸ hr)]
        cases hread : readable C r with
        | true => rw [if_pos ⟨hid, rfl⟩, List.filter_cons_of_pos hread, replay_cons]
        | false => rw [if_neg (by simp), List.filter_cons_of_neg (by simp [hread])]
      · have hother : r.streamId ≠ C.uuidToString id := by
          intro h
          refine hid (Option.some.inj ?_)
          rw [← huuid other, ← hr, h, huuid id]
        rw [if_neg fun h => hid h.1, ofStream_cons_ne hother]

/-- What lies below a cursor is, of every stream, a prefix. -/
theorem ofStream_below {log : List RecordedEvent}
    (hlog : Increasing RecordedEvent.globalPosition log) (id : Uuid) (p : Nat) :
    ofStream C id (below RecordedEvent.globalPosition log p) <+: ofStream C id log := by
  have hsplit := below_append_fromOn hlog p
  refine ⟨ofStream C id (fromOn RecordedEvent.globalPosition log p), ?_⟩
  rw [← ofStream_append, hsplit]

/-- A list read further, from where a shorter read of it has stopped. -/
theorem replayEvents_take {stream : List RecordedEvent} {m n : Nat} (hle : m ≤ n) :
    replayEvents C A (stream.take n) =
      replay (decodeDomainEvent C A) A.apply (replayEvents C A (stream.take m))
        ((stream.take n).drop m) := by
  rw [← replayEvents_append]
  congr 1
  have hsplit := List.take_append_drop m (stream.take n)
  rwa [List.take_take, Nat.min_eq_left hle, eq_comm] at hsplit

namespace World

variable {ι : Type} [DecidableEq ι] {A : ι → Aggregate} {instanceId : ι → String}

/-- In every run, and for every cursor, what lies below it is of every stream a prefix.
The projection that mirrors an instance shows the replay of that prefix as far as the
read models can read it; and where they can, the actor and the projection only differ in
how far they have read, and the one behind reaches the other by the records between. -/
theorem projections_agree_with_actors (huuid : UuidsReadBack C) {w₀ w : World A}
    {log : List RecordedEvent} (hfresh : w₀.Fresh) (hempty : w₀.server = ⟨fun _ => [], 0⟩)
    (i : ι) (hsurvive : (A i).EventsSurvive C)
    (hreach : Reaches (logStep C instanceId)
      (fun o a => o.1.SpawnsGood C instanceId i a) (w₀, []) (w, log)) :
    (∀ p id, ofStream C id (below RecordedEvent.globalPosition log p) <+:
        w.server.streams id ∧
      (log.length ≤ p → ofStream C id (below RecordedEvent.globalPosition log p) =
        w.server.streams id)) ∧
      ∀ (name : String) (checkpoint : Checkpoint (A i).State) (n : Nat),
        (Runner.projection (mirror (A i) (streamOf C A instanceId i) name)).Consistent C log
          checkpoint →
        n = (ofStream C (streamOf C A instanceId i)
          (below RecordedEvent.globalPosition log checkpoint.lastGlobalPosition)).length →
        checkpoint.state = replayEvents C (A i) (((w.server.streams
          (streamOf C A instanceId i)).take n).filter (readable C)) ∧
        ∀ l, (w.slots i).pair? = some l →
          (∀ r ∈ w.server.streams (streamOf C A instanceId i), readable C r = true) →
          (l.fromVersion ≤ n → checkpoint.state = replay (decodeDomainEvent C (A i))
            (A i).apply l.state (((w.server.streams (streamOf C A instanceId i)).take n).drop
              l.fromVersion)) ∧
          (n ≤ l.fromVersion → l.state = replay (decodeDomainEvent C (A i)) (A i).apply
            checkpoint.state (((w.server.streams (streamOf C A instanceId i)).take
              l.fromVersion).drop n)) := by
  have hkept : LogKept C instanceId (w, log) := by
    refine logKept_of_reaches huuid ⟨hfresh.home, ?_⟩ (hreach.mono fun _ _ _ => trivial)
    rw [hempty]
    exact ⟨trivial, rfl, List.forall_mem_nil _, fun _ => rfl⟩
  obtain ⟨-, hlog⟩ := hkept
  have hinv : w.Inv C instanceId (· = i) :=
    inv_of_reaches hfresh (hreach.of_noted fun _ a hgood =>
      hgood.admits (executesSurviving_of_eventsSurvive hsurvive a))
  refine ⟨fun p id => ⟨?_, fun hp => ?_⟩, fun name checkpoint n hcp hn => ?_⟩
  · rw [hlog.streams id]
    exact ofStream_below hlog.positioned.increasing id p
  · rw [hlog.streams id]
    congr 1
    refine List.filter_eq_self.mpr fun r hr => ?_
    obtain ⟨k, hk⟩ := List.mem_iff_getElem?.mp hr
    have hlt := (List.getElem?_eq_some_iff.mp hk).1
    have hposition := hlog.positioned.get hk
    simp only [decide_eq_true_eq]
    omega
  · have hprefix : ofStream C (streamOf C A instanceId i)
        (below RecordedEvent.globalPosition log checkpoint.lastGlobalPosition) =
          (w.server.streams (streamOf C A instanceId i)).take n := by
      rw [hlog.streams, hn]
      exact (List.prefix_iff_eq_take.mp
        (ofStream_below hlog.positioned.increasing _ checkpoint.lastGlobalPosition))
    have hstate : checkpoint.state = replayEvents C (A i) (((w.server.streams
        (streamOf C A instanceId i)).take n).filter (readable C)) := by
      rw [← hprefix]
      exact (Runner.consistent_iff_replay.mp hcp).trans (mirror_replay huuid
        (fun r hr => hlog.named r (List.mem_of_mem_filter hr)) (A i).default)
    refine ⟨hstate, fun l hpair hreadable => ?_⟩
    obtain ⟨commits, hexact, -⟩ := (hinv.slots i rfl).named hpair
    have hall : ((w.server.streams (streamOf C A instanceId i)).take n).filter (readable C) =
        (w.server.streams (streamOf C A instanceId i)).take n :=
      List.filter_eq_self.mpr fun r hr => hreadable r (List.mem_of_mem_take hr)
    rw [hall] at hstate
    refine ⟨fun hle => ?_, fun hle => ?_⟩
    · rw [hstate, hexact.folded]
      exact replayEvents_take hle
    · rw [hexact.folded, hstate]
      exact replayEvents_take hle

end World

namespace ViewsAgreeWitness

open ActorRunsWitness StoredCodecWitness World

/-- A door of the type that the metadata of the crates names. -/
def namedDoor : Aggregate := doorOf "marker"

theorem namedDoor_eventsSurvive : namedDoor.EventsSurvive crates := by
  intro e newV4 ctx aggregateType instanceId p henc streamId version position recordedAt
  cases henc
  rw [decodeDomainEvent_of_parses crates_parses_null rfl]
  rfl

theorem crates_uuidsReadBack : UuidsReadBack crates := GlobalLogWitness.crates_uuidsReadBack

/-- Spawn, and open the door. -/
def opening : List (WorldAction Unit fun _ => namedDoor) :=
  [.spawn () none, .serve () (.server 0), .settle (),
    .receive () (.execute () byUser fun _ _ => 7), .serve () (.server 0), .settle ()]

theorem opening_spawnsGood : ∀ a ∈ opening, ∀ o : World (fun _ : Unit => namedDoor) ×
    List RecordedEvent, o.1.SpawnsGood crates firstId () a := by
  intro a ha o
  simp only [opening, List.mem_cons, List.not_mem_nil, or_false] at ha
  rcases ha with rfl | rfl | rfl | rfl | rfl | rfl
  · rintro - _ ⟨⟩
  all_goals trivial

def doorStream : Uuid := streamUuid crates "marker" "m-1"

def openedEvent : ProposedEventData :=
  ⟨7, "Opened", .null, "marker", "m-1", some "user-1", none, none⟩

theorem openedEvent_readable : readable crates
    (recordEvent crates doorStream 0 0 0 (toProtoEvent crates openedEvent)) = true := by
  have hdecode := decodeStoredEvent_of_parses (p := openedEvent) crates_parses_null
    crates_parses_openedMetadata (crates_uuidsReadBack _) (crates_uuidsReadBack doorStream)
    0 0 0
  rw [readable, hdecode]
  rfl

/-- The record is readable; the mirror that has folded nothing yet reaches the actor by
the records that the actor has read. -/
theorem projections_agree_with_actors_door :
    ∃ w log, runActions (logStep crates firstId) (emptyWorld namedDoor, []) opening =
        some (w, log) ∧
      ∀ l, (w.slots ()).pair? = some l →
        l.state = replay (decodeDomainEvent crates namedDoor) namedDoor.apply
          namedDoor.default (((w.server.streams doorStream).take l.fromVersion).drop 0) := by
  obtain ⟨w, log, hrun, hstream⟩ : ∃ w log, runActions (logStep crates firstId)
      (emptyWorld namedDoor, []) opening = some (w, log) ∧ w.server.streams doorStream =
        [recordEvent crates doorStream 0 0 0 (toProtoEvent crates openedEvent)] :=
    ⟨_, _, rfl, rfl⟩
  obtain ⟨-, hmirror⟩ := projections_agree_with_actors crates_uuidsReadBack
    (emptyWorld_fresh namedDoor) rfl () namedDoor_eventsSurvive
    (Reaches.run .start opening (allOk_of_mem opening_spawnsGood _) hrun)
  refine ⟨w, log, hrun, fun l hpair => ?_⟩
  obtain ⟨-, hread⟩ := hmirror "doors" (Runner.projection (mirror namedDoor doorStream
    "doors")).start 0 (Runner.start_consistent _ log) (by rw [Runner.start, below_zero]; rfl)
  refine (hread l hpair fun r hr => ?_).2 (Nat.zero_le _)
  change r ∈ w.server.streams doorStream at hr
  rw [hstream] at hr
  rw [List.mem_singleton.mp hr]
  exact openedEvent_readable

end ViewsAgreeWitness

end EventfoldEs
