/-
The round trip of a domain event through the store: taken apart by
`encode_domain_event`, printed, stored, and put together again by
`decode_domain_event`.
-/
import EventfoldEs.Server
import EventfoldEs.Lib.Replay

namespace EventfoldEs

open Replay

variable {C : Crates} {A : Aggregate}

/-- The representation the crate expects of a domain event: an object with a
string `type` and, for a variant that carries data, a `data` entry. -/
def Aggregate.AdjacentlyTagged (A : Aggregate) : Prop :=
  ∀ e v, A.toValue e = .ok v → ∃ tag, v = .object [("type", .string tag)] ∨
    ∃ content, v = .object [("data", content), ("type", .string tag)]

/-- The serde implementation of the event type reads back what it writes. -/
def Aggregate.SerdeRoundTrips (A : Aggregate) : Prop :=
  ∀ e v, A.toValue e = .ok v → A.fromValue v = .ok e

/-- The event is not serialised with an explicit null content, unless it is
also read back from the envelope without the content. -/
def Aggregate.NullContentOptional (A : Aggregate) (e : A.DomainEvent) : Prop :=
  ∀ tag, A.toValue e = .ok (.object [("data", .null), ("type", .string tag)]) →
    A.fromValue (.object [("type", .string tag)]) = .ok e

/-- What `encode_domain_event` has found when it succeeds. -/
theorem encodeDomainEvent_eq_ok {newV4 : Uuid} {e : A.DomainEvent}
    {ctx : CommandContext} {aggregateType instanceId : String}
    {p : ProposedEventData}
    (henc : encodeDomainEvent A newV4 e ctx aggregateType instanceId = .ok p) :
    ∃ obj, A.toValue e = .ok (.object obj) ∧
      obj.lookup "type" = some (.string p.eventType) ∧
      p.payload = (obj.lookup "data").getD .null ∧
      p.eventId = newV4 ∧ p.metadata = ⟨aggregateType, instanceId, ctx.actor,
        ctx.correlationId, ctx.sourceDevice⟩ := by
  unfold encodeDomainEvent at henc
  cases hvalue : A.toValue e with
  | error err => simp [hvalue, Except.mapError, bind, Except.bind] at henc
  | ok v =>
      cases v with
      | object obj =>
          cases htype : obj.lookup "type" with
          | none =>
              simp [hvalue, htype, Except.mapError, bind, Except.bind,
                Value.asObject, throw, throwThe, MonadExceptOf.throw] at henc
          | some tag =>
              cases tag with
              | string s =>
                  simp only [hvalue, htype, Except.mapError, bind, Except.bind,
                    Value.asObject, Value.asStr, pure, Except.pure,
                    Except.ok.injEq] at henc
                  subst henc
                  exact ⟨obj, rfl, htype, rfl, rfl, rfl⟩
              | _ =>
                  simp [hvalue, htype, Except.mapError, bind, Except.bind,
                    Value.asObject, Value.asStr, throw, throwThe,
                    MonadExceptOf.throw] at henc
      | _ =>
          simp [hvalue, Except.mapError, bind, Except.bind, Value.asObject,
            throw, throwThe, MonadExceptOf.throw] at henc

/-- The payload text reaches the decoder as the value it was printed from. -/
theorem decodeDomainEvent_of_parses {recorded : RecordedEvent} {payload : Value}
    (hparse : C.Parses payload)
    (hstored : recorded.payload = (C.toVec payload).getD .empty) :
    decodeDomainEvent C A recorded =
      (A.fromValue (taggedEnvelope recorded.eventType payload)).toOption := by
  obtain ⟨text, hprint, hne, hread⟩ := hparse
  have hbytes : recorded.payload = text.toUTF8 := by
    simpa [hprint] using hstored
  have hempty : text.isEmpty = false := by
    simpa [String.isEmpty_iff] using hne
  simp only [decodeDomainEvent, hbytes, utf8_bytes_decode, hempty, hread, bind,
    Option.bind]
  rfl

theorem toOption_eq_some_iff {ε α : Type} {r : Except ε α} {a : α} :
    r.toOption = some a ↔ r = .ok a := by
  cases r <;> simp [Except.toOption]

/-- An event whose content is not an explicit null is decoded from the value
it was serialised to. -/
theorem envelope_of_encoded (hadj : A.AdjacentlyTagged) {e : A.DomainEvent}
    {newV4 : Uuid} {ctx : CommandContext} {aggregateType instanceId : String}
    {p : ProposedEventData}
    (henc : encodeDomainEvent A newV4 e ctx aggregateType instanceId = .ok p) :
    A.toValue e = .ok (taggedEnvelope p.eventType p.payload) ∨
      A.toValue e = .ok (.object [("data", .null), ("type", .string p.eventType)]) ∧
        taggedEnvelope p.eventType p.payload =
          .object [("type", .string p.eventType)] := by
  obtain ⟨obj, hvalue, htype, hpayload, -⟩ := encodeDomainEvent_eq_ok henc
  obtain ⟨tag, hunit | ⟨content, hdata⟩⟩ := hadj e _ hvalue
  · simp only [Value.object.injEq] at hunit
    subst hunit
    have htag : tag = p.eventType := by simpa [List.lookup_cons] using htype
    have hnull : p.payload = .null := by simpa [List.lookup_cons] using hpayload
    exact Or.inl (by rw [hvalue, hnull, htag]; rfl)
  · simp only [Value.object.injEq] at hdata
    subst hdata
    have htag : tag = p.eventType := by simpa [List.lookup_cons] using htype
    have hcontent : p.payload = content := by simpa [List.lookup_cons] using hpayload
    cases hisNull : content.isNull with
    | true =>
        have hnull := (Value.isNull_iff content).mp hisNull
        refine Or.inr ⟨by rw [hvalue, hnull, htag], ?_⟩
        rw [hcontent, hnull]
        rfl
    | false =>
        refine Or.inl ?_
        rw [hvalue, hcontent, htag, taggedEnvelope, hisNull]
        rfl

/-- The decoder gives an appended event back exactly when its content is not
an explicit null, or the missing content is read as that null; replaying the
record is then the same as applying the event. -/
theorem decode_encoded_iff_nullContentOptional (hadj : A.AdjacentlyTagged)
    (hserde : A.SerdeRoundTrips) (e : A.DomainEvent) (newV4 : Uuid)
    (ctx : CommandContext) (aggregateType instanceId : String)
    (p : ProposedEventData)
    (henc : encodeDomainEvent A newV4 e ctx aggregateType instanceId = .ok p)
    (hparse : C.Parses p.payload) (streamId : Uuid)
    (version position recordedAt : Nat) :
    (decodeDomainEvent C A (recordEvent C streamId version position recordedAt
        (toProtoEvent C p)) = some e ∧
      ∀ s, absorb (decodeDomainEvent C A) A.apply s
        (recordEvent C streamId version position recordedAt
          (toProtoEvent C p)) = A.apply s e) ↔
      A.NullContentOptional e := by
  have hdecode := decodeDomainEvent_of_parses (A := A) hparse
    (rfl : (recordEvent C streamId version position recordedAt
      (toProtoEvent C p)).payload = _)
  have htype : (recordEvent C streamId version position recordedAt
      (toProtoEvent C p)).eventType = p.eventType := rfl
  rw [htype] at hdecode
  constructor
  · rintro ⟨hsome, -⟩ tag htag
    rw [hdecode, toOption_eq_some_iff] at hsome
    rcases envelope_of_encoded hadj henc with hvalue | ⟨hvalue, henvelope⟩
    · have hsame : taggedEnvelope p.eventType p.payload =
          .object [("data", .null), ("type", .string tag)] :=
        Except.ok.inj (hvalue.symm.trans htag)
      unfold taggedEnvelope at hsame
      split at hsame
      · simp at hsame
      · simp_all [Value.isNull]
    · have hsame : p.eventType = tag := by
        have := Except.ok.inj (hvalue.symm.trans htag)
        simpa using this
      rw [henvelope, hsame] at hsome
      exact hsome
  · intro hnull
    have hsome : decodeDomainEvent C A (recordEvent C streamId version position
        recordedAt (toProtoEvent C p)) = some e := by
      rw [hdecode, toOption_eq_some_iff]
      rcases envelope_of_encoded hadj henc with hvalue | ⟨hvalue, henvelope⟩
      · exact hserde e _ hvalue
      · rw [henvelope]
        exact hnull _ hvalue
    exact ⟨hsome, fun s => absorb_of_decodes hsome s⟩

namespace EventCodecWitness

/-- `enum MarkerEvent { Opened, Marked(()) }`, adjacently tagged. -/
inductive MarkerEvent
  | opened
  | marked (content : Unit)
deriving DecidableEq, Repr

inductive MarkerCommand
  | open
  | mark
deriving DecidableEq, Repr

def markerToValue : MarkerEvent → Value
  | .opened => .object [("type", .string "Opened")]
  | .marked () => .object [("data", .null), ("type", .string "Marked")]

/-- The derived `Deserialize`: a newtype variant without its content is a
missing field unless the content is an `Option`. -/
def markerFromValue (v : Value) : Except String MarkerEvent :=
  match (v.get "type").bind Value.asStr, v.get "data" with
  | some "Opened", none => .ok .opened
  | some "Opened", some .null => .ok .opened
  | some "Marked", none => .error "missing field data"
  | some "Marked", some .null => .ok (.marked ())
  | some _, _ => .error "unknown variant or content"
  | none, _ => .error "missing field type"

/-- Counts what it has seen; it can be opened only once it is marked. -/
def marker : Aggregate where
  State := Nat
  Command := MarkerCommand
  DomainEvent := MarkerEvent
  Error := String
  aggregateType := "marker"
  default := 0
  handle state
    | .mark => .ok [.marked ()]
    | .open => if state = 0 then .error "not marked" else .ok [.opened]
  apply state _ := state + 1
  toValue e := .ok (markerToValue e)
  fromValue := markerFromValue

/-- Stand-ins for the crates that print and read `null`. -/
def crates : Crates where
  newV5 _ name := BitVec.ofNat 128
    (name.data.foldl (fun acc b => acc * 257 + b.toNat + 1) 0)
  uuidToString u := String.ofList (Nat.toDigits 10 u.toNat)
  uuidParseStr text := some
    (BitVec.ofNat 128 (text.toList.foldl (fun acc c => acc * 10 + (c.toNat - 48)) 0))
  toVec
    | .null => some "null".toUTF8
    | _ => none
  fromStr text := if text = "null" then some .null else none
  statusToString status := status.message
  joinErrorToString message := message

theorem crates_parses_null : crates.Parses .null :=
  ⟨"null", rfl, by decide, rfl⟩

theorem marker_adjacentlyTagged : marker.AdjacentlyTagged := by
  intro e v hvalue
  cases hvalue
  cases e with
  | opened => exact ⟨"Opened", Or.inl rfl⟩
  | marked content => exact ⟨"Marked", Or.inr ⟨.null, rfl⟩⟩

theorem marker_serdeRoundTrips : marker.SerdeRoundTrips := by
  intro e v hvalue
  cases hvalue
  cases e <;> rfl

theorem decode_encoded_iff_nullContentOptional_opened :
    (decodeDomainEvent crates marker (recordEvent crates 3 0 0 0
        (toProtoEvent crates ⟨7, "Opened", .null, "marker", "m-1", none, none, none⟩)) =
          some MarkerEvent.opened ∧
      ∀ s, absorb (decodeDomainEvent crates marker) marker.apply s
        (recordEvent crates 3 0 0 0 (toProtoEvent crates
          ⟨7, "Opened", .null, "marker", "m-1", none, none, none⟩)) =
            marker.apply s MarkerEvent.opened) ↔
      marker.NullContentOptional MarkerEvent.opened :=
  decode_encoded_iff_nullContentOptional marker_adjacentlyTagged
    marker_serdeRoundTrips MarkerEvent.opened 7 .default "marker" "m-1" _ rfl
    crates_parses_null 3 0 0 0

/-- `Marked(())` is written with a null `data`, and the decoder drops it. -/
theorem marked_event_not_decoded :
    marker.AdjacentlyTagged ∧ marker.SerdeRoundTrips ∧
      ∃ p, encodeDomainEvent marker 7 (.marked ()) .default "marker" "m-1" = .ok p ∧
        crates.Parses p.payload ∧
        decodeDomainEvent crates marker
          (recordEvent crates 3 0 0 0 (toProtoEvent crates p)) = none := by
  refine ⟨marker_adjacentlyTagged, marker_serdeRoundTrips, _, rfl,
    crates_parses_null, ?_⟩
  rw [decodeDomainEvent_of_parses crates_parses_null rfl]
  rfl

end EventCodecWitness

end EventfoldEs
