/-
The global log: what the steps of a run append, in the order of their commits.  A
stream is the part of the log that names it, and the position of a record is its place
in the log.
-/
import EventfoldEs.StreamIsolation
import EventfoldEs.ActorRuns
import EventfoldEs.Lib.OrderedLog

namespace EventfoldEs

open Async OrderedLog

variable {C : Crates}

/-- Every call of an actor goes to the stream `id`. -/
def Slot.Home {A : Aggregate} (id : Uuid) : Slot A → Prop
  | .spawning _ fut => fut.Only (StoreOp.GoesTo id)
  | .busy _ _ fut => fut.Only (StoreOp.GoesTo id)
  | _ => True

/-- A call leaves the server or commits to the one stream it goes to. -/
theorem StoreOp.GoesTo.serve_server {id : Uuid} {op : StoreOp} (hop : op.GoesTo id)
    {answer : Answer} {s s' : Server} {trail trail' : Trail} {r : op.Res}
    (hserve : op.serve C answer (s, trail) = some (r, (s', trail'))) :
    s' = s ∨ ∃ events recordedAt, s' = s.commit C id events recordedAt := by
  cases op with
  | append other expected events =>
      change other = id at hop
      subst hop
      rcases serve_append_cases hserve with
        ⟨_, at', -, -, -, hs, -⟩ | ⟨_, -, -, -, hs, -⟩ |
        ⟨_, -, -, ⟨hs, -⟩ | ⟨at', -, hs, -⟩⟩
      · exact Or.inr ⟨_, at', hs⟩
      · exact Or.inl hs
      · exact Or.inl hs
      · exact Or.inr ⟨_, at', hs⟩
  | readStream other n count =>
      refine Or.inl ?_
      cases answer with
      | server recordedAt =>
          simp only [StoreOp.serve] at hserve
          split at hserve <;>
            simp only [Option.some.injEq, Prod.mk.injEq] at hserve <;>
            exact hserve.2.1.symm
      | fault status committed recordedAt =>
          simp only [StoreOp.serve] at hserve
          split at hserve
          · cases hserve
          · simp only [Option.some.injEq, Prod.mk.injEq] at hserve
            exact hserve.2.1.symm
  | panic => exact r.elim

namespace World

variable {ι : Type} [DecidableEq ι] {A : ι → Aggregate} {instanceId : ι → String}

def Home (C : Crates) (instanceId : ι → String) (w : World A) : Prop :=
  ∀ i, (w.slots i).Home (streamOf C A instanceId i)

omit [DecidableEq ι] in
theorem Fresh.home {w : World A} (hfresh : w.Fresh) : w.Home C instanceId := by
  intro i
  rw [hfresh.absent i]
  trivial

theorem Home.of_slot {w w' : World A} (hw : w.Home C instanceId) (i : ι)
    (slot : Slot (A i)) (hslots : w'.slots = (w.setSlot i slot).slots)
    (hslot : slot.Home (streamOf C A instanceId i)) : w'.Home C instanceId := by
  intro j
  rw [hslots]
  by_cases heq : j = i
  · subst heq
    rw [setSlot_slots_self]
    exact hslot
  · rw [setSlot_slots_ne w heq]
    exact hw j

/-- No actor ever comes to a call that goes to another stream. -/
theorem home_step {w w' : World A} (hw : w.Home C instanceId) {a : WorldAction ι A}
    (hstep : w.step C instanceId a = some w') : w'.Home C instanceId := by
  cases a with
  | foreign id events recordedAt =>
      simp only [step, Option.some.injEq] at hstep
      subst hstep
      exact hw
  | serve i answer =>
      have hi := hw i
      cases served_of_serveSlot C hstep with
      | spawning hslot _ hnext =>
          subst hnext
          rw [hslot] at hi
          exact hw.of_slot i _ rfl (hi.2 _)
      | busy hslot _ hnext =>
          subst hnext
          rw [hslot] at hi
          exact hw.of_slot i _ rfl (hi.2 _)
  | settle i =>
      cases settled_of_settleSlot hstep with
      | spawned _ hnext =>
          subst hnext
          exact hw.of_slot i (.idle _ _) rfl trivial
      | replied _ hnext =>
          subst hnext
          exact hw.of_slot i (.idle _ _) rfl trivial
      | ended hnext =>
          subst hnext
          exact hw.of_slot i .absent rfl trivial
  | spawn i snapshot =>
      simp only [step] at hstep
      split at hstep <;> simp only [Option.some.injEq, reduceCtorEq] at hstep
      subst hstep
      refine hw.of_slot i (.spawning _ _) rfl ⟨rfl, ?_⟩
      rintro (status | newer) <;> trivial
  | receive i msg =>
      simp only [step] at hstep
      split at hstep <;> simp only [Option.some.injEq, reduceCtorEq] at hstep
      subst hstep
      exact hw.of_slot i (.busy _ _ _) rfl (onMessage_goesTo _ (instanceId i) _ msg)
  | exit i saved =>
      simp only [step] at hstep
      split at hstep <;> simp only [Option.some.injEq, reduceCtorEq] at hstep
      subst hstep
      exact hw.of_slot i .absent rfl trivial

end World

/-- The stream an action may append to. -/
def WorldAction.stream? {ι : Type} {A : ι → Aggregate} (C : Crates)
    (instanceId : ι → String) : WorldAction ι A → Option Uuid
  | .foreign id _ _ => some id
  | .serve i _ => some (streamOf C A instanceId i)
  | _ => none

/-- The records carry the positions `start, start + 1, ...`. -/
def Positioned : Nat → List RecordedEvent → Prop
  | _, [] => True
  | start, r :: rest => r.globalPosition = start ∧ Positioned (start + 1) rest

theorem Positioned.append {start : Nat} {older newer : List RecordedEvent} :
    Positioned start (older ++ newer) ↔
      Positioned start older ∧ Positioned (start + older.length) newer := by
  induction older generalizing start with
  | nil => simp [Positioned]
  | cons r rest ih =>
      simp only [List.cons_append, Positioned, ih, List.length_cons, and_assoc]
      rw [show start + 1 + rest.length = start + (rest.length + 1) by omega]

theorem Positioned.get {start i : Nat} {log : List RecordedEvent} {r : RecordedEvent}
    (hlog : Positioned start log) (hr : log[i]? = some r) : r.globalPosition = start + i := by
  induction log generalizing start i with
  | nil => cases hr
  | cons head rest ih =>
      cases i with
      | zero =>
          cases hr
          exact hlog.1
      | succ i =>
          rw [ih hlog.2 hr]
          omega

theorem Positioned.lower_bound {start : Nat} {log : List RecordedEvent}
    (hlog : Positioned start log) : ∀ r ∈ log, start ≤ r.globalPosition := by
  intro r hr
  obtain ⟨i, hi⟩ := List.mem_iff_getElem?.mp hr
  rw [hlog.get hi]
  exact Nat.le_add_right _ _

theorem Positioned.increasing {start : Nat} {log : List RecordedEvent}
    (hlog : Positioned start log) : Increasing RecordedEvent.globalPosition log := by
  induction log generalizing start with
  | nil => exact List.Pairwise.nil
  | cons head rest ih =>
      refine List.Pairwise.cons (fun r hr => ?_) (ih hlog.2)
      rw [hlog.1]
      exact hlog.2.lower_bound r hr

theorem recordBlock_positioned (id : Uuid) (version position recordedAt : Nat)
    (events : List ProposedEvent) :
    Positioned position (recordBlock C id version position recordedAt events) := by
  induction events generalizing version position with
  | nil => trivial
  | cons e rest ih => exact ⟨rfl, ih (version + 1) (position + 1)⟩

theorem recordBlock_streamId (id : Uuid) (version position recordedAt : Nat)
    (events : List ProposedEvent) :
    ∀ r ∈ recordBlock C id version position recordedAt events,
      r.streamId = C.uuidToString id := by
  induction events generalizing version position with
  | nil => exact fun r hr => by cases hr
  | cons e rest ih =>
      intro r hr
      rcases List.mem_cons.mp hr with rfl | hr
      · rfl
      · exact ih (version + 1) (position + 1) r hr

/-- The part of a log that names a stream. -/
def ofStream (C : Crates) (id : Uuid) (log : List RecordedEvent) : List RecordedEvent :=
  log.filter fun r => decide (r.streamId = C.uuidToString id)

theorem ofStream_append (id : Uuid) (older newer : List RecordedEvent) :
    ofStream C id (older ++ newer) = ofStream C id older ++ ofStream C id newer :=
  List.filter_append ..

theorem ofStream_cons_self {id : Uuid} {r : RecordedEvent}
    (hr : r.streamId = C.uuidToString id) (rest : List RecordedEvent) :
    ofStream C id (r :: rest) = r :: ofStream C id rest := by
  simp [ofStream, hr]

theorem ofStream_cons_ne {id : Uuid} {r : RecordedEvent}
    (hr : r.streamId ≠ C.uuidToString id) (rest : List RecordedEvent) :
    ofStream C id (r :: rest) = ofStream C id rest := by
  simp [ofStream, hr]

/-- A UUID is read back from its text. -/
def UuidsReadBack (C : Crates) : Prop := ∀ id, C.uuidParseStr (C.uuidToString id) = some id

theorem ofStream_recordBlock_self (id : Uuid) (version position recordedAt : Nat)
    (events : List ProposedEvent) :
    ofStream C id (recordBlock C id version position recordedAt events) =
      recordBlock C id version position recordedAt events := by
  refine List.filter_eq_self.mpr fun r hr => ?_
  exact decide_eq_true (recordBlock_streamId id version position recordedAt events r hr)

theorem ofStream_recordBlock_ne (huuid : UuidsReadBack C) {id other : Uuid}
    (hne : other ≠ id) (version position recordedAt : Nat) (events : List ProposedEvent) :
    ofStream C other (recordBlock C id version position recordedAt events) = [] := by
  have htext : C.uuidToString id ≠ C.uuidToString other := by
    intro heq
    refine hne (Option.some.inj ?_)
    rw [← huuid other, ← heq, huuid id]
  refine List.filter_eq_nil_iff.mpr fun r hr => ?_
  rw [recordBlock_streamId id version position recordedAt events r hr]
  exact fun h => htext (of_decide_eq_true h)

namespace World

variable {ι : Type} [DecidableEq ι] {A : ι → Aggregate} {instanceId : ι → String}

/-- What a step appends. -/
def appendedBy (C : Crates) (instanceId : ι → String) (w : World A) (a : WorldAction ι A)
    (w' : World A) : List RecordedEvent :=
  match a.stream? C instanceId with
  | some id => (w'.server.streams id).drop (w.server.streams id).length
  | none => []

/-- The actors, with the global log of what they and others append. -/
abbrev logStep (C : Crates) (instanceId : ι → String) :
    World A × List RecordedEvent → WorldAction ι A → Option (World A × List RecordedEvent) :=
  notedStep (step C instanceId) fun w a w' log => log ++ appendedBy C instanceId w a w'

/-- The log holds every record once, at its position, and a stream is the part of it
that names the stream. -/
structure LogOf (C : Crates) (server : Server) (log : List RecordedEvent) : Prop where
  positioned : Positioned 0 log
  length : log.length = server.nextPosition
  named : ∀ r ∈ log, ∃ id, r.streamId = C.uuidToString id
  streams : ∀ id, server.streams id = ofStream C id log

theorem LogOf.commit (huuid : UuidsReadBack C) {server : Server} {log : List RecordedEvent}
    (hlog : LogOf C server log) (id : Uuid) (events : List ProposedEvent)
    (recordedAt : Nat) :
    LogOf C (server.commit C id events recordedAt)
      (log ++ server.block C id events recordedAt) where
  positioned := by
    refine Positioned.append.mpr ⟨hlog.positioned, ?_⟩
    rw [Nat.zero_add, hlog.length]
    exact recordBlock_positioned id _ _ _ _
  length := by
    rw [List.length_append, hlog.length, Server.block_length]
    rfl
  named r hr := by
    rcases List.mem_append.mp hr with hold | hnew
    · exact hlog.named r hold
    · exact ⟨id, recordBlock_streamId id _ _ _ _ r hnew⟩
  streams other := by
    rw [ofStream_append, ← hlog.streams other]
    by_cases heq : other = id
    · subst heq
      rw [Server.commit_streams_self, Server.block, ofStream_recordBlock_self]
    · rw [Server.commit_streams_ne C server heq, Server.block,
        ofStream_recordBlock_ne huuid heq, List.append_nil]

/-- A step leaves the server, or commits to the stream of its action. -/
theorem step_server {w w' : World A} (hhome : w.Home C instanceId) {a : WorldAction ι A}
    (hstep : w.step C instanceId a = some w') :
    w'.server = w.server ∨ ∃ id events recordedAt, a.stream? C instanceId = some id ∧
      w'.server = w.server.commit C id events recordedAt := by
  cases a with
  | foreign id events recordedAt =>
      simp only [step, Option.some.injEq] at hstep
      exact Or.inr ⟨id, events, recordedAt, rfl, hstep ▸ rfl⟩
  | serve i answer =>
      have hi := hhome i
      cases served_of_serveSlot C hstep with
      | spawning hslot hserve hnext =>
          rw [hslot] at hi
          rcases hi.1.serve_server hserve with hs | ⟨events, recordedAt, hs⟩
          · exact Or.inl (hnext ▸ hs)
          · exact Or.inr ⟨_, events, recordedAt, rfl, hnext ▸ hs⟩
      | busy hslot hserve hnext =>
          rw [hslot] at hi
          rcases hi.1.serve_server hserve with hs | ⟨events, recordedAt, hs⟩
          · exact Or.inl (hnext ▸ hs)
          · exact Or.inr ⟨_, events, recordedAt, rfl, hnext ▸ hs⟩
  | settle i =>
      cases settled_of_settleSlot hstep with
      | spawned _ hnext => exact Or.inl (hnext ▸ rfl)
      | replied _ hnext => exact Or.inl (hnext ▸ rfl)
      | ended hnext => exact Or.inl (hnext ▸ rfl)
  | spawn i snapshot =>
      simp only [step] at hstep
      split at hstep <;> simp only [Option.some.injEq, reduceCtorEq] at hstep
      exact Or.inl (hstep ▸ rfl)
  | receive i msg =>
      simp only [step] at hstep
      split at hstep <;> simp only [Option.some.injEq, reduceCtorEq] at hstep
      exact Or.inl (hstep ▸ rfl)
  | exit i saved =>
      simp only [step] at hstep
      split at hstep <;> simp only [Option.some.injEq, reduceCtorEq] at hstep
      exact Or.inl (hstep ▸ rfl)

theorem logOf_step (huuid : UuidsReadBack C) {w w' : World A} {log : List RecordedEvent}
    (hhome : w.Home C instanceId) (hlog : LogOf C w.server log) {a : WorldAction ι A}
    (hstep : w.step C instanceId a = some w') :
    LogOf C w'.server (log ++ appendedBy C instanceId w a w') := by
  rcases step_server hhome hstep with hs | ⟨id, events, recordedAt, hid, hs⟩
  · have hnone : appendedBy C instanceId w a w' = [] := by
      rw [appendedBy, hs]
      cases a.stream? C instanceId with
      | none => rfl
      | some id => exact List.drop_length
    rw [hnone, List.append_nil, hs]
    exact hlog
  · have hblock : appendedBy C instanceId w a w' = w.server.block C id events recordedAt := by
      rw [appendedBy, hid, hs]
      change ((w.server.commit C id events recordedAt).streams id).drop _ = _
      rw [Server.commit_streams_self, List.drop_left]
    rw [hblock, hs]
    exact hlog.commit huuid id events recordedAt

/-- What every run keeps of the actors and the log. -/
def LogKept (C : Crates) (instanceId : ι → String) (o : World A × List RecordedEvent) :
    Prop :=
  o.1.Home C instanceId ∧ LogOf C o.1.server o.2

theorem logKept_step (huuid : UuidsReadBack C) {o o' : World A × List RecordedEvent}
    (hkept : LogKept C instanceId o) {a : WorldAction ι A}
    (hstep : logStep C instanceId o a = some o') : LogKept C instanceId o' := by
  obtain ⟨hstep, hnote⟩ := notedStep_cases hstep
  refine ⟨home_step hkept.1 hstep, ?_⟩
  rw [hnote]
  exact logOf_step huuid hkept.1 hkept.2 hstep

theorem logKept_of_reaches (huuid : UuidsReadBack C) {o₀ o : World A × List RecordedEvent}
    (hkept : LogKept C instanceId o₀)
    (hreach : Reaches (logStep C instanceId) (fun _ _ => True) o₀ o) :
    LogKept C instanceId o :=
  hreach.invariant hkept fun _ _ _ hkept _ hstep => logKept_step huuid hkept hstep

/-- In every run the positions number the global log without a gap, and every stream is
the part of the log that names it, in the order of the log. -/
theorem streams_partition_global_log (huuid : UuidsReadBack C) {w₀ w : World A}
    {log : List RecordedEvent} (hfresh : w₀.Fresh)
    (hempty : w₀.server = ⟨fun _ => [], 0⟩)
    (hreach : Reaches (logStep C instanceId) (fun _ _ => True) (w₀, []) (w, log)) :
    log.length = w.server.nextPosition ∧
      (∀ i (r : RecordedEvent), log[i]? = some r → r.globalPosition = i) ∧
      Increasing RecordedEvent.globalPosition log ∧
      ∀ id, w.server.streams id = ofStream C id log := by
  have hinv : LogKept C instanceId (w, log) := by
    refine logKept_of_reaches huuid ⟨hfresh.home, ?_⟩ hreach
    rw [hempty]
    exact ⟨trivial, rfl, List.forall_mem_nil _, fun _ => rfl⟩
  refine ⟨hinv.2.length, fun i r hr => ?_, hinv.2.positioned.increasing, hinv.2.streams⟩
  rw [hinv.2.positioned.get hr, Nat.zero_add]

end World

namespace GlobalLogWitness

open ActorRunsWitness EventCodecWitness World

theorem crates_uuidsReadBack : UuidsReadBack crates := by
  intro id
  have hdigits := Nat.ofDigitChars_toDigits (b := 10) (n := id.toNat) (by decide) (by decide)
  rw [Nat.ofDigitChars_eq_foldl] at hdigits
  have hread : (Nat.toDigits 10 id.toNat).foldl (fun acc c => acc * 10 + (c.toNat - 48)) 0 =
      id.toNat := by
    refine Eq.trans ?_ hdigits
    congr 1
    funext acc c
    exact congrArg (· + (c.toNat - 48)) (Nat.mul_comm acc 10)
  change some (BitVec.ofNat 128 ((String.ofList (Nat.toDigits 10 id.toNat)).toList.foldl
    (fun acc c => acc * 10 + (c.toNat - 48)) 0)) = some id
  rw [String.toList_ofList, hread, BitVec.ofNat_toNat, BitVec.setWidth_eq]

end GlobalLogWitness

end EventfoldEs
