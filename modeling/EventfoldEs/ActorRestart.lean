/-
Leaving and coming back: the snapshot an actor saves on exit, and what the next
spawn makes of it, compared with a spawn that replays the whole stream.
-/
import EventfoldEs.ActorRuns

namespace EventfoldEs

open Async Replay

variable (C : Crates) {A : Aggregate}

/-- What a spawn comes to on a server that answers. -/
def spawnOn (A : Aggregate) (instanceId : String)
    (snapshot : Option (Snapshot A.State)) (s : Server) :
    Option (Except Status (ActorLocals A)) :=
  ((spawnActorWithStore C A instanceId snapshot).runOn
    (fun op x => op.serve C (.server 0) x) (s, (⟨[], []⟩ : Trail))).map Prod.fst

/-- From `s` on, whoever else writes, a spawn from the snapshot reaches the
state and the version of a spawn without it. -/
def RestartTransparent (A : Aggregate) (instanceId : String)
    (snap : Snapshot A.State) (s : Server) : Prop :=
  ∀ t : Server, s.Extends t → t.WellFormed →
    spawnOn C A instanceId (some snap) t = spawnOn C A instanceId none t

/-- When an exit may save its snapshot: the actor has a version, or the stream
was written meanwhile and its first event does not show in the replay. -/
def ExitSees (l : ActorLocals A) (stream : List RecordedEvent) : Prop :=
  l.streamVersion ≠ none ∨
    stream ≠ [] ∧ replayEvents C A stream.tail = replayEvents C A stream

variable {C}

theorem spawnOn_eq {instanceId : String} {snapshot : Option (Snapshot A.State)}
    {s : Server} (hs : s.WellFormed) :
    spawnOn C A instanceId snapshot s =
      some (.ok ((startLocals A snapshot).foldEvents C
        ((s.streams (streamUuid C A.aggregateType instanceId)).drop
          (startLocals A snapshot).fromVersion))) := by
  have hread := clientReadStream_all hs (streamUuid C A.aggregateType instanceId)
    (startLocals A snapshot).fromVersion
  simp only [spawnOn, spawnActorWithStore, Future.runOn, StoreOp.serve, hread,
    Option.bind_some, Option.map_some]

/-- Transparency of a restart is a property of the stream of the aggregate. -/
theorem restartTransparent_iff {instanceId : String} {snap : Snapshot A.State}
    {s : Server} (hs : s.WellFormed) :
    RestartTransparent C A instanceId snap s ↔
      snap.Transparent C (s.streams (streamUuid C A.aggregateType instanceId)) := by
  constructor
  · intro hrestart later hpre hlater
    let t : Server := ⟨Function.update s.streams
      (streamUuid C A.aggregateType instanceId) later, s.nextPosition⟩
    have hext : s.Extends t := by
      intro id
      by_cases heq : id = streamUuid C A.aggregateType instanceId
      · subst heq
        simpa [t] using hpre
      · simp [t, Function.update_of_ne heq]
    have ht : t.WellFormed := by
      intro id
      by_cases heq : id = streamUuid C A.aggregateType instanceId
      · subst heq
        simpa [t] using hlater
      · simpa [t, Function.update_of_ne heq] using hs id
    have hsame := hrestart t hext ht
    rw [spawnOn_eq ht, spawnOn_eq ht] at hsame
    simpa [t, startLocals, ActorLocals.fromVersion] using hsame
  · intro hsnap t hext ht
    have hload : ∀ snap' ∈ some snap, snap'.Transparent C
        (t.streams (streamUuid C A.aggregateType instanceId)) := by
      rintro _ ⟨⟩
      exact hsnap.mono (hext _)
    rw [spawnOn_eq ht, spawnOn_eq ht, startLocals_foldEvents hload (ht _)]
    rfl

theorem ActorLocals.foldEvents_streamVersion (l : ActorLocals A)
    (events : List RecordedEvent) :
    (l.foldEvents C events).streamVersion =
      (events.getLast?.map RecordedEvent.streamVersion).or l.streamVersion := by
  rcases List.eq_nil_or_concat events with rfl | ⟨init, last, rfl⟩
  · rfl
  · rw [List.concat_eq_append, foldEvents_concat]
    simp

/-- `Some(0)` names the first event: a snapshot of the default state at
version 0 skips it. -/
theorem default_at_zero_transparent_iff {stream : List RecordedEvent}
    (hstream : Versioned 0 stream) :
    (⟨A.default, 0⟩ : Snapshot A.State).Transparent C stream ↔
      stream ≠ [] ∧ replayEvents C A stream.tail = replayEvents C A stream := by
  constructor
  · intro hsnap
    have hsame := hsnap stream List.prefix_rfl hstream
    constructor
    · rintro rfl
      simp [startLocals] at hsame
    · have hstate := congrArg ActorLocals.state hsame
      rw [ActorLocals.foldEvents_state, ActorLocals.foldEvents_state, Nat.zero_add,
        List.drop_one] at hstate
      exact hstate
  · rintro ⟨hne, hskip⟩ later ⟨added, rfl⟩ hlater
    obtain ⟨first, rest, rfl⟩ := List.exists_cons_of_ne_nil hne
    have hfirst : first.streamVersion = 0 := hlater.1
    refine ActorLocals.ext ?_ ?_
    · rw [ActorLocals.foldEvents_state, ActorLocals.foldEvents_state]
      change replayEvents C A (rest ++ added) = replayEvents C A (first :: rest ++ added)
      rw [replayEvents_append, replayEvents_append]
      exact congrArg (fun s => replay (decodeDomainEvent C A) A.apply s added) hskip
    · rw [ActorLocals.foldEvents_streamVersion, ActorLocals.foldEvents_streamVersion]
      change ((rest ++ added).getLast?.map RecordedEvent.streamVersion).or (some 0) =
        ((first :: (rest ++ added)).getLast?.map RecordedEvent.streamVersion).or none
      rcases List.eq_nil_or_concat (rest ++ added) with hnil | ⟨init, last, hlast⟩
      · simp [hnil, hfirst]
      · simp [hlast, List.getLast?_cons]

/-- The exit snapshot of an exact pair is transparent exactly when the exit
sees the first event, or the replay does not miss it. -/
theorem exitSnapshot_transparent_iff {l : ActorLocals A}
    {stream : List RecordedEvent} (hstream : Versioned 0 stream)
    (hl : ExactPrefix C l stream) :
    l.exitSnapshot.Transparent C stream ↔ ExitSees C l stream := by
  cases hversion : l.streamVersion with
  | none =>
      have hzero := l.fromVersion_eq_zero_iff.mpr hversion
      have hdefault : l.state = A.default := by
        rw [hl.folded, hzero]
        rfl
      have hexit : l.exitSnapshot = ⟨A.default, 0⟩ := by
        rw [ActorLocals.exitSnapshot, hversion, hdefault]
        rfl
      rw [hexit, default_at_zero_transparent_iff hstream]
      constructor
      · exact Or.inr
      · rintro (hsome | hskip)
        · exact absurd hversion hsome
        · exact hskip
  | some v =>
      have hgood : l.exitSnapshot.Good C stream := by
        obtain ⟨hbounded, hfolded⟩ := hl
        rw [ActorLocals.fromVersion, hversion] at hbounded hfolded
        rw [ActorLocals.exitSnapshot, hversion]
        exact ⟨hbounded, hfolded⟩
      constructor
      · intro _
        exact Or.inl (by simp [hversion])
      · intro _
        exact hgood.transparent

namespace World

variable (C) {ι : Type} [DecidableEq ι] {A : ι → Aggregate} (instanceId : ι → String)

/-- A spawn of actor `i` loads the snapshot on disk, or none if the file is
gone or does not parse. -/
def LoadsDisk (i : ι) (w : World A) : WorldAction ι A → Prop
  | .spawn j snapshot => j = i → snapshot = w.disk j ∨ snapshot = none
  | _ => True

/-- When actor `i` saves its snapshot on exit, the exit sees the stream. -/
def ExitsSeeing (i : ι) (w : World A) : WorldAction ι A → Prop
  | .exit j saved => j = i → saved = true → ∀ seen l, w.slots j = .idle seen l →
      ExitSees C l (w.server.streams (streamOf C A instanceId j))
  | _ => True

variable {C} {instanceId} {i : ι}

/-- The invariant over lifetimes: besides that of the actors, the snapshot on
disk is transparent. -/
structure DiskInv (C : Crates) (instanceId : ι → String) (i : ι) (w : World A) :
    Prop where
  inv : w.Inv C instanceId (· = i)
  disk : ∀ snap ∈ w.disk i,
    snap.Transparent C (w.server.streams (streamOf C A instanceId i))

omit [DecidableEq ι] in
theorem DiskInv.exit_iff {w : World A} (hinv : w.DiskInv C instanceId i)
    {seen : List RecordedEvent} {l : ActorLocals (A i)}
    (hslot : w.slots i = .idle seen l) :
    l.exitSnapshot.Transparent C (w.server.streams (streamOf C A instanceId i)) ↔
      ExitSees C l (w.server.streams (streamOf C A instanceId i)) := by
  have hnamed := hinv.inv.slots i rfl
  rw [SlotSafe, hslot] at hnamed
  exact exitSnapshot_transparent_iff (hinv.inv.wellFormed _) hnamed.exact

/-- Only an exit of the actor itself replaces its snapshot on disk. -/
theorem step_disk {w w' : World A} {a : WorldAction ι A}
    (hstep : w.step C instanceId a = some w') :
    w'.disk i = w.disk i ∨
      ∃ seen l, a = .exit i true ∧ w.slots i = .idle seen l ∧
        w'.disk i = some l.exitSnapshot := by
  cases a with
  | foreign id events recordedAt =>
      cases hstep
      exact Or.inl rfl
  | spawn j snapshot =>
      simp only [step] at hstep
      split at hstep <;> cases hstep
      exact Or.inl rfl
  | serve j answer =>
      cases served_of_serveSlot C hstep with
      | spawning _ _ hnext => exact Or.inl (by rw [hnext]; rfl)
      | busy _ _ hnext => exact Or.inl (by rw [hnext]; rfl)
  | settle j =>
      cases settled_of_settleSlot hstep with
      | spawned _ hnext => exact Or.inl (by rw [hnext]; rfl)
      | replied _ hnext => exact Or.inl (by rw [hnext]; rfl)
      | ended hnext => exact Or.inl (by rw [hnext]; rfl)
  | receive j msg =>
      simp only [step] at hstep
      split at hstep <;> cases hstep
      exact Or.inl rfl
  | exit j saved =>
      simp only [step] at hstep
      split at hstep <;> cases hstep
      rename_i seen l hslot
      cases saved with
      | false => exact Or.inl rfl
      | true =>
          by_cases heq : i = j
          · subst heq
            exact Or.inr ⟨seen, l, rfl, hslot, by simp⟩
          · exact Or.inl (by simp [Function.update_of_ne heq])

theorem diskInv_step {w w' : World A} (hinv : w.DiskInv C instanceId i)
    (hsurvive : (A i).EventsSurvive C) {a : WorldAction ι A}
    (hload : w.LoadsDisk i a) (hexit : w.ExitsSeeing C instanceId i a)
    (hstep : w.step C instanceId a = some w') : w'.DiskInv C instanceId i := by
  have hadmits : w.Admits C instanceId (· = i) a := by
    cases a with
    | spawn j snapshot =>
        intro hj snap hsnap
        subst hj
        rcases hload rfl with rfl | rfl
        · exact hinv.disk snap hsnap
        · cases hsnap
    | receive j msg => exact executesSurviving_of_eventsSurvive hsurvive (.receive j msg)
    | _ => trivial
  have hgrows := step_grows hinv.inv.wellFormed hstep
  refine ⟨inv_step hinv.inv hadmits hstep, fun snap hsnap => ?_⟩
  rcases step_disk (i := i) hstep with hsame | ⟨seen, l, rfl, hslot, hnew⟩
  · rw [hsame] at hsnap
    exact (hinv.disk snap hsnap).mono (hgrows.1 _)
  · rw [hnew, Option.mem_some_iff] at hsnap
    subst hsnap
    have hsees := hexit rfl rfl seen l hslot
    exact ((hinv.exit_iff hslot).mpr hsees).mono (hgrows.1 _)

/-- In every run whose saving exits see the stream, the snapshot on disk makes
the next spawn indistinguishable from a full replay; and an exit that does not
see the stream would save one that does not. -/
theorem restart_transparent_iff_exit_sees {w₀ w : World A} (hfresh : w₀.Fresh)
    (i : ι) (hsurvive : (A i).EventsSurvive C)
    (hdisk : ∀ snap ∈ w₀.disk i,
      RestartTransparent C (A i) (instanceId i) snap w₀.server)
    (hreach : Reaches (step C instanceId)
      (fun w a => w.LoadsDisk i a ∧ w.ExitsSeeing C instanceId i a) w₀ w) :
    (∀ snap ∈ w.disk i, RestartTransparent C (A i) (instanceId i) snap w.server) ∧
      ∀ seen l, w.slots i = .idle seen l →
        (RestartTransparent C (A i) (instanceId i) l.exitSnapshot w.server ↔
          ExitSees C l (w.server.streams (streamOf C A instanceId i))) := by
  have hstart : w₀.DiskInv C instanceId i :=
    ⟨hfresh.inv, fun snap hsnap =>
      (restartTransparent_iff hfresh.wellFormed).mp (hdisk snap hsnap)⟩
  have hinv : w.DiskInv C instanceId i :=
    hreach.invariant hstart fun _ _ _ hinv hok hstep =>
      diskInv_step hinv hsurvive hok.1 hok.2 hstep
  refine ⟨fun snap hsnap => ?_, fun seen l hslot => ?_⟩
  · exact (restartTransparent_iff hinv.inv.wellFormed).mpr (hinv.disk snap hsnap)
  · rw [restartTransparent_iff hinv.inv.wellFormed]
    exact hinv.exit_iff hslot

end World

namespace ActorRestartWitness

open ActorRunsWitness EventCodecWitness World

/-- Spawn without a snapshot and handle one message. -/
def handling (msg : ActorMessage door) (calls : List (WorldAction Unit fun _ => door)) :
    List (WorldAction Unit fun _ => door) :=
  [.spawn () none, .serve () (.server 0), .settle (), .receive () msg] ++ calls ++
    [.settle ()]

def opening : List (WorldAction Unit fun _ => door) :=
  handling (.execute () .default fun _ _ => 7) [.serve () (.server 0)]

theorem restart_transparent_iff_exit_sees_opened_door :
    ∃ w, runActions (step crates firstId) (emptyWorld door) (opening ++ [.exit () true]) =
        some w ∧
      (w.disk ()).isSome = true ∧
      ∀ snap ∈ w.disk (), RestartTransparent crates door "m-1" snap w.server := by
  have hopening : ∀ a ∈ opening, ∀ w : World fun _ : Unit => door,
      w.LoadsDisk () a ∧ w.ExitsSeeing crates firstId () a := by
    intro a ha w
    simp only [opening, handling, List.mem_append, List.mem_cons, List.not_mem_nil,
      or_false] at ha
    rcases ha with ((rfl | rfl | rfl | rfl) | rfl) | rfl
    · exact ⟨fun _ => Or.inr rfl, trivial⟩
    all_goals exact ⟨trivial, trivial⟩
  refine ⟨_, rfl, rfl, (restart_transparent_iff_exit_sees (emptyWorld_fresh door) ()
    door_eventsSurvive (by rintro _ ⟨⟩) (.next (a := .exit () true)
      (.run .start opening (allOk_of_mem hopening _) rfl) ⟨trivial, ?_⟩ rfl)).1⟩
  rintro - - seen l hslot
  cases hslot
  exact Or.inl (by simp [ActorLocals.appended])

/-- The empty server after someone has opened the door of stream `id`. -/
def openedServer (id : Uuid) (p : ProposedEventData) : Server :=
  Server.commit crates ⟨fun _ => [], 0⟩ id [toProtoEvent crates p] 0

theorem openedServer_wellFormed (id : Uuid) (p : ProposedEventData) :
    (openedServer id p).WellFormed :=
  Server.commit_wellFormed crates (s := ⟨fun _ => [], 0⟩) (fun _ => trivial) _ _ _

theorem openedServer_stream (id : Uuid) (p : ProposedEventData) :
    (openedServer id p).streams id =
      [recordEvent crates id 0 0 0 (toProtoEvent crates p)] := by
  rw [openedServer, Server.commit_streams_self]
  rfl

def openedBy (aggregateType instanceId : String) : ProposedEventData :=
  ⟨7, "Opened", .null, aggregateType, instanceId, none, none, none⟩

theorem spawnOn_openedServer (aggregateType instanceId : String)
    (p : ProposedEventData) (htype : p.eventType = "Opened")
    (hpayload : p.payload = .null) :
    spawnOn crates (doorOf aggregateType) instanceId none
        (openedServer (streamUuid crates aggregateType instanceId) p) =
      some (.ok ⟨(1 : Nat), some 0⟩) := by
  have hopened : decodeDomainEvent crates (doorOf aggregateType)
      (recordEvent crates (streamUuid crates aggregateType instanceId) 0 0 0
        (toProtoEvent crates p)) = some () := by
    rw [decodeDomainEvent_of_parses (hpayload ▸ crates_parses_null) rfl, hpayload]
    change (((doorOf aggregateType).fromValue (taggedEnvelope p.eventType .null)).toOption :
      Option Unit) = some ()
    rw [htype]
    rfl
  have hstream : (openedServer (streamUuid crates aggregateType instanceId) p).streams
      (streamUuid crates (doorOf aggregateType).aggregateType instanceId) =
        [recordEvent crates (streamUuid crates aggregateType instanceId) 0 0 0
          (toProtoEvent crates p)] := openedServer_stream _ p
  rw [spawnOn_eq (openedServer_wellFormed _ _), hstream]
  refine congrArg (fun l => some (Except.ok l)) (ActorLocals.ext ?_ rfl)
  rw [ActorLocals.foldEvents_state]
  exact @absorb_of_decodes _ _ _ _ (doorOf aggregateType).apply _ _ hopened (0 : Nat)

/-- An actor that never saw an event saves version 0: the first event, written
later by someone else, is skipped by the next spawn. -/
theorem idle_exit_skips_first_event :
    door.EventsSurvive crates ∧
      ∃ w, Reaches (step crates firstId) (fun w a => w.LoadsDisk () a)
          (emptyWorld door) w ∧
        ∃ snap ∈ w.disk (), ∃ t, w.server.Extends t ∧ t.WellFormed ∧
          spawnOn crates door "m-1" (some snap) t = some (.ok ⟨(0 : Nat), some 0⟩) ∧
          spawnOn crates door "m-1" none t = some (.ok ⟨(1 : Nat), some 0⟩) := by
  have hloads : ∀ a ∈ handling .getState [] ++ [.exit () true],
      ∀ w : World fun _ : Unit => door, w.LoadsDisk () a := by
    intro a ha w
    simp only [handling, List.append_nil, List.mem_append, List.mem_cons,
      List.not_mem_nil, or_false] at ha
    rcases ha with ((rfl | rfl | rfl | rfl) | rfl) | rfl
    · exact fun _ => Or.inr rfl
    all_goals trivial
  have hskips : spawnOn crates door "m-1" (some ⟨(0 : Nat), 0⟩)
      (openedServer (streamUuid crates "door" "m-1") (openedBy "door" "m-1")) =
        some (.ok ⟨(0 : Nat), some 0⟩) := by
    rw [spawnOn_eq (openedServer_wellFormed _ _)]
    rfl
  exact ⟨door_eventsSurvive, _, Reaches.run .start _ (allOk_of_mem hloads _) rfl, _, rfl,
    _, Server.commit_extends crates _ _ _ _, openedServer_wellFormed _ _, hskips,
    spawnOn_openedServer "door" "m-1" (openedBy "door" "m-1") rfl rfl⟩

end ActorRestartWitness

end EventfoldEs
