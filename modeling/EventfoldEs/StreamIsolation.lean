/-
Which streams the calls of one aggregate identity reach, and when two different
identities are given one and the same stream.
-/
import EventfoldEs.ActorRestart
import EventfoldEs.Lib.Separated

namespace EventfoldEs

open Async Replay Separated

/-- One aggregate type is the other one followed by `/` and more, and that more
is what the other instance id begins with, up to a `/`. -/
def Overlapping (aggregateType instanceId aggregateType' instanceId' : String) :
    Prop :=
  ∃ w : String, aggregateType = aggregateType' ++ "/" ++ w ∧
    instanceId' = w ++ "/" ++ instanceId

theorem overlapping_iff_overlaps (a x b y : String) :
    Overlapping a x b y ↔ Overlaps '/' a.toList x.toList b.toList y.toList := by
  constructor
  · rintro ⟨w, rfl, rfl⟩
    exact ⟨w.toList, by simp, by simp⟩
  · rintro ⟨w, ha, hy⟩
    refine ⟨String.ofList w, ?_, ?_⟩
    · apply String.toList_injective
      simpa using ha
    · apply String.toList_injective
      simpa using hy

/-- The names of two identities agree only if the identities do or overlap. -/
theorem streamName_eq_iff (a x b y : String) :
    streamName a x = streamName b y ↔
      (a = b ∧ x = y) ∨ Overlapping a x b y ∨ Overlapping b y a x := by
  have hlists : streamName a x = streamName b y ↔
      a.toList ++ '/' :: x.toList = b.toList ++ '/' :: y.toList := by
    rw [← String.toList_inj]
    simp [streamName]
  rw [hlists, join_eq_join_iff, overlapping_iff_overlaps, overlapping_iff_overlaps,
    String.toList_inj, String.toList_inj]

variable (C : Crates) {A : Aggregate}

/-- The servers agree on everything but the stream `other`. -/
def Server.AgreeOff (other : Uuid) (s t : Server) : Prop :=
  (∀ id, id ≠ other → t.streams id = s.streams id) ∧ t.nextPosition = s.nextPosition

/-- The call neither changes the stream `other` nor is answered differently for
what it holds. -/
def StoreOp.Ignores (other : Uuid) (op : StoreOp) : Prop :=
  ∀ answer s trail r s' trail', op.serve C answer (s, trail) = some (r, (s', trail')) →
    s'.streams other = s.streams other ∧
      ∀ t, s.AgreeOff other t → ∃ t', op.serve C answer (t, trail) =
          some (r, (t', trail')) ∧
        s'.AgreeOff other t' ∧ t'.streams other = t.streams other

/-- The calls that go to one stream. -/
def StoreOp.GoesTo (id : Uuid) : StoreOp → Prop
  | append id' _ _ => id' = id
  | readStream id' _ _ => id' = id
  | panic => True

/-- Whatever the identity executes, catches up on or has injected, the stream
`other` is neither appended to nor read. -/
structure Isolated (A : Aggregate) (instanceId : String) (other : Uuid) : Prop where
  spawn : ∀ snapshot,
    (spawnActorWithStore C A instanceId snapshot).Only (StoreOp.Ignores C other)
  message : ∀ (l : ActorLocals A) msg,
    (onMessage C (streamUuid C A.aggregateType instanceId) instanceId l msg).Only
      (StoreOp.Ignores C other)
  inject : ∀ proposed opts runProcessManagers,
    (opts.runProcessManagers = true →
      runProcessManagers.Only (StoreOp.Ignores C other)) →
    (injectEvent C A instanceId proposed opts runProcessManagers).Only
      (StoreOp.Ignores C other)

variable {C}

theorem Server.AgreeOff.commit {other id : Uuid} (hne : id ≠ other) {s t : Server}
    (hagree : s.AgreeOff other t) (events : List ProposedEvent) (recordedAt : Nat) :
    (s.commit C id events recordedAt).AgreeOff other
      (t.commit C id events recordedAt) := by
  obtain ⟨hstreams, hposition⟩ := hagree
  refine ⟨fun k hk => ?_, ?_⟩
  · by_cases heq : k = id
    · subst heq
      simp only [Server.commit_streams_self, Server.block, hstreams k hne, hposition]
    · rw [Server.commit_streams_ne C _ heq, Server.commit_streams_ne C _ heq]
      exact hstreams k hk
  · exact congrArg (· + events.length) hposition

theorem Server.AgreeOff.block {other id : Uuid} (hne : id ≠ other) {s t : Server}
    (hagree : s.AgreeOff other t) (events : List ProposedEvent) (recordedAt : Nat) :
    t.block C id events recordedAt = s.block C id events recordedAt := by
  simp only [Server.block, hagree.1 id hne, hagree.2]

/-- A call of one stream on two servers that agree off another one. -/
theorem StoreOp.append_ignores {id other : Uuid} (hne : id ≠ other)
    (expected : ExpectedVersionArg) (events : List ProposedEventData) :
    (StoreOp.append id expected events).Ignores C other := by
  intro answer s trail r s' trail' hserve
  refine ⟨?_, fun t hagree => ?_⟩
  · rcases serve_append_cases hserve with
      ⟨_, at', -, -, -, rfl, -⟩ | ⟨_, -, -, -, rfl, -⟩ |
      ⟨_, -, -, ⟨rfl, -⟩ | ⟨at', -, rfl, -⟩⟩
    · exact Server.commit_streams_ne C s hne.symm _ _
    · rfl
    · rfl
    · exact Server.commit_streams_ne C s hne.symm _ _
  · have hstream := hagree.1 id hne
    have hblock := fun at' => hagree.block (C := C) hne (events.map (toProtoEvent C)) at'
    have hcommit := fun at' => hagree.commit (C := C) hne (events.map (toProtoEvent C)) at'
    have hkept := fun at' =>
      Server.commit_streams_ne C t hne.symm (events.map (toProtoEvent C)) at'
    cases haccepts : expected.accepts (s.streams id).length with
    | false =>
        cases answer with
        | server recordedAt =>
            simp only [StoreOp.serve, Server.append, hstream, haccepts,
              Bool.false_eq_true, ↓reduceIte, Option.some.injEq, Prod.mk.injEq] at hserve ⊢
            obtain ⟨rfl, rfl, rfl⟩ := hserve
            exact ⟨t, ⟨rfl, rfl, rfl⟩, hagree, rfl⟩
        | fault status committed recordedAt =>
            simp only [StoreOp.serve, Server.append, hstream, haccepts,
              Bool.false_eq_true, ↓reduceIte] at hserve ⊢
            by_cases hcode : status.code = .failedPrecondition
            · simp only [hcode, ↓reduceIte, reduceCtorEq] at hserve
            · cases committed with
              | true => simp [hcode] at hserve
              | false =>
                  simp only [hcode, Bool.false_eq_true, ↓reduceIte, Option.some.injEq,
                    Prod.mk.injEq] at hserve ⊢
                  obtain ⟨rfl, rfl, rfl⟩ := hserve
                  exact ⟨t, ⟨rfl, rfl, rfl⟩, hagree, rfl⟩
    | true =>
        cases answer with
        | server recordedAt =>
            simp only [StoreOp.serve, Server.append, hstream, haccepts, hagree.2, hblock,
              ↓reduceIte, Option.some.injEq, Prod.mk.injEq] at hserve ⊢
            obtain ⟨rfl, rfl, rfl⟩ := hserve
            exact ⟨_, ⟨rfl, rfl, rfl⟩, hcommit recordedAt, hkept recordedAt⟩
        | fault status committed recordedAt =>
            simp only [StoreOp.serve, Server.append, hstream, haccepts, hblock,
              ↓reduceIte] at hserve ⊢
            by_cases hcode : status.code = .failedPrecondition
            · simp only [hcode, ↓reduceIte, reduceCtorEq] at hserve
            · cases committed with
              | true =>
                  simp only [hcode, ↓reduceIte, Option.some.injEq, Prod.mk.injEq] at hserve ⊢
                  obtain ⟨rfl, rfl, rfl⟩ := hserve
                  exact ⟨_, ⟨rfl, rfl, rfl⟩, hcommit recordedAt, hkept recordedAt⟩
              | false =>
                  simp only [hcode, Bool.false_eq_true, ↓reduceIte, Option.some.injEq,
                    Prod.mk.injEq] at hserve ⊢
                  obtain ⟨rfl, rfl, rfl⟩ := hserve
                  exact ⟨t, ⟨rfl, rfl, rfl⟩, hagree, rfl⟩

theorem StoreOp.readStream_ignores {id other : Uuid} (hne : id ≠ other)
    (n count : Nat) : (StoreOp.readStream id n count).Ignores C other := by
  intro answer s trail r s' trail' hserve
  have hsame : ∀ t, s.AgreeOff other t →
      t.readStream id n count = s.readStream id n count := by
    intro t hagree
    simp only [Server.readStream, hagree.1 id hne]
  cases answer with
  | server recordedAt =>
      simp only [StoreOp.serve] at hserve
      split at hserve
      all_goals
        rename_i hread
        simp only [Option.some.injEq, Prod.mk.injEq] at hserve
        obtain ⟨rfl, rfl, rfl⟩ := hserve
        refine ⟨rfl, fun t hagree => ⟨t, ?_, hagree, rfl⟩⟩
        simp only [StoreOp.serve, hsame t hagree, hread]
  | fault status committed recordedAt =>
      simp only [StoreOp.serve] at hserve
      split at hserve
      · cases hserve
      · rename_i hcode
        simp only [Option.some.injEq, Prod.mk.injEq] at hserve
        obtain ⟨rfl, rfl, rfl⟩ := hserve
        refine ⟨rfl, fun t hagree => ⟨t, ?_, hagree, rfl⟩⟩
        simp only [StoreOp.serve, hcode, ↓reduceIte]

/-- A call to one stream ignores every other stream. -/
theorem StoreOp.GoesTo.ignores {id other : Uuid} (hne : id ≠ other) {op : StoreOp}
    (hop : op.GoesTo id) : op.Ignores C other := by
  cases op with
  | append id' expected events =>
      change id' = id at hop
      exact StoreOp.append_ignores (hop ▸ hne) expected events
  | readStream id' n count =>
      change id' = id at hop
      exact StoreOp.readStream_ignores (hop ▸ hne) n count
  | panic => exact fun _ _ _ r => r.elim

theorem executeWithRetry_goesTo (id : Uuid) (instanceId : String)
    (newV4 : Nat → Nat → Uuid) (cmd : A.Command) (ctx : CommandContext)
    (attempts : Nat) (l : ActorLocals A) :
    (executeWithRetry C id instanceId newV4 cmd ctx attempts l).Only
      (StoreOp.GoesTo id) :=
  executeWithRetry_only C (fun _ _ _ _ _ => rfl) (fun _ => rfl) trivial attempts l

/-- Every call made for an identity goes to the stream of the identity. -/
theorem onMessage_goesTo (id : Uuid) (instanceId : String) (l : ActorLocals A)
    (msg : ActorMessage A) :
    (onMessage C id instanceId l msg).Only (StoreOp.GoesTo id) := by
  cases msg with
  | execute cmd ctx newV4 =>
      exact (executeWithRetry_goesTo id instanceId newV4 cmd ctx maxRetries l).bind
        fun _ => trivial
  | getState => trivial
  | inject proposed =>
      refine ⟨rfl, ?_⟩
      rintro (status | resp)
      · trivial
      · refine ⟨rfl, ?_⟩
        rintro (status | newer) <;> trivial

theorem isolated_of_ne {instanceId : String} {other : Uuid}
    (hne : streamUuid C A.aggregateType instanceId ≠ other) :
    Isolated C A instanceId other where
  spawn snapshot := by
    refine ⟨StoreOp.readStream_ignores hne _ _, ?_⟩
    rintro (status | newer) <;> trivial
  message l msg :=
    (onMessage_goesTo _ instanceId l msg).mono fun _ hop => hop.ignores hne
  inject proposed opts runProcessManagers hpass := by
    refine ⟨StoreOp.append_ignores hne _ _, ?_⟩
    rintro (status | resp)
    · trivial
    · cases hopts : opts.runProcessManagers with
      | true => exact hpass hopts
      | false => trivial

/-- Different identities hash different names, and ignore each other's streams,
exactly when they do not overlap. -/
theorem identities_isolated_iff_not_overlapping (A B : Aggregate) (x y : String)
    (hdiffer : (A.aggregateType, x) ≠ (B.aggregateType, y))
    (hcollide : streamName A.aggregateType x ≠ streamName B.aggregateType y →
      streamUuid C A.aggregateType x ≠ streamUuid C B.aggregateType y) :
    (streamName A.aggregateType x ≠ streamName B.aggregateType y ∧
      Isolated C A x (streamUuid C B.aggregateType y) ∧
      Isolated C B y (streamUuid C A.aggregateType x)) ↔
      ¬ (Overlapping A.aggregateType x B.aggregateType y ∨
        Overlapping B.aggregateType y A.aggregateType x) := by
  have hsame : ¬ (A.aggregateType = B.aggregateType ∧ x = y) := by
    rintro ⟨htype, hid⟩
    exact hdiffer (Prod.ext htype hid)
  constructor
  · rintro ⟨hnames, -, -⟩ hoverlap
    exact hnames ((streamName_eq_iff _ _ _ _).mpr (Or.inr hoverlap))
  · intro hapart
    have hnames : streamName A.aggregateType x ≠ streamName B.aggregateType y := by
      intro heq
      rcases (streamName_eq_iff _ _ _ _).mp heq with hid | hoverlap
      · exact hsame hid
      · exact hapart hoverlap
    have huuid := hcollide hnames
    exact ⟨hnames, isolated_of_ne huuid, isolated_of_ne huuid.symm⟩

namespace StreamIsolationWitness

open ActorRunsWitness ActorRestartWitness EventCodecWitness

theorem not_overlapping_of_no_slash {a x b y : String} (ha : '/' ∉ a.toList) :
    ¬ Overlapping a x b y := by
  rw [overlapping_iff_overlaps]
  exact not_overlaps_of_not_mem ha

theorem identities_isolated_iff_not_overlapping_door :
    (streamName "door" "d-1" ≠ streamName "marker" "m-1" ∧
      Isolated crates door "d-1" (streamUuid crates "marker" "m-1") ∧
      Isolated crates marker "m-1" (streamUuid crates "door" "d-1")) ↔
      ¬ (Overlapping "door" "d-1" "marker" "m-1" ∨
        Overlapping "marker" "m-1" "door" "d-1") :=
  identities_isolated_iff_not_overlapping door marker "d-1" "m-1" (by decide)
    (fun _ => by decide)

theorem streamUuid_shared : streamUuid crates "a/b" "c" = streamUuid crates "a" "b/c" := by
  have hname : streamName "a/b" "c" = streamName "a" "b/c" := by decide
  rw [streamUuid, streamUuid, hname]

/-- An event injected into `c` of type `a/b` opens `b/c` of type `a`. -/
theorem injected_event_reaches_other_identity :
    ("a/b", "c") ≠ ("a", "b/c") ∧
      streamName "a/b" "c" = streamName "a" "b/c" ∧
      ∃ s trail, (injectEvent crates (doorOf "a/b") "c" (openedBy "a/b" "c") ⟨false⟩
          (.ready (.ok ()))).runOn (fun op x => op.serve crates (.server 0) x)
            (⟨fun _ => [], 0⟩, ⟨[], []⟩) = some (.ok (), (s, trail)) ∧
        spawnOn crates (doorOf "a") "b/c" none ⟨fun _ => [], 0⟩ =
          some (.ok ⟨(0 : Nat), none⟩) ∧
        spawnOn crates (doorOf "a") "b/c" none s = some (.ok ⟨(1 : Nat), some 0⟩) := by
  have hopened := spawnOn_openedServer "a" "b/c" (openedBy "a/b" "c") rfl rfl
  rw [← streamUuid_shared] at hopened
  exact ⟨by decide, by decide, _, _, rfl, rfl, hopened⟩

end StreamIsolationWitness

end EventfoldEs
