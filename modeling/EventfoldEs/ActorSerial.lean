/-
The executes on a stream come one after the other: each appends what its command
decides on all that is there.  What an actor holds is the stream as it was after one
of them.
-/
import EventfoldEs.StreamIsolation
import EventfoldEs.Lib.Decider

namespace EventfoldEs

open Async Replay Decide

variable {C : Crates} {A : Aggregate}

/-- The aggregate alone, without a stream and without actors. -/
def Aggregate.decider (A : Aggregate) :
    Decider A.State A.Command A.DomainEvent A.Error where
  initial := A.default
  decide := A.handle
  evolve := A.apply

/-- The command is decided on all of a stream, and what it decides is appended. -/
structure Grows (C : Crates) (A : Aggregate) (id : Uuid) (cmd : A.Command)
    (events : List A.DomainEvent) (older newer : List RecordedEvent) : Prop where
  decided : A.handle (replayEvents C A older) cmd = .ok events
  nonempty : events ≠ []
  survives : ∀ e ∈ events, A.Survives C e
  encoded : ∃ newV4 ctx instanceId ps position recordedAt,
    encodeEvents A newV4 ctx instanceId 0 events = .ok ps ∧
      newer = older ++ recordBlock C id older.length position recordedAt
        (ps.map (toProtoEvent C))

theorem Grows.replay {id : Uuid} {cmd : A.Command} {events : List A.DomainEvent}
    {older newer : List RecordedEvent} (hgrows : Grows C A id cmd events older newer) :
    replayEvents C A newer = events.foldl A.apply (replayEvents C A older) := by
  obtain ⟨newV4, ctx, instanceId, ps, position, recordedAt, henc, rfl⟩ := hgrows.encoded
  rw [replayEvents_append, replay_recordBlock hgrows.survives henc]

theorem Grows.length {id : Uuid} {cmd : A.Command} {events : List A.DomainEvent}
    {older newer : List RecordedEvent} (hgrows : Grows C A id cmd events older newer) :
    newer.length = older.length + events.length := by
  obtain ⟨newV4, ctx, instanceId, ps, position, recordedAt, henc, rfl⟩ := hgrows.encoded
  simp [encodeEvents_length henc]

/-- The commands of the log, one after the other, have written the stream. -/
inductive Explains (C : Crates) (A : Aggregate) (id : Uuid) :
    List (A.Command × List A.DomainEvent) → List RecordedEvent → Prop
  | nil : Explains C A id [] []
  | grows {log : List (A.Command × List A.DomainEvent)} {cmd : A.Command}
      {events : List A.DomainEvent} {older newer : List RecordedEvent}
      (holder : Explains C A id log older) (hgrows : Grows C A id cmd events older newer) :
      Explains C A id (log ++ [(cmd, events)]) newer

/-- A stream that a log explains replays to the state that the log leads to. -/
theorem Explains.runs {id : Uuid} {log : List (A.Command × List A.DomainEvent)}
    {stream : List RecordedEvent} (hlog : Explains C A id log stream) :
    A.decider.Runs log (replayEvents C A stream) := by
  induction hlog with
  | nil => exact .nil
  | grows _ hgrows ih =>
      rw [hgrows.replay]
      exact ih.concat hgrows.decided

theorem Explains.length {id : Uuid} {log : List (A.Command × List A.DomainEvent)}
    {stream : List RecordedEvent} (hlog : Explains C A id log stream) :
    stream.length = (log.flatMap Prod.snd).length := by
  induction hlog with
  | nil => rfl
  | grows _ hgrows ih => simp [hgrows.length, ih]

/-- The state after the first `n` records of a stream. -/
def Server.stateAt (C : Crates) (A : Aggregate) (id : Uuid) (s : Server) (n : Nat) :
    A.State :=
  replayEvents C A ((s.streams id).take n)

theorem Server.stateAt_extends {id : Uuid} {s t : Server} {n : Nat}
    (hn : n ≤ (s.streams id).length) (hext : s.Extends t) :
    t.stateAt C A id n = s.stateAt C A id n := by
  obtain ⟨added, hadded⟩ := hext id
  rw [stateAt, stateAt, ← hadded, List.take_append_of_le_length hn]

/-- What one call does to the stream of its actor, with the block it leaves on the
trail. -/
inductive Carried (C : Crates) (A : Aggregate) (id : Uuid) (may : A.Command → Prop)
    (x y : Server × Trail) : Prop
  | quiet (hstream : y.1.streams id = x.1.streams id)
      (hcommits : y.2.commits = x.2.commits)
  | grows {cmd : A.Command} {events : List A.DomainEvent} {block : List RecordedEvent}
      (hmay : may cmd)
      (hgrows : Grows C A id cmd events (x.1.streams id) (y.1.streams id))
      (hcommits : y.2.commits = x.2.commits ++ [⟨(x.1.streams id).length, block⟩])

/-- What an actor holds: a pair that names one of the lengths its stream has had. -/
structure Held (C : Crates) (id : Uuid) (l : ActorLocals A)
    (x : (Server × Trail) × List Nat) : Prop where
  named : Named C id l x.1
  length : l.fromVersion ∈ x.2

theorem Held.stable {id : Uuid} {l : ActorLocals A} {x y : (Server × Trail) × List Nat}
    (hl : Held C id l x) (hrely : (actorTerms C A id).rely x.1 y.1) (hsub : x.2 ⊆ y.2) :
    Held C id l y :=
  ⟨hl.named.stable hrely, hsub hl.length⟩

/-- The terms of an actor that knows which lengths its stream has had. -/
def serialTerms (C : Crates) (A : Aggregate) (id : Uuid) (may : A.Command → Prop) :
    Terms (ActorLocals A) StoreOp StoreOp.Res ((Server × Trail) × List Nat) where
  rely x y := (actorTerms C A id).rely x.1 y.1 ∧ x.2 ⊆ y.2
  serves op x r y := (actorTerms C A id).serves op x.1 r y.1 ∧
    y.2 = (y.1.1.streams id).length :: x.2
  guarantee op r x y := (actorTerms C A id).guarantee op r x.1 y.1 ∧
    Carried C A id may x.1 y.1
  during l x := Held C id l x
  rely_trans := by
    rintro s t v ⟨hst, hsub⟩ ⟨htv, hsub'⟩
    exact ⟨(actorTerms C A id).rely_trans hst htv, List.Subset.trans hsub hsub'⟩
  during_stable := by
    rintro l s t hl ⟨hst, hsub⟩
    exact hl.stable hst hsub

/-- The same for a spawn, which holds nothing before it is done. -/
def serialSpawnTerms (C : Crates) (A : Aggregate) (id : Uuid) :
    Terms (ActorLocals A) StoreOp StoreOp.Res ((Server × Trail) × List Nat) where
  rely := (serialTerms C A id fun _ => False).rely
  serves := (serialTerms C A id fun _ => False).serves
  guarantee := (serialTerms C A id fun _ => False).guarantee
  during _ _ := True
  rely_trans := (serialTerms C A id fun _ => False).rely_trans
  during_stable _ _ := trivial

theorem serialTerms_refl (id : Uuid) (may : A.Command → Prop) {s : Server} (trail : Trail)
    (lengths : List Nat) (hs : s.WellFormed) :
    (serialTerms C A id may).rely ((s, trail), lengths) ((s, trail), lengths) :=
  ⟨⟨Server.Extends.refl s, hs, rfl⟩, List.Subset.refl lengths⟩

/-- An answered call adds the length it leaves the stream with. -/
theorem serialTerms_serves (id : Uuid) (may : A.Command → Prop) {op : StoreOp}
    {answer : Answer} {s s' : Server} {trail trail' : Trail} {r : op.Res}
    (hserve : op.serve C answer (s, trail) = some (r, (s', trail'))) (lengths : List Nat) :
    (serialTerms C A id may).serves op ((s, trail), lengths) r
      ((s', trail'), (s'.streams id).length :: lengths) :=
  ⟨⟨answer, hserve⟩, rfl⟩

/-- What the answer to a command was decided on. -/
def Ruled (C : Crates) (A : Aggregate) (id : Uuid) (cmd : A.Command)
    (x : (Server × Trail) × List Nat) : ExecuteResult A → Prop
  | .ok [] => ∃ n ∈ x.2, n ≤ (x.1.1.streams id).length ∧
      A.handle (x.1.1.stateAt C A id n) cmd = .ok []
  | .ok (e :: rest) => ∃ c, x.1.2.commits = [c] ∧ c.start ≤ (x.1.1.streams id).length ∧
      A.handle (x.1.1.stateAt C A id c.start) cmd = .ok (e :: rest)
  | .error (.domain e) => ∃ n ∈ x.2, n ≤ (x.1.1.streams id).length ∧
      A.handle (x.1.1.stateAt C A id n) cmd = .error e
  | .error _ => True

theorem Ruled.stable {id : Uuid} {cmd : A.Command} {x y : (Server × Trail) × List Nat}
    {result : ExecuteResult A} (hruled : Ruled C A id cmd x result)
    (hext : x.1.1.Extends y.1.1) (hcommits : y.1.2.commits = x.1.2.commits)
    (hsub : x.2 ⊆ y.2) : Ruled C A id cmd y result := by
  have hlength := (hext id).length_le
  match result, hruled with
  | .ok [], ⟨n, hn, hle, hhandle⟩ =>
      exact ⟨n, hsub hn, hle.trans hlength, by rw [Server.stateAt_extends hle hext, hhandle]⟩
  | .ok (e :: rest), ⟨c, hc, hle, hhandle⟩ =>
      exact ⟨c, hcommits.trans hc, hle.trans hlength,
        by rw [Server.stateAt_extends hle hext, hhandle]⟩
  | .error (.domain e), ⟨n, hn, hle, hhandle⟩ =>
      exact ⟨n, hsub hn, hle.trans hlength, by rw [Server.stateAt_extends hle hext, hhandle]⟩
  | .error .wrongExpectedVersion, _ => trivial
  | .error (.io _), _ => trivial
  | .error (.transport _), _ => trivial
  | .error .actorGone, _ => trivial

variable {id : Uuid} {instanceId : String}

/-- A pair is the state at the length it names. -/
theorem Held.state {l : ActorLocals A} {x : (Server × Trail) × List Nat}
    (hl : Held C id l x) : l.state = x.1.1.stateAt C A id l.fromVersion :=
  hl.named.exact.folded

/-- An append that the server accepts from a pair grows the stream. -/
theorem grows_of_accepted {cmd : A.Command} {ctx : CommandContext} {newV4 : Nat → Uuid}
    {events : List A.DomainEvent} {ps : List ProposedEventData} {l : ActorLocals A}
    {s : Server} (hl : ExactPrefix C l (s.streams id))
    (hend : l.fromVersion = (s.streams id).length)
    (hhandle : A.handle l.state cmd = .ok events) (hne : events ≠ [])
    (hsurvive : ∀ e ∈ events, A.Survives C e)
    (henc : encodeEvents A newV4 ctx instanceId 0 events = .ok ps) (recordedAt : Nat) :
    Grows C A id cmd events (s.streams id)
      ((s.commit C id (ps.map (toProtoEvent C)) recordedAt).streams id) where
  decided := by
    rw [← hhandle, hl.folded, hend, List.take_length]
  nonempty := hne
  survives := hsurvive
  encoded := ⟨newV4, ctx, instanceId, ps, s.nextPosition, recordedAt, henc,
    s.commit_streams_self C id _ recordedAt⟩

variable (instanceId) in
/-- Every await of `execute_with_retry` holds a pair, every call either leaves the
stream or grows it by the command, and the answer was decided on what was there. -/
theorem executeWithRetry_serial (newV4 : Nat → Nat → Uuid) (cmd : A.Command)
    (hsurvive : A.DecidesSurviving C cmd) (ctx : CommandContext) (attempts : Nat)
    (l : ActorLocals A) (x : (Server × Trail) × List Nat) (hs : x.1.1.WellFormed)
    (hl : Held C id l x) (hclean : x.1.2.commits = []) :
    (executeWithRetry C id instanceId newV4 cmd ctx attempts l).Safe
      (serialTerms C A id (· = cmd))
      (fun out y => Held C id out.1 y ∧ Ruled C A id cmd y out.2) x := by
  induction attempts generalizing l x with
  | zero => exact ⟨hl, trivial⟩
  | succ attempts ih =>
      have hround := executeWithRetry_round C id instanceId newV4 cmd ctx attempts l
      generalize executeWithRetry C id instanceId newV4 cmd ctx (attempts + 1) l = fut
        at hround ⊢
      have hstate := hl.state
      have hbounded := hl.named.exact.bounded
      cases hround with
      | refused hhandle =>
          exact ⟨hl, l.fromVersion, hl.length, hbounded, hstate ▸ hhandle⟩
      | noEvents hhandle =>
          exact ⟨hl, l.fromVersion, hl.length, hbounded, hstate ▸ hhandle⟩
      | unserialized hhandle henc => exact ⟨hl, trivial⟩
      | panicked hhandle henc => exact ⟨hl, fun _ _ r => r.elim⟩
      | @appends e rest ps resume reread hhandle henc haccepted hconflict hfailed hagain
          hlost =>
          refine ⟨hl, ?_⟩
          rintro ⟨⟨s, trail⟩, lengths⟩ hrely r ⟨⟨s', trail'⟩, lengths'⟩ ⟨⟨answer, hserve⟩, hcut⟩
          have hl₁ := hl.stable hrely.1 hrely.2
          have hs₁ : s.WellFormed := hrely.1.2.1
          have hclean₁ : trail.commits = [] := by
            rw [show trail = x.1.2 from hrely.1.2.2]
            exact hclean
          have hevents := hsurvive _ _ hhandle
          dsimp only at hcut
          subst hcut
          rcases serve_append_cases hserve with
            ⟨resp, at', rfl, hacc, hlast, rfl, rfl⟩ |
            ⟨status, rfl, hcode, -, rfl, rfl⟩ |
            ⟨status, rfl, hcode, ⟨rfl, rfl⟩ | ⟨at', hacc, rfl, rfl⟩⟩
          · have hend := (l.expected_accepts_iff _).mp hacc
            have hgrows := grows_of_accepted hl₁.named.exact hend hhandle (by simp) hevents
              henc at'
            have hext := Server.commit_extends C s id (ps.map (toProtoEvent C)) at'
            rw [haccepted]
            refine ⟨⟨⟨hext, Server.commit_wellFormed C hs₁ id _ at'⟩,
              .grows rfl hgrows rfl⟩, ⟨?_, ?_⟩, ?_⟩
            · exact Named.appended hevents hl₁.named.exact hend (by simp) henc at' hlast _
            · have hpos : 0 < ps.length := by
                rw [encodeEvents_length henc]
                exact Nat.succ_pos _
              have hfrom : (l.appended (e :: rest) resp).fromVersion =
                  (s.streams id).length + ps.length := by
                change resp.lastStreamVersion + 1 = _
                omega
              rw [hfrom]
              simp
            · refine ⟨_, by rw [hclean₁, List.nil_append], (hext id).length_le, ?_⟩
              rw [Server.stateAt_extends (Nat.le_refl _) hext, Server.stateAt,
                List.take_length]
              exact hgrows.decided
          · -- the server refused: re-read and decide again
            rw [hconflict status hcode]
            have hl₂ : Held C id l ((s', trail'), (s'.streams id).length :: lengths) :=
              ⟨hl₁.named, List.mem_cons_of_mem _ hl₁.length⟩
            refine ⟨⟨⟨Server.Extends.refl s', hs₁⟩, .quiet rfl rfl⟩, hl₂, ?_⟩
            rintro ⟨⟨s₂, trail₂⟩, lengths₂⟩ hrely₂ r₂ ⟨⟨s₃, trail₃⟩, lengths₃⟩
              ⟨⟨answer₂, hread⟩, hcut₂⟩
            dsimp only at hcut₂
            subst hcut₂
            have hl₃ := hl₂.stable hrely₂.1 hrely₂.2
            have hs₂ : s₂.WellFormed := hrely₂.1.2.1
            have hclean₂ : trail₂.commits = [] := by
              rw [show trail₂ = trail' from hrely₂.1.2.2]
              exact hclean₁
            obtain ⟨rfl, ⟨rfl, rfl⟩ | ⟨status₂, rfl, rfl⟩⟩ :=
              serve_readStream_cases hs₂ hread
            · rw [hagain]
              refine ⟨⟨⟨Server.Extends.refl s₃, hs₂⟩, .quiet rfl rfl⟩, ?_⟩
              refine ih _ _ hs₂ ⟨hl₃.named.reread hs₂, ?_⟩ hclean₂
              rw [(hl₃.named.exact.catchUp (hs₂ id)).1]
              exact List.mem_cons_self
            · rw [hlost]
              exact ⟨⟨⟨Server.Extends.refl s₃, hs₂⟩, .quiet rfl rfl⟩,
                ⟨hl₃.named, List.mem_cons_of_mem _ hl₃.length⟩, trivial⟩
          · rw [hfailed status hcode]
            exact ⟨⟨⟨Server.Extends.refl s', hs₁⟩, .quiet rfl rfl⟩,
              ⟨hl₁.named, List.mem_cons_of_mem _ hl₁.length⟩, trivial⟩
          · -- committed, but the answer was lost
            have hend := (l.expected_accepts_iff _).mp hacc
            have hext := Server.commit_extends C s id (ps.map (toProtoEvent C)) at'
            rw [hfailed status hcode]
            refine ⟨⟨⟨hext, Server.commit_wellFormed C hs₁ id _ at'⟩, .grows rfl
              (grows_of_accepted hl₁.named.exact hend hhandle (by simp) hevents henc at')
              rfl⟩, ⟨⟨hl₁.named.exact.mono (hext id), hl₁.named.unseen⟩,
              List.mem_cons_of_mem _ hl₁.length⟩, trivial⟩

/-- The command a message carries. -/
def ActorMessage.Carries : ActorMessage A → A.Command → Prop
  | .execute cmd _ _, cmd' => cmd' = cmd
  | _, _ => False

/-- What the answer to a message was decided on, or shows. -/
def AnsweredFrom (C : Crates) (A : Aggregate) (id : Uuid) (msg : ActorMessage A)
    (x : (Server × Trail) × List Nat) (reply : Reply A) : Prop :=
  match msg, reply with
  | .execute cmd _ _, .execute result => Ruled C A id cmd x result
  | .getState, .getState state =>
      ∃ n ∈ x.2, n ≤ (x.1.1.streams id).length ∧ state = x.1.1.stateAt C A id n
  | _, _ => True

theorem AnsweredFrom.stable {msg : ActorMessage A} {x y : (Server × Trail) × List Nat}
    {reply : Reply A} (hanswered : AnsweredFrom C A id msg x reply)
    (hext : x.1.1.Extends y.1.1) (hcommits : y.1.2.commits = x.1.2.commits)
    (hsub : x.2 ⊆ y.2) : AnsweredFrom C A id msg y reply := by
  have hlength := (hext id).length_le
  cases msg <;> cases reply <;> first | exact trivial | skip
  · exact Ruled.stable hanswered hext hcommits hsub
  · obtain ⟨n, hn, hle, hstate⟩ := hanswered
    exact ⟨n, hsub hn, hle.trans hlength, by rw [hstate, Server.stateAt_extends hle hext]⟩

variable (instanceId) in
/-- From a held pair a message that injects nothing is answered serially. -/
theorem onMessage_serial (msg : ActorMessage A) (hinject : ∀ p, msg ≠ .inject p)
    (hsurvive : msg.Survives C) (l : ActorLocals A) (x : (Server × Trail) × List Nat)
    (hs : x.1.1.WellFormed) (hl : Held C id l x) (hclean : x.1.2.commits = []) :
    (onMessage C id instanceId l msg).Safe (serialTerms C A id msg.Carries)
      (fun out y => Held C id out.1 y ∧ AnsweredFrom C A id msg y out.2) x := by
  cases msg with
  | execute cmd ctx newV4 =>
      have hexec := executeWithRetry_serial instanceId newV4 cmd hsurvive ctx maxRetries l x
        hs hl hclean
      exact hexec.bind fun out y hout => hout
  | getState => exact ⟨hl, l.fromVersion, hl.length, hl.named.exact.bounded, hl.state⟩
  | inject p => exact absurd rfl (hinject p)

variable (instanceId) in
/-- A spawn from a transparent snapshot, or without one, ends at the length the stream
has when it is read. -/
theorem spawnActorWithStore_serial {snapshot : Option (Snapshot A.State)}
    (x : (Server × Trail) × List Nat) (hunseen : x.1.2.seen = [])
    (hload : ∀ snap ∈ snapshot, snap.Transparent C
      (x.1.1.streams (streamUuid C A.aggregateType instanceId))) :
    (spawnActorWithStore C A instanceId snapshot).Safe
      (serialSpawnTerms C A (streamUuid C A.aggregateType instanceId))
      (fun out y => ∀ l, out = .ok l →
        Held C (streamUuid C A.aggregateType instanceId) l y) x := by
  refine ⟨trivial, ?_⟩
  rintro ⟨⟨s, trail⟩, lengths⟩ hrely r ⟨⟨s', trail'⟩, lengths'⟩ ⟨⟨answer, hread⟩, hcut⟩
  dsimp only at hcut
  subst hcut
  have hs₁ : s.WellFormed := hrely.1.2.1
  have hsafe := spawnActorWithStore_safe instanceId x.1 hunseen hload
  obtain ⟨hguarantee, hnamed⟩ := hsafe.2 (s, trail) hrely.1 r (s', trail') ⟨answer, hread⟩
  obtain ⟨rfl, ⟨rfl, rfl⟩ | ⟨status, rfl, rfl⟩⟩ := serve_readStream_cases hs₁ hread
  · refine ⟨⟨hguarantee, .quiet rfl rfl⟩, ?_⟩
    rintro l hok
    refine ⟨hnamed l hok, ?_⟩
    cases hok
    have hsame := startLocals_foldEvents (A := A)
      (fun snap hsnap => (hload snap hsnap).mono (hrely.1.1 _)) (hs₁ _)
    have hnone : ExactPrefix C (startLocals A none)
        (s'.streams (streamUuid C A.aggregateType instanceId)) :=
      startLocals_exactPrefix (by rintro _ ⟨⟩)
    rw [hsame]
    exact List.mem_cons.mpr (Or.inl (hnone.catchUp (hs₁ _)).1)
  · refine ⟨⟨hguarantee, .quiet rfl rfl⟩, ?_⟩
    intro l hok
    cases hok

end EventfoldEs
