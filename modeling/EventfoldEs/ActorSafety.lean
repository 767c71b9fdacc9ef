/-
The functions of the actor one by one: each keeps its pair named at every
await, and an execute puts into the stream exactly what it was decided on.
-/
import EventfoldEs.ActorPrefix

namespace EventfoldEs

open Async Replay

variable {C : Crates} {A : Aggregate}

/-- A block in the stream that is the encoding of `events`, where `events` is
what the command decides at the replay of exactly the prefix before it. -/
structure Decided (C : Crates) (A : Aggregate) (id : Uuid) (instanceId : String)
    (cmd : A.Command) (ctx : CommandContext) (events : List A.DomainEvent)
    (c : Commit) (s : Server) : Prop where
  start_le : c.start ≤ (s.streams id).length
  contiguous : c.block <+: (s.streams id).drop c.start
  decided : A.handle (replayEvents C A ((s.streams id).take c.start)) cmd = .ok events
  encoded : ∃ newV4 ps position recordedAt,
    encodeEvents A newV4 ctx instanceId 0 events = .ok ps ∧
      c.block = recordBlock C id c.start position recordedAt
        (ps.map (toProtoEvent C))

/-- The blocks an execute may have put into the stream, by its result. -/
def ExecuteSpec (C : Crates) (A : Aggregate) (id : Uuid) (instanceId : String)
    (cmd : A.Command) (ctx : CommandContext) (commits : List Commit) (s : Server) :
    ExecuteResult A → Prop
  | .ok [] => commits = []
  | .ok (e :: rest) =>
      ∃ c, commits = [c] ∧ Decided C A id instanceId cmd ctx (e :: rest) c s
  | .error (.transport _) =>
      commits = [] ∨
        ∃ c events, commits = [c] ∧ Decided C A id instanceId cmd ctx events c s
  | .error _ => commits = []

theorem Decided.stable {id : Uuid} {instanceId : String} {cmd : A.Command}
    {ctx : CommandContext} {events : List A.DomainEvent} {c : Commit}
    {s t : Server} (hc : Decided C A id instanceId cmd ctx events c s)
    (hext : s.Extends t) : Decided C A id instanceId cmd ctx events c t := by
  obtain ⟨added, hadded⟩ := hext id
  refine ⟨?_, ?_, ?_, hc.encoded⟩
  · rw [← hadded, List.length_append]
    exact Nat.le_add_right_of_le hc.start_le
  · rw [← hadded, List.drop_append_of_le_length hc.start_le]
    exact hc.contiguous.trans (List.prefix_append _ _)
  · rw [← hadded, List.take_append_of_le_length hc.start_le]
    exact hc.decided

theorem ExecuteSpec.stable {id : Uuid} {instanceId : String} {cmd : A.Command}
    {ctx : CommandContext} {commits : List Commit} {s t : Server}
    {result : ExecuteResult A}
    (hspec : ExecuteSpec C A id instanceId cmd ctx commits s result)
    (hext : s.Extends t) :
    ExecuteSpec C A id instanceId cmd ctx commits t result := by
  match result, hspec with
  | .ok [], hspec => exact hspec
  | .ok (e :: rest), ⟨c, hcommits, hc⟩ => exact ⟨c, hcommits, hc.stable hext⟩
  | .error (.transport _), .inl hnone => exact Or.inl hnone
  | .error (.transport _), .inr ⟨c, events, hcommits, hc⟩ =>
      exact Or.inr ⟨c, events, hcommits, hc.stable hext⟩
  | .error (.domain _), hspec => exact hspec
  | .error .wrongExpectedVersion, hspec => exact hspec
  | .error (.io _), hspec => exact hspec
  | .error .actorGone, hspec => exact hspec

/-- The block that an accepted append adds behind the pair of an actor is
decided at exactly the prefix before it. -/
theorem decided_of_accepted {id : Uuid} {instanceId : String} {cmd : A.Command}
    {ctx : CommandContext} {newV4 : Nat → Uuid} {events : List A.DomainEvent}
    {ps : List ProposedEventData} {l : ActorLocals A} {s : Server}
    (hl : ExactPrefix C l (s.streams id))
    (hend : l.fromVersion = (s.streams id).length)
    (hhandle : A.handle l.state cmd = .ok events)
    (henc : encodeEvents A newV4 ctx instanceId 0 events = .ok ps)
    (recordedAt : Nat) :
    Decided C A id instanceId cmd ctx events
      ⟨(s.streams id).length, s.block C id (ps.map (toProtoEvent C)) recordedAt⟩
      (s.commit C id (ps.map (toProtoEvent C)) recordedAt) := by
  have hfold : l.state = replayEvents C A (s.streams id) := by
    rw [hl.folded, hend, List.take_length]
  refine ⟨?_, ?_, ?_, newV4, ps, s.nextPosition, recordedAt, henc, rfl⟩
  · simp
  · have hblock := s.commit_streams_self C id (ps.map (toProtoEvent C)) recordedAt
    exact ⟨[], by rw [hblock, List.drop_left, List.append_nil]⟩
  · rw [Server.commit_streams_self, List.take_left, ← hfold]
    exact hhandle

/-- After an acknowledged append the pair names the extended stream. -/
theorem Named.appended {id : Uuid}
    {instanceId : String} {ctx : CommandContext} {newV4 : Nat → Uuid}
    {events : List A.DomainEvent} {ps : List ProposedEventData}
    {l : ActorLocals A} {s : Server} (hsurvive : ∀ e ∈ events, A.Survives C e)
    (hl : ExactPrefix C l (s.streams id))
    (hend : l.fromVersion = (s.streams id).length) (hne : events ≠ [])
    (henc : encodeEvents A newV4 ctx instanceId 0 events = .ok ps)
    (recordedAt : Nat) {resp : AppendResponse}
    (hlast : resp.lastStreamVersion = (s.streams id).length + ps.length - 1)
    (trail : Trail) :
    Named C id (l.appended events resp)
      (s.commit C id (ps.map (toProtoEvent C)) recordedAt, trail) := by
  have hpos : 0 < ps.length := by
    rw [encodeEvents_length henc]
    exact List.length_pos_iff.mpr hne
  have hfrom : (l.appended events resp).fromVersion =
      (s.streams id).length + ps.length := by
    change resp.lastStreamVersion + 1 = _
    omega
  refine ⟨⟨?_, ?_⟩, fun hnone => by simp [ActorLocals.appended] at hnone⟩
  · rw [hfrom]
    simp
  · have hwhole : (s.streams id ++ s.block C id (ps.map (toProtoEvent C))
        recordedAt).take ((s.streams id).length + ps.length) =
          s.streams id ++ s.block C id (ps.map (toProtoEvent C)) recordedAt := by
      apply List.take_of_length_le
      simp
    have hfold : l.state = replayEvents C A (s.streams id) := by
      rw [hl.folded, hend, List.take_length]
    rw [hfrom, Server.commit_streams_self, hwhole, replayEvents, replay_append,
      Server.block, replay_recordBlock hsurvive henc, ← replayEvents, ← hfold]
    rfl

variable {id : Uuid} {instanceId : String}

variable (instanceId) in
/-- From a named pair, every await of `execute_with_retry` keeps the pair
named, and the result tells which blocks are in the stream. -/
theorem executeWithRetry_safe (newV4 : Nat → Nat → Uuid) (cmd : A.Command)
    (hsurvive : A.DecidesSurviving C cmd) (ctx : CommandContext)
    (attempts : Nat) (l : ActorLocals A) (x : Server × Trail)
    (hs : x.1.WellFormed) (hl : Named C id l x) (hclean : x.2.commits = []) :
    (executeWithRetry C id instanceId newV4 cmd ctx attempts l).Safe
      (actorTerms C A id)
      (fun out y => Named C id out.1 y ∧
        ExecuteSpec C A id instanceId cmd ctx y.2.commits y.1 out.2) x := by
  induction attempts generalizing l x with
  | zero => exact ⟨hl, hclean⟩
  | succ attempts ih =>
      have hround := executeWithRetry_round C id instanceId newV4 cmd ctx attempts l
      generalize executeWithRetry C id instanceId newV4 cmd ctx (attempts + 1) l = fut
        at hround ⊢
      cases hround with
      | refused hhandle => exact ⟨hl, hclean⟩
      | noEvents hhandle => exact ⟨hl, hclean⟩
      | unserialized hhandle henc => exact ⟨hl, hclean⟩
      | panicked hhandle henc => exact ⟨hl, fun _ _ r => r.elim⟩
      | @appends e rest ps resume reread hhandle henc haccepted hconflict hfailed hagain
          hlost =>
          refine ⟨hl, ?_⟩
          rintro ⟨s, trail⟩ hrely r ⟨s', trail'⟩ ⟨answer, hserve⟩
          have hl₁ := hl.stable hrely
          have hclean₁ : trail.commits = [] := by
            rw [show trail = x.2 from hrely.2.2]
            exact hclean
          have hs₁ : s.WellFormed := hrely.2.1
          rcases serve_append_cases hserve with
            ⟨resp, at', rfl, hacc, hlast, rfl, rfl⟩ |
            ⟨status, rfl, hcode, -, rfl, rfl⟩ |
            ⟨status, rfl, hcode, ⟨rfl, rfl⟩ | ⟨at', hacc, rfl, rfl⟩⟩
          · have hend := (l.expected_accepts_iff _).mp hacc
            rw [haccepted]
            refine ⟨⟨Server.commit_extends C s id _ at',
              Server.commit_wellFormed C hs₁ id _ at'⟩, ?_, ?_⟩
            · exact Named.appended (hsurvive _ _ hhandle) hl₁.exact hend
                (by simp) henc at' hlast _
            · exact ⟨_, by rw [hclean₁, List.nil_append],
                decided_of_accepted hl₁.exact hend hhandle henc at'⟩
          · -- a real conflict: nothing was appended, re-read and retry
            rw [hconflict status hcode]
            refine ⟨⟨Server.Extends.refl s', hs₁⟩, hl₁, ?_⟩
            rintro ⟨s₂, trail₂⟩ hrely₂ r₂ ⟨s₃, trail₃⟩ ⟨answer₂, hread⟩
            have hl₂ := hl₁.stable hrely₂
            have hs₂ : s₂.WellFormed := hrely₂.2.1
            have hclean₂ : trail₂.commits = [] := by
              rw [show trail₂ = trail' from hrely₂.2.2]
              exact hclean₁
            obtain ⟨rfl, ⟨rfl, rfl⟩ | ⟨status₂, rfl, rfl⟩⟩ :=
              serve_readStream_cases hs₂ hread
            · rw [hagain]
              refine ⟨⟨Server.Extends.refl s₃, hs₂⟩, ?_⟩
              exact ih _ _ hs₂ (hl₂.reread hs₂) hclean₂
            · rw [hlost]
              exact ⟨⟨Server.Extends.refl s₃, hs₂⟩, hl₂, Or.inl hclean₂⟩
          · rw [hfailed status hcode]
            refine ⟨⟨Server.Extends.refl s', hs₁⟩, ?_⟩
            exact ⟨hl₁, Or.inl hclean₁⟩
          · -- committed, but the answer was lost
            have hend := (l.expected_accepts_iff _).mp hacc
            rw [hfailed status hcode]
            refine ⟨⟨Server.commit_extends C s id _ at',
              Server.commit_wellFormed C hs₁ id _ at'⟩, ?_⟩
            refine ⟨⟨hl₁.exact.mono (Server.commit_extends C s id _ at' id),
              hl₁.unseen⟩, Or.inr ⟨_, e :: rest, ?_,
              decided_of_accepted hl₁.exact hend hhandle henc at'⟩⟩
            rw [hclean₁, List.nil_append]

/-- What holds when the actor replies to a message. -/
def RepliedTo (C : Crates) (A : Aggregate) (id : Uuid) (instanceId : String)
    (msg : ActorMessage A) (commits : List Commit) (s : Server) (reply : Reply A) :
    Prop :=
  match msg, reply with
  | .execute cmd ctx _, .execute result =>
      ExecuteSpec C A id instanceId cmd ctx commits s result
  | .getState, .getState _ => True
  | .inject _, .inject _ => True
  | _, _ => False

theorem RepliedTo.stable {msg : ActorMessage A} {commits : List Commit}
    {s t : Server} {reply : Reply A}
    (hreply : RepliedTo C A id instanceId msg commits s reply)
    (hext : s.Extends t) : RepliedTo C A id instanceId msg commits t reply := by
  cases msg <;> cases reply <;> first | exact hreply | skip
  exact ExecuteSpec.stable hreply hext

/-- The command of an execute decides events that survive. -/
def ActorMessage.Survives (C : Crates) : ActorMessage A → Prop
  | .execute cmd _ _ => A.DecidesSurviving C cmd
  | _ => True

variable (instanceId) in
/-- From a named pair, every await of a message keeps the pair named. -/
theorem onMessage_safe (msg : ActorMessage A) (hsurvive : msg.Survives C)
    (l : ActorLocals A) (x : Server × Trail) (hs : x.1.WellFormed)
    (hl : Named C id l x) (hclean : x.2.commits = []) :
    (onMessage C id instanceId l msg).Safe (actorTerms C A id)
      (fun out y => Named C id out.1 y ∧
        RepliedTo C A id instanceId msg y.2.commits y.1 out.2) x := by
  cases msg with
  | execute cmd ctx newV4 =>
      have hexec := executeWithRetry_safe instanceId newV4 cmd hsurvive ctx
        maxRetries l x hs hl hclean
      exact hexec.bind fun out y hout => hout
  | getState => exact ⟨hl, trivial⟩
  | inject proposed =>
      refine ⟨hl, ?_⟩
      rintro ⟨s, trail⟩ hrely r ⟨s', trail'⟩ ⟨answer, hserve⟩
      have hl₁ := hl.stable hrely
      have hs₁ : s.WellFormed := hrely.2.1
      rcases serve_append_cases hserve with
        ⟨resp, at', rfl, -, -, rfl, rfl⟩ |
        ⟨status, rfl, -, -, rfl, rfl⟩ |
        ⟨status, rfl, -, ⟨rfl, rfl⟩ | ⟨at', -, rfl, rfl⟩⟩
      · have hext := Server.commit_extends C s id
          ([proposed].map (toProtoEvent C)) at'
        have hs' := Server.commit_wellFormed C hs₁ id
          ([proposed].map (toProtoEvent C)) at'
        have hl' : Named C id l (s.commit C id ([proposed].map (toProtoEvent C)) at',
            ⟨trail.commits ++ [⟨(s.streams id).length,
              s.block C id ([proposed].map (toProtoEvent C)) at'⟩],
              trail.seen ++ shownByAppend .any
                (s.block C id ([proposed].map (toProtoEvent C)) at')⟩) :=
          ⟨hl₁.exact.mono (hext id), fun hnone => by
            simpa [shownByAppend] using hl₁.unseen hnone⟩
        refine ⟨⟨hext, hs'⟩, hl', ?_⟩
        rintro ⟨s₂, trail₂⟩ hrely₂ r₂ ⟨s₃, trail₃⟩ ⟨answer₂, hread⟩
        have hl₂ := hl'.stable hrely₂
        have hs₂ : s₂.WellFormed := hrely₂.2.1
        obtain ⟨rfl, ⟨rfl, rfl⟩ | ⟨status₂, rfl, rfl⟩⟩ :=
          serve_readStream_cases hs₂ hread
        · exact ⟨⟨Server.Extends.refl s₃, hs₂⟩, hl₂.reread hs₂, trivial⟩
        · exact ⟨⟨Server.Extends.refl s₃, hs₂⟩, hl₂, trivial⟩
      · exact ⟨⟨Server.Extends.refl s', hs₁⟩, hl₁, trivial⟩
      · exact ⟨⟨Server.Extends.refl s', hs₁⟩, hl₁, trivial⟩
      · exact ⟨⟨Server.commit_extends C s id _ at',
          Server.commit_wellFormed C hs₁ id _ at'⟩,
          ⟨hl₁.exact.mono (Server.commit_extends C s id _ at' id), hl₁.unseen⟩,
          trivial⟩

variable (instanceId) in
/-- A spawn from a transparent snapshot, or without one, ends in a named pair. -/
theorem spawnActorWithStore_safe {snapshot : Option (Snapshot A.State)}
    (x : Server × Trail) (hunseen : x.2.seen = [])
    (hload : ∀ snap ∈ snapshot, snap.Transparent C
      (x.1.streams (streamUuid C A.aggregateType instanceId))) :
    (spawnActorWithStore C A instanceId snapshot).Safe
      (spawnTerms C A (streamUuid C A.aggregateType instanceId))
      (fun out y => ∀ l, out = .ok l →
        Named C (streamUuid C A.aggregateType instanceId) l y) x := by
  refine ⟨trivial, ?_⟩
  rintro ⟨s, trail⟩ hrely r ⟨s', trail'⟩ ⟨answer, hread⟩
  have hs₁ : s.WellFormed := hrely.2.1
  obtain ⟨rfl, ⟨rfl, rfl⟩ | ⟨status, rfl, rfl⟩⟩ := serve_readStream_cases hs₁ hread
  · refine ⟨⟨Server.Extends.refl s', hs₁⟩, ?_⟩
    intro l hok
    cases hok
    have hunseen₁ : trail.seen = [] := by
      rw [show trail = x.2 from hrely.2.2]
      exact hunseen
    have hnone : ExactPrefix C (startLocals A none)
        (s'.streams (streamUuid C A.aggregateType instanceId)) :=
      startLocals_exactPrefix (by rintro _ ⟨⟩)
    obtain ⟨hend, hexact⟩ := hnone.catchUp (hs₁ _)
    have hsame := startLocals_foldEvents (A := A)
      (fun snap hsnap => (hload snap hsnap).mono (hrely.1 _)) (hs₁ _)
    rw [hsame]
    refine ⟨hexact, fun hversion => ?_⟩
    rw [← ActorLocals.fromVersion_eq_zero_iff] at hversion
    have hempty := List.length_eq_zero_iff.mp (hend.symm.trans hversion)
    simp only [hunseen₁, hempty, List.drop_nil, List.append_nil]
  · refine ⟨⟨Server.Extends.refl s', hs₁⟩, ?_⟩
    intro l hok
    cases hok

end EventfoldEs
