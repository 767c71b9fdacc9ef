/-
An execute among foreign writers: how often it appends, and which of their commits stand
behind a `WrongExpectedVersion`.
-/
import EventfoldEs.ActorRuns
import EventfoldEs.Handles

namespace EventfoldEs

open Async

variable {C : Crates} {A : Aggregate} {id : Uuid} {instanceId : String}

/-- What another writer commits, to whatever stream. -/
structure ForeignCommit where
  streamId : Uuid
  events : List ProposedEvent
  recordedAt : Nat

variable (C) in
def ForeignCommit.commit (e : ForeignCommit) (x : Server × Trail) : Server × Trail :=
  (x.1.commit C e.streamId e.events e.recordedAt, x.2)

/-- The commit makes the stream longer. -/
def ForeignCommit.hits (id : Uuid) (e : ForeignCommit) : Bool :=
  e.streamId == id && !e.events.isEmpty

/-- A foreign commit, or an operation of the execute with its answer. -/
abbrev StoreStep := ForeignCommit ⊕ (Σ op : StoreOp, op.Res)

def StoreStep.appends : StoreStep → Bool
  | .inl _ => false
  | .inr ⟨op, _⟩ => op.isAppend

def StoreStep.hits (id : Uuid) : StoreStep → Bool
  | .inl e => e.hits id
  | .inr _ => false

/-- Before every append there was a foreign commit to the stream since the last re-read;
before the first one, `behind` may stand for it. -/
def EachPreceded (id : Uuid) : Bool → List StoreStep → Prop
  | _, [] => True
  | behind, .inl e :: rest => EachPreceded id (behind || e.hits id) rest
  | behind, .inr ⟨.append _ _ _, _⟩ :: rest => behind = true ∧ EachPreceded id behind rest
  | _, .inr ⟨.readStream _ _ _, _⟩ :: rest => EachPreceded id false rest
  | behind, .inr ⟨.panic, _⟩ :: rest => EachPreceded id behind rest

theorem eachPreceded_others (behind : Bool) (others : List ForeignCommit)
    (rest : List StoreStep) :
    EachPreceded id behind (others.map Sum.inl ++ rest) ↔
      EachPreceded id (behind || others.any (ForeignCommit.hits id)) rest := by
  induction others generalizing behind with
  | nil => simp
  | cons e others ih =>
      rw [List.map_cons, List.cons_append, EachPreceded, ih, List.any_cons, Bool.or_assoc]

theorem countP_appends_others (others : List ForeignCommit) (rest : List StoreStep) :
    (others.map Sum.inl ++ rest).countP StoreStep.appends =
      rest.countP StoreStep.appends := by
  induction others with
  | nil => rfl
  | cons e others ih => simp [StoreStep.appends]

theorem countP_hits_others (others : List ForeignCommit) (rest : List StoreStep) :
    (others.map Sum.inl ++ rest).countP (StoreStep.hits id) =
      others.countP (ForeignCommit.hits id) + rest.countP (StoreStep.hits id) := by
  induction others with
  | nil => simp
  | cons e others ih =>
      rw [List.map_cons, List.cons_append, List.countP_cons, List.countP_cons, ih,
        Nat.add_right_comm]
      rfl

/-- What foreign commits do to the store: the trail is not theirs, and a stream that none
of them hits is as before. -/
theorem others_commit (others : List ForeignCommit) {x y : Server × Trail}
    (hy : y = others.foldl (fun x e => e.commit C x) x) (hx : x.1.WellFormed) :
    y.1.WellFormed ∧ x.1.Extends y.1 ∧ y.2 = x.2 ∧
      (others.any (ForeignCommit.hits id) = false → y.1.streams id = x.1.streams id) := by
  induction others generalizing x with
  | nil =>
      subst hy
      exact ⟨hx, Server.Extends.refl _, rfl, fun _ => rfl⟩
  | cons e others ih =>
      obtain ⟨hwf, hext, htrail, hsame⟩ :=
        ih hy (Server.commit_wellFormed C hx e.streamId e.events e.recordedAt)
      refine ⟨hwf, (Server.commit_extends C x.1 e.streamId e.events e.recordedAt).trans hext,
        htrail, fun hnone => ?_⟩
      rw [List.any_cons, Bool.or_eq_false_iff] at hnone
      rw [hsame hnone.2]
      by_cases heq : e.streamId = id
      · have hempty : e.events = [] := by simpa [ForeignCommit.hits, heq] using hnone.1
        change (x.1.commit C e.streamId e.events e.recordedAt).streams id = _
        rw [← heq, Server.commit_streams_self, hempty]
        exact List.append_nil _
      · exact Server.commit_streams_ne C x.1 (fun h => heq h.symm) e.events e.recordedAt

/-- The account of a run of an execute that has `n` attempts: each one that fails is paid
by a foreign commit. -/
structure Accounted (id : Uuid) (n : Nat) (behind : Bool) (x y : Server × Trail)
    (trace : List StoreStep)
    (fut : ActorFuture A (ActorLocals A × ExecuteResult A)) : Prop where
  attempts : trace.countP StoreStep.appends ≤ n
  committed : y.2.commits.length ≤ x.2.commits.length + 1
  conflicts : ∀ l, fut = .ready (l, .error .wrongExpectedVersion) →
    trace.countP StoreStep.appends = n ∧
      n ≤ (if behind then 1 else 0) + trace.countP (StoreStep.hits id) ∧
      EachPreceded id behind trace

/-- Foreign commits go on while an execute is over. -/
theorem ready_runAmong {out : ActorLocals A × ExecuteResult A} {x y : Server × Trail}
    {fut' : ActorFuture A (ActorLocals A × ExecuteResult A)}
    {schedule : List (ForeignCommit ⊕ Answer)} {trace : List StoreStep}
    (hrun : (Future.ready out).runAmong (ForeignCommit.commit C) (StoreOp.serve C)
      schedule x = some (trace, fut', y)) (hx : x.1.WellFormed) :
    (∃ others : List ForeignCommit, trace = others.map Sum.inl) ∧ fut' = .ready out ∧
      y.2 = x.2 := by
  obtain ⟨others, ⟨rfl, rfl, hy⟩ | ⟨l, op, resume, a, r, s', rest, later, hawait, -⟩⟩ :=
    Future.runAmong_cases hrun
  · exact ⟨⟨others, rfl⟩, rfl, (@others_commit C 0 others _ _ hy hx).2.2.1⟩
  · cases hawait

namespace Accounted

variable {n : Nat} {behind : Bool} {x y : Server × Trail} {trace : List StoreStep}
  {fut : ActorFuture A (ActorLocals A × ExecuteResult A)}

/-- Nothing was appended, and there is no conflict to account for. -/
theorem unasked {others : List ForeignCommit} (htrace : trace = others.map Sum.inl)
    (htrail : y.2 = x.2) (hfut : ∀ l, fut ≠ .ready (l, .error .wrongExpectedVersion)) :
    Accounted id n behind x y trace fut where
  attempts := by
    have hnone := countP_appends_others others []
    rw [List.append_nil] at hnone
    rw [htrace, hnone]
    exact Nat.zero_le n
  committed := by
    rw [htrail]
    exact Nat.le_succ _
  conflicts l hl := absurd hl (hfut l)

/-- The execute has made its last append, and does not return `WrongExpectedVersion`. -/
theorem asked {others later : List ForeignCommit} {expected : ExpectedVersionArg}
    {events : List ProposedEventData} {r : Except Status AppendResponse}
    (htrace : trace = others.map Sum.inl ++
      .inr ⟨.append id expected events, r⟩ :: later.map Sum.inl)
    (hcommits : y.2.commits.length ≤ x.2.commits.length + 1)
    (hfut : ∀ l, fut ≠ .ready (l, .error .wrongExpectedVersion)) :
    Accounted id (n + 1) behind x y trace fut where
  attempts := by
    have hlater := countP_appends_others later []
    rw [List.append_nil] at hlater
    rw [htrace, countP_appends_others, List.countP_cons_of_pos rfl, hlater]
    exact Nat.succ_le_succ (Nat.zero_le n)
  committed := hcommits
  conflicts l hl := absurd hl (hfut l)

/-- One round: an append that a foreign commit came before, a re-read, and what follows. -/
theorem round {x' : Server × Trail} {others others' : List ForeignCommit}
    {expected : ExpectedVersionArg} {events : List ProposedEventData}
    {r : Except Status AppendResponse} {fromVersion maxCount : Nat}
    {r' : Except Status (List RecordedEvent)} {later : List StoreStep}
    (htrace : trace = others.map Sum.inl ++ .inr ⟨.append id expected events, r⟩ ::
      (others'.map Sum.inl ++ .inr ⟨.readStream id fromVersion maxCount, r'⟩ :: later))
    (hbehind : (behind || others.any (ForeignCommit.hits id)) = true)
    (htrail : x'.2.commits = x.2.commits) (hlater : Accounted id n false x' y later fut) :
    Accounted id (n + 1) behind x y trace fut := by
  have happends : trace.countP StoreStep.appends = later.countP StoreStep.appends + 1 := by
    rw [htrace, countP_appends_others, List.countP_cons_of_pos rfl, countP_appends_others,
      List.countP_cons_of_neg (by simp [StoreStep.appends, StoreOp.isAppend])]
  have hhits : trace.countP (StoreStep.hits id) = others.countP (ForeignCommit.hits id) +
      (others'.countP (ForeignCommit.hits id) + later.countP (StoreStep.hits id)) := by
    rw [htrace, countP_hits_others, List.countP_cons_of_neg (by simp [StoreStep.hits]),
      countP_hits_others, List.countP_cons_of_neg (by simp [StoreStep.hits])]
  refine ⟨?_, ?_, fun l hl => ?_⟩
  · rw [happends]
    exact Nat.succ_le_succ hlater.attempts
  · rw [← htrail]
    exact hlater.committed
  · obtain ⟨hall, hpaid, hpreceded⟩ := hlater.conflicts l hl
    refine ⟨by rw [happends, hall], ?_, ?_⟩
    · have hone : 1 ≤ (if behind then 1 else 0) + others.countP (ForeignCommit.hits id) := by
        cases behind with
        | true => exact Nat.le_add_right 1 _
        | false =>
            have hpos := List.countP_pos_iff.mpr (List.any_eq_true.mp hbehind)
            simpa using hpos
      simp only [Bool.false_eq_true, ↓reduceIte] at hpaid
      omega
    · rw [htrace, eachPreceded_others, hbehind]
      exact ⟨rfl, (eachPreceded_others _ _ _).mpr hpreceded⟩

/-- After an append that was rejected: the re-read, and the rounds that are left. -/
theorem reread {l : ActorLocals A} {z : Server × Trail} {others : List ForeignCommit}
    {expected : ExpectedVersionArg} {events : List ProposedEventData}
    {r : Except Status AppendResponse}
    {resume : Except Status (List RecordedEvent) →
      ActorFuture A (ActorLocals A × ExecuteResult A)}
    {schedule : List (ForeignCommit ⊕ Answer)} {later : List StoreStep}
    (hz : z.1.WellFormed) (hl : ExactPrefix C l (z.1.streams id))
    (hcommits : z.2.commits = x.2.commits)
    (htrace : trace = others.map Sum.inl ++ .inr ⟨.append id expected events, r⟩ :: later)
    (hbehind : (behind || others.any (ForeignCommit.hits id)) = true)
    (hrun : (Future.await l (.readStream id l.fromVersion u64Max) resume).runAmong
      (ForeignCommit.commit C) (StoreOp.serve C) schedule z = some (later, fut, y))
    (hlost : ∀ status, resume (.error status) = .ready (l, .error (.transport status)))
    (hagain : ∀ newer rest (v : Server × Trail) last, v.1.WellFormed →
      ExactPrefix C (l.foldEvents C newer) (v.1.streams id) →
      (l.foldEvents C newer).fromVersion = (v.1.streams id).length →
      (resume (.ok newer)).runAmong (ForeignCommit.commit C) (StoreOp.serve C) rest v =
        some (last, fut, y) → Accounted id n false v y last fut) :
    Accounted id (n + 1) behind x y trace fut := by
  obtain ⟨others', ⟨rfl, rfl, hy⟩ |
    ⟨_, _, _, _, _, ⟨s', trail'⟩, _, last, hawait, hread, hlast, rfl⟩⟩ :=
      Future.runAmong_cases hrun
  · refine .asked htrace ?_ fun l' hl' => by cases hl'
    rw [(@others_commit C id others' _ _ hy hz).2.2.1, hcommits]
    exact Nat.le_succ _
  · cases hawait
    generalize hothers : others'.foldl (fun x e => e.commit C x) z = v at hread
    obtain ⟨hv, hext, htrail, -⟩ := @others_commit C id others' _ _ hothers.symm hz
    obtain ⟨s, trail⟩ := v
    have hcommits₁ : trail.commits = x.2.commits :=
      (congrArg Trail.commits htrail).trans hcommits
    obtain ⟨rfl, ⟨rfl, rfl⟩ | ⟨status, rfl, rfl⟩⟩ := serve_readStream_cases hv hread
    · obtain ⟨hend, hexact⟩ := (hl.mono (hext id)).catchUp (hv id)
      exact .round htrace hbehind hcommits₁
        (hagain _ _ (s', ⟨trail.commits, trail.seen ++ _⟩) _ hv hexact hend hlast)
    · rw [hlost] at hlast
      obtain ⟨⟨others₂, hothers₂⟩, rfl, hy⟩ := ready_runAmong hlast hv
      exact .round htrace hbehind hcommits₁
        (.unasked hothers₂ hy fun l' hl' => by cases hl')

end Accounted

/-- Only a foreign commit makes the server reject the pair of an execute that has read its
stream to the end. -/
theorem overtaken_of_rejected {l : ActorLocals A} {behind : Bool} {others : List ForeignCommit}
    {x z : Server × Trail}
    (hbehind : behind = false → l.fromVersion = (x.1.streams id).length)
    (hsame : others.any (ForeignCommit.hits id) = false → z.1.streams id = x.1.streams id)
    (hrejected : l.expected.accepts (z.1.streams id).length = false) :
    (behind || others.any (ForeignCommit.hits id)) = true := by
  by_contra hnot
  rw [Bool.not_eq_true, Bool.or_eq_false_iff] at hnot
  have haccepts := (l.expected_accepts_iff _).mpr (hbehind hnot.1)
  rw [← hsame hnot.2, hrejected] at haccepts
  cases haccepts

/-- From a pair that names a prefix of the stream, an execute with `n` attempts keeps
account of its conflicts. -/
theorem executeWithRetry_accounted (newV4 : Nat → Nat → Uuid) (cmd : A.Command)
    (ctx : CommandContext) (n : Nat) {l : ActorLocals A} {behind : Bool}
    {x y : Server × Trail} (hx : x.1.WellFormed) (hl : ExactPrefix C l (x.1.streams id))
    (hbehind : behind = false → l.fromVersion = (x.1.streams id).length)
    {schedule : List (ForeignCommit ⊕ Answer)} {trace : List StoreStep}
    {fut : ActorFuture A (ActorLocals A × ExecuteResult A)}
    (hrun : (executeWithRetry C id instanceId newV4 cmd ctx n l).runAmong
      (ForeignCommit.commit C) (StoreOp.serve C) schedule x = some (trace, fut, y)) :
    Accounted id n behind x y trace fut := by
  induction n generalizing l behind x schedule trace with
  | zero =>
      obtain ⟨⟨others, rfl⟩, rfl, htrail⟩ := ready_runAmong hrun hx
      have happends := countP_appends_others others []
      rw [List.append_nil] at happends
      have hpreceded := (@eachPreceded_others id behind others []).mpr trivial
      rw [List.append_nil] at hpreceded
      refine ⟨Nat.le_of_eq happends, ?_, fun l' _ => ⟨happends, Nat.zero_le _, hpreceded⟩⟩
      rw [htrail]
      exact Nat.le_succ _
  | succ n ih =>
      have hround := executeWithRetry_round C id instanceId newV4 cmd ctx n l
      generalize executeWithRetry C id instanceId newV4 cmd ctx (n + 1) l = start
        at hround hrun
      cases hround with
      | refused hhandle =>
          obtain ⟨⟨others, htrace⟩, rfl, htrail⟩ := ready_runAmong hrun hx
          exact .unasked htrace htrail fun l' hl' => by cases hl'
      | noEvents hhandle =>
          obtain ⟨⟨others, htrace⟩, rfl, htrail⟩ := ready_runAmong hrun hx
          exact .unasked htrace htrail fun l' hl' => by cases hl'
      | unserialized hhandle henc =>
          obtain ⟨⟨others, htrace⟩, rfl, htrail⟩ := ready_runAmong hrun hx
          exact .unasked htrace htrail fun l' hl' => by cases hl'
      | panicked hhandle henc =>
          obtain ⟨others, ⟨htrace, rfl, hy⟩ | ⟨_, _, _, _, r, _, _, _, hawait, -⟩⟩ :=
            Future.runAmong_cases hrun
          · exact .unasked htrace (@others_commit C id others _ _ hy hx).2.2.1
              fun l' hl' => by cases hl'
          · cases hawait
            exact r.elim
      | appends hhandle henc haccepted hconflict hfailed hagain hlost =>
          obtain ⟨others, ⟨htrace, rfl, hy⟩ |
            ⟨_, _, _, _, r, ⟨s', trail'⟩, _, later, hawait, hserve, hlater, htrace⟩⟩ :=
              Future.runAmong_cases hrun
          · exact .unasked htrace (@others_commit C id others _ _ hy hx).2.2.1
              fun l' hl' => by cases hl'
          · cases hawait
            generalize hz : others.foldl (fun x e => e.commit C x) x = z at hserve
            obtain ⟨hz₁, hext, htrail, hsame⟩ := @others_commit C id others _ _ hz.symm hx
            obtain ⟨s, trail⟩ := z
            have hcommits : trail.commits = x.2.commits := congrArg Trail.commits htrail
            rcases serve_append_cases hserve with
              ⟨resp, at', rfl, -, -, rfl, rfl⟩ |
              ⟨status, rfl, hcode, hrejected, rfl, rfl⟩ |
              ⟨status, rfl, hcode, ⟨rfl, rfl⟩ | ⟨at', -, rfl, rfl⟩⟩
            · rw [haccepted] at hlater
              obtain ⟨⟨others', rfl⟩, rfl, hy⟩ := ready_runAmong hlater
                (Server.commit_wellFormed C hz₁ id _ at')
              refine .asked htrace ?_ fun l' hl' => by cases hl'
              rw [hy, ← hcommits]
              simp
            · rw [hconflict status hcode] at hlater
              refine .reread (z := (s', trail')) hz₁ (hl.mono (hext id)) hcommits htrace
                (overtaken_of_rejected hbehind hsame hrejected) hlater hlost ?_
              intro newer rest z last hz hexact hend hlast
              rw [hagain] at hlast
              exact ih hz hexact (fun _ => hend) hlast
            · rw [hfailed status hcode] at hlater
              obtain ⟨⟨others', rfl⟩, rfl, hy⟩ := ready_runAmong hlater hz₁
              refine .asked htrace ?_ fun l' hl' => by cases hl'
              rw [hy, hcommits]
              exact Nat.le_succ _
            · rw [hfailed status hcode] at hlater
              obtain ⟨⟨others', rfl⟩, rfl, hy⟩ := ready_runAmong hlater
                (Server.commit_wellFormed C hz₁ id _ at')
              refine .asked htrace ?_ fun l' hl' => by cases hl'
              rw [hy, ← hcommits]
              simp

/-- An execute from an exact prefix appends at most `MAX_RETRIES` times, and at most one
append is committed.  It returns `WrongExpectedVersion` only after as many foreign commits
beyond its prefix: one before the first attempt, one between each re-read and the next. -/
theorem wrong_version_is_never_spurious {s t : Server} {trail trail' : Trail}
    (hs : s.WellFormed) {l : ActorLocals A} (hl : ExactPrefix C l (s.streams id))
    (newV4 : Nat → Nat → Uuid) (cmd : A.Command) (ctx : CommandContext)
    {schedule : List (ForeignCommit ⊕ Answer)} {trace : List StoreStep}
    {fut : ActorFuture A (ActorLocals A × ExecuteResult A)}
    (hrun : (executeWithRetry C id instanceId newV4 cmd ctx maxRetries l).runAmong
      (ForeignCommit.commit C) (StoreOp.serve C) schedule (s, trail) =
        some (trace, fut, (t, trail'))) :
    trace.countP StoreStep.appends ≤ maxRetries ∧
      trail'.commits.length ≤ trail.commits.length + 1 ∧
      ∀ l', fut = .ready (l', .error .wrongExpectedVersion) →
        trace.countP StoreStep.appends = maxRetries ∧
        EachPreceded id (!((s.streams id).drop l.fromVersion).isEmpty) trace ∧
        ∀ earlier : List (List RecordedEvent),
          earlier.flatten = (s.streams id).drop l.fromVersion →
            maxRetries ≤ earlier.length + trace.countP (StoreStep.hits id) := by
  have hbehind : (!((s.streams id).drop l.fromVersion).isEmpty) = false →
      l.fromVersion = (s.streams id).length := by
    intro hnone
    rw [Bool.not_eq_false', List.isEmpty_iff, List.drop_eq_nil_iff] at hnone
    exact Nat.le_antisymm hl.bounded hnone
  have haccount := executeWithRetry_accounted newV4 cmd ctx maxRetries hs hl hbehind hrun
  refine ⟨haccount.attempts, haccount.committed, fun l' hl' => ?_⟩
  obtain ⟨hall, hpaid, hpreceded⟩ := haccount.conflicts l' hl'
  refine ⟨hall, hpreceded, fun earlier hearlier => Nat.le_trans hpaid ?_⟩
  refine Nat.add_le_add_right ?_ _
  cases earlier with
  | nil =>
      rw [List.flatten_nil] at hearlier
      rw [← hearlier]
      exact Nat.zero_le 0
  | cons block rest =>
      split
      · exact Nat.succ_le_succ (Nat.zero_le _)
      · exact Nat.zero_le _

namespace ConflictsWitness

open EventCodecWitness ActorRunsWitness

def emptyServer : Server := ⟨fun _ => [], 0⟩

def sevens : Nat → Nat → Uuid := fun _ _ => 7

/-- Somebody else opens the door. -/
def openedElsewhere : ForeignCommit := ⟨3, [⟨"8", "Opened", .empty, .empty⟩], 0⟩

/-- The others are faster every time. -/
def alwaysLate : List (ForeignCommit ⊕ Answer) :=
  (List.replicate maxRetries
    [.inl openedElsewhere, .inr (.server 0), .inr (.server 0)]).flatten

def lateRun := (executeWithRetry crates 3 "m-1" sevens () .default maxRetries
  (startLocals door none)).runAmong (ForeignCommit.commit crates) (StoreOp.serve crates)
    alwaysLate (emptyServer, ⟨[], []⟩)

theorem lateRun_conflicts :
    ∃ trace l t trail, lateRun = some (trace,
      .ready (l, .error .wrongExpectedVersion), (t, trail)) :=
  ⟨_, _, _, _, rfl⟩

theorem wrong_version_is_never_spurious_late :
    ∃ trace l t trail, lateRun = some (trace,
        .ready (l, .error .wrongExpectedVersion), (t, trail)) ∧
      trace.countP StoreStep.appends = maxRetries ∧ EachPreceded 3 false trace ∧
      maxRetries ≤ trace.countP (StoreStep.hits 3) := by
  obtain ⟨trace, l, t, trail, hrun⟩ := lateRun_conflicts
  have hstart : ExactPrefix crates (startLocals door none) (emptyServer.streams 3) :=
    startLocals_exactPrefix (by rintro _ ⟨⟩)
  obtain ⟨-, -, hconflicts⟩ := wrong_version_is_never_spurious (s := emptyServer)
    (fun _ => trivial) hstart sevens () .default hrun
  obtain ⟨hall, hpreceded, hpaid⟩ := hconflicts l rfl
  have henough := hpaid [] rfl
  rw [List.length_nil, Nat.zero_add] at henough
  exact ⟨trace, l, t, trail, hrun, hall, hpreceded, henough⟩

end ConflictsWitness

end EventfoldEs
