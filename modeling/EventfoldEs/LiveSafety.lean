/-
Every runner function, whatever else runs over the same store, moves cursors
only forward and keeps every checkpoint the fold of the log below its cursor.
-/
import EventfoldEs.LiveSteps

namespace EventfoldEs

open Async OrderedLog

variable (C : Crates) {π μ κ : Type} {G : Registry π μ}

/-- The records that a stream delivers. -/
def itemEvents (items : List Item) : List RecordedEvent :=
  items.filterMap fun
    | .ok (.event recorded) => some recorded
    | _ => none

namespace StoreState

def cursor (s : StoreState G) (r : π ⊕ μ) : Nat := (s.memory r).lastGlobalPosition

/-- All checkpoints are folds of the log below their cursors. -/
structure Consistent (log : List RecordedEvent) (s : StoreState G) : Prop where
  memory : ∀ r, (G.runner r).Consistent C log (s.memory r)
  tmp : ∀ r, ∀ checkpoint ∈ s.tmp r, (G.runner r).Consistent C log checkpoint
  disk : ∀ r, ∀ checkpoint ∈ s.disk r, (G.runner r).Consistent C log checkpoint

/-- What a process manager produces for the events below its cursor in memory. -/
def emitted (log : List RecordedEvent) (s : StoreState G) (m : μ) : List Emission :=
  (G.runner (.inr m)).emitted C log (s.cursor (.inr m))

end StoreState

namespace RunnerOp

/-- `subscribe_all_from` delivers what the log has from the position on, in
order, until the stream ends or fails. -/
def Delivers (log : List RecordedEvent) : (op : RunnerOp π μ) → op.Res G → Prop
  | .subscribeAllFrom p, result => ∀ items, result = .ok items →
      Segment RecordedEvent.globalPosition log p (itemEvents items)
  | _, _ => True

/-- The runner that takes an event, and the event. -/
def takes? : RunnerOp π μ → Option ((π ⊕ μ) × RecordedEvent)
  | applyEvent p recorded => some (.inl p, recorded)
  | reactEvent m recorded => some (.inr m, recorded)
  | _ => none

def produced : (op : RunnerOp π μ) → op.Res G → List (Work μ)
  | .reactEvent m recorded, envelopes => reactionWork m recorded envelopes
  | _, _ => []

/-- What an answer says about the store. -/
def Reads : (op : RunnerOp π μ) → op.Res G → StoreState G → Prop
  | .position r, n, s => n = s.cursor r
  | _, _, _ => True

end RunnerOp

variable [DecidableEq π] [DecidableEq μ]

/-- The terms on which runner functions share a store: cursors only move on,
checkpoints stay folds, and what a process manager newly produces is handed to
the function that made it react. -/
def foldTerms (log : List RecordedEvent) :
    Terms (List (Work μ)) (RunnerOp π μ) (RunnerOp.Res G) (StoreState G) where
  rely s t := (∀ r, s.cursor r ≤ t.cursor r) ∧ t.Consistent C log
  serves op s r t := op.Delivers log r ∧ ∃ answer, op.serve C answer s = some (r, t)
  guarantee op r s t := (∀ r, s.cursor r ≤ t.cursor r) ∧ t.Consistent C log ∧
    ∀ m, ∀ e ∈ t.emitted C log m, e ∈ s.emitted C log m ∨ ⟨m, e⟩ ∈ op.produced r
  during _ _ := True
  rely_trans hst htv := ⟨fun r => Nat.le_trans (hst.1 r) (htv.1 r), htv.2⟩
  during_stable _ _ := trivial

variable {C} {log : List RecordedEvent}

/-- A property of all entries of a table, after one of them is replaced. -/
theorem forall_mem_update {ρ : Type} [DecidableEq ρ] {F : ρ → Type}
    {P : ∀ r, F r → Prop} {table : ∀ r, Option (F r)} (htable : ∀ r, ∀ c ∈ table r, P r c)
    {j : ρ} {entry : Option (F j)} (hentry : ∀ c ∈ entry, P j c) :
    ∀ r, ∀ c ∈ Function.update table j entry r, P r c := by
  intro r c hc
  by_cases hr : r = j
  · subst hr
    rw [Function.update_self] at hc
    exact hentry c hc
  · rw [Function.update_of_ne hr] at hc
    exact htable r c hc

theorem serve_writeTmp {r : π ⊕ μ} {answer : RunnerAnswer} {s t : StoreState G}
    {out : Except String Unit}
    (hserve : (RunnerOp.writeTmp r).serve C answer s = some (out, t)) :
    ∃ entry, t = { s with tmp := Function.update s.tmp r entry } := by
  rcases answer with _ | ⟨_ | _⟩ | _ | _ <;> cases hserve
  · exact ⟨none, rfl⟩
  · exact ⟨some (s.memory r), rfl⟩

theorem serve_rename {r : π ⊕ μ} {answer : RunnerAnswer} {s t : StoreState G}
    {out : Except String Unit}
    (hserve : (RunnerOp.rename r).serve C answer s = some (out, t)) :
    t = s ∨ ∃ checkpoint, s.tmp r = some checkpoint ∧ t = { s with
      tmp := Function.update s.tmp r none
      disk := Function.update s.disk r (some checkpoint) } := by
  rcases answer with _ | ⟨_ | _⟩ | _ | _
  case result.error => exact Or.inl (by cases hserve; rfl)
  case result.ok =>
    obtain ⟨checkpoint, hsome, hmapped⟩ := Option.map_eq_some_iff.mp hserve
    exact Or.inr ⟨checkpoint, hsome, (by cases hmapped; rfl)⟩
  all_goals cases hserve

/-- What is written to disk is what is in memory, or was written beside before. -/
theorem serve_saved {op : RunnerOp π μ} {answer : RunnerAnswer} {s t : StoreState G}
    {r : op.Res G} {P : ∀ r, Checkpoint (G.runner r).State → Prop}
    (htmp : ∀ r, ∀ c ∈ s.tmp r, P r c) (hdisk : ∀ r, ∀ c ∈ s.disk r, P r c)
    (hwrite : ∀ j, op = .writeTmp j → answer = .result (.ok ()) → P j (s.memory j))
    (hserve : op.serve C answer s = some (r, t)) :
    (∀ r, ∀ c ∈ t.tmp r, P r c) ∧ ∀ r, ∀ c ∈ t.disk r, P r c := by
  cases op with
  | writeTmp j =>
      rcases answer with _ | ⟨_ | _⟩ | _ | _ <;> cases hserve
      · exact ⟨forall_mem_update htmp nofun, hdisk⟩
      · refine ⟨forall_mem_update htmp fun c hc => ?_, hdisk⟩
        exact Option.some.inj hc ▸ hwrite j rfl rfl
  | rename j =>
      rcases serve_rename hserve with rfl | ⟨checkpoint, hsome, rfl⟩
      · exact ⟨htmp, hdisk⟩
      · refine ⟨forall_mem_update htmp nofun, forall_mem_update hdisk fun c hc => ?_⟩
        exact Option.some.inj hc ▸ htmp j checkpoint hsome
  | sendPosition n =>
      rcases answer with _ | ⟨_ | _⟩ | _ | any <;> cases hserve
      cases any <;> exact ⟨htmp, hdisk⟩
  | _ =>
      rcases answer with _ | ⟨_ | _⟩ | _ | _ <;> cases hserve <;> exact ⟨htmp, hdisk⟩

/-- An operation that takes no event leaves the runners in memory alone. -/
theorem serve_quiet {op : RunnerOp π μ} (hquiet : op.takes? = none)
    {answer : RunnerAnswer} {s t : StoreState G} {r : op.Res G}
    (hserve : op.serve C answer s = some (r, t)) :
    t.memory = s.memory ∧ op.Reads r s := by
  cases op with
  | applyEvent p recorded => cases hquiet
  | reactEvent m recorded => cases hquiet
  | rename j =>
      rcases serve_rename hserve with rfl | ⟨_, _, rfl⟩ <;> exact ⟨rfl, trivial⟩
  | position j =>
      rcases answer with _ | ⟨_ | _⟩ | _ | _ <;> cases hserve
      exact ⟨rfl, rfl⟩
  | sendPosition n =>
      rcases answer with _ | ⟨_ | _⟩ | _ | any <;> cases hserve
      cases any <;> exact ⟨rfl, trivial⟩
  | _ =>
      rcases answer with _ | ⟨_ | _⟩ | _ | _ <;> cases hserve <;> exact ⟨rfl, trivial⟩

omit [DecidableEq π] [DecidableEq μ] in
/-- A runner takes an event while its mutex is held already. -/
theorem lockUse_of_takes {op : RunnerOp π μ} {taken : (π ⊕ μ) × RecordedEvent}
    (htakes : op.takes? = some taken) : op.lockUse = .nothing := by
  cases op with
  | applyEvent p recorded => rfl
  | reactEvent m recorded => rfl
  | _ => cases htakes

/-- What an operation that takes an event does. -/
theorem serve_takes {op : RunnerOp π μ} {j : π ⊕ μ} {recorded : RecordedEvent}
    (htakes : op.takes? = some (j, recorded)) {answer : RunnerAnswer} {s t : StoreState G}
    {r : op.Res G} (hserve : op.serve C answer s = some (r, t)) :
    t = (s.event C j recorded).1 ∧
      ∀ m, j = .inr m → op.produced r = reactionWork m recorded (s.event C j recorded).2 := by
  cases op with
  | applyEvent p recorded =>
      cases htakes
      rcases answer with _ | ⟨_ | _⟩ | _ | _ <;> cases hserve
      exact ⟨rfl, nofun⟩
  | reactEvent m recorded =>
      cases htakes
      rcases answer with _ | ⟨_ | _⟩ | _ | _ <;> cases hserve
      refine ⟨rfl, fun m' heq => ?_⟩
      cases heq
      rfl
  | _ => cases htakes

/-- Whatever event a runner takes, cursors only move on, and its own past it. -/
theorem cursors_event (s : StoreState G) (j : π ⊕ μ) (recorded : RecordedEvent) :
    (∀ r, s.cursor r ≤ (s.event C j recorded).1.cursor r) ∧
      recorded.globalPosition < (s.event C j recorded).1.cursor j := by
  have hself : (s.event C j recorded).1.memory j =
      ((G.runner j).event C (s.memory j) recorded).1 := Function.update_self ..
  refine ⟨fun r => ?_, ?_⟩
  · unfold StoreState.cursor
    by_cases hr : r = j
    · subst hr
      rw [hself]
      exact Runner.position_le_event _ _ _
    · have hother : (s.event C j recorded).1.memory r = s.memory r :=
        Function.update_of_ne hr ..
      exact Nat.le_of_eq (by rw [hother])
  · unfold StoreState.cursor
    rw [hself]
    exact Runner.lt_position_event _ _ _

/-- A runner is past an event that it has been handed, which leaves its state alone
unless it decodes. -/
theorem event_moves (s : StoreState G) (j : π ⊕ μ) (recorded : RecordedEvent) :
    (s.event C j recorded).1.cursor j = max (s.cursor j) (recorded.globalPosition + 1) ∧
      (decodeStoredEvent C recorded = none →
        ((s.event C j recorded).1.memory j).state = (s.memory j).state) := by
  have hself : (s.event C j recorded).1.memory j =
      ((G.runner j).event C (s.memory j) recorded).1 := Function.update_self ..
  unfold StoreState.cursor
  rw [hself]
  by_cases hbehind : recorded.globalPosition < (s.memory j).lastGlobalPosition
  · rw [Runner.event_behind hbehind]
    exact ⟨(Nat.max_eq_left hbehind).symm, fun _ => rfl⟩
  · have hahead := Nat.not_lt.mp hbehind
    rw [(Runner.event_ahead hahead).1]
    refine ⟨(Nat.max_eq_right (Nat.le_succ_of_le hahead)).symm, fun hnone => ?_⟩
    exact Replay.absorb_of_undecodable hnone _

/-- No operation moves a cursor back. -/
theorem cursors_serve {op : RunnerOp π μ} {answer : RunnerAnswer} {s t : StoreState G}
    {r : op.Res G} (hserve : op.serve C answer s = some (r, t)) :
    ∀ j, s.cursor j ≤ t.cursor j := by
  intro j
  cases htakes : op.takes? with
  | none =>
      unfold StoreState.cursor
      exact Nat.le_of_eq (by rw [(serve_quiet htakes hserve).1])
  | some taken =>
      rw [(serve_takes htakes hserve).1]
      exact (cursors_event s taken.1 taken.2).1 j

/-- A runner that is not behind the stream takes its next event. -/
theorem event_keeps_folds (hlog : Increasing RecordedEvent.globalPosition log)
    {s : StoreState G} (hs : s.Consistent C log) {j : π ⊕ μ} {p : Nat}
    {recorded : RecordedEvent} {rest : List RecordedEvent}
    (hseg : Segment RecordedEvent.globalPosition log p (recorded :: rest))
    (hp : p ≤ s.cursor j) :
    (∀ r, s.cursor r ≤ (s.event C j recorded).1.cursor r) ∧
      (s.event C j recorded).1.Consistent C log ∧
      recorded.globalPosition < (s.event C j recorded).1.cursor j ∧
      ∀ m, ∀ e ∈ (s.event C j recorded).1.emitted C log m,
        e ∈ s.emitted C log m ∨
          (j = .inr m ∧ ⟨m, e⟩ ∈ reactionWork m recorded (s.event C j recorded).2) := by
  have hself : (s.event C j recorded).1.memory j =
      ((G.runner j).event C (s.memory j) recorded).1 := Function.update_self ..
  have hother : ∀ r, r ≠ j → (s.event C j recorded).1.memory r = s.memory r :=
    fun r hr => Function.update_of_ne hr ..
  obtain ⟨hfold, hemitted⟩ := Runner.event_consistent hlog (hs.memory j) hseg hp
  obtain ⟨hcursors, hpast⟩ := cursors_event (C := C) s j recorded
  refine ⟨hcursors, ⟨?_, hs.tmp, hs.disk⟩, hpast, ?_⟩
  · intro r
    by_cases hr : r = j
    · subst hr
      rw [hself]
      exact hfold
    · rw [hother r hr]
      exact hs.memory r
  · intro m e he
    unfold StoreState.emitted StoreState.cursor at he ⊢
    by_cases hr : .inr m = j
    · subst hr
      rw [hself, hemitted] at he
      rcases List.mem_append.mp he with hold | hnew
      · exact Or.inl hold
      · exact Or.inr ⟨rfl, List.mem_map_of_mem hnew⟩
    · rw [hother _ hr] at he
      exact Or.inl he

section Safe

variable {α : Type} {Q : α → StoreState G → Prop} {l : List (Work μ)} {op : RunnerOp π μ}
  {resume : op.Res G → RunnerFuture G α} {s : StoreState G}

/-- An await that takes no event. -/
theorem safe_await (hquiet : op.takes? = none)
    (hrest : ∀ t r, (foldTerms C log).rely s t → op.Delivers log r → op.Reads r t →
      (resume r).Safe (foldTerms C log) Q t) :
    Future.Safe (foldTerms C log) Q (.await l op resume) s := by
  refine ⟨trivial, fun s₁ h₁ r s₂ ⟨hdelivers, answer, hserve⟩ => ?_⟩
  obtain ⟨hmemory, hreads⟩ := serve_quiet hquiet hserve
  have hfolds : s₂.Consistent C log := by
    obtain ⟨htmp, hdisk⟩ := serve_saved h₁.2.tmp h₁.2.disk (fun j _ _ => h₁.2.memory j) hserve
    exact ⟨hmemory ▸ h₁.2.memory, htmp, hdisk⟩
  have hcursor : ∀ j, s₂.cursor j = s₁.cursor j := by
    intro j
    unfold StoreState.cursor
    rw [hmemory]
  have hreads₂ : op.Reads r s₂ := by
    cases op <;> first | trivial | exact hreads.trans (hcursor _).symm
  refine ⟨⟨fun j => Nat.le_of_eq (hcursor j).symm, hfolds, fun m e he => ?_⟩,
    hrest s₂ r ⟨fun j => (hcursor j).symm ▸ h₁.1 j, hfolds⟩ hdelivers hreads₂⟩
  rw [StoreState.emitted, hcursor] at he
  exact Or.inl he

/-- An await that takes the next event of a stream. -/
theorem safe_event (hlog : Increasing RecordedEvent.globalPosition log) {j : π ⊕ μ}
    {recorded : RecordedEvent} (htakes : op.takes? = some (j, recorded)) {p : Nat}
    {rest : List RecordedEvent}
    (hseg : Segment RecordedEvent.globalPosition log p (recorded :: rest))
    (hp : p ≤ s.cursor j)
    (hrest : ∀ t r, (foldTerms C log).rely s t → recorded.globalPosition < t.cursor j →
      (resume r).Safe (foldTerms C log) Q t) :
    Future.Safe (foldTerms C log) Q (.await l op resume) s := by
  refine ⟨trivial, fun s₁ h₁ r s₂ ⟨_, answer, hserve⟩ => ?_⟩
  obtain ⟨rfl, hproduced⟩ := serve_takes htakes hserve
  obtain ⟨hcursors, hfolds, hpast, hemitted⟩ :=
    event_keeps_folds hlog h₁.2 hseg (Nat.le_trans hp (h₁.1 j))
  refine ⟨⟨hcursors, hfolds, fun m e he => ?_⟩, hrest _ r
    ⟨fun i => Nat.le_trans (h₁.1 i) (hcursors i), hfolds⟩ hpast⟩
  rcases hemitted m e he with hold | ⟨hj, hnew⟩
  · exact Or.inl hold
  · exact Or.inr (hproduced m hj ▸ hnew)

/-- A future that takes no event is safe. -/
theorem safe_of_quiet {fut : RunnerFuture G α}
    (hquiet : fut.Only fun op => op.takes? = none) :
    fut.Safe (foldTerms C log) (fun _ _ => True) s := by
  induction fut generalizing s with
  | ready a => trivial
  | await l op resume ih => exact safe_await hquiet.1 fun t r _ _ _ => ih r (hquiet.2 r)

/-- Cursors do not go back while a safe future runs. -/
theorem safe_cursors {fut : RunnerFuture G α} (hsafe : fut.Safe (foldTerms C log) Q s) :
    fut.Safe (foldTerms C log) (fun a t => Q a t ∧ ∀ r, s.cursor r ≤ t.cursor r) s :=
  hsafe.frame (T := foldTerms C log) (fun _ _ hF hrely r => Nat.le_trans (hF r) (hrely.1 r))
    (fun _ _ _ _ hF hguar r => Nat.le_trans (hF r) (hguar.1 r)) fun _ => Nat.le_refl _

end Safe

section Plain

variable {G : Registry π μ}

/-- Takes no event and touches no mutex. -/
def RunnerOp.Plain (op : RunnerOp π μ) : Prop := op.takes? = none ∧ op.lockUse = .nothing

/-- Takes no event. -/
def Quiet {α : Type} (fut : RunnerFuture G α) : Prop := fut.Only fun op => op.takes? = none

omit [DecidableEq π] [DecidableEq μ]

theorem quiet_of_plain {α : Type} {fut : RunnerFuture G α}
    (hplain : fut.Only RunnerOp.Plain) : Quiet fut :=
  hplain.mono fun _ h => h.1

theorem save_plain (r : π ⊕ μ) : (save (G := G) r).Only RunnerOp.Plain := by
  refine ⟨⟨rfl, rfl⟩, fun out => ?_⟩
  cases out with
  | error e => trivial
  | ok u => exact ⟨⟨rfl, rfl⟩, fun _ => trivial⟩

theorem dispatchOne_plain (work : Work μ) (rest : List (Work μ)) :
    (dispatchOne (G := G) work rest).Only RunnerOp.Plain := by
  unfold dispatchOne
  split
  · refine ⟨⟨rfl, rfl⟩, fun out => ?_⟩
    cases out with
    | ok u => trivial
    | error e => exact ⟨⟨rfl, rfl⟩, fun _ => trivial⟩
  · exact ⟨⟨rfl, rfl⟩, fun _ => trivial⟩

theorem dispatchEach_plain (works : List (Work μ)) (report : ProcessManagerReport) :
    (dispatchEach (G := G) works report).Only RunnerOp.Plain := by
  induction works generalizing report with
  | nil => trivial
  | cons work rest ih =>
      refine Future.Only.bind (dispatchOne_plain work rest) fun disposal => ?_
      rcases disposal with _ | ⟨_ | _⟩
      · exact ih _
      · trivial
      · exact ih _

theorem dispatchLive_plain (works : List (Work μ)) :
    (dispatchLive (G := G) works).Only RunnerOp.Plain := by
  induction works with
  | nil => trivial
  | cons work rest ih => exact Future.Only.bind (dispatchOne_plain work rest) fun _ => ih

theorem saveEach_quiet (ms : List μ) : Quiet (G := G) (saveEach ms) := by
  induction ms with
  | nil => trivial
  | cons m rest ih =>
      refine ⟨rfl, fun _ => Future.Only.bind (quiet_of_plain (save_plain _)) fun out =>
        ⟨rfl, fun _ => ?_⟩⟩
      cases out with
      | error e => trivial
      | ok u => exact ih

theorem saveCheckpoints_quiet (rs : List (π ⊕ μ)) : Quiet (G := G) (saveCheckpoints rs) := by
  induction rs with
  | nil => trivial
  | cons r rest ih =>
      exact ⟨rfl, fun _ => Future.Only.bind (quiet_of_plain (save_plain r)) fun _ =>
        ⟨rfl, fun _ => ih⟩⟩

end Plain

section Streams

variable (hlog : Increasing RecordedEvent.globalPosition log)
include hlog

/-- A pass over a stream is safe when what it does with an event is. -/
theorem processStream_safe {j : π ⊕ μ}
    {onEvent : List (Work μ) → RecordedEvent → RunnerFuture G (List (Work μ))}
    (hevent : ∀ acc recorded rest p s,
      Segment RecordedEvent.globalPosition log p (recorded :: rest) → p ≤ s.cursor j →
      (onEvent acc recorded).Safe (foldTerms C log)
        (fun _ t => recorded.globalPosition < t.cursor j) s)
    (items : List Item) (acc : List (Work μ)) {p : Nat} {s : StoreState G}
    (hseg : Segment RecordedEvent.globalPosition log p (itemEvents items))
    (hp : p ≤ s.cursor j) :
    (processStream C onEvent items acc).Safe (foldTerms C log) (fun _ _ => True) s := by
  induction items generalizing acc p s with
  | nil => exact safe_await rfl fun _ _ _ _ _ => trivial
  | cons item rest ih =>
      rcases item with status | recorded | _ | _
      · exact safe_await rfl fun _ _ _ _ _ => trivial
      · refine safe_await rfl fun t _ hrely _ _ => ?_
        have hsafe := hevent acc recorded _ p t hseg (Nat.le_trans hp (hrely.1 j))
        exact hsafe.bind fun acc' u hpast => ih acc' (hseg.next hlog).2.2.2 hpast
      · exact safe_await rfl fun _ _ _ _ _ => trivial
      · exact safe_await rfl fun t _ hrely _ _ =>
          ih acc hseg (Nat.le_trans hp (hrely.1 j))

theorem subscribeAndProcess_safe {j : π ⊕ μ}
    {onEvent : List (Work μ) → RecordedEvent → RunnerFuture G (List (Work μ))}
    (hevent : ∀ acc recorded rest p s,
      Segment RecordedEvent.globalPosition log p (recorded :: rest) → p ≤ s.cursor j →
      (onEvent acc recorded).Safe (foldTerms C log)
        (fun _ t => recorded.globalPosition < t.cursor j) s) (s : StoreState G) :
    (subscribeAndProcess C onEvent j).Safe (foldTerms C log) (fun _ _ => True) s := by
  refine safe_await rfl fun t p _ _ hread => ?_
  refine safe_await rfl fun u result hrely hdelivers _ => ?_
  cases result with
  | error status => trivial
  | ok items =>
      refine processStream_safe hlog hevent items [] (hdelivers items rfl) ?_
      exact Nat.le_trans (Nat.le_of_eq hread) (hrely.1 j)

theorem projectionCatchUp_safe (p : π) (s : StoreState G) :
    (projectionCatchUp C p).Safe (foldTerms C log) (fun _ _ => True) s := by
  refine (subscribeAndProcess_safe hlog (fun acc recorded rest q s hseg hq => ?_) s).bind
    fun result t _ => ?_
  · exact safe_event hlog rfl hseg hq fun _ _ _ hpast => hpast
  · cases result with
    | error e => trivial
    | ok works => exact safe_of_quiet (quiet_of_plain (save_plain _))

theorem processManagerCatchUp_safe (m : μ) (s : StoreState G) :
    (processManagerCatchUp C m).Safe (foldTerms C log) (fun _ _ => True) s := by
  refine subscribeAndProcess_safe hlog (fun acc recorded rest q s hseg hq => ?_) s
  exact safe_event hlog rfl hseg hq fun _ _ _ hpast => hpast

theorem projection_safe (p : π) (s : StoreState G) :
    (projection C p).Safe (foldTerms C log) (fun _ _ => True) s := by
  unfold projection
  split
  · refine safe_await rfl fun t _ _ _ _ => ?_
    refine (projectionCatchUp_safe hlog p t).bind fun result u _ => ?_
    cases result with
    | error e => exact safe_await rfl fun _ _ _ _ _ => trivial
    | ok v =>
        exact safe_await rfl fun _ _ _ _ _ => safe_await rfl fun _ _ _ _ _ => trivial
  · trivial

theorem liveProjection_safe (p : π) (s : StoreState G) :
    (liveProjection C p).Safe (foldTerms C log) (fun _ _ => True) s := by
  refine safe_await rfl fun t isSome _ _ _ => ?_
  cases isSome with
  | false => exact projection_safe hlog p t
  | true =>
      simp only [if_true]
      split
      · exact safe_of_quiet ⟨rfl, fun _ => ⟨rfl, fun _ => ⟨rfl, fun _ => trivial⟩⟩⟩
      · trivial

theorem catchUpEach_safe (ms : List μ) (allWork : List (Work μ)) (s : StoreState G) :
    (catchUpEach C ms allWork).Safe (foldTerms C log) (fun _ _ => True) s := by
  induction ms generalizing allWork s with
  | nil => trivial
  | cons m rest ih =>
      refine safe_await rfl fun t _ _ _ _ => ?_
      refine ((processManagerCatchUp_safe hlog m t).mapLocals fun _ _ _ => trivial).bind
        fun result u _ => ?_
      cases result with
      | error e => exact safe_await rfl fun _ _ _ _ _ => trivial
      | ok works => exact safe_await rfl fun v _ _ _ _ => ih _ v

theorem runProcessManagers_safe (s : StoreState G) :
    (runProcessManagers C).Safe (foldTerms C log) (fun _ _ => True) s := by
  refine (catchUpEach_safe hlog G.processManagers [] s).bind fun collected t _ => ?_
  cases collected with
  | error e => trivial
  | ok allWork =>
      have hdispatch := quiet_of_plain (dispatchEach_plain (G := G) allWork ⟨0, 0⟩)
      refine (safe_of_quiet hdispatch).bind fun report u _ => ?_
      cases report with
      | error e => trivial
      | ok report =>
          refine (safe_of_quiet (saveEach_quiet G.processManagers)).bind fun saved v _ => ?_
          cases saved <;> trivial

theorem fanOutProjections_safe {recorded : RecordedEvent} {rest : List RecordedEvent}
    {p : Nat}
    (hseg : Segment RecordedEvent.globalPosition log p (recorded :: rest)) (ps : List π)
    (s : StoreState G) (hp : ∀ q ∈ ps, p ≤ s.cursor (.inl q)) :
    (fanOutProjections recorded ps).Safe (foldTerms C log)
      (fun _ t => ∀ q ∈ ps, recorded.globalPosition < t.cursor (.inl q)) s := by
  induction ps generalizing s with
  | nil => exact nofun
  | cons q ps ih =>
      refine safe_await rfl fun t _ hst _ _ => ?_
      refine safe_event hlog rfl hseg (Nat.le_trans (hp q (by simp)) (hst.1 _))
        fun u _ htu hpast => ?_
      refine safe_await rfl fun v _ huv _ _ => ?_
      have hrest := ih v fun q' hq' => Nat.le_trans (hp q' (List.mem_cons_of_mem q hq'))
        (Nat.le_trans (hst.1 _) (Nat.le_trans (htu.1 _) (huv.1 _)))
      refine (safe_cursors hrest).weaken fun _ x ⟨hall, hmono⟩ q' hq' => ?_
      rcases List.mem_cons.mp hq' with rfl | hq'
      · exact Nat.lt_of_lt_of_le hpast (Nat.le_trans (huv.1 _) (hmono _))
      · exact hall q' hq'

theorem fanOutProcessManagers_safe {recorded : RecordedEvent} {rest : List RecordedEvent}
    {p : Nat} (hseg : Segment RecordedEvent.globalPosition log p (recorded :: rest))
    (ms : List μ) (all : List (Work μ)) (s : StoreState G)
    (hp : ∀ m ∈ ms, p ≤ s.cursor (.inr m)) :
    (fanOutProcessManagers recorded ms all).Safe (foldTerms C log)
      (fun _ t => ∀ m ∈ ms, recorded.globalPosition < t.cursor (.inr m)) s := by
  induction ms generalizing all s with
  | nil => exact nofun
  | cons m ms ih =>
      refine safe_await rfl fun t _ hst _ _ => ?_
      refine safe_event hlog rfl hseg (Nat.le_trans (hp m (by simp)) (hst.1 _))
        fun u produced htu hpast => ?_
      refine safe_await rfl fun v _ huv _ _ => ?_
      have hrest := ih (all ++ reactionWork m recorded produced) v fun m' hm' =>
        Nat.le_trans (hp m' (List.mem_cons_of_mem m hm'))
          (Nat.le_trans (hst.1 _) (Nat.le_trans (htu.1 _) (huv.1 _)))
      refine (safe_cursors hrest).weaken fun _ x ⟨hall, hmono⟩ m' hm' => ?_
      rcases List.mem_cons.mp hm' with rfl | hm'
      · exact Nat.lt_of_lt_of_le hpast (Nat.le_trans (huv.1 _) (hmono _))
      · exact hall m' hm'

/-- After an event, every registered runner is past it. -/
theorem processEvent_safe {recorded : RecordedEvent} {rest : List RecordedEvent} {p : Nat}
    (hseg : Segment RecordedEvent.globalPosition log p (recorded :: rest)) (s : StoreState G)
    (hp : ∀ r ∈ G.runners, p ≤ s.cursor r) :
    (processEvent recorded).Safe (foldTerms C log)
      (fun _ t => ∀ r ∈ G.runners, recorded.globalPosition + 1 ≤ t.cursor r) s := by
  have hprojections : ∀ q ∈ G.projections, p ≤ s.cursor (.inl q) := fun q hq =>
    hp _ (List.mem_append_left _ (List.mem_map_of_mem hq))
  have hmanagers : ∀ m ∈ G.processManagers, p ≤ s.cursor (.inr m) := fun m hm =>
    hp _ (List.mem_append_right _ (List.mem_map_of_mem hm))
  refine (safe_cursors (fanOutProjections_safe hlog hseg _ s hprojections)).bind
    fun _ t ⟨hps, hst⟩ => ?_
  refine (safe_cursors (fanOutProcessManagers_safe hlog hseg _ [] t
    fun m hm => Nat.le_trans (hmanagers m hm) (hst _))).bind fun all u ⟨hms, htu⟩ => ?_
  have hdispatch := quiet_of_plain (dispatchLive_plain (G := G) all)
  refine (safe_cursors (safe_of_quiet hdispatch)).bind fun _ v ⟨_, huv⟩ => ?_
  refine safe_await rfl fun x _ hvx _ _ => ?_
  intro r hr
  rcases List.mem_append.mp hr with hr | hr
  · obtain ⟨q, hq, rfl⟩ := List.mem_map.mp hr
    exact Nat.lt_of_lt_of_le (hps q hq)
      (Nat.le_trans (htu _) (Nat.le_trans (huv _) (hvx.1 _)))
  · obtain ⟨m, hm, rfl⟩ := List.mem_map.mp hr
    exact Nat.lt_of_lt_of_le (hms m hm) (Nat.le_trans (huv _) (hvx.1 _))

/-- The live stream is safe when no registered runner is behind it. -/
theorem processStreamWithDispatch_safe (items : List Item) {p : Nat} {s : StoreState G}
    (hseg : Segment RecordedEvent.globalPosition log p (itemEvents items))
    (hp : ∀ r ∈ G.runners, p ≤ s.cursor r) :
    (processStreamWithDispatch C items).Safe (foldTerms C log) (fun _ _ => True) s := by
  induction items generalizing p s with
  | nil => exact safe_await rfl fun _ _ _ _ _ => trivial
  | cons item rest ih =>
      rcases item with status | recorded | _ | _
      · exact safe_await rfl fun _ _ _ _ _ => trivial
      · refine safe_await rfl fun t _ hst _ _ => ?_
        have hsafe := processEvent_safe (C := C) hlog hseg t fun r hr =>
          Nat.le_trans (hp r hr) (hst.1 r)
        exact hsafe.bind fun _ u hpast => ih (hseg.next hlog).2.2.2 hpast
      · refine safe_await rfl fun t _ hst _ _ => ?_
        refine safe_await rfl fun u _ htu _ _ => ?_
        exact ih hseg fun r hr => Nat.le_trans (hp r hr) (Nat.le_trans (hst.1 r) (htu.1 r))
      · exact safe_await rfl fun t _ hst _ _ =>
          ih hseg fun r hr => Nat.le_trans (hp r hr) (hst.1 r)

end Streams

section Connect

theorem minPosition_safe (rs : List (π ⊕ μ)) (minPos : Nat) (s : StoreState G) :
    (minPosition rs minPos).Safe (foldTerms C log)
      (fun n t => n ≤ minPos ∧ ∀ r ∈ rs, n ≤ t.cursor r) s := by
  induction rs generalizing minPos s with
  | nil => exact ⟨Nat.le_refl _, nofun⟩
  | cons r rs ih =>
      refine safe_await rfl fun t _ _ _ _ => ?_
      refine safe_await rfl fun u n _ _ hread => ?_
      refine safe_await rfl fun v _ huv _ _ => ?_
      refine (safe_cursors (ih (min minPos n) v)).weaken fun k x ⟨⟨hmin, hall⟩, hmono⟩ => ?_
      refine ⟨Nat.le_trans hmin (Nat.min_le_left _ _), fun r' hr' => ?_⟩
      rcases List.mem_cons.mp hr' with rfl | hr'
      · have hn : n ≤ u.cursor r' := Nat.le_of_eq hread
        exact Nat.le_trans hmin (Nat.le_trans (Nat.min_le_right _ _)
          (Nat.le_trans hn (Nat.le_trans (huv.1 r') (hmono r'))))
      · exact hall r' hr'

/-- What the live loop subscribes from is behind every registered runner. -/
theorem connect_safe (s : StoreState G) :
    connect.Safe (foldTerms C log)
      (fun result t => ∀ items, result = .ok items →
        ∃ p, Segment RecordedEvent.globalPosition log p (itemEvents items) ∧
          ∀ r ∈ G.runners, p ≤ t.cursor r) s := by
  refine Future.Safe.bind (Q := fun p t => ∀ r ∈ G.runners, p ≤ t.cursor r) ?_
    fun p t hp => ?_
  · refine (minPosition_safe G.runners u64Max s).bind fun n t ⟨_, hall⟩ r hr => ?_
    by_cases hmax : n = u64Max
    · rw [if_pos hmax]
      exact Nat.zero_le _
    · rw [if_neg hmax]
      exact hall r hr
  · refine safe_await rfl fun u result htu hdelivers _ => ?_
    intro items hok
    exact ⟨p, hdelivers items hok, fun r hr => Nat.le_trans (hp r hr) (htu.1 r)⟩

end Connect

end EventfoldEs
