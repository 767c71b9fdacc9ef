/-
Pull catch-up of one runner, pass after pass: when its success means that the log
was read to the end, and which envelopes a broken stream costs.
-/
import EventfoldEs.LoneRuns

namespace EventfoldEs

open Async OrderedLog LiveWorld Lone

variable {C : Crates} {π μ : Type} {G : Registry π μ}

/-- The stream stops without a word: it ends, and `CaughtUp` has not come. -/
def Truncated (items : List Item) : Prop := streamStop items = .ended

/-- A call that returns `Ok` has received `CaughtUp`. -/
def OkMeansCaughtUp {ε α : Type} (items : List Item) (run : Option (Except ε α × Lone G)) :
    Prop :=
  ∀ value y, run = some (.ok value, y) → streamStop items = .caughtUp

theorem okMeansCaughtUp_error {ε α : Type} {items : List Item} (error : ε) (y : Lone G) :
    OkMeansCaughtUp (α := α) items (some (.error error, y)) :=
  fun _ _ hrun => by cases hrun

theorem okMeansCaughtUp_ok {ε α : Type} {items : List Item} (value : α) (y : Lone G) :
    OkMeansCaughtUp (ε := ε) items (some (.ok value, y)) ↔ streamStop items = .caughtUp :=
  ⟨fun h => h value y rfl, fun h _ _ _ => h⟩

section Ok

variable [DecidableEq π] [DecidableEq μ]

theorem processManagerCatchUp_ok_iff {e : Replies π μ} {m : μ} {x : Lone G}
    {items : List Item}
    (hitems : e.subscribeAllFrom (x.store.memory (.inr m)).lastGlobalPosition = .ok items) :
    OkMeansCaughtUp items ((processManagerCatchUp C m).runOn (serve C e) x) ↔
      ¬ Truncated items := by
  rw [processManagerCatchUp_runOn, passOf_of_items hitems, Truncated]
  cases hstop : streamStop items with
  | error status => simp [passResult, okMeansCaughtUp_error]
  | ended => simp [passResult, okMeansCaughtUp_ok, hstop]
  | caughtUp => simp [passResult, okMeansCaughtUp_ok, hstop]

/-- The result of a projection pass over a stream that has been opened. -/
theorem projectionResult_of_items {e : Replies π μ} {p : π} {x : Lone G}
    {items : List Item}
    (hitems : e.subscribeAllFrom (x.store.memory (.inl p)).lastGlobalPosition = .ok items) :
    projectionResult C e p x = match streamStop items with
      | .error status => .error (streamErrorText C status)
      | _ => e.save (.inl p) := by
  rw [projectionResult, passOf_of_items hitems]
  cases streamStop items <;> rfl

/-- A pass that reads everything from the cursor on folds the whole log. -/
theorem passOf_folds {present : List RecordedEvent}
    (hlog : Increasing RecordedEvent.globalPosition present) {e : Replies π μ} {r : π ⊕ μ}
    {x : Lone G} (hcp : (G.runner r).Consistent C present (x.store.memory r))
    {items : List Item}
    (hitems : e.subscribeAllFrom (x.store.memory r).lastGlobalPosition = .ok items)
    (hread : (passRead items).1 = fromOn RecordedEvent.globalPosition present
      (x.store.memory r).lastGlobalPosition) :
    ((passOf C e r x).2.store.memory r).state =
      (present.filterMap (decodeStoredEvent C)).foldl (G.runner r).next
        (G.runner r).default := by
  have hmemory : (passOf C e r x).2.store.memory r =
      (G.runner r).read C (x.store.memory r) (passRead items).1 := by
    rw [passOf_of_items hitems]
    exact read_memory_self x r _
  have hseg : Segment RecordedEvent.globalPosition present
      (x.store.memory r).lastGlobalPosition (passRead items).1 := by
    rw [hread]
    exact List.prefix_refl _
  obtain ⟨hbelow, hconsistent⟩ := Runner.read_segment (C := C) hlog hseg
  have hfold := hconsistent hcp
  rw [Runner.Consistent, hbelow, hread, below_append_fromOn hlog] at hfold
  rw [hmemory, hread]
  exact hfold

/-- The two ways in which a projection is told that its stream was cut off. -/
theorem projection_ok_iff {e : Replies π μ} {p : π} {x : Lone G} {items : List Item}
    (hitems : e.subscribeAllFrom (x.store.memory (.inl p)).lastGlobalPosition = .ok items)
    {α : Type} {run : Option (Except String α × Lone G)} {v : α} {y : Lone G}
    (hrun : run = some ((projectionResult C e p x).map fun _ => v, y)) :
    OkMeansCaughtUp items run ↔
      (Truncated items → ∃ error, e.save (.inl p) = .error error) := by
  rw [hrun, projectionResult_of_items hitems, Truncated]
  cases hstop : streamStop items with
  | error status => simp [Except.map, okMeansCaughtUp_error]
  | ended =>
      cases e.save (.inl p) with
      | error error => simp [Except.map, okMeansCaughtUp_error]
      | ok u => simp [Except.map, okMeansCaughtUp_ok, hstop]
  | caughtUp =>
      cases e.save (.inl p) with
      | error error => simp [Except.map, okMeansCaughtUp_error]
      | ok u => simp [Except.map, okMeansCaughtUp_ok, hstop]

/-- Catch-up succeeds only when `CaughtUp` was received exactly if the stream is not
cut off cleanly before (or, for a projection, its checkpoint cannot be saved then),
and the state that `projection` returns is then the fold of everything that was in
the log. -/
theorem ok_means_caught_up_iff_not_truncated (e : Replies π μ) (x : Lone G) :
    (∀ m items,
      e.subscribeAllFrom (x.store.memory (.inr m)).lastGlobalPosition = .ok items →
      (OkMeansCaughtUp items ((processManagerCatchUp C m).runOn (serve C e) x) ↔
        ¬ Truncated items)) ∧
    ∀ p items,
      e.subscribeAllFrom (x.store.memory (.inl p)).lastGlobalPosition = .ok items →
      (OkMeansCaughtUp items ((projectionCatchUp C p).runOn (serve C e) x) ↔
        (Truncated items → ∃ error, e.save (.inl p) = .error error)) ∧
      (p ∈ G.projections →
        (OkMeansCaughtUp items ((projection C p).runOn (serve C e) x) ↔
          (Truncated items → ∃ error, e.save (.inl p) = .error error)) ∧
        ((Truncated items → ∃ error, e.save (.inl p) = .error error) →
          ∀ present, Increasing RecordedEvent.globalPosition present →
          (G.runner (.inl p)).Consistent C present (x.store.memory (.inl p)) →
          (streamStop items = .caughtUp → (passRead items).1 =
            fromOn RecordedEvent.globalPosition present
              (x.store.memory (.inl p)).lastGlobalPosition) →
          ∀ state y, (projection C p).runOn (serve C e) x = some (.ok state, y) →
            state = (present.filterMap (decodeStoredEvent C)).foldl
              (G.projection p).apply (G.projection p).default)) := by
  refine ⟨fun m items hitems => processManagerCatchUp_ok_iff hitems,
    fun p items hitems => ⟨?_, fun hp => ⟨?_, ?_⟩⟩⟩
  · obtain ⟨y, hrun, -⟩ := projectionCatchUp_runOn (C := C) e p x
    refine projection_ok_iff (C := C) (e := e) (p := p) (x := x) hitems (y := y)
      (v := ()) ?_
    rw [hrun]
    cases projectionResult C e p x <;> rfl
  · obtain ⟨y, hrun⟩ := projection_runOn (C := C) e hp x
    exact projection_ok_iff hitems hrun
  · intro hcond present hlog hcp hread state z hstate
    obtain ⟨y, hrun⟩ := projection_runOn (C := C) e hp x
    have hcaught := (projection_ok_iff hitems hrun).mpr hcond state z hstate
    rw [hrun] at hstate
    have hvalue : state = ((passOf C e (.inl p) x).2.store.memory (.inl p)).state := by
      cases hresult : projectionResult C e p x with
      | error error =>
          rw [hresult] at hstate
          cases hstate
      | ok u =>
          rw [hresult] at hstate
          cases hstate
          rfl
    rw [hvalue]
    exact passOf_folds hlog hcp hitems (hread hcaught)

end Ok

section Retries

/-- The envelopes of a pass that returns `Ok`; an error has none. -/
def returned : Pass μ (List (Work μ)) → List (Work μ)
  | .ok works => works
  | .error _ => []

/-- Nothing interrupts the pass, which gets the given events. -/
def uninterrupted (events : List RecordedEvent) : Replies π μ where
  subscribeAllFrom _ := .ok (events.map (fun r => .ok (.event r)) ++ [.ok .caughtUp])
  writeTmp _ := .ok ()
  rename _ := .ok ()
  dispatch _ := .ok ()
  appendDeadLetter _ _ := .ok ()

/-- Every stream delivers what is in the log from its position on, in order, up to
wherever it stops. -/
def Delivers (log : List RecordedEvent) (e : Replies π μ) : Prop :=
  ∀ p items, e.subscribeAllFrom p = .ok items →
    Segment RecordedEvent.globalPosition log p (passRead items).1

/-- The process manager reacts to none of the events with an envelope. -/
def Silent (C : Crates) (PM : ProcessManager) :
    Checkpoint PM.State → List RecordedEvent → Prop
  | _, [] => True
  | checkpoint, recorded :: rest =>
      (∀ stored, decodeStoredEvent C recorded = some stored →
        checkpoint.lastGlobalPosition ≤ recorded.globalPosition →
        (PM.react checkpoint.state stored).2 = []) ∧
      Silent C PM (reactRecordedEvent C PM checkpoint recorded).1 rest

/-- The events that a pass gets before it stops, and whether it stops in an error. -/
def passEvents (e : Replies π μ) (position : Nat) : List RecordedEvent × Bool :=
  match e.subscribeAllFrom position with
  | .error _ => ([], true)
  | .ok items => passRead items

/-- No pass fails after an event to which the process manager has reacted with an
envelope. -/
def FailsSilent (C : Crates) (PM : ProcessManager) :
    Checkpoint PM.State → List (Replies π μ) → Prop
  | _, [] => True
  | checkpoint, e :: rest =>
      ((passEvents e checkpoint.lastGlobalPosition).2 = true →
        Silent C PM checkpoint (passEvents e checkpoint.lastGlobalPosition).1) ∧
      FailsSilent C PM ((Runner.processManager PM).read C checkpoint
        (passEvents e checkpoint.lastGlobalPosition).1) rest

theorem silent_iff_produced {PM : ProcessManager} {checkpoint : Checkpoint PM.State}
    {records : List RecordedEvent} :
    Silent C PM checkpoint records ↔
      (Runner.processManager PM).produced C checkpoint records = [] := by
  induction records generalizing checkpoint with
  | nil => exact ⟨fun _ => rfl, fun _ => trivial⟩
  | cons recorded rest ih =>
      have hcons : (Runner.processManager PM).produced C checkpoint (recorded :: rest) =
          emissions recorded.globalPosition (reactRecordedEvent C PM checkpoint recorded).2 ++
            (Runner.processManager PM).produced C
              (reactRecordedEvent C PM checkpoint recorded).1 rest := rfl
      rw [hcons, List.append_eq_nil_iff, ← ih, Silent]
      refine and_congr_left fun _ => ?_
      unfold reactRecordedEvent recordedEvent
      by_cases hbehind : recorded.globalPosition < checkpoint.lastGlobalPosition
      · rw [if_pos hbehind]
        exact ⟨fun _ => rfl, fun _ _ _ hahead => absurd hbehind (Nat.not_lt.mpr hahead)⟩
      · rw [if_neg hbehind]
        cases hdecode : decodeStoredEvent C recorded with
        | none => exact ⟨fun _ => rfl, fun _ _ h => by cases h⟩
        | some stored =>
            simp only [Option.some.injEq, forall_eq', emissions, List.map_eq_nil_iff]
            rw [List.zipIdx_eq_nil_iff]
            exact ⟨fun h => h (Nat.not_lt.mp hbehind), fun h _ => h⟩

theorem passRead_error_iff (items : List Item) :
    (passRead items).2 = true ↔ ∃ status, streamStop items = .error status := by
  induction items with
  | nil => simp [passRead, streamStop]
  | cons item rest ih =>
      rcases item with status | ⟨recorded⟩ | _ | _
      · simp [passRead, streamStop]
      · exact ih
      · simp [passRead, streamStop]
      · exact ih

theorem passRead_uninterrupted (events : List RecordedEvent) :
    passRead (events.map (fun r => .ok (.event r)) ++ [.ok .caughtUp]) = (events, false) ∧
      streamStop (events.map (fun r => .ok (.event r)) ++ [.ok .caughtUp]) = .caughtUp := by
  induction events with
  | nil => exact ⟨rfl, rfl⟩
  | cons recorded rest ih =>
      simp only [List.map_cons, List.cons_append, passRead, streamStop, ih.1, ih.2, and_self]

variable [DecidableEq π] [DecidableEq μ]

variable (C) in
/-- `catch_up` of one runner, again and again: what the passes that return `Ok`
return, one after the other. -/
def catchUps (m : μ) : List (Replies π μ) → Lone G → Option (List (Work μ) × Lone G)
  | [], x => some ([], x)
  | e :: rest, x => ((processManagerCatchUp C m).runOn (serve C e) x).bind fun out =>
      (catchUps m rest out.2).map fun later => (returned out.1 ++ later.1, later.2)

/-- One pass, whether it returns its envelopes or not. -/
theorem passOf_events (e : Replies π μ) (m : μ) (x : Lone G) :
    (passOf C e (.inr m) x).2 = x.read C (.inr m)
        (passEvents e (x.store.memory (.inr m)).lastGlobalPosition).1 ∧
      returned (passOf C e (.inr m) x).1 =
        if (passEvents e (x.store.memory (.inr m)).lastGlobalPosition).2 then []
        else ((G.runner (.inr m)).produced C (x.store.memory (.inr m))
          (passEvents e (x.store.memory (.inr m)).lastGlobalPosition).1).map
            (Work.mk m) := by
  unfold passEvents
  cases hitems : e.subscribeAllFrom (x.store.memory (.inr m)).lastGlobalPosition with
  | error status =>
      unfold passOf
      rw [hitems]
      exact ⟨(read_nil x _).symm, rfl⟩
  | ok items =>
      rw [passOf_of_items hitems]
      refine ⟨rfl, ?_⟩
      cases hfails : (passRead items).2 with
      | true =>
          obtain ⟨status, hstop⟩ := (passRead_error_iff items).mp hfails
          simp only [hstop, passResult, returned, if_true]
      | false =>
          have hstop : ∀ status, streamStop items ≠ .error status := by
            intro status hstop
            have := (passRead_error_iff items).mpr ⟨status, hstop⟩
            simp [hfails] at this
          simp only [Bool.false_eq_true, if_false]
          cases hcase : streamStop items with
          | error status => exact absurd hcase (hstop status)
          | _ => rfl

theorem catchUps_cons (m : μ) (e : Replies π μ) (rest : List (Replies π μ)) (x : Lone G) :
    catchUps C m (e :: rest) x =
      (catchUps C m rest (passOf C e (.inr m) x).2).map fun later =>
        (returned (passOf C e (.inr m) x).1 ++ later.1, later.2) := by
  rw [catchUps, processManagerCatchUp_runOn, Option.bind_some]

/-- What a sequence of passes has read lies between its cursors in the log, and it
returns everything produced for that exactly if no failing pass has produced any. -/
theorem catchUps_returns {log : List RecordedEvent}
    (hlog : Increasing RecordedEvent.globalPosition log) (m : μ)
    (passes : List (Replies π μ)) (hdelivers : ∀ e ∈ passes, Delivers log e) (x : Lone G) :
    ∃ events back y, catchUps C m passes x = some (back, y) ∧
      below RecordedEvent.globalPosition log (y.store.memory (.inr m)).lastGlobalPosition =
        below RecordedEvent.globalPosition log
          (x.store.memory (.inr m)).lastGlobalPosition ++ events ∧
      y.store.memory (.inr m) = (G.runner (.inr m)).read C (x.store.memory (.inr m)) events ∧
      back.length ≤
        ((G.runner (.inr m)).produced C (x.store.memory (.inr m)) events).length ∧
      (FailsSilent C (G.processManager m) (x.store.memory (.inr m)) passes →
        back = ((G.runner (.inr m)).produced C (x.store.memory (.inr m)) events).map
          (Work.mk m)) ∧
      (back.length =
          ((G.runner (.inr m)).produced C (x.store.memory (.inr m)) events).length →
        FailsSilent C (G.processManager m) (x.store.memory (.inr m)) passes) := by
  induction passes generalizing x with
  | nil =>
      exact ⟨[], [], x, rfl, (List.append_nil _).symm, rfl, Nat.le_refl _,
        fun _ => rfl, fun _ => trivial⟩
  | cons e rest ih =>
      let first := (passEvents e (x.store.memory (.inr m)).lastGlobalPosition).1
      have hseg : Segment RecordedEvent.globalPosition log
          (x.store.memory (.inr m)).lastGlobalPosition first := by
        change Segment _ _ _ (passEvents e _).1
        unfold passEvents
        split
        · exact List.nil_prefix
        · rename_i items hitems
          exact hdelivers e List.mem_cons_self _ items hitems
      obtain ⟨hafter, hreturned⟩ := passOf_events (C := C) e m x
      obtain ⟨later, back, y, hrun, hbelow, hmemory, hlength, hall, hsilent⟩ :=
        ih (fun e he => hdelivers e (List.mem_cons_of_mem _ he)) (passOf C e (.inr m) x).2
      have hcp : (passOf C e (.inr m) x).2.store.memory (.inr m) =
          (G.runner (.inr m)).read C (x.store.memory (.inr m)) first := by
        rw [hafter]
        exact read_memory_self x _ _
      rw [hcp] at hbelow hmemory hlength hall hsilent
      refine ⟨first ++ later, _, y, by rw [catchUps_cons, hrun]; rfl, ?_, ?_, ?_, ?_, ?_⟩
      · rw [hbelow, (Runner.read_segment (C := C) hlog hseg).1, List.append_assoc]
      · rw [hmemory, Runner.read_append]
      · rw [Runner.produced_append, hreturned]
        change (_ ++ back).length ≤ _
        split
        · simp only [List.nil_append, List.length_append]
          omega
        · simp only [List.length_append, List.length_map]
          exact Nat.add_le_add_left hlength _
      · rintro ⟨hfirst, hrest⟩
        rw [Runner.produced_append, List.map_append, hreturned, ← hall hrest]
        change _ ++ back = _
        split
        · rename_i hfails
          rw [show (G.runner (.inr m)).produced C (x.store.memory (.inr m)) first = [] from
            silent_iff_produced.mp (hfirst hfails)]
          rfl
        · rfl
      · -- what a failing pass has produced is missing from what comes back
        intro hlengths
        rw [Runner.produced_append, hreturned] at hlengths
        change (_ ++ back).length = _ at hlengths
        simp only [List.length_append] at hlengths
        refine ⟨fun hfails => silent_iff_produced.mpr
          (List.eq_nil_of_length_eq_zero ?_), hsilent ?_⟩
        · change ((G.runner (.inr m)).produced C (x.store.memory (.inr m)) first).length = 0
          rw [if_pos hfails, List.length_nil] at hlengths
          omega
        · by_cases hfails : (passEvents e (x.store.memory (.inr m)).lastGlobalPosition).2
          · rw [if_pos hfails, List.length_nil] at hlengths
            omega
          · rw [if_neg hfails, List.length_map] at hlengths
            exact Nat.add_left_cancel hlengths

/-- The envelopes that the successful passes return are those of one uninterrupted
pass over the same events exactly if no pass fails after an event to which the process
manager has reacted with an envelope. -/
theorem passes_return_everything_iff {log : List RecordedEvent}
    (hlog : Increasing RecordedEvent.globalPosition log) (m : μ)
    (passes : List (Replies π μ)) (hdelivers : ∀ e ∈ passes, Delivers log e) (x : Lone G) :
    ∃ back y, catchUps C m passes x = some (back, y) ∧
      ∃ all z, (processManagerCatchUp C m).runOn (serve C (uninterrupted
          (fromOn RecordedEvent.globalPosition
            (below RecordedEvent.globalPosition log
              (y.store.memory (.inr m)).lastGlobalPosition)
            (x.store.memory (.inr m)).lastGlobalPosition))) x = some (.ok all, z) ∧
        z.store.memory (.inr m) = y.store.memory (.inr m) ∧
        (back.map (·.emission.envelope) = all.map (·.emission.envelope) ↔
          FailsSilent C (G.processManager m) (x.store.memory (.inr m)) passes) := by
  obtain ⟨events, back, y, hrun, hbelow, hmemory, -, hall, hsilent⟩ :=
    catchUps_returns (C := C) hlog m passes hdelivers x
  refine ⟨back, y, hrun, _, x.read C (.inr m) events, ?_, ?_, fun hsame => hsilent ?_,
    fun h => congrArg _ (hall h)⟩
  · rw [processManagerCatchUp_runOn, passOf_of_items rfl, fromOn_below hlog hbelow,
      (passRead_uninterrupted events).1, (passRead_uninterrupted events).2]
    rfl
  · rw [hmemory]
    exact read_memory_self x _ _
  · simpa using congrArg List.length hsame

end Retries

namespace LiveWitness

/-- Every stream that is opened delivers these items, and nothing else fails. -/
def repliesOf (items : List Item) : Replies Unit Manager where
  subscribeAllFrom _ := .ok items
  writeTmp _ := .ok ()
  rename _ := .ok ()
  dispatch _ := .ok ()
  appendDeadLetter _ _ := .ok ()

/-- A store that has just been opened, before a call. -/
def beforeCall (G : Registry Unit Manager) : Lone G := ⟨(opened G).store, []⟩

theorem ok_means_caught_up_iff_not_truncated_order :
    (OkMeansCaughtUp [.ok (.event placed), .ok .caughtUp]
      ((processManagerCatchUp crates .billing).runOn
        (serve crates (repliesOf [.ok (.event placed), .ok .caughtUp]))
        (beforeCall (shop [()] [.billing]))) ↔
      ¬ Truncated [.ok (.event placed), .ok .caughtUp]) ∧
    ∀ state y, (projection crates ()).runOn
        (serve crates (repliesOf [.ok (.event placed), .ok .caughtUp]))
        (beforeCall (shop [()] [.billing])) = some (.ok state, y) →
      state = (orderLog.filterMap (decodeStoredEvent crates)).foldl ordersSeen.apply
        (0 : Nat) := by
  obtain ⟨hmanager, hprojection⟩ := ok_means_caught_up_iff_not_truncated (C := crates)
    (repliesOf [.ok (.event placed), .ok .caughtUp]) (beforeCall (shop [()] [.billing]))
  refine ⟨hmanager .billing _ rfl, ?_⟩
  exact ((hprojection () _ rfl).2 List.mem_cons_self).2 (by intro h; cases h) orderLog
    orderLog_increasing (Runner.start_consistent _ _) fun _ => rfl

/-- The server closes the stream cleanly before it has sent anything: the projection
is returned as it was, although the log has an event. -/
theorem truncated_stream_is_ok :
    ∃ y, (projection crates ()).runOn (serve crates (repliesOf []))
        (beforeCall (shop [()] [.billing])) = some (.ok (0 : Nat), y) ∧
      (0 : Nat) ≠ (orderLog.filterMap (decodeStoredEvent crates)).foldl ordersSeen.apply
        (0 : Nat) ∧
      ¬ OkMeansCaughtUp [] ((projection crates ()).runOn (serve crates (repliesOf []))
        (beforeCall (shop [()] [.billing]))) ∧
      ¬ OkMeansCaughtUp [] ((processManagerCatchUp crates .billing).runOn
        (serve crates (repliesOf [])) (beforeCall (shop [()] [.billing]))) := by
  refine ⟨_, rfl, ?_, fun hok => ?_, fun hok => ?_⟩
  · intro h
    cases h
  · cases hok _ _ rfl
  · cases hok _ _ rfl

/-- Every stream delivers what is left of the log, and then these items. -/
def streaming (tail : List Item) : Replies Unit Manager :=
  { repliesOf [] with
    subscribeAllFrom := fun p => .ok ((if p = 0 then [.ok (.event placed)] else []) ++ tail) }

theorem streaming_delivers {tail : List Item} (htail : (passRead tail).1 = []) :
    Delivers orderLog (streaming tail) := by
  intro p items hitems
  cases hitems
  by_cases hp : p = 0
  · subst hp
    simp only [if_true, List.cons_append, List.nil_append, passRead, htail]
    exact List.prefix_refl _
  · simp only [if_neg hp, List.nil_append, htail]
    exact List.nil_prefix

/-- The stream of the first pass breaks before anything has come. -/
theorem passes_return_everything_iff_order :
    ∃ back y, catchUps crates .billing
        [repliesOf [.error ⟨.unavailable, "reset"⟩], streaming [.ok .caughtUp]]
        (beforeCall (shop [] [.billing])) = some (back, y) ∧
      ∃ all z, (processManagerCatchUp crates .billing).runOn (serve crates (uninterrupted
          (fromOn RecordedEvent.globalPosition
            (below RecordedEvent.globalPosition orderLog
              (y.store.memory (.inr .billing)).lastGlobalPosition) 0)))
          (beforeCall (shop [] [.billing])) = some (.ok all, z) ∧
        z.store.memory (.inr .billing) = y.store.memory (.inr .billing) ∧
        (back.map (·.emission.envelope) = all.map (·.emission.envelope) ↔
          FailsSilent crates (manager .billing) ⟨(0 : Nat), 0⟩
            [repliesOf [.error ⟨.unavailable, "reset"⟩], streaming [.ok .caughtUp]]) := by
  refine passes_return_everything_iff (C := crates) (G := shop [] [.billing])
    orderLog_increasing .billing _ (fun e he => ?_) (beforeCall _)
  rcases List.mem_cons.mp he with rfl | he
  · intro p items hitems
    cases hitems
    exact List.nil_prefix
  · obtain rfl := List.mem_singleton.mp he
    exact streaming_delivers rfl

/-- The stream breaks after the event: the invoice is in no pass, while one
uninterrupted pass returns it. -/
theorem broken_stream_loses_envelope :
    Delivers orderLog (streaming [.error ⟨.unavailable, "reset"⟩]) ∧
      Delivers orderLog (streaming [.ok .caughtUp]) ∧
      ∃ y z, catchUps crates .billing
          [streaming [.error ⟨.unavailable, "reset"⟩], streaming [.ok .caughtUp]]
          (beforeCall (shop [] [.billing])) = some ([], y) ∧
        (processManagerCatchUp crates .billing).runOn
            (serve crates (uninterrupted orderLog)) (beforeCall (shop [] [.billing])) =
          some (.ok [⟨.billing, 0, 0, sendInvoice⟩], z) ∧
        z.store.memory (.inr .billing) = y.store.memory (.inr .billing) :=
  ⟨streaming_delivers rfl, streaming_delivers rfl, _, _, rfl, rfl, rfl⟩

end LiveWitness

end EventfoldEs
