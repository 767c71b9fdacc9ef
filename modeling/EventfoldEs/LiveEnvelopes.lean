/-
No runner function loses sight of an envelope: until it is dispatched or its
dead letter is attempted, it is among the locals of the task that holds it, or
among what that task drops.
-/
import EventfoldEs.LiveSafety

namespace EventfoldEs

open Async

variable (C : Crates) {π μ κ : Type} {G : Registry π μ}

namespace RunnerOp

/-- The envelope that an operation disposes of. -/
def disposes : (op : RunnerOp π μ) → op.Res G → List (Work μ)
  | .dispatch work, .ok () => [work]
  | .appendDeadLetter work _, _ => [work]
  | _, _ => []

/-- An envelope that was there before an operation, or is produced by it, is
there afterwards, or disposed of. -/
def Keeps (op : RunnerOp π μ) (r : op.Res G) (l l' : List (Work μ)) : Prop :=
  ∀ work, work ∈ l ∨ work ∈ op.produced r → work ∈ l' ∨ work ∈ op.disposes r

theorem keeps_self {op : RunnerOp π μ} {r : op.Res G} (hproduced : op.produced r = [])
    (l : List (Work μ)) : Keeps op r l l := by
  intro work hwork
  rw [hproduced] at hwork
  exact Or.inl (hwork.resolve_right List.not_mem_nil)

theorem keeps_nil {op : RunnerOp π μ} {r : op.Res G} (hproduced : op.produced r = [])
    (l' : List (Work μ)) : Keeps op r [] l' := by
  intro work hwork
  rw [hproduced] at hwork
  exact (hwork.elim List.not_mem_nil List.not_mem_nil).elim

theorem Keeps.append {op : RunnerOp π μ} {r : op.Res G} {l l' : List (Work μ)}
    (hkeeps : Keeps op r l l') (allWork : List (Work μ)) :
    Keeps op r (allWork ++ l) (allWork ++ l') := by
  intro work hwork
  rw [List.mem_append, or_assoc] at hwork
  rcases hwork with hall | hwork
  · exact Or.inl (List.mem_append_left _ hall)
  · exact (hkeeps work hwork).imp_left (List.mem_append_right _)

end RunnerOp

/-- The future keeps every envelope, however its operations are answered. -/
def KeepsWork {α : Type} (shown : α → List (Work μ)) (fut : RunnerFuture G α) : Prop :=
  fut.Moves shown (fun _ _ => True) RunnerOp.Keeps

/-- The envelopes that a pass returns or drops. -/
def Pass.works : Pass μ (List (Work μ)) → List (Work μ)
  | .ok works => works
  | .error (_, dropped) => dropped

section Bare

variable {α : Type} (shown : α → List (Work μ))

open RunnerOp

theorem save_keeps (shown : Except String Unit → List (Work μ)) (r : π ⊕ μ) :
    KeepsWork shown (save (G := G) r) := by
  rintro out -
  refine ⟨keeps_nil rfl _, ?_⟩
  cases out with
  | error e => trivial
  | ok u => exact fun _ _ => ⟨keeps_nil rfl _, trivial⟩

theorem saveEach_keeps (shown : Except String Unit → List (Work μ)) (ms : List μ) :
    KeepsWork shown (saveEach (G := G) ms) := by
  induction ms with
  | nil => trivial
  | cons m rest ih =>
      refine fun _ _ => ⟨keeps_nil rfl _, Future.Moves.bind (save_keeps _ _) fun out => ?_⟩
      refine fun _ _ => ⟨keeps_nil rfl _, ?_⟩
      cases out with
      | error e => trivial
      | ok u => exact ih

theorem saveCheckpoints_keeps (shown : Unit → List (Work μ)) (rs : List (π ⊕ μ)) :
    KeepsWork shown (saveCheckpoints (G := G) rs) := by
  induction rs with
  | nil => trivial
  | cons r rest ih =>
      refine fun _ _ => ⟨keeps_nil rfl _, Future.Moves.bind (save_keeps _ r) fun _ => ?_⟩
      exact fun _ _ => ⟨keeps_nil rfl _, ih⟩

theorem minPosition_keeps (shown : Nat → List (Work μ)) (rs : List (π ⊕ μ)) (minPos : Nat) :
    KeepsWork shown (minPosition (G := G) rs minPos) := by
  induction rs generalizing minPos with
  | nil => trivial
  | cons r rest ih =>
      exact fun _ _ => ⟨keeps_nil rfl _, fun _ _ => ⟨keeps_nil rfl _,
        fun _ _ => ⟨keeps_nil rfl _, ih _⟩⟩⟩

theorem connect_keeps (shown : Except Status (List Item) → List (Work μ)) :
    KeepsWork shown (connect (G := G)) := by
  refine Future.Moves.bind (Future.Moves.bind (minPosition_keeps _ _ _) fun _ => trivial)
    fun _ => ?_
  exact fun _ _ => ⟨keeps_nil rfl _, trivial⟩

theorem projectionStream_keeps (shown : Pass μ (List (Work μ)) → List (Work μ)) (p : π)
    (items : List Item) :
    KeepsWork shown (processStream (G := G) C
      (fun acc recorded => .await acc (.applyEvent p recorded) fun _ => .ready acc)
      items []) := by
  induction items with
  | nil => exact fun _ _ => ⟨keeps_nil rfl _, trivial⟩
  | cons item rest ih =>
      rcases item with status | recorded | _ | _
      · exact fun _ _ => ⟨keeps_nil rfl _, trivial⟩
      · exact fun _ _ => ⟨keeps_nil rfl _, fun _ _ => ⟨keeps_nil rfl _, ih⟩⟩
      · exact fun _ _ => ⟨keeps_nil rfl _, trivial⟩
      · exact fun _ _ => ⟨keeps_nil rfl _, ih⟩

theorem projectionCatchUp_keeps (shown : Except String Unit → List (Work μ)) (p : π) :
    KeepsWork shown (projectionCatchUp (G := G) C p) := by
  refine Future.Moves.bind ?_ fun result => ?_
  · refine fun _ _ => ⟨keeps_nil rfl _, fun result _ => ⟨keeps_nil rfl _, ?_⟩⟩
    cases result with
    | error status => trivial
    | ok items => exact projectionStream_keeps C _ p items
  · cases result with
    | error e => trivial
    | ok works => exact save_keeps _ _

theorem projection_keeps [DecidableEq π] (p : π)
    (shown : Except String (G.projection p).State → List (Work μ)) :
    KeepsWork shown (projection C p) := by
  unfold projection
  split
  · refine fun _ _ => ⟨keeps_nil rfl _, ?_⟩
    refine Future.Moves.bind (projectionCatchUp_keeps C _ p) fun result => ?_
    cases result with
    | error e => exact fun _ _ => ⟨keeps_nil rfl _, trivial⟩
    | ok u =>
        exact fun _ _ => ⟨keeps_nil rfl _, fun _ _ => ⟨keeps_nil rfl _, trivial⟩⟩
  · trivial

theorem liveProjection_keeps [DecidableEq π] (p : π)
    (shown : Except String (G.projection p).State → List (Work μ)) :
    KeepsWork shown (liveProjection C p) := by
  intro isSome _
  refine ⟨keeps_nil rfl _, ?_⟩
  cases isSome with
  | false => exact projection_keeps C p shown
  | true =>
      simp only [if_true]
      split
      · exact fun _ _ => ⟨keeps_nil rfl _, fun _ _ => ⟨keeps_nil rfl _,
          fun _ _ => ⟨keeps_nil rfl _, trivial⟩⟩⟩
      · trivial

theorem fanOutProjections_keeps (shown : Unit → List (Work μ)) (recorded : RecordedEvent)
    (ps : List π) : KeepsWork shown (fanOutProjections (G := G) recorded ps) := by
  induction ps with
  | nil => trivial
  | cons p rest ih =>
      exact fun _ _ => ⟨keeps_nil rfl _, fun _ _ => ⟨keeps_nil rfl _,
        fun _ _ => ⟨keeps_nil rfl _, ih⟩⟩⟩

end Bare

section Carrying

open RunnerOp

/-- A reaction adds what it produced. -/
theorem keeps_reactEvent (m : μ) (recorded : RecordedEvent)
    (produced : List CommandEnvelope) (acc : List (Work μ)) :
    Keeps (G := G) (π := π) (.reactEvent m recorded) produced acc
      (acc ++ reactionWork m recorded produced) :=
  fun _ hwork => Or.inl (List.mem_append.mpr hwork)

/-- The pass of a process manager shows what it has collected. -/
theorem now_processStream
    (onEvent : List (Work μ) → RecordedEvent → RunnerFuture G (List (Work μ)))
    (items : List Item) (acc : List (Work μ)) :
    (processStream C onEvent items acc).now Pass.works = acc := by
  rcases items with _ | ⟨_ | _ | _ | _, rest⟩ <;> rfl

theorem managerStream_keeps (m : μ) (items : List Item) (acc : List (Work μ)) :
    KeepsWork Pass.works (processStream (G := G) C
      (fun acc recorded => .await acc (.reactEvent m recorded) fun produced =>
        .ready (acc ++ reactionWork m recorded produced))
      items acc) := by
  induction items generalizing acc with
  | nil => exact fun _ _ => ⟨keeps_self rfl _, trivial⟩
  | cons item rest ih =>
      rcases item with status | recorded | _ | _
      · exact fun _ _ => ⟨keeps_self rfl _, trivial⟩
      · refine fun _ _ => ⟨keeps_self rfl _, fun produced _ => ⟨?_, ih _⟩⟩
        change Keeps _ _ _ (Future.now Pass.works (processStream C _ rest _))
        rw [now_processStream]
        exact keeps_reactEvent m recorded produced acc
      · exact fun _ _ => ⟨keeps_self rfl _, trivial⟩
      · refine fun _ _ => ⟨?_, ih acc⟩
        rw [now_processStream]
        exact keeps_self rfl _

theorem processManagerCatchUp_keeps (m : μ) :
    KeepsWork Pass.works (processManagerCatchUp (G := G) C m) := by
  refine fun _ _ => ⟨keeps_nil rfl _, fun result _ => ⟨keeps_nil rfl _, ?_⟩⟩
  cases result with
  | error status => trivial
  | ok items => exact managerStream_keeps C m items []

/-- What is shown where one of the functions below returns: what it has still to
dispatch, and what it drops. -/
theorem now_catchUpEach (ms : List μ) (allWork : List (Work μ)) :
    (catchUpEach (G := G) C ms allWork).now Pass.works = allWork := by
  cases ms <;> rfl

theorem catchUpEach_keeps (ms : List μ) (allWork : List (Work μ)) :
    KeepsWork Pass.works (catchUpEach (G := G) C ms allWork) := by
  induction ms generalizing allWork with
  | nil => trivial
  | cons m rest ih =>
      have hcatchUp : KeepsWork (fun result => allWork ++ Pass.works result)
          ((processManagerCatchUp (G := G) C m).mapLocals (allWork ++ ·)) :=
        (processManagerCatchUp_keeps C m).mapLocals fun _ _ _ _ h => h.append allWork
      unfold KeepsWork at hcatchUp
      refine fun _ _ => ⟨?_, Future.Moves.bind ?_ fun result => ?_⟩
      · change Keeps _ _ allWork (allWork ++ [])
        rw [List.append_nil]
        exact keeps_self rfl _
      · convert hcatchUp using 1
        funext result
        rcases result with ⟨e, dropped⟩ | envelopes <;> rfl
      · rcases result with ⟨e, dropped⟩ | envelopes
        · exact fun _ _ => ⟨keeps_self rfl _, trivial⟩
        · refine fun _ _ => ⟨?_, ih _⟩
          rw [now_catchUpEach]
          exact keeps_self rfl _

/-- Disposing of the first of several envelopes. -/
theorem keeps_tail {op : RunnerOp π μ} {r : op.Res G} {work : Work μ}
    (hproduced : op.produced r = []) (hdisposes : work ∈ op.disposes r)
    (rest : List (Work μ)) : Keeps op r (work :: rest) rest := by
  intro other hother
  rw [hproduced] at hother
  rcases List.mem_cons.mp (hother.resolve_right List.not_mem_nil) with rfl | hrest
  · exact Or.inr hdisposes
  · exact Or.inl hrest

theorem dispatchOne_keeps (work : Work μ) (rest : List (Work μ))
    {shown : Disposal → List (Work μ)} (hshown : ∀ disposal, shown disposal = rest) :
    KeepsWork shown (dispatchOne (G := G) work rest) := by
  have hdead : ∀ error, KeepsWork shown (deadLetter (G := G) work error rest) := by
    intro error written _
    refine ⟨?_, trivial⟩
    change Keeps _ _ _ (shown _)
    rw [hshown]
    exact keeps_tail rfl List.mem_cons_self rest
  unfold dispatchOne
  split
  · intro result _
    cases result with
    | error e => exact ⟨keeps_self rfl _, hdead e⟩
    | ok u =>
        refine ⟨?_, trivial⟩
        change Keeps _ _ _ (shown _)
        rw [hshown]
        exact keeps_tail rfl List.mem_cons_self rest
  · exact hdead _

/-- Where the dispatch of the first envelope stands. -/
theorem now_dispatchOne (work : Work μ) (rest : List (Work μ))
    (shown : Disposal → List (Work μ)) :
    (dispatchOne (G := G) work rest).now shown = work :: rest := by
  unfold dispatchOne
  split <;> rfl

/-- How the result of a pull pass shows what it dropped. -/
structure ShowsDropped (shown : Pass μ ProcessManagerReport → List (Work μ)) : Prop where
  ok : ∀ report, shown (.ok report) = []
  error : ∀ e dropped, shown (.error (e, dropped)) = dropped

theorem now_dispatchEach (works : List (Work μ)) (report : ProcessManagerReport)
    {shown : Pass μ ProcessManagerReport → List (Work μ)} (hshown : ShowsDropped shown) :
    (dispatchEach (G := G) works report).now shown = works := by
  cases works with
  | nil => exact hshown.ok report
  | cons work rest =>
      rw [dispatchEach, Future.now_bind, now_dispatchOne]

theorem dispatchEach_keeps (works : List (Work μ)) (report : ProcessManagerReport)
    {shown : Pass μ ProcessManagerReport → List (Work μ)} (hshown : ShowsDropped shown) :
    KeepsWork shown (dispatchEach (G := G) works report) := by
  induction works generalizing report with
  | nil => trivial
  | cons work rest ih =>
      refine Future.Moves.bind (dispatchOne_keeps work rest fun disposal => ?_)
        fun disposal => ?_
      · rcases disposal with _ | ⟨_ | _⟩
        · exact now_dispatchEach rest _ hshown
        · exact hshown.error _ rest
        · exact now_dispatchEach rest _ hshown
      · rcases disposal with _ | ⟨_ | _⟩
        · exact ih _
        · trivial
        · exact ih _

theorem dispatchLive_keeps (works : List (Work μ)) {shown : Unit → List (Work μ)}
    (hshown : shown () = []) :
    (dispatchLive (G := G) works).now shown = works ∧
      KeepsWork shown (dispatchLive (G := G) works) := by
  induction works with
  | nil => exact ⟨hshown, trivial⟩
  | cons work rest ih =>
      refine ⟨?_, Future.Moves.bind (dispatchOne_keeps work rest fun _ => ih.1) fun _ => ih.2⟩
      rw [dispatchLive, Future.now_bind, now_dispatchOne]

theorem fanOutProcessManagers_keeps (recorded : RecordedEvent) (ms : List μ)
    (all : List (Work μ)) {shown : List (Work μ) → List (Work μ)}
    (hshown : ∀ all, shown all = all) :
    (fanOutProcessManagers (G := G) recorded ms all).now shown = all ∧
      KeepsWork shown (fanOutProcessManagers (G := G) recorded ms all) := by
  induction ms generalizing all with
  | nil => exact ⟨hshown all, trivial⟩
  | cons m rest ih =>
      refine ⟨rfl, fun _ _ => ⟨keeps_self rfl _, fun produced _ =>
        ⟨keeps_reactEvent m recorded produced all, fun _ _ => ⟨?_, (ih _).2⟩⟩⟩⟩
      rw [(ih _).1]
      exact keeps_self rfl _

theorem processEvent_keeps (shown : Unit → List (Work μ)) (recorded : RecordedEvent) :
    KeepsWork shown (processEvent (G := G) recorded) := by
  refine Future.Moves.bind (fanOutProjections_keeps _ recorded _) fun _ => ?_
  refine Future.Moves.bind (fanOutProcessManagers_keeps recorded _ [] fun all => ?_).2
    fun all => ?_
  · rw [Future.now_bind]
    exact (dispatchLive_keeps all rfl).1
  · refine Future.Moves.bind (dispatchLive_keeps all rfl).2 fun _ => ?_
    exact fun _ _ => ⟨keeps_nil rfl _, trivial⟩

theorem processStreamWithDispatch_keeps (shown : Except String StreamOutcome → List (Work μ))
    (items : List Item) : KeepsWork shown (processStreamWithDispatch (G := G) C items) := by
  induction items with
  | nil => exact fun _ _ => ⟨keeps_nil rfl _, trivial⟩
  | cons item rest ih =>
      rcases item with status | recorded | _ | _
      · exact fun _ _ => ⟨keeps_nil rfl _, trivial⟩
      · exact fun _ _ => ⟨keeps_nil rfl _,
          Future.Moves.bind (processEvent_keeps _ recorded) fun _ => ih⟩
      · exact fun _ _ => ⟨keeps_nil rfl _, fun _ _ => ⟨keeps_nil rfl _, ih⟩⟩
      · exact fun _ _ => ⟨keeps_nil rfl _, ih⟩

theorem saveAndReport_keeps {shown : Pass μ ProcessManagerReport → List (Work μ)}
    (hshown : ShowsDropped shown) (report : ProcessManagerReport) :
    (saveAndReport (G := G) report).now shown = [] ∧
      KeepsWork shown (saveAndReport (G := G) report) := by
  refine ⟨?_, Future.Moves.bind (saveEach_keeps _ _) fun result => ?_⟩
  · rw [saveAndReport, Future.now_bind]
    cases G.processManagers with
    | nil => exact hshown.ok report
    | cons m rest => rfl
  · cases result <;> trivial

theorem dispatchAndSave_keeps {shown : Pass μ ProcessManagerReport → List (Work μ)}
    (hshown : ShowsDropped shown) (allWork : List (Work μ)) :
    (dispatchAndSave (G := G) allWork).now shown = allWork ∧
      KeepsWork shown (dispatchAndSave (G := G) allWork) := by
  have hreport : ∀ report, (saveAndReport (G := G) report).now shown = [] :=
    fun report => (saveAndReport_keeps hshown report).1
  refine ⟨?_, Future.Moves.bind (dispatchEach_keeps allWork _ ⟨hreport, hshown.error⟩)
    fun result => ?_⟩
  · rw [dispatchAndSave, Future.now_bind]
    exact now_dispatchEach allWork _ ⟨hreport, hshown.error⟩
  · cases result with
    | error e => trivial
    | ok report => exact (saveAndReport_keeps hshown report).2

theorem runProcessManagers_keeps {shown : Pass μ ProcessManagerReport → List (Work μ)}
    (hshown : ShowsDropped shown) : KeepsWork shown (runProcessManagers (G := G) C) := by
  refine Future.Moves.bind ?_ fun collected => ?_
  · have hcollected := catchUpEach_keeps (G := G) C G.processManagers []
    unfold KeepsWork at hcollected
    convert hcollected using 1
    funext collected
    rcases collected with ⟨e, dropped⟩ | allWork
    · exact hshown.error e dropped
    · exact (dispatchAndSave_keeps hshown allWork).1
  · cases collected with
    | error e => trivial
    | ok allWork => exact (dispatchAndSave_keeps hshown allWork).2

end Carrying

/-- Every task that is ever started keeps every envelope. -/
theorem starts_keeps [DecidableEq π] {w w' : LiveWorld G κ} {x : Waiter κ}
    {task : RunnerTask G}
    (hstarts : w.Starts C w' x task) : KeepsWork Prod.snd task := by
  cases hstarts with
  | saving _ => exact Future.Moves.bind (saveCheckpoints_keeps _ _) fun _ => trivial
  | connecting _ => exact Future.Moves.bind (connect_keeps _) fun _ => trivial
  | streaming _ =>
      exact Future.Moves.bind (processStreamWithDispatch_keeps C _ _) fun _ => trivial
  | calling k c =>
      cases c with
      | projection p => exact Future.Moves.bind (projection_keeps C p _) fun _ => trivial
      | liveProjection p =>
          exact Future.Moves.bind (liveProjection_keeps C p _) fun _ => trivial
      | runProcessManagers =>
          refine Future.Moves.bind (runProcessManagers_keeps C ⟨fun _ => rfl, fun _ _ => rfl⟩)
            fun result => ?_
          rcases result with ⟨e, dropped⟩ | report <;> trivial

end EventfoldEs
