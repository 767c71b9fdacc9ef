/-
Every runner function holds the mutex of at most one runner at a time, and none
when it returns.
-/
import EventfoldEs.LiveSafety

namespace EventfoldEs

open Async

variable {C : Crates} {π μ κ : Type} {G : Registry π μ}

/-- The future ends holding what it started with, and takes one mutex at a time. -/
abbrev Locks {α : Type} (held : Option (π ⊕ μ)) (fut : RunnerFuture G α) : Prop :=
  fut.Disciplined RunnerOp.lockUse held held

theorem locks_of_plain {α : Type} {held : Option (π ⊕ μ)} {fut : RunnerFuture G α}
    (hplain : fut.Only RunnerOp.Plain) : Locks held fut :=
  Future.disciplined_of_only (hplain.mono fun _ h => h.2)

/-- Reading a stream takes no mutex but what the handler of an event takes. -/
theorem processStream_locks (held : Option (π ⊕ μ))
    {onEvent : List (Work μ) → RecordedEvent → RunnerFuture G (List (Work μ))}
    (hevent : ∀ acc recorded, Locks held (onEvent acc recorded)) (items : List Item)
    (acc : List (Work μ)) : Locks held (processStream C onEvent items acc) := by
  induction items generalizing acc with
  | nil => exact ⟨trivial, fun _ => rfl⟩
  | cons item rest ih =>
      rcases item with status | recorded | _ | _
      · exact ⟨trivial, fun _ => rfl⟩
      · refine ⟨trivial, fun _ => ?_⟩
        exact Future.Disciplined.bind (hevent acc recorded) fun acc => ih acc
      · exact ⟨trivial, fun _ => rfl⟩
      · exact ⟨trivial, fun _ => ih acc⟩

theorem subscribeAndProcess_locks (held : Option (π ⊕ μ))
    {onEvent : List (Work μ) → RecordedEvent → RunnerFuture G (List (Work μ))}
    (hevent : ∀ acc recorded, Locks held (onEvent acc recorded)) (r : π ⊕ μ) :
    Locks held (subscribeAndProcess C onEvent r) := by
  refine ⟨trivial, fun _ => ⟨trivial, fun result => ?_⟩⟩
  cases result with
  | error status => rfl
  | ok items => exact processStream_locks held hevent items []

/-- Both catch-ups run under a mutex that the caller has taken. -/
theorem projectionCatchUp_locks (held : Option (π ⊕ μ)) (p : π) :
    Locks held (projectionCatchUp (G := G) C p) := by
  refine Future.Disciplined.bind (subscribeAndProcess_locks held ?_ _) fun result => ?_
  · exact fun _ _ => ⟨trivial, fun _ => rfl⟩
  · cases result with
    | error e => rfl
    | ok works => exact locks_of_plain (save_plain _)

theorem processManagerCatchUp_locks (held : Option (π ⊕ μ)) (m : μ) :
    Locks held (processManagerCatchUp (G := G) C m) := by
  apply subscribeAndProcess_locks
  exact fun _ _ => ⟨trivial, fun _ => rfl⟩

theorem projection_locks [DecidableEq π] (p : π) :
    Locks none (projection (G := G) C p) := by
  unfold projection
  split
  · refine ⟨rfl, fun _ => ?_⟩
    refine Future.Disciplined.bind (projectionCatchUp_locks (some (.inl p)) p)
      fun result => ?_
    cases result with
    | error e => exact ⟨rfl, fun _ => rfl⟩
    | ok u => exact ⟨trivial, fun _ => ⟨rfl, fun _ => rfl⟩⟩
  · rfl

/-- The mutex is taken to copy the state of a caught-up runner, and let go before the copy
is returned. -/
theorem liveProjection_locks [DecidableEq π] (p : π) :
    Locks none (liveProjection (G := G) C p) := by
  refine ⟨trivial, fun isSome => ?_⟩
  cases isSome with
  | false => exact projection_locks p
  | true =>
      simp only [if_true]
      split
      · exact ⟨rfl, fun _ => ⟨trivial, fun _ => ⟨rfl, fun _ => rfl⟩⟩⟩
      · rfl

/-- Each process manager is let go before the next is taken, also when its catch-up fails. -/
theorem catchUpEach_locks (ms : List μ) (allWork : List (Work μ)) :
    Locks none (catchUpEach (G := G) C ms allWork) := by
  induction ms generalizing allWork with
  | nil => rfl
  | cons m rest ih =>
      refine ⟨rfl, fun _ => Future.Disciplined.bind
        (processManagerCatchUp_locks (some (.inr m)) m).mapLocals fun result => ?_⟩
      cases result with
      | error e => exact ⟨rfl, fun _ => rfl⟩
      | ok envelopes => exact ⟨rfl, fun _ => ih _⟩

/-- As in the pass over the catch-ups, and with the failed save the last. -/
theorem saveEach_locks (ms : List μ) : Locks none (saveEach (G := G) ms) := by
  induction ms with
  | nil => rfl
  | cons m rest ih =>
      refine ⟨rfl, fun _ => Future.Disciplined.bind (locks_of_plain (save_plain _))
        fun result => ⟨rfl, fun _ => ?_⟩⟩
      cases result with
      | error e => rfl
      | ok u => exact ih

theorem runProcessManagers_locks : Locks none (runProcessManagers (G := G) C) := by
  refine Future.Disciplined.bind (catchUpEach_locks _ []) fun collected => ?_
  cases collected with
  | error e => rfl
  | ok allWork =>
      refine Future.Disciplined.bind (locks_of_plain (dispatchEach_plain allWork _))
        fun result => ?_
      cases result with
      | error e => rfl
      | ok report =>
          refine Future.Disciplined.bind (saveEach_locks _) fun saved => ?_
          cases saved <;> rfl

theorem saveCheckpoints_locks (rs : List (π ⊕ μ)) :
    Locks none (saveCheckpoints (G := G) rs) := by
  induction rs with
  | nil => rfl
  | cons r rest ih =>
      exact ⟨rfl, fun _ => Future.Disciplined.bind (locks_of_plain (save_plain r))
        fun _ => ⟨rfl, fun _ => ih⟩⟩

theorem minPosition_locks (rs : List (π ⊕ μ)) (minPos : Nat) :
    Locks none (minPosition (G := G) rs minPos) := by
  induction rs generalizing minPos with
  | nil => rfl
  | cons r rest ih =>
      exact ⟨rfl, fun _ => ⟨trivial, fun _ => ⟨rfl, fun _ => ih _⟩⟩⟩

theorem connect_locks : Locks none (connect (G := G)) :=
  Future.Disciplined.bind (Future.Disciplined.bind (minPosition_locks _ _) fun _ => rfl)
    fun _ => ⟨trivial, fun _ => rfl⟩

theorem fanOutProjections_locks (recorded : RecordedEvent) (ps : List π) :
    Locks none (fanOutProjections (G := G) recorded ps) := by
  induction ps with
  | nil => rfl
  | cons p rest ih => exact ⟨rfl, fun _ => ⟨trivial, fun _ => ⟨rfl, fun _ => ih⟩⟩⟩

theorem fanOutProcessManagers_locks (recorded : RecordedEvent) (ms : List μ)
    (all : List (Work μ)) : Locks none (fanOutProcessManagers (G := G) recorded ms all) := by
  induction ms generalizing all with
  | nil => rfl
  | cons m rest ih => exact ⟨rfl, fun _ => ⟨trivial, fun _ => ⟨rfl, fun _ => ih _⟩⟩⟩

/-- No mutex is held while an envelope is dispatched. -/
theorem processStreamWithDispatch_locks (items : List Item) :
    Locks none (processStreamWithDispatch (G := G) C items) := by
  induction items with
  | nil => exact ⟨trivial, fun _ => rfl⟩
  | cons item rest ih =>
      rcases item with status | recorded | _ | _
      · exact ⟨trivial, fun _ => rfl⟩
      · refine ⟨trivial, fun _ => Future.Disciplined.bind ?_ fun _ => ih⟩
        refine Future.Disciplined.bind (fanOutProjections_locks recorded _) fun _ => ?_
        refine Future.Disciplined.bind (fanOutProcessManagers_locks recorded _ [])
          fun all => ?_
        refine Future.Disciplined.bind (locks_of_plain (dispatchLive_plain all)) fun _ => ?_
        exact ⟨trivial, fun _ => rfl⟩
      · exact ⟨trivial, fun _ => ⟨trivial, fun _ => ih⟩⟩
      · exact ⟨trivial, fun _ => ih⟩

/-- Every task that is ever started is disciplined. -/
theorem starts_locks [DecidableEq π] {w w' : LiveWorld G κ} {x : Waiter κ}
    {task : RunnerTask G}
    (hstarts : w.Starts C w' x task) : Locks none task := by
  cases hstarts with
  | saving _ => exact Future.Disciplined.bind (saveCheckpoints_locks _) fun _ => rfl
  | connecting _ => exact Future.Disciplined.bind connect_locks fun _ => rfl
  | streaming _ =>
      exact Future.Disciplined.bind (processStreamWithDispatch_locks _) fun _ => rfl
  | calling k c =>
      cases c with
      | projection p => exact Future.Disciplined.bind (projection_locks p) fun _ => rfl
      | liveProjection p =>
          exact Future.Disciplined.bind (liveProjection_locks p) fun _ => rfl
      | runProcessManagers =>
          refine Future.Disciplined.bind runProcessManagers_locks fun result => ?_
          rcases result with ⟨e, dropped⟩ | report <;> rfl

end EventfoldEs
