/-
Between two crashes no envelope is handled twice: every envelope that is produced
is at one place, with the task that holds it or among what is done with.
-/
import EventfoldEs.LiveDispatch
import EventfoldEs.LiveExclusion
import EventfoldEs.Lib.Custody

namespace EventfoldEs

open Async OrderedLog Custody

variable {C : Crates} {π μ κ : Type} {G : Registry π μ}

/-- What a task holds after an operation, and what the operation disposes of, is what
it held before and what was produced. -/
def RunnerOp.Balances (op : RunnerOp π μ) (r : op.Res G) (l l' : List (Work μ)) : Prop :=
  (l' ++ op.disposes r).Perm (l ++ op.produced r)

/-- The future begins with the envelopes `l` and accounts for each of them to its end. -/
structure Carries {α : Type} (shown : α → List (Work μ)) (fut : RunnerFuture G α)
    (l : List (Work μ)) : Prop where
  now : fut.now shown = l
  moves : fut.Moves shown (fun _ _ => True) RunnerOp.Balances

namespace Carries

variable {α β : Type} {shown : α → List (Work μ)} {l : List (Work μ)}
  {op : RunnerOp π μ} {resume : op.Res G → RunnerFuture G α}

theorem ready (a : α) : Carries (G := G) shown (.ready a) (shown a) := ⟨rfl, trivial⟩

theorem await {rest : op.Res G → List (Work μ)}
    (hbalances : ∀ r, op.Balances r l (rest r))
    (hresume : ∀ r, Carries shown (resume r) (rest r)) :
    Carries shown (.await l op resume) l := by
  refine ⟨rfl, fun r _ => ⟨?_, (hresume r).moves⟩⟩
  rw [(hresume r).now]
  exact hbalances r

/-- An operation that neither produces nor disposes. -/
theorem same (hbalances : ∀ r : op.Res G, op.produced r = [] ∧ op.disposes r = [])
    (hresume : ∀ r, Carries shown (resume r) l) : Carries shown (.await l op resume) l := by
  refine await (fun r => ?_) hresume
  rw [RunnerOp.Balances, (hbalances r).1, (hbalances r).2]

theorem bind {shown' : β → List (Work μ)} {fut : RunnerFuture G β}
    {f : β → RunnerFuture G α} (hfut : Carries shown' fut l)
    (hf : ∀ b, Carries shown (f b) (shown' b)) : Carries shown (fut.bind f) l := by
  have hshown : (fun b => (f b).now shown) = shown' := funext fun b => (hf b).now
  refine ⟨?_, Future.Moves.bind ?_ fun b => (hf b).moves⟩
  · rw [Future.now_bind, hshown]
    exact hfut.now
  · rw [hshown]
    exact hfut.moves

theorem mapLocals (allWork : List (Work μ)) {fut : RunnerFuture G α}
    (hfut : Carries shown fut l) :
    Carries (fun a => allWork ++ shown a) (fut.mapLocals (allWork ++ ·)) (allWork ++ l) := by
  refine ⟨?_, hfut.moves.mapLocals fun op r l l' hbalances => ?_⟩
  · rw [← hfut.now]
    cases fut <;> rfl
  · unfold RunnerOp.Balances at hbalances ⊢
    rw [List.append_assoc, List.append_assoc]
    exact hbalances.append_left allWork

end Carries

section Functions

variable (C)

/-- What a function that holds no envelopes shows. -/
abbrev nothing {α : Type} (_ : α) : List (Work μ) := []

theorem save_carries (r : π ⊕ μ) : Carries nothing (save (G := G) r) [] := by
  refine .same (fun _ => ⟨rfl, rfl⟩) fun out => ?_
  cases out with
  | error e => exact .ready _
  | ok u => exact .same (fun _ => ⟨rfl, rfl⟩) fun _ => .ready _

theorem saveEach_carries (ms : List μ) : Carries nothing (saveEach (G := G) ms) [] := by
  induction ms with
  | nil => exact .ready _
  | cons m rest ih =>
      refine .same (fun _ => ⟨rfl, rfl⟩) fun _ => (save_carries _).bind fun result => ?_
      refine .same (fun _ => ⟨rfl, rfl⟩) fun _ => ?_
      cases result with
      | error e => exact .ready _
      | ok u => exact ih

theorem saveCheckpoints_carries (rs : List (π ⊕ μ)) :
    Carries nothing (saveCheckpoints (G := G) rs) [] := by
  induction rs with
  | nil => exact .ready _
  | cons r rest ih =>
      exact .same (fun _ => ⟨rfl, rfl⟩) fun _ => (save_carries r).bind fun _ =>
        .same (fun _ => ⟨rfl, rfl⟩) fun _ => ih

theorem minPosition_carries (rs : List (π ⊕ μ)) (minPos : Nat) :
    Carries nothing (minPosition (G := G) rs minPos) [] := by
  induction rs generalizing minPos with
  | nil => exact .ready _
  | cons r rest ih =>
      exact .same (fun _ => ⟨rfl, rfl⟩) fun _ => .same (fun _ => ⟨rfl, rfl⟩) fun _ =>
        .same (fun _ => ⟨rfl, rfl⟩) fun _ => ih _

theorem connect_carries : Carries nothing (connect (G := G)) [] :=
  .bind (.bind (minPosition_carries _ _) fun _ => .ready _) fun _ =>
    .same (fun _ => ⟨rfl, rfl⟩) fun _ => .ready _

theorem projectionStream_carries (p : π) (items : List Item) :
    Carries nothing (processStream (G := G) C
      (fun acc recorded => .await acc (.applyEvent p recorded) fun _ => .ready acc)
      items []) [] := by
  induction items with
  | nil => exact .same (fun _ => ⟨rfl, rfl⟩) fun _ => .ready _
  | cons item rest ih =>
      rcases item with status | recorded | _ | _
      · exact .same (fun _ => ⟨rfl, rfl⟩) fun _ => .ready _
      · exact .same (fun _ => ⟨rfl, rfl⟩) fun _ => .same (fun _ => ⟨rfl, rfl⟩) fun _ => ih
      · exact .same (fun _ => ⟨rfl, rfl⟩) fun _ => .ready _
      · exact .same (fun _ => ⟨rfl, rfl⟩) fun _ => ih

theorem projectionCatchUp_carries (p : π) :
    Carries nothing (projectionCatchUp (G := G) C p) [] := by
  have hstream : Carries (G := G) nothing (subscribeAndProcess C
      (fun acc recorded => .await acc (.applyEvent p recorded) fun _ => .ready acc)
      (.inl p)) [] := by
    refine .same (fun _ => ⟨rfl, rfl⟩) fun _ => .same (fun _ => ⟨rfl, rfl⟩) fun result => ?_
    cases result with
    | error status => exact .ready _
    | ok items => exact projectionStream_carries C p items
  refine hstream.bind fun result => ?_
  cases result with
  | error e => exact .ready _
  | ok works => exact save_carries _

variable [DecidableEq π]

theorem projection_carries (p : π) : Carries nothing (projection (G := G) C p) [] := by
  unfold projection
  split
  · refine .same (fun _ => ⟨rfl, rfl⟩) fun _ =>
      (projectionCatchUp_carries C p).bind fun result => ?_
    cases result with
    | error e => exact .same (fun _ => ⟨rfl, rfl⟩) fun _ => .ready _
    | ok u =>
        exact .same (fun _ => ⟨rfl, rfl⟩) fun _ => .same (fun _ => ⟨rfl, rfl⟩) fun _ =>
          .ready _
  · exact .ready _

theorem liveProjection_carries (p : π) :
    Carries nothing (liveProjection (G := G) C p) [] := by
  refine .same (fun _ => ⟨rfl, rfl⟩) fun isSome => ?_
  cases isSome with
  | false => exact projection_carries C p
  | true =>
      simp only [if_true]
      split
      · exact .same (fun _ => ⟨rfl, rfl⟩) fun _ => .same (fun _ => ⟨rfl, rfl⟩) fun _ =>
          .same (fun _ => ⟨rfl, rfl⟩) fun _ => .ready _
      · exact .ready _

omit [DecidableEq π]

theorem fanOutProjections_carries (recorded : RecordedEvent) (ps : List π) :
    Carries nothing (fanOutProjections (G := G) recorded ps) [] := by
  induction ps with
  | nil => exact .ready _
  | cons p rest ih =>
      exact .same (fun _ => ⟨rfl, rfl⟩) fun _ => .same (fun _ => ⟨rfl, rfl⟩) fun _ =>
        .same (fun _ => ⟨rfl, rfl⟩) fun _ => ih

/-- A reaction adds what it produced. -/
theorem carries_react {α : Type} {shown : α → List (Work μ)} {m : μ}
    {recorded : RecordedEvent} {acc : List (Work μ)}
    {resume : List CommandEnvelope → RunnerFuture G α}
    (hresume : ∀ produced,
      Carries shown (resume produced) (acc ++ reactionWork m recorded produced)) :
    Carries shown (.await acc (.reactEvent m recorded) resume) acc := by
  refine .await (fun produced => ?_) hresume
  change (acc ++ reactionWork m recorded produced ++ []).Perm _
  rw [List.append_nil]
  rfl

theorem managerStream_carries (m : μ) (items : List Item) (acc : List (Work μ)) :
    Carries Pass.works (processStream (G := G) C
      (fun acc recorded => .await acc (.reactEvent m recorded) fun produced =>
        .ready (acc ++ reactionWork m recorded produced))
      items acc) acc := by
  induction items generalizing acc with
  | nil => exact .same (fun _ => ⟨rfl, rfl⟩) fun _ => .ready _
  | cons item rest ih =>
      rcases item with status | recorded | _ | _
      · exact .same (fun _ => ⟨rfl, rfl⟩) fun _ => .ready _
      · exact .same (fun _ => ⟨rfl, rfl⟩) fun _ => carries_react fun produced => ih _
      · exact .same (fun _ => ⟨rfl, rfl⟩) fun _ => .ready _
      · exact .same (fun _ => ⟨rfl, rfl⟩) fun _ => ih acc

theorem processManagerCatchUp_carries (m : μ) :
    Carries Pass.works (processManagerCatchUp (G := G) C m) [] := by
  refine .same (fun _ => ⟨rfl, rfl⟩) fun _ => .same (fun _ => ⟨rfl, rfl⟩) fun result => ?_
  cases result with
  | error status => exact .ready _
  | ok items => exact managerStream_carries C m items []

theorem catchUpEach_carries (ms : List μ) (allWork : List (Work μ)) :
    Carries Pass.works (catchUpEach (G := G) C ms allWork) allWork := by
  induction ms generalizing allWork with
  | nil => exact .ready _
  | cons m rest ih =>
      refine .same (fun _ => ⟨rfl, rfl⟩) fun _ => ?_
      have hcatchUp := (processManagerCatchUp_carries (G := G) C m).mapLocals allWork
      rw [List.append_nil] at hcatchUp
      refine hcatchUp.bind fun result => ?_
      rcases result with ⟨e, dropped⟩ | envelopes
      · exact .same (fun _ => ⟨rfl, rfl⟩) fun _ => .ready _
      · exact .same (fun _ => ⟨rfl, rfl⟩) fun _ => ih _

/-- Disposing of the first of several envelopes. -/
theorem balances_tail {op : RunnerOp π μ} {r : op.Res G} {work : Work μ}
    (hproduced : op.produced r = []) (hdisposes : op.disposes r = [work])
    (rest : List (Work μ)) : op.Balances r (work :: rest) rest := by
  rw [RunnerOp.Balances, hproduced, hdisposes, List.append_nil]
  exact List.perm_append_singleton work rest

theorem deadLetter_carries (work : Work μ) (error : String) (rest : List (Work μ)) :
    Carries (fun _ => rest) (deadLetter (G := G) work error rest) (work :: rest) :=
  .await (fun _ => balances_tail rfl rfl rest) fun _ => .ready _

/-- An envelope whose command was refused is still to be dead-lettered. -/
def leftBySend (work : Work μ) (rest : List (Work μ)) : Except String Unit → List (Work μ)
  | .ok () => rest
  | .error _ => work :: rest

theorem dispatchOne_carries (work : Work μ) (rest : List (Work μ)) :
    Carries (fun _ => rest) (dispatchOne (G := G) work rest) (work :: rest) := by
  unfold dispatchOne
  split
  · have hbalances : ∀ result, (RunnerOp.dispatch (π := π) work).Balances (G := G) result
        (work :: rest) (leftBySend work rest result) := by
      intro result
      cases result with
      | error e => exact .refl _
      | ok u => exact balances_tail rfl rfl rest
    refine .await hbalances fun result => ?_
    cases result with
    | error e => exact deadLetter_carries work e rest
    | ok u => exact .ready _
  · exact deadLetter_carries work _ rest

theorem dispatchEach_carries (works : List (Work μ)) (report : ProcessManagerReport) :
    Carries (fun
      | .ok _ => []
      | .error (_, dropped) => dropped) (dispatchEach (G := G) works report) works := by
  induction works generalizing report with
  | nil => exact .ready _
  | cons work rest ih =>
      refine (dispatchOne_carries work rest).bind fun disposal => ?_
      rcases disposal with _ | ⟨_ | _⟩
      · exact ih _
      · exact .ready _
      · exact ih _

theorem dispatchLive_carries (works : List (Work μ)) :
    Carries nothing (dispatchLive (G := G) works) works := by
  induction works with
  | nil => exact .ready _
  | cons work rest ih => exact (dispatchOne_carries work rest).bind fun _ => ih

theorem fanOutProcessManagers_carries (recorded : RecordedEvent) (ms : List μ)
    (all : List (Work μ)) :
    Carries id (fanOutProcessManagers (G := G) recorded ms all) all := by
  induction ms generalizing all with
  | nil => exact .ready _
  | cons m rest ih =>
      exact .same (fun _ => ⟨rfl, rfl⟩) fun _ => carries_react fun produced =>
        .same (fun _ => ⟨rfl, rfl⟩) fun _ => ih _

theorem processEvent_carries (recorded : RecordedEvent) :
    Carries nothing (processEvent (G := G) recorded) [] :=
  (fanOutProjections_carries recorded _).bind fun _ =>
    (fanOutProcessManagers_carries recorded _ []).bind fun all =>
      (dispatchLive_carries all).bind fun _ =>
        .same (fun _ => ⟨rfl, rfl⟩) fun _ => .ready _

theorem processStreamWithDispatch_carries (items : List Item) :
    Carries nothing (processStreamWithDispatch (G := G) C items) [] := by
  induction items with
  | nil => exact .same (fun _ => ⟨rfl, rfl⟩) fun _ => .ready _
  | cons item rest ih =>
      rcases item with status | recorded | _ | _
      · exact .same (fun _ => ⟨rfl, rfl⟩) fun _ => .ready _
      · exact .same (fun _ => ⟨rfl, rfl⟩) fun _ =>
          (processEvent_carries recorded).bind fun _ => ih
      · exact .same (fun _ => ⟨rfl, rfl⟩) fun _ => .same (fun _ => ⟨rfl, rfl⟩) fun _ => ih
      · exact .same (fun _ => ⟨rfl, rfl⟩) fun _ => ih

theorem runProcessManagers_carries :
    Carries (fun
      | .ok _ => []
      | .error (_, dropped) => dropped) (runProcessManagers (G := G) C) [] := by
  refine (catchUpEach_carries C G.processManagers []).bind fun collected => ?_
  rcases collected with ⟨e, dropped⟩ | allWork
  · exact .ready _
  · refine (dispatchEach_carries allWork ⟨0, 0⟩).bind fun result => ?_
    rcases result with ⟨e, dropped⟩ | report
    · exact .ready _
    · refine (saveEach_carries _).bind fun result => ?_
      cases result with
      | error e => exact .ready _
      | ok u => exact .ready _

variable [DecidableEq π]

/-- Every task starts with nothing and accounts for all it comes to hold. -/
theorem starts_carries {w w' : LiveWorld G κ} {x : Waiter κ} {task : RunnerTask G}
    (hstarts : w.Starts C w' x task) : Carries Prod.snd task [] := by
  cases hstarts with
  | saving _ => exact (saveCheckpoints_carries _).bind fun _ => .ready _
  | connecting _ => exact connect_carries.bind fun _ => .ready _
  | streaming _ => exact (processStreamWithDispatch_carries C _).bind fun _ => .ready _
  | calling k c =>
      cases c with
      | projection p => exact (projection_carries C p).bind fun _ => .ready _
      | liveProjection p => exact (liveProjection_carries C p).bind fun _ => .ready _
      | runProcessManagers =>
          refine (runProcessManagers_carries C).bind fun result => ?_
          rcases result with ⟨e, dropped⟩ | report
          · exact .ready _
          · exact .ready _

end Functions

section Serving

variable {s₀ s t : StoreState G} {op : RunnerOp π μ} {answer : RunnerAnswer} {r : op.Res G}

/-- What has been handled since the store was as `s₀`. -/
def StoreState.handledSince (s₀ s : StoreState G) : List (Work μ) :=
  s.dispatched.drop s₀.dispatched.length ++
    s.deadLetterTried.drop s₀.deadLetterTried.length

/-- The records of `s` continue those of `s₀`. -/
structure StoreState.Since (s₀ s : StoreState G) : Prop where
  dispatched : s₀.dispatched <+: s.dispatched
  deadLetterTried : s₀.deadLetterTried <+: s.deadLetterTried

theorem StoreState.Since.refl (s : StoreState G) : s.Since s :=
  ⟨List.prefix_refl _, List.prefix_refl _⟩

theorem StoreState.handledSince_self (s : StoreState G) : s.handledSince s = [] := by
  simp [handledSince]

/-- The envelopes of one reaction are different. -/
theorem reactionWork_nodup (m : μ) (recorded : RecordedEvent)
    (produced : List CommandEnvelope) : (reactionWork m recorded produced).Nodup := by
  refine List.Nodup.of_map (fun work => work.emission.index) ?_
  have hindex : (reactionWork m recorded produced).map (fun work => work.emission.index) =
      List.range' 0 produced.length := by
    rw [reactionWork, emissions, List.map_map, List.map_map, ← List.zipIdx_map_snd 0 produced]
    rfl
  rw [hindex]
  exact List.nodup_range'

theorem mem_reactionWork {m : μ} {recorded : RecordedEvent}
    {produced : List CommandEnvelope} {work : Work μ}
    (hwork : work ∈ reactionWork m recorded produced) :
    work.pm = m ∧ work.emission.position = recorded.globalPosition := by
  obtain ⟨e, he, rfl⟩ := List.mem_map.mp hwork
  obtain ⟨_, -, rfl⟩ := List.mem_map.mp he
  exact ⟨rfl, rfl⟩

variable [DecidableEq π] [DecidableEq μ]

theorem serve_disposes (hserve : op.serve C answer s = some (r, t)) :
    ∃ sent tried, t.dispatched = s.dispatched ++ sent ∧
      t.deadLetterTried = s.deadLetterTried ++ tried ∧ op.disposes r = sent ++ tried := by
  cases op with
  | dispatch work =>
      rcases answer with _ | ⟨_ | _⟩ | _ | _ <;> cases hserve
      · exact ⟨[], [], (List.append_nil _).symm, (List.append_nil _).symm, rfl⟩
      · exact ⟨[work], [], rfl, (List.append_nil _).symm, rfl⟩
  | appendDeadLetter work error =>
      rcases answer with _ | ⟨_ | _⟩ | _ | _ <;> cases hserve
      · exact ⟨[], [work], (List.append_nil _).symm, rfl, rfl⟩
      · exact ⟨[], [work], (List.append_nil _).symm, rfl, rfl⟩
  | rename j =>
      rcases serve_rename hserve with rfl | ⟨checkpoint, -, rfl⟩ <;>
        exact ⟨[], [], (List.append_nil _).symm, (List.append_nil _).symm, rfl⟩
  | sendPosition n =>
      rcases answer with _ | ⟨_ | _⟩ | _ | any <;> cases hserve
      cases any <;> exact ⟨[], [], (List.append_nil _).symm, (List.append_nil _).symm, rfl⟩
  | _ =>
      rcases answer with _ | ⟨_ | _⟩ | _ | _ <;> cases hserve <;>
        exact ⟨[], [], (List.append_nil _).symm, (List.append_nil _).symm, rfl⟩

theorem StoreState.Since.serve (hsince : s₀.Since s)
    (hserve : op.serve C answer s = some (r, t)) :
    s₀.Since t ∧ (s₀.handledSince t).Perm (s₀.handledSince s ++ op.disposes r) := by
  obtain ⟨sent, tried, hsent, htried, hdisposes⟩ := serve_disposes hserve
  obtain ⟨hdispatched, hletters⟩ := hsince
  refine ⟨⟨?_, ?_⟩, ?_⟩
  · exact hsent ▸ hdispatched.trans (List.prefix_append _ _)
  · exact htried ▸ hletters.trans (List.prefix_append _ _)
  · unfold handledSince
    rw [hsent, htried, hdisposes, List.drop_append_of_le_length hdispatched.length_le,
      List.drop_append_of_le_length hletters.length_le, List.append_assoc, List.append_assoc]
    refine List.Perm.append_left _ ?_
    rw [← List.append_assoc, ← List.append_assoc]
    exact List.perm_append_comm.append_right tried

/-- What is produced is new: it is for an event that its process manager had still
before it, and is past now. -/
theorem serve_produced (hserve : op.serve C answer s = some (r, t)) :
    (op.produced r).Nodup ∧ ∀ work ∈ op.produced r,
      s.cursor (.inr work.pm) ≤ work.emission.position ∧
        work.emission.position < t.cursor (.inr work.pm) := by
  cases op with
  | reactEvent m recorded =>
      have htakes :
          (RunnerOp.reactEvent (π := π) m recorded).takes? = some (.inr m, recorded) := rfl
      obtain ⟨ht, hproduced⟩ := serve_takes htakes hserve
      rw [hproduced m rfl, ht]
      refine ⟨reactionWork_nodup m recorded _, fun work hwork => ?_⟩
      obtain ⟨hpm, hposition⟩ := mem_reactionWork hwork
      rw [hpm, hposition]
      refine ⟨?_, (cursors_event s (.inr m) recorded).2⟩
      by_contra hbehind
      have hnone : (s.event C (.inr m) recorded).2 = [] := by
        change ((G.runner (.inr m)).event C (s.memory (.inr m)) recorded).2 = []
        rw [Runner.event_behind (Nat.lt_of_not_le hbehind)]
      rw [hnone] at hwork
      cases hwork
  | _ => exact ⟨List.nodup_nil, fun work hwork => by cases hwork⟩

end Serving

namespace LiveWorld

/-- An envelope is with the task of a waiter, or has been handled. -/
def places (s₀ : StoreState G) (w : LiveWorld G κ) : Option (Waiter κ) → List (Work μ)
  | some x => w.held x
  | none => s₀.handledSince w.store

/-- What every run without crashes keeps: each envelope that was produced since the
store was as `s₀` is at no more than one place. -/
structure Once (s₀ : StoreState G) (w : LiveWorld G κ) : Prop where
  coherent : w.Coherent
  carries : ∀ x task, w.tasks x = some task → ∃ l, Carries Prod.snd task l
  since : s₀.Since w.store
  forward : ∀ r, s₀.cursor r ≤ w.store.cursor r
  single : Single (w.places s₀)
  between : ∀ i, ∀ work ∈ w.places s₀ i,
    s₀.cursor (.inr work.pm) ≤ work.emission.position ∧
      work.emission.position < w.store.cursor (.inr work.pm)

theorem Idle.once {w : LiveWorld G κ} (hidle : w.Idle) : w.Once w.store := by
  have hempty : w.places w.store = fun _ => [] := by
    funext i
    cases i with
    | none => exact w.store.handledSince_self
    | some x => simp [places, held, hidle.tasks x]
  refine ⟨hidle.coherent, fun x task htask => absurd htask (hidle.no_task x task), .refl _,
    fun _ => Nat.le_refl _, hempty ▸ single_nil, fun i work hwork => ?_⟩
  rw [hempty] at hwork
  cases hwork

variable [DecidableEq π] [DecidableEq μ] [DecidableEq κ]

/-- A poll that goes through makes envelopes, hands them to the task, and takes from it
what is handled. -/
theorem Once.served {s₀ : StoreState G} {w w' : LiveWorld G κ} (honce : w.Once s₀)
    (hco : w'.Coherent) {x : Waiter κ} {answer : RunnerAnswer} {l : List (Work μ)}
    {op : RunnerOp π μ} {resume : op.Res G → RunnerTask G}
    (htask : w.tasks x = some (.await l op resume)) {r : op.Res G}
    (hserve : op.serve C answer w.store = some (r, w'.store))
    (htasks : w'.tasks = Function.update w.tasks x (some (resume r))) : w'.Once s₀ := by
  obtain ⟨-, hcarries, hsince, hforward, hsingle, hbetween⟩ := honce
  obtain ⟨_, -, hmoves⟩ := hcarries x _ htask
  obtain ⟨hbalances, hrest⟩ := hmoves r trivial
  obtain ⟨hsince', hhandled⟩ := hsince.serve hserve
  obtain ⟨hnodup, hmade⟩ := serve_produced hserve
  have hcursors := cursors_serve hserve
  have hself : (w'.places s₀ (some x) ++ op.disposes r).Perm
      (w.places s₀ (some x) ++ op.produced r) := by
    have hbefore : w.places s₀ (some x) = l := held_of_task htask
    have hafter : w'.places s₀ (some x) = (resume r).now Prod.snd :=
      held_of_task (by rw [htasks, Function.update_self])
    rw [hbefore, hafter]
    exact hbalances
  have hothers : ∀ k, k ≠ some x → k ≠ none → w'.places s₀ k = w.places s₀ k := by
    rintro (_ | y) hk hnone
    · exact absurd rfl hnone
    · have hyx : y ≠ x := fun heq => hk (congrArg some heq)
      change w'.held y = w.held y
      rw [held, held, htasks, Function.update_of_ne hyx]
  -- every envelope was somewhere before, or has just been made
  have hfrom : ∀ i, ∀ work ∈ w'.places s₀ i,
      (∃ j, work ∈ w.places s₀ j) ∨ work ∈ op.produced r := by
    have hview : ∀ work, work ∈ w'.places s₀ (some x) ++ op.disposes r →
        (∃ j, work ∈ w.places s₀ j) ∨ work ∈ op.produced r := fun work hwork =>
      (List.mem_append.mp (hself.subset hwork)).imp_left fun hold => ⟨some x, hold⟩
    intro i work hwork
    by_cases hi : i = some x
    · exact hview work (List.mem_append_left _ (hi ▸ hwork))
    · by_cases hnone : i = none
      · subst hnone
        rcases List.mem_append.mp (hhandled.subset hwork) with hold | hdisposed
        · exact Or.inl ⟨none, hold⟩
        · exact hview work (List.mem_append_right _ hdisposed)
      · exact Or.inl ⟨i, hothers i hi hnone ▸ hwork⟩
  refine ⟨hco, fun y task hy => ?_, hsince', fun j => Nat.le_trans (hforward j) (hcursors j),
    hsingle.handed (i := some x) (j := none) (fun h => by cases h) hnodup ?_ hself hhandled
      hothers, fun i work hwork => ?_⟩
  · rw [htasks] at hy
    rcases task_of_update hy with ⟨rfl, rfl⟩ | ⟨-, hold⟩
    · exact ⟨_, rfl, hrest⟩
    · exact hcarries y task hold
  · intro work hwork k hold
    exact absurd (hmade work hwork).1 (Nat.not_le.mpr (hbetween k work hold).2)
  · rcases hfrom i work hwork with ⟨j, hold⟩ | hnew
    · exact (hbetween j work hold).imp_right fun h => Nat.lt_of_lt_of_le h (hcursors _)
    · exact (hmade work hnew).imp_left fun h => Nat.le_trans (hforward _) h

theorem once_step {cfg : LiveConfig} {s₀ : StoreState G} {w w' : LiveWorld G κ}
    (honce : w.Once s₀) {a : LiveAction π κ} (hcrash : a ≠ .crash)
    (hstep : w.step C cfg a = some w') : w'.Once s₀ := by
  have hco := coherent_step honce.coherent hstep
  cases stepped_of_step honce.coherent hstep with
  | @polled x answer _ hpolled =>
      cases hpolled with
      | pending _ _ _ hnext =>
          subst hnext
          obtain ⟨-, hcarries, hsince, hforward, hsingle, hbetween⟩ := honce
          exact ⟨hco, hcarries, hsince, hforward, hsingle, hbetween⟩
      | served htask _ _ hserve hnext =>
          subst hnext
          exact honce.served hco htask hserve rfl
  | shifted hshifts =>
      obtain ⟨-, hcarries, ⟨hdispatched, htried⟩, hforward, hsingle, hbetween⟩ := honce
      have hsame := hshifts.store
      have hcursor : ∀ r, w'.store.cursor r = w.store.cursor r := fun r => by
        rw [StoreState.cursor, StoreState.cursor, hsame.memory]
      have hless : ∀ i, (w'.places s₀ i).Sublist (w.places s₀ i) := by
        rintro (_ | x)
        · have hhandled : s₀.handledSince w'.store = s₀.handledSince w.store := by
            rw [StoreState.handledSince, StoreState.handledSince, hsame.dispatched,
              hsame.deadLetterTried]
          change (s₀.handledSince w'.store).Sublist (s₀.handledSince w.store)
          exact hhandled ▸ List.Sublist.refl _
        · change (w'.held x).Sublist (w.held x)
          cases hshifts.slot x with
          | same htask =>
              have hheld : w'.held x = w.held x := by rw [held, held, htask]
              exact hheld ▸ List.Sublist.refl _
          | ended _ hgone | dropped hgone _ =>
              rw [held, hgone]
              exact List.nil_sublist _
          | started _ htask hstarts =>
              rw [held_of_task htask, (starts_carries C hstarts).now]
              exact List.nil_sublist _
      refine ⟨hco, fun x task htask => ?_, ⟨hsame.dispatched ▸ hdispatched,
        hsame.deadLetterTried ▸ htried⟩, fun r => hcursor r ▸ hforward r,
        hsingle.lost hless, fun i work hwork => ?_⟩
      · rcases (hshifts.slot x).task_cases htask with hstays | ⟨-, hstarts⟩
        · exact hcarries x task (hstays ▸ htask)
        · exact ⟨[], starts_carries C hstarts⟩
      · rw [hcursor]
        exact hbetween i work ((hless i).subset hwork)
  | crashed haction _ => exact absurd haction hcrash

theorem once_of_reaches {cfg : LiveConfig} {w₀ w : LiveWorld G κ} (hidle : w₀.Idle)
    (hreach : Reaches (step C cfg) (fun _ a => a ≠ .crash) w₀ w) : w.Once w₀.store :=
  hreach.invariant hidle.once fun _ _ _ honce hcrash hstep => once_step honce hcrash hstep

/-- Between two crashes, each envelope is handled at most once, whatever the streams
deliver and whichever calls run: what has been handled since the process started are
different envelopes, for events from the cursor that it started with to the cursor that
it has come to. -/
theorem handled_at_most_once {cfg : LiveConfig} {w₀ w : LiveWorld G κ} (hidle : w₀.Idle)
    (hreach : Reaches (step C cfg) (fun _ a => a ≠ .crash) w₀ w) :
    ∃ sent tried, w.store.dispatched = w₀.store.dispatched ++ sent ∧
      w.store.deadLetterTried = w₀.store.deadLetterTried ++ tried ∧ (sent ++ tried).Nodup ∧
      ∀ work ∈ sent ++ tried, w₀.store.cursor (.inr work.pm) ≤ work.emission.position ∧
        work.emission.position < w.store.cursor (.inr work.pm) := by
  obtain ⟨-, -, ⟨⟨sent, hsent⟩, ⟨tried, htried⟩⟩, -, hsingle, hbetween⟩ :=
    once_of_reaches hidle hreach
  have hhandled : w.places w₀.store none = sent ++ tried := by
    change w₀.store.handledSince w.store = _
    rw [StoreState.handledSince, ← hsent, ← htried, List.drop_left, List.drop_left]
  exact ⟨sent, tried, hsent.symm, htried.symm, hhandled ▸ hsingle.once none,
    hhandled ▸ hbetween none⟩

omit [DecidableEq π] [DecidableEq μ] [DecidableEq κ] in
theorem crashed_idle (w : LiveWorld G κ) : w.crashed.Idle := ⟨fun _ => rfl, fun _ => rfl, rfl⟩

/-- After a crash, nothing that is below the cursor in the file of its process manager is
handled again. -/
theorem crash_repeats_nothing_saved {cfg : LiveConfig} {w₀ w : LiveWorld G κ}
    (hreach : Reaches (step C cfg) (fun _ a => a ≠ .crash) w₀.crashed w) :
    ∃ sent tried, w.store.dispatched = w₀.store.dispatched ++ sent ∧
      w.store.deadLetterTried = w₀.store.deadLetterTried ++ tried ∧ (sent ++ tried).Nodup ∧
      ∀ work ∈ sent ++ tried,
        w₀.store.persisted (.inr work.pm) ≤ work.emission.position := by
  obtain ⟨sent, tried, hsent, htried, honce, hbetween⟩ :=
    handled_at_most_once (crashed_idle w₀) hreach
  exact ⟨sent, tried, hsent, htried, honce, fun work hwork => (hbetween work hwork).1⟩

/-- No task ends or is dropped while it holds an envelope, and the process does not
die. -/
def DropsNothing (w : LiveWorld G κ) (a : LiveAction π κ) : Prop :=
  a ≠ .crash ∧ ∀ x, w.Leaves a x → w.held x = []

end LiveWorld

namespace LiveOnceWitness

open LiveWorld LiveWitness

/-- `DropsNothing`, for runs in which no task ends. -/
def dropsNothing {G : Registry Unit Manager} (_ : LiveWorld G Unit) :
    LiveAction Unit Unit → Bool
  | .settle _ | .cancel _ | .crash => false
  | _ => true

theorem dropsNothing_sound {G : Registry Unit Manager} (w : LiveWorld G Unit)
    (a : LiveAction Unit Unit) (hcheck : dropsNothing w a = true) : w.DropsNothing a := by
  cases a with
  | settle x => cases hcheck
  | cancel k => cases hcheck
  | crash => cases hcheck
  | _ =>
      constructor
      · intro h
        cases h
      · intro x hleaves
        cases hleaves

/-- Billing catches up, its envelope is dispatched, and it is saved. -/
theorem billing_runs : ∃ w : LiveWorld (shop [] [.billing]) Unit,
    runActions (step crates delays) (opened (shop [] [.billing])) billing.dropLast = some w ∧
      AllOk (step crates delays) (Streams orderLog) (opened (shop [] [.billing]))
        billing.dropLast ∧
      AllOk (step crates delays) DropsNothing (opened (shop [] [.billing])) billing.dropLast ∧
      w.store.cursor (.inr .billing) = 1 ∧ ∀ x, w.held x = [] := by
  refine ⟨_, rfl, allOk_of_checks streams_sound rfl, allOk_of_checks dropsNothing_sound rfl,
    rfl, ?_⟩
  rintro (_ | _ | _)
  all_goals rfl

theorem handled_at_most_once_billing :
    ∃ w : LiveWorld (shop [] [.billing]) Unit,
      runActions (step crates delays) (opened (shop [] [.billing])) billing.dropLast = some w ∧
      (w.store.dispatched ++ w.store.deadLetterTried).Nodup := by
  obtain ⟨w, hrun, -, hdrops, -⟩ := billing_runs
  have hreach : Reaches (step crates delays) (fun _ a => a ≠ .crash)
      (opened (shop [] [.billing])) w :=
    (Reaches.run .start billing.dropLast hdrops hrun).mono fun _ _ h => h.1
  obtain ⟨sent, tried, hsent, htried, honce, -⟩ :=
    handled_at_most_once (opened_idle _) hreach
  refine ⟨w, hrun, ?_⟩
  rw [hsent, htried]
  exact honce

end LiveOnceWitness

end EventfoldEs
