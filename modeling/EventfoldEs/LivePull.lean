/-
Live and pull process managers: the live stream takes the process managers event by
event, a pull pass takes the events manager by manager.  What either leaves for one
process manager, and when the two agree.
-/
import EventfoldEs.CatchUp

namespace EventfoldEs

open Async OrderedLog LiveWorld Lone

variable {C : Crates} {π μ : Type} {G : Registry π μ}

/-- The error with which an envelope goes to the dead letters, if it does. -/
def Replies.refusal (e : Replies π μ) (G : Registry π μ) (work : Work μ) : Option String :=
  if work.emission.envelope.aggregateType ∈ G.dispatchers then
    match e.dispatch work with
    | .ok () => none
    | .error error => some error
  else some ("unknown aggregate type: " ++ work.emission.envelope.aggregateType)

/-- How the two dispatch loops dispose of an envelope. -/
def Replies.disposal (e : Replies π μ) (G : Registry π μ) (work : Work μ) : Disposal :=
  match e.refusal G work with
  | none => .dispatched
  | some error => .deadLettered (e.appendDeadLetter work error)

/-- What is handed to a dispatcher for an envelope. -/
def attempted (G : Registry π μ) (work : Work μ) : List (Work μ) :=
  if work.emission.envelope.aggregateType ∈ G.dispatchers then [work] else []

/-- What an envelope adds to the dead letters. -/
def Replies.letters (e : Replies π μ) (G : Registry π μ) (work : Work μ) :
    List (Work μ × String) :=
  match e.refusal G work with
  | none => []
  | some error => match e.appendDeadLetter work error with
    | .ok () => [(work, error)]
    | .error _ => []

/-- What an envelope leads to belongs to its process manager. -/
theorem attempted_own {work other : Work μ} (hother : other ∈ attempted G work) :
    other.pm = work.pm := by
  unfold attempted at hother
  split at hother
  · rw [List.mem_singleton.mp hother]
  · cases hother

theorem letters_own {e : Replies π μ} {work : Work μ} {letter : Work μ × String}
    (hletter : letter ∈ e.letters G work) : letter.1.pm = work.pm := by
  unfold Replies.letters at hletter
  split at hletter
  · cases hletter
  · split at hletter
    · rw [List.mem_singleton.mp hletter]
    · cases hletter

/-- The dead letter of an envelope is due and cannot be written. -/
def Replies.stuck (e : Replies π μ) (G : Registry π μ) (work : Work μ) : Bool :=
  match e.disposal G work with
  | .deadLettered (.error _) => true
  | _ => false

/-- The work that a pull pass comes to, and what stands behind the first dead letter
that cannot be written. -/
def Replies.reached (e : Replies π μ) (G : Registry π μ) : List (Work μ) → List (Work μ)
  | [] => []
  | work :: rest => if e.stuck G work then [work] else work :: e.reached G rest

def Replies.cutOff (e : Replies π μ) (G : Registry π μ) : List (Work μ) → List (Work μ)
  | [] => []
  | work :: rest => if e.stuck G work then rest else e.cutOff G rest

theorem Replies.reached_append_cutOff (e : Replies π μ) (G : Registry π μ)
    (works : List (Work μ)) : e.reached G works ++ e.cutOff G works = works := by
  induction works with
  | nil => rfl
  | cons work rest ih =>
      cases hstuck : e.stuck G work with
      | true => simp [reached, cutOff, hstuck]
      | false => simp [reached, cutOff, hstuck, ih]

namespace Lone

/-- The call `y` leaves what `x` has in memory, and adds to what was handed on. -/
structure Adds (x y : Lone G) (attempts : List (Work μ))
    (letters : List (Work μ × String)) : Prop where
  memory : y.store.memory = x.store.memory
  attempts : y.attempts = x.attempts ++ attempts
  letters : y.store.deadLetters = x.store.deadLetters ++ letters

theorem Adds.refl (x : Lone G) : x.Adds x [] [] :=
  ⟨rfl, (List.append_nil _).symm, (List.append_nil _).symm⟩

theorem Adds.trans {x y z : Lone G} {attempts attempts' : List (Work μ)}
    {letters letters' : List (Work μ × String)} (hxy : x.Adds y attempts letters)
    (hyz : y.Adds z attempts' letters') :
    x.Adds z (attempts ++ attempts') (letters ++ letters') where
  memory := hyz.memory.trans hxy.memory
  attempts := by rw [hyz.attempts, hxy.attempts, List.append_assoc]
  letters := by rw [hyz.letters, hxy.letters, List.append_assoc]

variable [DecidableEq π] [DecidableEq μ]

/-- What has been handed to a dispatcher for a process manager. -/
def attemptsOf (x : Lone G) (m : μ) : List (Work μ) :=
  x.attempts.filter fun work => work.pm = m

/-- The dead-letter log of a process manager. -/
def lettersOf (x : Lone G) (m : μ) : List (Work μ × String) :=
  x.store.deadLetters.filter fun letter => letter.1.pm = m

theorem deadLetter_runOn (e : Replies π μ) (work : Work μ) (error : String)
    (rest : List (Work μ)) (x : Lone G) :
    ∃ y, (deadLetter work error rest).runOn (serve C e) x =
        some (.deadLettered (e.appendDeadLetter work error), y) ∧
      x.Adds y [] (match e.appendDeadLetter work error with
        | .ok () => [(work, error)]
        | .error _ => []) := by
  unfold deadLetter
  simp only [Future.runOn, serve, Replies.answer]
  cases e.appendDeadLetter work error with
  | ok u => exact ⟨_, rfl, rfl, rfl, rfl⟩
  | error cause => exact ⟨_, rfl, rfl, rfl, (List.append_nil _).symm⟩

theorem dispatchOne_runOn (e : Replies π μ) (work : Work μ) (rest : List (Work μ))
    (x : Lone G) :
    ∃ y, (dispatchOne work rest).runOn (serve C e) x = some (e.disposal G work, y) ∧
      x.Adds y (attempted G work) (e.letters G work) := by
  unfold dispatchOne Replies.disposal Replies.letters attempted Replies.refusal
  by_cases hregistered : work.emission.envelope.aggregateType ∈ G.dispatchers
  · simp only [if_pos hregistered, Future.runOn, serve, Replies.answer]
    cases e.dispatch work with
    | ok u =>
        exact ⟨_, rfl, rfl, rfl, (List.append_nil _).symm⟩
    | error error =>
        obtain ⟨y, hrun, hadds⟩ :=
          deadLetter_runOn (C := C) e work error rest ⟨x.store, x.attempts ++ [work]⟩
        have hattempt : x.Adds ⟨x.store, x.attempts ++ [work]⟩ [work] [] :=
          ⟨rfl, rfl, (List.append_nil _).symm⟩
        exact ⟨y, hrun, hattempt.trans hadds⟩
  · simp only [if_neg hregistered]
    exact deadLetter_runOn e work _ rest x

/-- The dispatch loop of the live stream goes through all of its work. -/
theorem dispatchLive_runOn (e : Replies π μ) (works : List (Work μ)) (x : Lone G) :
    ∃ y, (dispatchLive works).runOn (serve C e) x = some ((), y) ∧
      x.Adds y (works.flatMap (attempted G)) (works.flatMap (e.letters G)) := by
  induction works generalizing x with
  | nil => exact ⟨x, rfl, .refl x⟩
  | cons work rest ih =>
      obtain ⟨y, hone, hadds⟩ := dispatchOne_runOn (C := C) e work rest x
      obtain ⟨z, hrest, hmore⟩ := ih y
      refine ⟨z, ?_, hadds.trans hmore⟩
      rw [dispatchLive, Future.runOn_bind, hone, Option.bind_some, hrest]

/-- The dispatch loop of a pull pass goes through its work up to the first dead letter
that cannot be written. -/
theorem dispatchEach_runOn (e : Replies π μ) (works : List (Work μ))
    (report : ProcessManagerReport) (x : Lone G) :
    ∃ result y, (dispatchEach works report).runOn (serve C e) x = some (result, y) ∧
      x.Adds y ((e.reached G works).flatMap (attempted G))
        ((e.reached G works).flatMap (e.letters G)) := by
  induction works generalizing report x with
  | nil => exact ⟨_, x, rfl, .refl x⟩
  | cons work rest ih =>
      obtain ⟨y, hone, hadds⟩ := dispatchOne_runOn (C := C) e work rest x
      rw [dispatchEach, Future.runOn_bind, hone, Option.bind_some]
      unfold Replies.reached Replies.stuck
      rcases e.disposal G work with _ | ⟨error | u⟩
      · obtain ⟨result, z, hrest, hmore⟩ := ih _ y
        exact ⟨result, z, hrest, hadds.trans hmore⟩
      · refine ⟨_, y, rfl, ?_⟩
        simpa using hadds
      · obtain ⟨result, z, hrest, hmore⟩ := ih _ y
        exact ⟨result, z, hrest, hadds.trans hmore⟩

theorem saveEach_runOn (e : Replies π μ) (ms : List μ) (x : Lone G) :
    ∃ result y, (saveEach ms).runOn (serve C e) x = some (result, y) ∧ x.Adds y [] [] := by
  induction ms generalizing x with
  | nil => exact ⟨_, x, rfl, .refl x⟩
  | cons m rest ih =>
      obtain ⟨y, hsave, hmemory, hattempts, hletters⟩ := save_runOn (C := C) e (.inr m) x
      have hadds : x.Adds y [] [] :=
        ⟨hmemory, by rw [hattempts, List.append_nil], by rw [hletters, List.append_nil]⟩
      rw [saveEach, lock_runOn, Future.runOn_bind, hsave, Option.bind_some, unlock_runOn]
      cases e.save (.inr m) with
      | error error => exact ⟨_, y, rfl, hadds⟩
      | ok u =>
          obtain ⟨result, z, hrest, hmore⟩ := ih y
          exact ⟨result, z, hrest, hadds.trans hmore⟩

theorem dispatchAndSave_runOn (e : Replies π μ) (works : List (Work μ)) (x : Lone G) :
    ∃ result y, (dispatchAndSave works).runOn (serve C e) x = some (result, y) ∧
      x.Adds y ((e.reached G works).flatMap (attempted G))
        ((e.reached G works).flatMap (e.letters G)) := by
  obtain ⟨result, y, hdispatch, hadds⟩ := dispatchEach_runOn (C := C) e works ⟨0, 0⟩ x
  rw [dispatchAndSave, Future.runOn_bind, hdispatch, Option.bind_some]
  cases result with
  | error error => exact ⟨_, y, rfl, hadds⟩
  | ok report =>
      obtain ⟨saved, z, hsave, hmore⟩ := saveEach_runOn (C := C) e G.processManagers y
      have hboth := hadds.trans hmore
      rw [List.append_nil, List.append_nil] at hboth
      change ∃ result z, (saveAndReport report).runOn (serve C e) y = _ ∧ _
      rw [saveAndReport, Future.runOn_bind, hsave, Option.bind_some]
      cases saved with
      | error error => exact ⟨_, z, rfl, hboth⟩
      | ok u => exact ⟨_, z, rfl, hboth⟩

variable (C) in
/-- What the process managers `ms` produce for the records of a stream. -/
def worksOf (x : Lone G) (ms : List μ) (records : List RecordedEvent) : List (Work μ) :=
  ms.flatMap fun m => ((G.runner (.inr m)).produced C (x.store.memory (.inr m)) records).map
    (Work.mk m)

variable (C) in
/-- In memory the process managers `ms` have read the records, and nothing else has
happened to process managers. -/
structure Reads (x y : Lone G) (ms : List μ) (records : List RecordedEvent) : Prop where
  read : ∀ m ∈ ms, y.store.memory (.inr m) =
    (G.runner (.inr m)).read C (x.store.memory (.inr m)) records
  kept : ∀ m, m ∉ ms → y.store.memory (.inr m) = x.store.memory (.inr m)
  attempts : y.attempts = x.attempts
  letters : y.store.deadLetters = x.store.deadLetters

omit [DecidableEq π] [DecidableEq μ] in
theorem Reads.nil (x : Lone G) (records : List RecordedEvent) : Reads C x x [] records :=
  ⟨fun _ h => (nomatch h), fun _ _ => rfl, rfl, rfl⟩

/-- A process manager that reads does not disturb the ones after it. -/
theorem Reads.cons {x y : Lone G} {m : μ} {ms : List μ} {records : List RecordedEvent}
    (hm : m ∉ ms) (hreads : Reads C (x.read C (.inr m) records) y ms records) :
    Reads C x y (m :: ms) records ∧
      worksOf C x (m :: ms) records =
        ((G.runner (.inr m)).produced C (x.store.memory (.inr m)) records).map (Work.mk m) ++
          worksOf C (x.read C (.inr m) records) ms records := by
  have hother : ∀ m', m' ≠ m → (x.read C (.inr m) records).store.memory (.inr m') =
      x.store.memory (.inr m') := by
    intro m' hne
    exact read_memory_of_ne x (fun h => hne (Sum.inr.inj h)) records
  refine ⟨⟨fun m' hm' => ?_, fun m' hm' => ?_, hreads.attempts, hreads.letters⟩, ?_⟩
  · rcases List.mem_cons.mp hm' with rfl | hrest
    · rw [hreads.kept _ hm]
      exact read_memory_self x _ _
    · rw [hreads.read m' hrest, hother m' fun h => hm (h ▸ hrest)]
  · rw [List.mem_cons, not_or] at hm'
    rw [hreads.kept m' hm'.2, hother m' hm'.1]
  · rw [worksOf, List.flatMap_cons]
    congr 1
    apply List.flatMap_congr
    intro m' hm'
    rw [hother m' fun h => hm (h ▸ hm')]

omit [DecidableEq π] in
/-- Of what the work of all process managers leads to, the share of one of them is what
its own work leads to. -/
theorem share_worksOf {O : Type} {own : O → μ} {lead : Work μ → List O}
    (hown : ∀ work, ∀ o ∈ lead work, own o = work.pm) (x : Lone G) {ms : List μ}
    (hnodup : ms.Nodup) (records : List RecordedEvent) {m : μ} (hm : m ∈ ms) :
    ((worksOf C x ms records).flatMap lead).filter (fun o => own o = m) =
      (((G.runner (.inr m)).produced C (x.store.memory (.inr m)) records).map
        (Work.mk m)).flatMap lead := by
  have hleads : ∀ m' (produced : List Emission),
      ∀ o ∈ (produced.map (Work.mk m')).flatMap lead, own o = m' := by
    intro m' produced o ho
    obtain ⟨work, hwork, ho⟩ := List.mem_flatMap.mp ho
    obtain ⟨emission, -, rfl⟩ := List.mem_map.mp hwork
    exact hown _ o ho
  have hnone : ∀ ms' : List μ, m ∉ ms' →
      ((worksOf C x ms' records).flatMap lead).filter (fun o => own o = m) = [] := by
    intro ms' hm'
    apply List.filter_eq_nil_iff.mpr
    intro o ho
    rw [worksOf, List.flatMap_assoc] at ho
    obtain ⟨m'', hm'', ho⟩ := List.mem_flatMap.mp ho
    simp only [decide_eq_true_eq, hleads m'' _ o ho]
    rintro rfl
    exact hm' hm''
  induction ms with
  | nil => cases hm
  | cons head rest ih =>
      obtain ⟨hhead, hrest⟩ := List.nodup_cons.mp hnodup
      rw [worksOf, List.flatMap_cons, List.flatMap_append, List.filter_append]
      change _ ++ ((worksOf C x rest records).flatMap lead).filter _ = _
      by_cases heq : m = head
      · subst heq
        rw [hnone rest hhead, List.append_nil]
        apply List.filter_eq_self.mpr
        intro o ho
        simpa using hleads m _ o ho
      · have hm' : m ∈ rest := (List.mem_cons.mp hm).resolve_left heq
        rw [ih hrest hm']
        have hother : ((((G.runner (.inr head)).produced C (x.store.memory (.inr head))
            records).map (Work.mk head)).flatMap lead).filter (fun o => own o = m) = [] := by
          apply List.filter_eq_nil_iff.mpr
          intro o ho
          simp only [decide_eq_true_eq, hleads head _ o ho]
          exact fun h => heq h.symm
        rw [hother, List.nil_append]

omit [DecidableEq π] in
theorem attempts_share (x : Lone G) {ms : List μ} (hnodup : ms.Nodup)
    (records : List RecordedEvent) {m : μ} (hm : m ∈ ms) :
    ((worksOf C x ms records).flatMap (attempted G)).filter (fun work => work.pm = m) =
      (((G.runner (.inr m)).produced C (x.store.memory (.inr m)) records).map
        (Work.mk m)).flatMap (attempted G) :=
  share_worksOf (fun _ _ => attempted_own) x hnodup records hm

omit [DecidableEq π] in
theorem letters_share (e : Replies π μ) (x : Lone G) {ms : List μ} (hnodup : ms.Nodup)
    (records : List RecordedEvent) {m : μ} (hm : m ∈ ms) :
    ((worksOf C x ms records).flatMap (e.letters G)).filter
        (fun letter => letter.1.pm = m) =
      (((G.runner (.inr m)).produced C (x.store.memory (.inr m)) records).map
        (Work.mk m)).flatMap (e.letters G) :=
  share_worksOf (fun _ _ => letters_own) x hnodup records hm

theorem fanOutProcessManagers_runOn (e : Replies π μ) (recorded : RecordedEvent)
    {ms : List μ} (hnodup : ms.Nodup) (all : List (Work μ)) (x : Lone G) :
    ∃ y, (fanOutProcessManagers recorded ms all).runOn (serve C e) x =
        some (all ++ worksOf C x ms [recorded], y) ∧ Reads C x y ms [recorded] := by
  induction ms generalizing all x with
  | nil => exact ⟨x, by rw [worksOf, List.flatMap_nil, List.append_nil]; rfl, .nil x _⟩
  | cons m rest ih =>
      obtain ⟨hm, hrest⟩ := List.nodup_cons.mp hnodup
      obtain ⟨y, hrun, hreads⟩ := ih hrest
        (all ++ reactionWork m recorded
          ((G.runner (.inr m)).event C (x.store.memory (.inr m)) recorded).2)
        (x.read C (.inr m) [recorded])
      obtain ⟨hboth, hworks⟩ := hreads.cons hm
      refine ⟨y, ?_, hboth⟩
      rw [fanOutProcessManagers, lock_runOn, reactEvent_runOn, unlock_runOn, hrun, hworks,
        ← List.append_assoc]
      congr 4
      exact congrArg (List.map (Work.mk m)) (List.append_nil _).symm

/-- The projections are none of the process managers' business. -/
theorem fanOutProjections_runOn (e : Replies π μ) (recorded : RecordedEvent) (ps : List π)
    (x : Lone G) :
    ∃ y, (fanOutProjections recorded ps).runOn (serve C e) x = some ((), y) ∧
      Reads C x y [] [recorded] := by
  induction ps generalizing x with
  | nil => exact ⟨x, rfl, .nil x _⟩
  | cons p rest ih =>
      obtain ⟨y, hrun, hreads⟩ := ih (x.read C (.inl p) [recorded])
      refine ⟨y, ?_, fun _ h => (nomatch h), fun m hm => ?_, hreads.attempts, hreads.letters⟩
      · rw [fanOutProjections, lock_runOn, applyEvent_runOn, unlock_runOn, hrun]
      · exact (hreads.kept m hm).trans (read_memory_of_ne x Sum.inr_ne_inl _)

/-- What the live stream does with one event. -/
theorem processEvent_runOn (e : Replies π μ) (recorded : RecordedEvent)
    (hnodup : G.processManagers.Nodup) (x : Lone G) :
    ∃ y, (processEvent recorded).runOn (serve C e) x = some ((), y) ∧
      (∀ m ∈ G.processManagers, y.store.memory (.inr m) =
        (G.runner (.inr m)).read C (x.store.memory (.inr m)) [recorded]) ∧
      y.attempts = x.attempts ++
        (worksOf C x G.processManagers [recorded]).flatMap (attempted G) ∧
      y.store.deadLetters = x.store.deadLetters ++
        (worksOf C x G.processManagers [recorded]).flatMap (e.letters G) := by
  obtain ⟨x₁, hprojections, hkept⟩ :=
    fanOutProjections_runOn (C := C) e recorded G.projections x
  obtain ⟨x₂, hmanagers, hreads⟩ :=
    fanOutProcessManagers_runOn (C := C) e recorded hnodup [] x₁
  obtain ⟨x₃, hdispatch, hadds⟩ :=
    dispatchLive_runOn (C := C) e ([] ++ worksOf C x₁ G.processManagers [recorded]) x₂
  have hsame : worksOf C x₁ G.processManagers [recorded] =
      worksOf C x G.processManagers [recorded] := by
    unfold worksOf
    apply List.flatMap_congr
    intro m _
    rw [hkept.kept m List.not_mem_nil]
  rw [List.nil_append, hsame] at hadds
  refine ⟨⟨{ x₃.store with position := recorded.globalPosition }, x₃.attempts⟩, ?_,
    fun m hm => ?_, ?_, ?_⟩
  · rw [processEvent, Future.runOn_bind, hprojections, Option.bind_some, Future.runOn_bind,
      hmanagers, Option.bind_some, Future.runOn_bind, hdispatch, Option.bind_some]
    simp only [Future.runOn, serve, RunnerOp.serve, Replies.answer, RunnerOp.attempt,
      Option.map_some, Option.bind_some, List.append_nil, if_true]
  · change x₃.store.memory (.inr m) = _
    rw [hadds.memory, hreads.read m hm, hkept.kept m List.not_mem_nil]
  · change x₃.attempts = _
    rw [hadds.attempts, hreads.attempts, hkept.attempts]
  · change x₃.store.deadLetters = _
    rw [hadds.letters, hreads.letters, hkept.letters]

/-- The live stream takes the events one by one. -/
theorem liveStream_runOn (e : Replies π μ) (hnodup : G.processManagers.Nodup)
    (events : List RecordedEvent) (x : Lone G) :
    ∃ y, (processStreamWithDispatch C (events.map fun r => .ok (.event r))).runOn
        (serve C e) x = some (.ok .ended, y) ∧
      ∀ m ∈ G.processManagers,
        y.store.memory (.inr m) =
          (G.runner (.inr m)).read C (x.store.memory (.inr m)) events ∧
        y.attemptsOf m = x.attemptsOf m ++
          (((G.runner (.inr m)).produced C (x.store.memory (.inr m)) events).map
            (Work.mk m)).flatMap (attempted G) ∧
        y.lettersOf m = x.lettersOf m ++
          (((G.runner (.inr m)).produced C (x.store.memory (.inr m)) events).map
            (Work.mk m)).flatMap (e.letters G) := by
  induction events generalizing x with
  | nil =>
      refine ⟨x, ?_, fun m _ => ⟨rfl, (List.append_nil _).symm, (List.append_nil _).symm⟩⟩
      rw [List.map_nil, processStreamWithDispatch, nextItem_runOn]
      rfl
  | cons recorded rest ih =>
      obtain ⟨y, hevent, hmemory, hattempts, hletters⟩ :=
        processEvent_runOn (C := C) e recorded hnodup x
      obtain ⟨z, hrest, hshares⟩ := ih y
      refine ⟨z, ?_, fun m hm => ?_⟩
      · rw [List.map_cons, processStreamWithDispatch, nextItem_runOn, Future.runOn_bind, hevent,
          Option.bind_some, hrest]
      · obtain ⟨hread, hmore, hwritten⟩ := hshares m hm
        have hproduced : (G.runner (.inr m)).produced C (x.store.memory (.inr m))
            (recorded :: rest) =
            (G.runner (.inr m)).produced C (x.store.memory (.inr m)) [recorded] ++
              (G.runner (.inr m)).produced C (y.store.memory (.inr m)) rest := by
          rw [hmemory m hm]
          exact Runner.produced_append _ _ [recorded] rest
        rw [hproduced, List.map_append, List.flatMap_append, List.flatMap_append]
        refine ⟨?_, ?_, ?_⟩
        · rw [hread, hmemory m hm]
          exact (Runner.read_append _ _ [recorded] rest).symm
        · rw [hmore, attemptsOf, hattempts, List.filter_append,
            attempts_share x hnodup _ hm, List.append_assoc]
          rfl
        · rw [hwritten, lettersOf, hletters, List.filter_append,
            letters_share e x hnodup _ hm, List.append_assoc]
          rfl

/-- The streams that a pull pass opens deliver, without an error, what of the events is
not behind the position that they start from; what else they deliver is behind it. -/
def Offers (e : Replies π μ) (events : List RecordedEvent) : Prop :=
  ∀ p, ∃ items, e.subscribeAllFrom p = .ok items ∧
    (∀ status, streamStop items ≠ .error status) ∧
    fromOn RecordedEvent.globalPosition (passRead items).1 p =
      fromOn RecordedEvent.globalPosition events p

theorem passOf_offered {e : Replies π μ} {events : List RecordedEvent}
    (hoffers : Offers e events) (m : μ) (x : Lone G) :
    passOf C e (.inr m) x =
      (.ok (((G.runner (.inr m)).produced C (x.store.memory (.inr m)) events).map
        (Work.mk m)), x.read C (.inr m) events) := by
  obtain ⟨items, hitems, hstop, hfrom⟩ :=
    hoffers (x.store.memory (.inr m)).lastGlobalPosition
  obtain ⟨hread, hproduced⟩ := Runner.read_fromOn (C := C) (G.runner (.inr m))
    (x.store.memory (.inr m)) (Nat.le_refl _) (passRead items).1
  obtain ⟨hread', hproduced'⟩ := Runner.read_fromOn (C := C) (G.runner (.inr m))
    (x.store.memory (.inr m)) (Nat.le_refl _) events
  rw [hfrom] at hread hproduced
  rw [passOf_of_items hitems]
  unfold Lone.read
  rw [← hproduced, ← hread, hproduced', hread']
  cases hcase : streamStop items with
  | error status => exact absurd hcase (hstop status)
  | _ => rfl

/-- The first loop of a pull pass takes the events manager by manager. -/
theorem catchUpEach_runOn {e : Replies π μ} {events : List RecordedEvent}
    (hoffers : Offers e events) {ms : List μ} (hnodup : ms.Nodup) (allWork : List (Work μ))
    (x : Lone G) :
    ∃ y, (catchUpEach C ms allWork).runOn (serve C e) x =
        some (.ok (allWork ++ worksOf C x ms events), y) ∧ Reads C x y ms events := by
  induction ms generalizing allWork x with
  | nil => exact ⟨x, by rw [worksOf, List.flatMap_nil, List.append_nil]; rfl, .nil x _⟩
  | cons m rest ih =>
      obtain ⟨hm, hrest⟩ := List.nodup_cons.mp hnodup
      obtain ⟨y, hrun, hreads⟩ := ih hrest
        (allWork ++ ((G.runner (.inr m)).produced C (x.store.memory (.inr m)) events).map
          (Work.mk m)) (x.read C (.inr m) events)
      obtain ⟨hboth, hworks⟩ := hreads.cons hm
      refine ⟨y, ?_, hboth⟩
      rw [catchUpEach, lock_runOn, Future.runOn_bind, Future.runOn_mapLocals,
        processManagerCatchUp_runOn, passOf_offered hoffers, Option.bind_some]
      change (Future.await _ (RunnerOp.unlock (.inr m)) _).runOn _ _ = _
      rw [unlock_runOn, hrun, hworks, List.append_assoc]

/-- A pull pass, whatever becomes of its dead letters and its saves. -/
theorem runProcessManagers_runOn {e : Replies π μ} {events : List RecordedEvent}
    (hoffers : Offers e events) (hnodup : G.processManagers.Nodup) (x : Lone G) :
    ∃ result y, (runProcessManagers C).runOn (serve C e) x = some (result, y) ∧
      (∀ m ∈ G.processManagers, y.store.memory (.inr m) =
        (G.runner (.inr m)).read C (x.store.memory (.inr m)) events) ∧
      y.attempts = x.attempts ++
        (e.reached G (worksOf C x G.processManagers events)).flatMap (attempted G) ∧
      y.store.deadLetters = x.store.deadLetters ++
        (e.reached G (worksOf C x G.processManagers events)).flatMap (e.letters G) := by
  obtain ⟨y, hcatch, hreads⟩ := catchUpEach_runOn (C := C) hoffers hnodup [] x
  obtain ⟨result, z, hdispatch, hadds⟩ :=
    dispatchAndSave_runOn (C := C) e ([] ++ worksOf C x G.processManagers events) y
  rw [List.nil_append] at hadds
  refine ⟨result, z, ?_, fun m hm => ?_, ?_, ?_⟩
  · rw [runProcessManagers, Future.runOn_bind, hcatch, Option.bind_some, hdispatch]
  · rw [hadds.memory, hreads.read m hm]
  · rw [hadds.attempts, hreads.attempts]
  · rw [hadds.letters, hreads.letters]

end Lone

/-- Each attempt has the same outcome in both environments, and every dead letter can be
written. -/
structure SameOutcomes (live pull : Replies π μ) : Prop where
  dispatch : ∀ work, live.dispatch work = pull.dispatch work
  written : ∀ work error, live.appendDeadLetter work error = .ok () ∧
    pull.appendDeadLetter work error = .ok ()

theorem SameOutcomes.letters_eq {live pull : Replies π μ} (hsame : SameOutcomes live pull)
    (work : Work μ) : live.letters G work = pull.letters G work := by
  have hrefusal : live.refusal G work = pull.refusal G work := by
    rw [Replies.refusal, Replies.refusal, hsame.dispatch]
  rw [Replies.letters, Replies.letters, hrefusal]
  cases pull.refusal G work with
  | none => rfl
  | some error => simp only [(hsame.written work error).1, (hsame.written work error).2]

/-- A pass whose dead letters are written comes to all of its work. -/
theorem SameOutcomes.cutOff_eq {live pull : Replies π μ} (hsame : SameOutcomes live pull)
    (works : List (Work μ)) : pull.cutOff G works = [] := by
  induction works with
  | nil => rfl
  | cons work rest ih =>
      have hstuck : pull.stuck G work = false := by
        unfold Replies.stuck Replies.disposal
        cases pull.refusal G work with
        | none => rfl
        | some error => simp only [(hsame.written work error).2]
      simp only [Replies.cutOff, hstuck, Bool.false_eq_true, if_false, ih]

variable [DecidableEq π] [DecidableEq μ]

/-- What a live stream and a pull pass leave for a process manager is the same. -/
structure Agree (live pull : Replies π μ) (x y : Lone G) (m : μ) : Prop where
  checkpoint : x.store.memory (.inr m) = y.store.memory (.inr m)
  attempts : (x.attemptsOf m).map (·.emission.envelope) =
    (y.attemptsOf m).map (·.emission.envelope)
  letters : SameOutcomes live pull →
    (x.lettersOf m).map (fun letter => (letter.1.emission.envelope, letter.2)) =
      (y.lettersOf m).map (fun letter => (letter.1.emission.envelope, letter.2))

/-- Live and pull leave the same for every process manager, from equal checkpoints,
exactly if no envelope that has a dispatcher stands behind a dead letter that the pull
pass cannot write. -/
theorem live_pull_agree_iff {live pull : Replies π μ} {events : List RecordedEvent}
    (hoffers : Offers pull events) (hnodup : G.processManagers.Nodup) {x y : Lone G}
    (hstart : ∀ m ∈ G.processManagers, x.store.memory (.inr m) = y.store.memory (.inr m) ∧
      x.attemptsOf m = y.attemptsOf m ∧ x.lettersOf m = y.lettersOf m) :
    ∃ x' result y',
      (processStreamWithDispatch C (events.map fun r => .ok (.event r))).runOn
        (serve C live) x = some (.ok .ended, x') ∧
      (runProcessManagers C).runOn (serve C pull) y = some (result, y') ∧
      ((∀ m ∈ G.processManagers, Agree live pull x' y' m) ↔
        ∀ work ∈ pull.cutOff G (worksOf C y G.processManagers events),
          work.emission.envelope.aggregateType ∉ G.dispatchers) := by
  obtain ⟨x', hlive, hshares⟩ := liveStream_runOn (C := C) live hnodup events x
  obtain ⟨result, y', hpull, hmemory, hattempts, hletters⟩ :=
    runProcessManagers_runOn (C := C) hoffers hnodup y
  let works := worksOf C y G.processManagers events
  have hsplit := pull.reached_append_cutOff G works
  -- what the live stream hands on is what the pass would if it came to all of its work
  have hwhole : ∀ m ∈ G.processManagers, x'.attemptsOf m = y'.attemptsOf m ++
      ((pull.cutOff G works).flatMap (attempted G)).filter (fun work => work.pm = m) := by
    intro m hm
    obtain ⟨hcp, hattempted, -⟩ := hstart m hm
    rw [(hshares m hm).2.1, hattempted, hcp, ← attempts_share y hnodup events hm]
    change _ ++ (works.flatMap _).filter _ = _
    rw [← hsplit, List.flatMap_append, List.filter_append, ← List.append_assoc, hsplit]
    congr 1
    rw [Lone.attemptsOf, Lone.attemptsOf, hattempts, List.filter_append]
  refine ⟨x', result, y', hlive, hpull, fun hagree work hwork hregistered => ?_,
    fun hcond m hm => ⟨?_, ?_, fun hsame => ?_⟩⟩
  · -- every piece of work belongs to a process manager of the list
    have hpm : work.pm ∈ G.processManagers := by
      have hmem : work ∈ works := hsplit ▸ List.mem_append_right _ hwork
      obtain ⟨m, hm, hmem⟩ := List.mem_flatMap.mp hmem
      obtain ⟨emission, -, rfl⟩ := List.mem_map.mp hmem
      exact hm
    have hlengths := congrArg List.length (hagree _ hpm).attempts
    rw [List.length_map, List.length_map, hwhole _ hpm, List.length_append] at hlengths
    have hnone : ((pull.cutOff G works).flatMap (attempted G)).filter
        (fun other => other.pm = work.pm) = [] := List.eq_nil_of_length_eq_zero (by omega)
    have hattempt : work ∈ (pull.cutOff G works).flatMap (attempted G) :=
      List.mem_flatMap.mpr ⟨work, hwork, by simp [attempted, hregistered]⟩
    exact List.filter_eq_nil_iff.mp hnone work hattempt (by simp)
  · rw [(hshares m hm).1, hmemory m hm, (hstart m hm).1]
  · have hnone : (pull.cutOff G works).flatMap (attempted G) = [] := by
      apply List.flatMap_eq_nil_iff.mpr
      intro work hwork
      simp [attempted, hcond work hwork]
    rw [hwhole m hm, hnone, List.filter_nil, List.append_nil]
  · have hall : pull.reached G works = works := by
      rw [← List.append_nil (pull.reached G works), ← hsame.cutOff_eq works, hsplit]
    have hsameLetters : live.letters G = pull.letters G := funext hsame.letters_eq
    congr 1
    rw [(hshares m hm).2.2, (hstart m hm).2.2, (hstart m hm).1, hsameLetters,
      ← letters_share pull y hnodup events hm]
    change _ ++ (works.flatMap _).filter _ = _
    rw [Lone.lettersOf, Lone.lettersOf, hletters, List.filter_append]
    change _ = _ ++ ((pull.reached G works).flatMap _).filter _
    rw [hall]

namespace LiveWitness

def sendLetter : CommandEnvelope := ⟨"letter", "l-1", .null, .default⟩

/-- Billing asks for a letter, for which there is no dispatcher, and an invoice. -/
def desk : Registry Unit Manager where
  projection _ := ordersSeen
  processManager _ := reacting "billing" [sendLetter, sendInvoice]
  projections := []
  processManagers := [.billing]
  dispatchers := ["invoice"]

theorem offers_order {e : Replies Unit Manager}
    (hstreams : e.subscribeAllFrom =
      (streaming [.ok .caughtUp]).subscribeAllFrom) :
    Offers e orderLog := by
  intro p
  refine ⟨_, by rw [hstreams]; rfl, ?_⟩
  by_cases hp : p = 0
  · subst hp
    exact ⟨fun _ h => (nomatch h), rfl⟩
  · have hnone : fromOn RecordedEvent.globalPosition orderLog p = [] := by
      apply List.filter_eq_nil_iff.mpr
      intro recorded hrecorded
      obtain rfl := List.mem_singleton.mp hrecorded
      simpa [placed] using hp
    rw [if_neg hp, hnone]
    exact ⟨fun _ h => (nomatch h), rfl⟩

theorem live_pull_agree_iff_desk :
    ∃ x' result y',
      (processStreamWithDispatch crates (orderLog.map fun r => .ok (.event r))).runOn
        (serve crates (streaming [.ok .caughtUp])) (beforeCall desk) = some (.ok .ended, x') ∧
      (runProcessManagers crates).runOn (serve crates (streaming [.ok .caughtUp]))
        (beforeCall desk) = some (result, y') ∧
      ((∀ m ∈ [Manager.billing], Agree (streaming [.ok .caughtUp])
          (streaming [.ok .caughtUp]) x' y' m) ↔
        ∀ work ∈ (streaming [.ok .caughtUp]).cutOff desk
            (worksOf crates (beforeCall desk) [.billing] orderLog),
          work.emission.envelope.aggregateType ∉ ["invoice"]) :=
  live_pull_agree_iff (C := crates) (G := desk) (offers_order rfl)
    (List.nodup_singleton _) fun _ _ => ⟨rfl, rfl, rfl⟩

/-- No dead letter can be written. -/
def diskFull : Replies Unit Manager :=
  { streaming [.ok .caughtUp] with appendDeadLetter := fun _ _ => .error "disk full" }

/-- The dead letter of the letter ends the pull pass before the invoice is dispatched;
the live stream goes on to it. -/
theorem unwritten_letter_cuts_pass_off :
    Offers diskFull orderLog ∧ ∃ x' result y',
      (processStreamWithDispatch crates (orderLog.map fun r => .ok (.event r))).runOn
        (serve crates diskFull) (beforeCall desk) = some (.ok .ended, x') ∧
      (runProcessManagers crates).runOn (serve crates diskFull) (beforeCall desk) =
        some (result, y') ∧
      x'.attemptsOf .billing = [⟨.billing, 0, 1, sendInvoice⟩] ∧
      y'.attemptsOf .billing = [] ∧ ¬ Agree diskFull diskFull x' y' .billing := by
  refine ⟨offers_order rfl, _, _, _, rfl, rfl, rfl, rfl, fun hagree => ?_⟩
  cases hagree.attempts

end LiveWitness

end EventfoldEs
