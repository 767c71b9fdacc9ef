/-
What one step of the live world can do: a poll, a crash, or a change of tasks
that leaves the runners alone.
-/
import EventfoldEs.LiveWorld

namespace EventfoldEs

open Async

variable {C : Crates} {π μ κ : Type} {G : Registry π μ}
variable [DecidableEq π] [DecidableEq μ] [DecidableEq κ]

/-- Checkpoints and envelopes are the same; the flags may differ. -/
structure StoreState.SameRunners (s t : StoreState G) : Prop where
  memory : t.memory = s.memory
  tmp : t.tmp = s.tmp
  disk : t.disk = s.disk
  dispatched : t.dispatched = s.dispatched
  deadLetterTried : t.deadLetterTried = s.deadLetterTried
  deadLetters : t.deadLetters = s.deadLetters

omit [DecidableEq π] [DecidableEq μ] in
theorem StoreState.SameRunners.refl (s : StoreState G) : s.SameRunners s :=
  ⟨rfl, rfl, rfl, rfl, rfl, rfl⟩

/-- The live loop runs a future of its own. -/
def LivePhase.busy : LivePhase → Bool
  | connecting | streaming (some _) | saving _ => true
  | _ => false

def LivePhase.streams : LivePhase → Bool
  | streaming _ => true
  | _ => false

theorem LivePhase.started_cases (C : Crates) (cfg : LiveConfig) :
    started C cfg = .head ∨ ∃ e, started C cfg = .returned (.error e) := by
  unfold started
  split
  · exact Or.inr ⟨_, rfl⟩
  · exact Or.inl rfl

theorem LivePhase.started_idle (C : Crates) (cfg : LiveConfig) :
    (started C cfg).busy = false ∧ (started C cfg).streams = false := by
  rcases started_cases C cfg with hhead | ⟨e, herror⟩
  · rw [hhead]
    exact ⟨rfl, rfl⟩
  · rw [herror]
    exact ⟨rfl, rfl⟩

namespace LiveWorld

/-- The tasks of the live loop are those that its phase tells. -/
structure Coherent (w : LiveWorld G κ) : Prop where
  live : (w.tasks .live).isSome = w.phase.busy
  stream : (w.tasks .stream).isSome = w.phase.streams
  started : w.store.liveHandle = false → w.phase = .off

/-- The operation that the task of `x` is at. -/
def op? (w : LiveWorld G κ) (x : Waiter κ) : Option (RunnerOp π μ) :=
  match w.tasks x with
  | some (.await _ op _) => some op
  | _ => none

/-- The envelopes that the task of `x` has still to dispatch, or has dropped. -/
def held (w : LiveWorld G κ) (x : Waiter κ) : List (Work μ) :=
  match w.tasks x with
  | some task => task.now Prod.snd
  | none => []

omit [DecidableEq π] [DecidableEq μ] [DecidableEq κ] in
/-- A stream that is polled is not kept waiting by a handler. -/
theorem phase_of_polls {w : LiveWorld G κ} (hpolls : w.polls .stream = true) :
    w.phase = .streaming none := by
  simp only [polls] at hpolls
  split at hpolls
  · assumption
  · cases hpolls

/-- What a poll of `x` does. -/
inductive Polled (C : Crates) (w : LiveWorld G κ) (x : Waiter κ) (answer : RunnerAnswer)
    (w' : LiveWorld G κ) : Prop
  | pending {l : List (Work μ)} {op : RunnerOp π μ}
      {resume : op.Res G → RunnerTask G}
      (htask : w.tasks x = some (.await l op resume)) (hpolls : w.polls x = true)
      (hpending : (op.lockUse.poll x w.mutexes).1 = false)
      (hnext : w' = { w with mutexes := (op.lockUse.poll x w.mutexes).2 })
  | served {l : List (Work μ)} {op : RunnerOp π μ}
      {resume : op.Res G → RunnerTask G} {r : op.Res G} {store : StoreState G}
      (htask : w.tasks x = some (.await l op resume)) (hpolls : w.polls x = true)
      (hgranted : (op.lockUse.poll x w.mutexes).1 = true)
      (hserve : op.serve C answer w.store = some (r, store))
      (hnext : w' = { w.setTask x (some (resume r)) with
        store, mutexes := (op.lockUse.poll x w.mutexes).2 })

theorem polled_of_pollTask {w w' : LiveWorld G κ} {x : Waiter κ} {answer : RunnerAnswer}
    (hstep : w.pollTask C x answer = some w') : Polled C w x answer w' := by
  unfold pollTask at hstep
  split at hstep
  · rename_i l op resume htask
    by_cases hpolls : w.polls x = true
    · rw [if_pos hpolls] at hstep
      dsimp only at hstep
      by_cases hgranted : (op.lockUse.poll x w.mutexes).1 = true
      · rw [if_pos hgranted] at hstep
        simp only [Option.map_eq_some_iff] at hstep
        obtain ⟨⟨r, store⟩, hserve, rfl⟩ := hstep
        exact .served htask hpolls hgranted hserve rfl
      · rw [if_neg hgranted] at hstep
        exact .pending htask hpolls (by simpa using hgranted) (Option.some.inj hstep).symm
    · rw [if_neg hpolls] at hstep
      cases hstep
  · cases hstep

variable {cfg : LiveConfig}

/-- What the loop saves its checkpoints for when its stream has ended. -/
def afterStream : Except String StreamOutcome → AfterSave
  | .ok .ended => .reconnect
  | .ok (.error _) => .backoff
  | .error e => .return (.error e)

/-- Everything that a step can do. -/
inductive Turn (C : Crates) (cfg : LiveConfig) (w : LiveWorld G κ) :
    LiveAction π κ → LiveWorld G κ → Prop
  | polled {x : Waiter κ} {answer : RunnerAnswer} {w' : LiveWorld G κ}
      (hpolled : Polled C w x answer w') : Turn C cfg w (.poll x answer) w'
  | started (hoff : w.store.liveHandle = false) :
      Turn C cfg w .startLive { w with
        store := { w.store with liveHandle := true, caughtUp := false, position := 0 }
        phase := .started C cfg
        shutdown := false
        backoffDelay := cfg.reconnectBaseDelay }
  | stops (hphase : w.phase = .head) :
      Turn C cfg w .loopHead (w.startSaving (.saving (.return (.ok ()))))
  | connects (hphase : w.phase = .head) :
      Turn C cfg w .loopHead { w.setTask .live (some connectTask) with phase := .connecting }
  | connected {items : List Item} {dropped : List (Work μ)} (hphase : w.phase = .connecting)
      (hlive : w.tasks .live = some (.ready (.connected (.ok items), dropped))) :
      Turn C cfg w (.settle .live)
        { (w.setTask .live none).setTask .stream (some (streamTask C items)) with
          phase := .streaming none }
  | refused {status : Status} {dropped : List (Work μ)} (hphase : w.phase = .connecting)
      (hlive : w.tasks .live = some (.ready (.connected (.error status), dropped))) :
      Turn C cfg w (.settle .live) { w.setTask .live none with phase := .retryWait }
  | ticked {dropped : List (Work μ)} (hphase : w.phase = .streaming (some .tick))
      (hlive : w.tasks .live = some (.ready (.saved, dropped))) :
      Turn C cfg w (.settle .live) { w.setTask .live none with phase := .streaming none }
  | shutDown {dropped : List (Work μ)} (hphase : w.phase = .streaming (some .shutdown))
      (hlive : w.tasks .live = some (.ready (.saved, dropped))) :
      Turn C cfg w (.settle .live)
        { (w.setTask .live none).drop .stream with phase := .returned (.ok ()) }
  | saved {next : AfterSave} {dropped : List (Work μ)} (hphase : w.phase = .saving next)
      (hlive : w.tasks .live = some (.ready (.saved, dropped))) :
      Turn C cfg w (.settle .live) ((w.setTask .live none).afterSave cfg next)
  | ended {result : Except String StreamOutcome} {dropped : List (Work μ)}
      (hphase : w.phase = .streaming none)
      (hstream : w.tasks .stream = some (.ready (.streamed result, dropped))) :
      Turn C cfg w (.settle .stream)
        ((w.setTask .stream none).startSaving (.saving (afterStream result)))
  | answered {k : κ} {out : TaskResult G × List (Work μ)}
      (hcaller : w.tasks (.caller k) = some (.ready out)) :
      Turn C cfg w (.settle (.caller k)) (w.setTask (.caller k) none)
  | ticks (hphase : w.phase = .streaming none) (hparked : w.parked .stream = true) :
      Turn C cfg w .tick (w.startSaving (.streaming (some .tick)))
  | stopsStream (hphase : w.phase = .streaming none) (hparked : w.parked .stream = true) :
      Turn C cfg w .seeShutdown (w.startSaving (.streaming (some .shutdown)))
  | stopsRetry (hphase : w.phase = .retryWait) :
      Turn C cfg w .seeShutdown (w.startSaving (.saving (.return (.ok ()))))
  | stopsReconnect (hphase : w.phase = .reconnectWait) :
      Turn C cfg w .seeShutdown { w with phase := .returned (.ok ()) }
  | waited {doubled : Duration} (hphase : w.phase = .retryWait ∨ w.phase = .reconnectWait)
      (hdoubled : w.backoffDelay.checkedMul 2 = some doubled) :
      Turn C cfg w .timer { w with
        phase := .head
        backoffDelay := min doubled cfg.reconnectMaxDelay }
  | overflows (hphase : w.phase = .retryWait ∨ w.phase = .reconnectWait)
      (hnone : w.backoffDelay.checkedMul 2 = none) :
      Turn C cfg w .timer { w with
        phase := .panicked C "overflow when multiplying duration by scalar" }
  | signalled : Turn C cfg w .sendShutdown { w with shutdown := true }
  | called {k : κ} {c : Call π} (hnone : w.tasks (.caller k) = none) :
      Turn C cfg w (.call k c) (w.setTask (.caller k) (some (c.task C)))
  | cancelled {k : κ} : Turn C cfg w (.cancel k) (w.drop (.caller k))
  | crashed : Turn C cfg w .crash w.crashed

theorem turn_of_afterWait {w : LiveWorld G κ}
    (hphase : w.phase = .retryWait ∨ w.phase = .reconnectWait) :
    Turn C cfg w .timer (w.afterWait C cfg) := by
  unfold afterWait
  cases hdoubled : w.backoffDelay.checkedMul 2 with
  | some doubled => exact .waited hphase hdoubled
  | none => exact .overflows hphase hdoubled

theorem turn_of_step {w w' : LiveWorld G κ} {a : LiveAction π κ}
    (hstep : w.step C cfg a = some w') : Turn C cfg w a w' := by
  cases a with
  | poll x answer => exact .polled (polled_of_pollTask hstep)
  | startLive =>
      simp only [step] at hstep
      split at hstep <;> cases hstep
      exact .started ((Bool.not_eq_true _).mp ‹_›)
  | loopHead =>
      simp only [step] at hstep
      split at hstep
      · split at hstep <;> cases hstep
        · exact .stops ‹_›
        · exact .connects ‹_›
      · cases hstep
  | settle x =>
      cases x with
      | live =>
          simp only [step, settleLive] at hstep
          split at hstep <;> cases hstep
          · exact .connected ‹_› ‹_›
          · exact .refused ‹_› ‹_›
          · exact .ticked ‹_› ‹_›
          · exact .shutDown ‹_› ‹_›
          · exact .saved ‹_› ‹_›
      | stream =>
          simp only [step, settleStream] at hstep
          split at hstep <;> cases hstep
          exact .ended ‹_› ‹_›
      | caller k =>
          simp only [step] at hstep
          split at hstep <;> cases hstep
          exact .answered ‹_›
  | tick =>
      simp only [step] at hstep
      split at hstep
      · split at hstep <;> cases hstep
        exact .ticks ‹_› ‹_›
      · cases hstep
  | seeShutdown =>
      simp only [step] at hstep
      split at hstep
      · split at hstep
        · split at hstep <;> cases hstep
          exact .stopsStream ‹_› ‹_›
        · cases hstep
          exact .stopsRetry ‹_›
        · cases hstep
          exact .stopsReconnect ‹_›
        · cases hstep
      · cases hstep
  | timer =>
      simp only [step] at hstep
      split at hstep <;> cases hstep
      · exact turn_of_afterWait (Or.inl ‹_›)
      · exact turn_of_afterWait (Or.inr ‹_›)
  | sendShutdown =>
      simp only [step] at hstep
      split at hstep <;> cases hstep
      exact .signalled
  | call k c =>
      simp only [step] at hstep
      split at hstep <;> cases hstep
      exact .called ‹_›
  | cancel k =>
      simp only [step] at hstep
      split at hstep <;> cases hstep
      exact .cancelled
  | crash =>
      cases hstep
      exact .crashed

/-- The store is changed by polls, by the start of the loop and by a crash. -/
theorem store_step {w w' : LiveWorld G κ} {a : LiveAction π κ}
    (hstep : w.step C cfg a = some w') (hpoll : ∀ x answer, a ≠ .poll x answer)
    (hstart : a ≠ .startLive) (hcrash : a ≠ .crash) : w'.store = w.store := by
  cases turn_of_step hstep with
  | polled _ => exact absurd rfl (hpoll _ _)
  | started _ => exact absurd rfl hstart
  | crashed => exact absurd rfl hcrash
  | @saved next _ _ _ => cases next <;> rfl
  | _ => rfl

inductive Starts (C : Crates) (w w' : LiveWorld G κ) : Waiter κ → RunnerTask G → Prop
  | saving (hphase : w'.phase ≠ .connecting) : Starts C w w' .live savingTask
  | connecting (hphase : w'.phase = .connecting) : Starts C w w' .live connectTask
  | streaming {items : List Item} {dropped : List (Work μ)}
      (hlive : w.tasks .live = some (.ready (.connected (.ok items), dropped))) :
      Starts C w w' .stream (streamTask C items)
  | calling (k : κ) (c : Call π) : Starts C w w' (.caller k) (c.task C)

/-- What becomes of the task of `x` in a step that does not poll it. -/
inductive Shift (C : Crates) (w w' : LiveWorld G κ) (x : Waiter κ) : Prop
  | same (hsame : w'.tasks x = w.tasks x)
  | ended {out : TaskResult G × List (Work μ)} (hready : w.tasks x = some (.ready out))
      (hgone : w'.tasks x = none)
  | started {task : RunnerTask G} (hnone : w.tasks x = none)
      (htask : w'.tasks x = some task) (hstarts : Starts C w w' x task)
  | dropped (hgone : w'.tasks x = none)
      (hmutexes : w'.mutexes = fun r => (w.mutexes r).cancel x)

omit [DecidableEq π] [DecidableEq μ] in
/-- A task after a poll of `x` is the resumed one, or that of another waiter. -/
theorem task_of_update {tasks : Waiter κ → Option (RunnerTask G)} {x y : Waiter κ}
    {resumed task : RunnerTask G}
    (hy : Function.update tasks x (some resumed) y = some task) :
    (y = x ∧ task = resumed) ∨ (y ≠ x ∧ tasks y = some task) := by
  by_cases hyx : y = x
  · subst hyx
    rw [Function.update_self] at hy
    exact Or.inl ⟨rfl, (Option.some.inj hy).symm⟩
  · rw [Function.update_of_ne hyx] at hy
    exact Or.inr ⟨hyx, hy⟩

omit [DecidableEq μ] in
/-- A task after a step that is no poll was there before, or has just been made. -/
theorem Shift.task_cases {w w' : LiveWorld G κ} {x : Waiter κ} {task : RunnerTask G}
    (hshift : Shift C w w' x) (htask : w'.tasks x = some task) :
    w'.tasks x = w.tasks x ∨ (w.tasks x = none ∧ Starts C w w' x task) := by
  cases hshift with
  | same hsame => exact Or.inl hsame
  | ended _ hgone =>
      rw [hgone] at htask
      cases htask
  | started hnone hstarted hstarts =>
      exact Or.inr ⟨hnone, Option.some.inj (hstarted.symm.trans htask) ▸ hstarts⟩
  | dropped hgone _ =>
      rw [hgone] at htask
      cases htask

/-- The task of `x` ends or is dropped in this step. -/
def Leaves (w : LiveWorld G κ) : LiveAction π κ → Waiter κ → Prop
  | .settle .live, x => x = .live ∨ w.phase matches .streaming _ ∧ x = .stream
  | .settle y, x => x = y
  | .cancel k, x => x = .caller k
  | _, _ => False

/-- A step that is neither a poll nor a crash. -/
structure Shifts (C : Crates) (w : LiveWorld G κ) (a : LiveAction π κ)
    (w' : LiveWorld G κ) : Prop where
  store : w.store.SameRunners w'.store
  mutexes : w'.mutexes = w.mutexes ∨
    ∃ y, w'.mutexes = (fun r => (w.mutexes r).cancel y) ∧ w'.tasks y = none
  slot : ∀ x, Shift C w w' x
  phase : (w.tasks .live).isSome → w'.tasks .live = w.tasks .live → w'.phase = w.phase
  left : ∀ x task, w.tasks x = some task → w'.tasks x = some task ∨ w.Leaves a x

omit [DecidableEq μ] in
/-- A step that changes the task of `y` alone. -/
theorem Shifts.of_task {w w' : LiveWorld G κ} {a : LiveAction π κ} {y : Waiter κ}
    (hstore : w.store.SameRunners w'.store) (hmutexes : w'.mutexes = w.mutexes)
    (hothers : ∀ x, x ≠ y → w'.tasks x = w.tasks x) (hslot : Shift C w w' y)
    (hphase : (w.tasks .live).isSome → w'.tasks .live = w.tasks .live → w'.phase = w.phase)
    (hleft : ∀ task, w.tasks y = some task → w'.tasks y = some task ∨ w.Leaves a y) :
    Shifts C w a w' where
  store := hstore
  mutexes := Or.inl hmutexes
  slot x := by
    by_cases hx : x = y
    · exact hx ▸ hslot
    · exact .same (hothers x hx)
  phase := hphase
  left x task htask := by
    by_cases hx : x = y
    · subst hx
      exact hleft task htask
    · exact Or.inl ((hothers x hx).trans htask)

omit [DecidableEq μ] in
theorem Shifts.of_phase {w w' : LiveWorld G κ} {a : LiveAction π κ}
    (hstore : w.store.SameRunners w'.store) (hmutexes : w'.mutexes = w.mutexes)
    (htasks : w'.tasks = w.tasks) (hphase : (w.tasks .live).isSome → w'.phase = w.phase) :
    Shifts C w a w' :=
  .of_task (y := .live) hstore hmutexes (fun x _ => congrFun htasks x)
    (.same (congrFun htasks _)) (fun h _ => hphase h)
    (fun _ htask => Or.inl ((congrFun htasks _).trans htask))

omit [DecidableEq μ] in
/-- The live loop starts a future of its own. -/
theorem Shifts.of_live {w w' : LiveWorld G κ} {a : LiveAction π κ} {task : RunnerTask G}
    (hidle : w.tasks .live = none) (hstarts : Starts C w w' .live task)
    (hstore : w'.store = w.store) (hmutexes : w'.mutexes = w.mutexes)
    (htasks : w'.tasks = Function.update w.tasks .live (some task)) :
    Shifts C w a w' := by
  refine .of_task (y := .live) (hstore ▸ .refl _) hmutexes (fun x hx => ?_)
    (.started hidle ?_ hstarts) (fun h => ?_) (fun task htask => ?_)
  · rw [htasks, Function.update_of_ne hx]
  · rw [htasks, Function.update_self]
  · rw [hidle] at h
    cases h
  · rw [hidle] at htask
    cases htask

omit [DecidableEq μ] in
/-- The live loop takes the result of its own future. -/
theorem Shifts.of_liveEnded {w w' : LiveWorld G κ} {out : TaskResult G × List (Work μ)}
    (hlive : w.tasks .live = some (.ready out)) (hstore : w'.store = w.store)
    (hmutexes : w'.mutexes = w.mutexes)
    (htasks : w'.tasks = Function.update w.tasks .live none) :
    Shifts C w (.settle .live) w' := by
  have hgone : w'.tasks .live = none := by rw [htasks, Function.update_self]
  refine .of_task (y := .live) (hstore ▸ .refl _) hmutexes (fun x hx => ?_)
    (.ended hlive hgone) (fun _ hsame => ?_) fun _ _ => Or.inr (Or.inl rfl)
  · rw [htasks, Function.update_of_ne hx]
  · rw [hgone, hlive] at hsame
    cases hsame

omit [DecidableEq μ] in
theorem shifts_connected {w : LiveWorld G κ} {items : List Item} {dropped : List (Work μ)}
    (hco : w.Coherent) (hphase : w.phase = .connecting)
    (hlive : w.tasks .live = some (.ready (.connected (.ok items), dropped))) :
    Shifts C w (.settle .live)
      { (w.setTask .live none).setTask .stream (some (streamTask C items)) with
        phase := .streaming none } := by
  have hnone : w.tasks .stream = none := by
    simpa [hphase, LivePhase.streams] using hco.stream
  refine ⟨.refl _, Or.inl rfl, ?_, ?_, ?_⟩
  · intro x
    cases x with
    | live => exact .ended hlive (by simp [setTask])
    | stream => exact .started hnone (by simp [setTask]) (.streaming hlive)
    | caller k => exact .same (by simp [setTask])
  · intro _ hsame
    simp [setTask, hlive] at hsame
  · intro x task htask
    cases x with
    | live => exact Or.inr (Or.inl rfl)
    | stream => simp [hnone] at htask
    | caller k => exact Or.inl (by simpa [setTask] using htask)

omit [DecidableEq μ] in
theorem shifts_shutDown {w : LiveWorld G κ} {dropped : List (Work μ)}
    (hphase : w.phase = .streaming (some .shutdown))
    (hlive : w.tasks .live = some (.ready (.saved, dropped))) :
    Shifts C w (.settle .live)
      { (w.setTask .live none).drop .stream with phase := .returned (.ok ()) } := by
  refine ⟨.refl _, Or.inr ⟨.stream, rfl, by simp [drop, setTask]⟩, ?_, ?_, ?_⟩
  · intro x
    cases x with
    | live => exact .ended hlive (by simp [drop, setTask])
    | stream => exact .dropped (by simp [drop, setTask]) rfl
    | caller k => exact .same (by simp [drop, setTask])
  · intro _ hsame
    simp [drop, setTask, hlive] at hsame
  · intro x task htask
    cases x with
    | live => exact Or.inr (Or.inl rfl)
    | stream =>
        refine Or.inr (Or.inr ⟨?_, rfl⟩)
        rw [hphase]
    | caller k => exact Or.inl (by simpa [drop, setTask] using htask)

omit [DecidableEq μ] in
theorem shifts_ended {w : LiveWorld G κ} {result : Except String StreamOutcome}
    {dropped : List (Work μ)} (hco : w.Coherent) (hphase : w.phase = .streaming none)
    (hstream : w.tasks .stream = some (.ready (.streamed result, dropped))) :
    Shifts C w (.settle .stream)
      ((w.setTask .stream none).startSaving (.saving (afterStream result))) := by
  have hnone : w.tasks .live = none := by
    simpa [hphase, LivePhase.busy] using hco.live
  refine ⟨.refl _, Or.inl rfl, ?_, ?_, ?_⟩
  · intro x
    cases x with
    | live => exact .started hnone (by simp [startSaving, setTask]) (.saving nofun)
    | stream => exact .ended hstream (by simp [startSaving, setTask])
    | caller k => exact .same (by simp [startSaving, setTask])
  · intro hsome
    simp [hnone] at hsome
  · intro x task htask
    cases x with
    | live => simp [hnone] at htask
    | stream => exact Or.inr rfl
    | caller k => exact Or.inl (by simpa [startSaving, setTask] using htask)

omit [DecidableEq μ] in
theorem shifts_of_drop {w : LiveWorld G κ} (k : κ) :
    Shifts C w (.cancel k) (w.drop (.caller k)) where
  store := .refl _
  mutexes := Or.inr ⟨.caller k, rfl, by simp [drop, setTask]⟩
  slot x := by
    by_cases hx : x = .caller k
    · subst hx
      exact .dropped (by simp [drop, setTask]) rfl
    · exact .same (by simp [drop, setTask, hx])
  phase _ _ := rfl
  left x task htask := by
    by_cases hx : x = .caller k
    · exact Or.inr hx
    · exact Or.inl (by simpa [drop, setTask, hx] using htask)

/-- What a step of a coherent world does. -/
inductive Stepped (C : Crates) (w : LiveWorld G κ) (a : LiveAction π κ)
    (w' : LiveWorld G κ) : Prop
  | polled {x : Waiter κ} {answer : RunnerAnswer} (haction : a = .poll x answer)
      (hpolled : Polled C w x answer w')
  | shifted (hshifts : Shifts C w a w')
  | crashed (haction : a = .crash) (hcrashed : w' = w.crashed)

theorem stepped_of_step {w w' : LiveWorld G κ} (hco : w.Coherent) {a : LiveAction π κ}
    (hstep : w.step C cfg a = some w') : Stepped C w a w' := by
  -- the live loop runs nothing of its own in these phases
  have hidle : ∀ {phase : LivePhase}, w.phase = phase → phase.busy = false →
      w.tasks .live = none := by
    intro phase hphase hbusy
    simpa [hphase, hbusy] using hco.live
  have hphased : ∀ {phase : LivePhase} {w' : LiveWorld G κ}, w.phase = phase →
      phase.busy = false → w.store.SameRunners w'.store → w'.mutexes = w.mutexes →
      w'.tasks = w.tasks → Stepped C w a w' := by
    intro phase w' hphase hbusy hstore hmutexes htasks
    refine .shifted (.of_phase hstore hmutexes htasks fun hlive => ?_)
    rw [hidle hphase hbusy] at hlive
    cases hlive
  cases turn_of_step hstep with
  | polled hpolled => exact .polled rfl hpolled
  | started hoff =>
      exact hphased (hco.started hoff) rfl ⟨rfl, rfl, rfl, rfl, rfl, rfl⟩ rfl rfl
  | stops hphase => exact .shifted (.of_live (hidle hphase rfl) (.saving nofun) rfl rfl rfl)
  | connects hphase =>
      exact .shifted (.of_live (hidle hphase rfl) (.connecting rfl) rfl rfl rfl)
  | connected hphase hlive => exact .shifted (shifts_connected hco hphase hlive)
  | refused _ hlive => exact .shifted (.of_liveEnded hlive rfl rfl rfl)
  | ticked _ hlive => exact .shifted (.of_liveEnded hlive rfl rfl rfl)
  | shutDown hphase hlive => exact .shifted (shifts_shutDown hphase hlive)
  | @saved next dropped _ hlive =>
      cases next <;> exact .shifted (.of_liveEnded hlive rfl rfl rfl)
  | ended hphase hstream => exact .shifted (shifts_ended hco hphase hstream)
  | @answered k out hcaller =>
      exact .shifted (.of_task (y := .caller k) (.refl _) rfl
        (fun x hx => by simp [setTask, hx]) (.ended hcaller (by simp [setTask]))
        (fun _ _ => rfl) fun _ _ => Or.inr rfl)
  | ticks hphase _ =>
      exact .shifted (.of_live (hidle hphase rfl) (.saving nofun) rfl rfl rfl)
  | stopsStream hphase _ =>
      exact .shifted (.of_live (hidle hphase rfl) (.saving nofun) rfl rfl rfl)
  | stopsRetry hphase =>
      exact .shifted (.of_live (hidle hphase rfl) (.saving nofun) rfl rfl rfl)
  | stopsReconnect hphase => exact hphased hphase rfl (.refl _) rfl rfl
  | waited hphase _ =>
      rcases hphase with hphase | hphase
      · exact hphased hphase rfl (.refl _) rfl rfl
      · exact hphased hphase rfl (.refl _) rfl rfl
  | overflows hphase _ =>
      rcases hphase with hphase | hphase
      · exact hphased hphase rfl (.refl _) rfl rfl
      · exact hphased hphase rfl (.refl _) rfl rfl
  | signalled => exact .shifted (.of_phase (.refl _) rfl rfl fun _ => rfl)
  | @called k c hnone =>
      exact .shifted (.of_task (y := .caller k) (.refl _) rfl
        (fun x hx => by simp [setTask, hx])
        (.started hnone (by simp [setTask]) (.calling k c)) (fun _ _ => rfl)
        fun task htask => by simp [hnone] at htask)
  | cancelled => exact .shifted (shifts_of_drop _)
  | crashed => exact .crashed rfl rfl

theorem liveHandle_serve {op : RunnerOp π μ} {answer : RunnerAnswer} {s s' : StoreState G}
    {r : op.Res G} (hserve : op.serve C answer s = some (r, s')) :
    s'.liveHandle = s.liveHandle := by
  unfold RunnerOp.serve at hserve
  split at hserve
  all_goals first
    | (cases hserve; rfl)
    | (cases hserve; split <;> rfl)
    | (obtain ⟨_, -, hmapped⟩ := Option.map_eq_some_iff.mp hserve
       cases hmapped
       rfl)
    | cases hserve

theorem coherent_polled {w w' : LiveWorld G κ} (hco : w.Coherent) {x : Waiter κ}
    {answer : RunnerAnswer} (hpolled : Polled C w x answer w') : w'.Coherent := by
  obtain ⟨hlive, hstream, hstarted⟩ := hco
  cases hpolled with
  | pending _ _ _ hnext => exact hnext ▸ ⟨hlive, hstream, hstarted⟩
  | served htask _ _ hserve hnext =>
      subst hnext
      refine ⟨?_, ?_, fun h => hstarted ((liveHandle_serve hserve).symm.trans h)⟩
      · cases x with
        | live => simpa [setTask, htask] using hlive
        | stream => simpa [setTask] using hlive
        | caller k => simpa [setTask] using hlive
      · cases x with
        | live => simpa [setTask] using hstream
        | stream => simpa [setTask, htask] using hstream
        | caller k => simpa [setTask] using hstream

omit [DecidableEq π] [DecidableEq μ] [DecidableEq κ] in
/-- A step of the live loop after its start. -/
theorem Coherent.advance {w w' : LiveWorld G κ} (hco : w.Coherent) {phase : LivePhase}
    (hphase : w.phase = phase) (hon : phase ≠ .off)
    (hhandle : w'.store.liveHandle = w.store.liveHandle)
    (hlive : (w'.tasks .live).isSome = w'.phase.busy)
    (hstream : (w.tasks .stream).isSome = phase.streams →
      (w'.tasks .stream).isSome = w'.phase.streams) : w'.Coherent where
  live := hlive
  stream := hstream (hphase ▸ hco.stream)
  started h := absurd (hphase.symm.trans (hco.started (hhandle.symm.trans h))) hon

theorem coherent_step {w w' : LiveWorld G κ} (hco : w.Coherent) {a : LiveAction π κ}
    (hstep : w.step C cfg a = some w') : w'.Coherent := by
  -- the live loop goes to save all checkpoints
  have hsaving : ∀ {phase phase' : LivePhase}, w.phase = phase → phase ≠ .off →
      phase'.busy = true → phase'.streams = phase.streams →
      (w.startSaving phase').Coherent := by
    intro phase phase' hphase hon hbusy hstreams
    exact hco.advance hphase hon rfl (by simp [startSaving, setTask, hbusy])
      fun h => by simpa [startSaving, setTask, hstreams] using h
  -- it runs nothing of its own
  have hidle : ∀ {phase : LivePhase}, w.phase = phase → phase.busy = false →
      (w.tasks .live).isSome = false := by
    intro phase hphase hbusy
    rw [hco.live, hphase, hbusy]
  cases turn_of_step hstep with
  | polled hpolled => exact coherent_polled hco hpolled
  | started hoff =>
      have hphase := hco.started hoff
      obtain ⟨hbusy, hstreams⟩ := LivePhase.started_idle C cfg
      refine ⟨(hidle hphase rfl).trans hbusy.symm, ?_, nofun⟩
      have hstream := hco.stream
      rw [hphase] at hstream
      exact hstream.trans hstreams.symm
  | stops hphase => exact hsaving hphase nofun rfl rfl
  | connects hphase =>
      exact hco.advance hphase nofun rfl (by simp [setTask, LivePhase.busy])
        fun h => by simpa [setTask, LivePhase.streams] using h
  | connected hphase _ =>
      exact hco.advance hphase nofun rfl (by simp [setTask, LivePhase.busy])
        fun _ => by simp [setTask, LivePhase.streams]
  | refused hphase _ =>
      exact hco.advance hphase nofun rfl (by simp [setTask, LivePhase.busy])
        fun h => by simpa [setTask, LivePhase.streams] using h
  | ticked hphase _ =>
      exact hco.advance hphase nofun rfl (by simp [setTask, LivePhase.busy])
        fun h => by simpa [setTask, LivePhase.streams] using h
  | shutDown hphase _ =>
      exact hco.advance hphase nofun rfl (by simp [drop, setTask, LivePhase.busy])
        fun _ => by simp [drop, setTask, LivePhase.streams]
  | @saved next dropped hphase _ =>
      cases next <;> exact hco.advance hphase nofun rfl
        (by simp [afterSave, setTask, LivePhase.busy])
        fun h => by simpa [afterSave, setTask, LivePhase.streams] using h
  | ended hphase _ =>
      exact hco.advance hphase nofun rfl (by simp [startSaving, setTask, LivePhase.busy])
        fun _ => by simp [startSaving, setTask, LivePhase.streams]
  | answered _ =>
      exact ⟨by simpa [setTask] using hco.live, by simpa [setTask] using hco.stream,
        hco.started⟩
  | ticks hphase _ => exact hsaving hphase nofun rfl rfl
  | stopsStream hphase _ => exact hsaving hphase nofun rfl rfl
  | stopsRetry hphase => exact hsaving hphase nofun rfl rfl
  | stopsReconnect hphase => exact hco.advance hphase nofun rfl (hidle hphase rfl) id
  | waited hphase _ =>
      rcases hphase with hphase | hphase
      · exact hco.advance hphase nofun rfl (hidle hphase rfl) id
      · exact hco.advance hphase nofun rfl (hidle hphase rfl) id
  | overflows hphase _ =>
      rcases hphase with hphase | hphase
      · exact hco.advance hphase nofun rfl (hidle hphase rfl) id
      · exact hco.advance hphase nofun rfl (hidle hphase rfl) id
  | signalled => exact ⟨hco.live, hco.stream, hco.started⟩
  | called _ =>
      exact ⟨by simpa [setTask] using hco.live, by simpa [setTask] using hco.stream,
        hco.started⟩
  | cancelled =>
      exact ⟨by simpa [drop, setTask] using hco.live, by simpa [drop, setTask] using hco.stream,
        hco.started⟩
  | crashed => exact ⟨rfl, rfl, fun _ => rfl⟩

/-- No task runs, no mutex is taken, and live mode is off. -/
structure Idle (w : LiveWorld G κ) : Prop where
  mutexes : ∀ r, w.mutexes r = .free
  tasks : ∀ x, w.tasks x = none
  phase : w.phase = .off

omit [DecidableEq π] [DecidableEq μ] [DecidableEq κ] in
theorem Idle.no_task {w : LiveWorld G κ} (hidle : w.Idle) (x : Waiter κ)
    (task : RunnerTask G) : w.tasks x ≠ some task := by
  rw [hidle.tasks x]
  nofun

omit [DecidableEq π] [DecidableEq μ] [DecidableEq κ] in
theorem Idle.coherent {w : LiveWorld G κ} (hidle : w.Idle) : w.Coherent where
  live := by rw [hidle.tasks, hidle.phase]; rfl
  stream := by rw [hidle.tasks, hidle.phase]; rfl
  started _ := hidle.phase

end LiveWorld

end EventfoldEs
