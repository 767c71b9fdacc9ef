/-
One store with its live loop and any number of callers: runners in memory and on
disk behind fair mutexes, the tasks that run over them, reconnects, shutdown and
crashes.  One step is one poll of a task, or one thing that happens to it.
-/
import EventfoldEs.Live
import EventfoldEs.Lib.LockDiscipline
import EventfoldEs.Lib.Run

namespace EventfoldEs

open Async

variable (C : Crates) {π μ κ : Type} (G : Registry π μ)

/-- The checkpoints of a store, what has become of the envelopes so far, and the
flags that its tasks share.  Runners have different names, so that each has a
checkpoint file and a temporary file of its own. -/
structure StoreState where
  memory : ∀ r, Checkpoint (G.runner r).State
  tmp : ∀ r, Option (Checkpoint (G.runner r).State)
  disk : ∀ r, Option (Checkpoint (G.runner r).State)
  dispatched : List (Work μ)
  deadLetterTried : List (Work μ)
  deadLetters : List (Work μ × String)
  liveHandle : Bool
  caughtUp : Bool
  position : Nat

/-- What the environment answers an operation with. -/
inductive RunnerAnswer
  | done
  | result (result : Except String Unit)
  | stream (result : Except Status (List Item))
  | receivers (any : Bool)

variable {G}

namespace StoreState

variable [DecidableEq π] [DecidableEq μ]

/-- A runner in memory takes an event. -/
def event (s : StoreState G) (r : π ⊕ μ) (recorded : RecordedEvent) :
    StoreState G × List CommandEnvelope :=
  let (checkpoint, produced) := (G.runner r).event C (s.memory r) recorded
  ({ s with memory := Function.update s.memory r checkpoint }, produced)

end StoreState

variable [DecidableEq π] [DecidableEq μ] [DecidableEq κ]

/-- What an operation does to the store.  A watch value without receivers is
not sent. -/
def RunnerOp.serve : (op : RunnerOp π μ) → RunnerAnswer → StoreState G →
    Option (op.Res G × StoreState G)
  | .lock _, .done, s => some ((), s)
  | .unlock _, .done, s => some ((), s)
  | .position r, .done, s => some ((s.memory r).lastGlobalPosition, s)
  | .subscribeAllFrom _, .stream result, s => some (result, s)
  | .nextItem, .done, s => some ((), s)
  | .applyEvent p recorded, .done, s => some ((), (s.event C (.inl p) recorded).1)
  | .reactEvent m recorded, .done, s =>
      some ((s.event C (.inr m) recorded).2, (s.event C (.inr m) recorded).1)
  | .writeTmp r, .result (.ok ()), s =>
      some (.ok (), { s with tmp := Function.update s.tmp r (some (s.memory r)) })
  | .writeTmp r, .result (.error e), s =>
      some (.error e, { s with tmp := Function.update s.tmp r none })
  | .rename r, .result (.ok ()), s => (s.tmp r).map fun checkpoint =>
      (.ok (), { s with
        tmp := Function.update s.tmp r none
        disk := Function.update s.disk r (some checkpoint) })
  | .rename _, .result (.error e), s => some (.error e, s)
  | .stateAny p, .done, s => some ((s.memory (.inl p)).state, s)
  | .liveHandleIsSome, .done, s => some (s.liveHandle, s)
  | .dispatch work, .result (.ok ()), s =>
      some (.ok (), { s with dispatched := s.dispatched ++ [work] })
  | .dispatch _, .result (.error e), s => some (.error e, s)
  | .appendDeadLetter work error, .result (.ok ()), s =>
      some (.ok (), { s with
        deadLetterTried := s.deadLetterTried ++ [work]
        deadLetters := s.deadLetters ++ [(work, error)] })
  | .appendDeadLetter work _, .result (.error e), s =>
      some (.error e, { s with deadLetterTried := s.deadLetterTried ++ [work] })
  | .storeCaughtUp, .done, s => some ((), { s with caughtUp := true })
  | .sendPosition n, .receivers any, s =>
      some ((), if any then { s with position := n } else s)
  | _, _, _ => none

/-- What an operation does to the mutexes of the runners. -/
def RunnerOp.lockUse : RunnerOp π μ → LockUse (π ⊕ μ)
  | .lock r => .acquire r
  | .unlock r => .release r
  | _ => .nothing

/-- The operations at which a task can be suspended. -/
def RunnerOp.suspends : RunnerOp π μ → Bool
  | .lock _ | .subscribeAllFrom _ | .nextItem | .dispatch _ => true
  | _ => false

/-- Whose task it is: what the loop of the live task runs itself, the stream that
it has pinned, or a call of the store. -/
inductive Waiter (κ : Type)
  | live
  | stream
  | caller (k : κ)
deriving DecidableEq

/-- The values that tasks return. -/
inductive TaskResult (G : Registry π μ)
  | saved
  | connected (result : Except Status (List Item))
  | streamed (result : Except String StreamOutcome)
  | projection (p : π) (result : Except String (G.projection p).State)
  | processManagers (result : Except String ProcessManagerReport)

/-- A task returns its result and the envelopes that it dropped. -/
abbrev RunnerTask (G : Registry π μ) := RunnerFuture G (TaskResult G × List (Work μ))

def savingTask : RunnerTask G := saveAllCheckpoints.bind fun _ => .ready (.saved, [])

def connectTask : RunnerTask G := connect.bind fun result => .ready (.connected result, [])

def streamTask (items : List Item) : RunnerTask G :=
  (processStreamWithDispatch C items).bind fun result => .ready (.streamed result, [])

inductive Call (π : Type)
  | projection (p : π)
  | liveProjection (p : π)
  | runProcessManagers

def Call.task : Call π → RunnerTask G
  | .projection p => (EventfoldEs.projection C p).bind fun result =>
      .ready (.projection p result, [])
  | .liveProjection p => (EventfoldEs.liveProjection C p).bind fun result =>
      .ready (.projection p result, [])
  | .runProcessManagers => (EventfoldEs.runProcessManagers C).bind fun
      | .ok report => .ready (.processManagers (.ok report), [])
      | .error (e, dropped) => .ready (.processManagers (.error e), dropped)

/-- The branch of the `select!` of the live loop that is running. -/
inductive Handler
  | tick
  | shutdown

/-- What the live loop does after saving all checkpoints. -/
inductive AfterSave
  | reconnect
  | backoff
  | return (result : Except String Unit)

/-- Where `run_live_loop` is. -/
inductive LivePhase
  | off
  | head
  | connecting
  | retryWait
  | streaming (handler : Option Handler)
  | saving (next : AfterSave)
  | reconnectWait
  | returned (result : Except String Unit)

/-- A span of time in nanoseconds: at most `u64::MAX` seconds and 999,999,999 of them. -/
structure Duration where
  nanos : Nat
  bounded : nanos < UInt64.size * 1000000000
deriving DecidableEq

namespace Duration

def fromSecs (secs : UInt64) : Duration where
  nanos := secs.toNat * 1000000000
  bounded := Nat.mul_lt_mul_of_pos_right secs.toNat_lt_size (by decide)

def zero : Duration := fromSecs 0

/-- `checked_mul`: nothing when the product does not fit. -/
def checkedMul (d : Duration) (n : Nat) : Option Duration :=
  if h : d.nanos * n < UInt64.size * 1000000000 then some ⟨d.nanos * n, h⟩ else none

instance : Min Duration := ⟨fun d e => if d.nanos ≤ e.nanos then d else e⟩

theorem nanos_min (d e : Duration) : (min d e).nanos = min d.nanos e.nanos := by
  change (if d.nanos ≤ e.nanos then d else e).nanos = _
  by_cases hle : d.nanos ≤ e.nanos
  · rw [if_pos hle, Nat.min_eq_left hle]
  · rw [if_neg hle, Nat.min_eq_right (Nat.le_of_not_le hle)]

theorem nanos_of_checkedMul {d product : Duration} {n : Nat}
    (hproduct : d.checkedMul n = some product) : product.nanos = d.nanos * n := by
  unfold checkedMul at hproduct
  split at hproduct <;> cases hproduct
  rfl

theorem checkedMul_eq_none_iff {d : Duration} {n : Nat} :
    d.checkedMul n = none ↔ UInt64.size * 1000000000 ≤ d.nanos * n := by
  unfold checkedMul
  split <;> simp <;> omega

end Duration

structure LiveConfig where
  checkpointInterval : Duration
  reconnectBaseDelay : Duration
  reconnectMaxDelay : Duration

def LiveConfig.default : LiveConfig where
  checkpointInterval := .fromSecs 5
  reconnectBaseDelay := .fromSecs 1
  reconnectMaxDelay := .fromSecs 30

/-- The live task panics, and `LiveHandle::shutdown` reports that to whoever awaits it. -/
def LivePhase.panicked (message : String) : LivePhase :=
  .returned (.error ("live loop task panicked: " ++ C.joinErrorToString message))

/-- Where the loop begins: `tokio::time::interval` does not take a period of zero. -/
def LivePhase.started (cfg : LiveConfig) : LivePhase :=
  if cfg.checkpointInterval = .zero then .panicked C "`period` must be non-zero."
  else .head

structure LiveWorld (G : Registry π μ) (κ : Type) where
  store : StoreState G
  mutexes : π ⊕ μ → FairMutex (Waiter κ)
  tasks : Waiter κ → Option (RunnerTask G)
  phase : LivePhase
  shutdown : Bool
  backoffDelay : Duration

/-- `poll` polls a task, with what it is answered if it comes to that; `settle`
takes the result of a task; `tick`, `seeShutdown` and `timer` are the other
branches of the `select!`s. -/
inductive LiveAction (π κ : Type)
  | startLive
  | loopHead
  | poll (x : Waiter κ) (answer : RunnerAnswer)
  | settle (x : Waiter κ)
  | tick
  | seeShutdown
  | timer
  | sendShutdown
  | call (k : κ) (c : Call π)
  | cancel (k : κ)
  | crash

namespace LiveWorld

/-- The task is suspended: it has been polled, and waits. -/
def parked (w : LiveWorld G κ) (x : Waiter κ) : Bool :=
  match w.tasks x with
  | some (.await _ (.lock r) _) =>
      decide ((w.mutexes r).owner = some x ∨ x ∈ (w.mutexes r).queue)
  | some (.await _ op _) => op.suspends
  | _ => false

def setTask (w : LiveWorld G κ) (x : Waiter κ) (task : Option (RunnerTask G)) :
    LiveWorld G κ :=
  { w with tasks := Function.update w.tasks x task }

/-- The task is dropped where it is suspended, with its place in every queue and
the lock that it may hold. -/
def drop (w : LiveWorld G κ) (x : Waiter κ) : LiveWorld G κ :=
  { w.setTask x none with mutexes := fun r => (w.mutexes r).cancel x }

/-- The live loop goes to save all checkpoints. -/
def startSaving (w : LiveWorld G κ) (phase : LivePhase) : LiveWorld G κ :=
  { w.setTask .live (some savingTask) with phase }

/-- The `select!` of the live loop does not poll its stream while the handler of
another branch runs. -/
def polls (w : LiveWorld G κ) : Waiter κ → Bool
  | .stream => match w.phase with
    | .streaming none => true
    | _ => false
  | _ => true

def pollTask (w : LiveWorld G κ) (x : Waiter κ) (answer : RunnerAnswer) :
    Option (LiveWorld G κ) :=
  match w.tasks x with
  | some (.await _ op resume) =>
      if w.polls x then
        let out := op.lockUse.poll x w.mutexes
        if out.1 then
          (op.serve C answer w.store).map fun (r, store) =>
            { w.setTask x (some (resume r)) with store, mutexes := out.2 }
        else some { w with mutexes := out.2 }
      else none
  | _ => none

/-- The loop goes on after saving. -/
def afterSave (w : LiveWorld G κ) (cfg : LiveConfig) : AfterSave → LiveWorld G κ
  | .reconnect => { w with
      phase := .head
      backoffDelay := if w.store.caughtUp then cfg.reconnectBaseDelay else w.backoffDelay }
  | .backoff => { w with phase := .reconnectWait }
  | .return result => { w with phase := .returned result }

/-- The loop goes on after a wait: it doubles the delay before it cuts it off, and panics
when that overflows. -/
def afterWait (w : LiveWorld G κ) (cfg : LiveConfig) : LiveWorld G κ :=
  match w.backoffDelay.checkedMul 2 with
  | some doubled => { w with
      phase := .head
      backoffDelay := min doubled cfg.reconnectMaxDelay }
  | none => { w with phase := .panicked C "overflow when multiplying duration by scalar" }

/-- The live loop has the result of what it ran itself. -/
def settleLive (w : LiveWorld G κ) (cfg : LiveConfig) : Option (LiveWorld G κ) :=
  match w.tasks .live, w.phase with
  | some (.ready (.connected (.ok items), _)), .connecting =>
      some { (w.setTask .live none).setTask .stream (some (streamTask C items)) with
        phase := .streaming none }
  | some (.ready (.connected (.error _), _)), .connecting =>
      some { w.setTask .live none with phase := .retryWait }
  | some (.ready (.saved, _)), .streaming (some .tick) =>
      some { w.setTask .live none with phase := .streaming none }
  | some (.ready (.saved, _)), .streaming (some .shutdown) =>
      some { (w.setTask .live none).drop .stream with phase := .returned (.ok ()) }
  | some (.ready (.saved, _)), .saving next =>
      some ((w.setTask .live none).afterSave cfg next)
  | _, _ => none

/-- The live loop has the outcome of its stream. -/
def settleStream (w : LiveWorld G κ) : Option (LiveWorld G κ) :=
  match w.tasks .stream, w.phase with
  | some (.ready (.streamed result, _)), .streaming none =>
      some ((w.setTask .stream none).startSaving (.saving (match result with
        | .ok .ended => .reconnect
        | .ok (.error _) => .backoff
        | .error e => .return (.error e))))
  | _, _ => none

/-- The process dies and starts again from what is on disk. -/
def crashed (w : LiveWorld G κ) : LiveWorld G κ where
  store := { w.store with
    memory := fun r => (w.store.disk r).getD (G.runner r).start
    liveHandle := false
    caughtUp := false
    position := 0 }
  mutexes _ := .free
  tasks _ := none
  phase := .off
  shutdown := false
  backoffDelay := .zero

def step (cfg : LiveConfig) (w : LiveWorld G κ) : LiveAction π κ → Option (LiveWorld G κ)
  | .startLive =>
      if w.store.liveHandle then none
      else some { w with
        store := { w.store with liveHandle := true, caughtUp := false, position := 0 }
        phase := .started C cfg
        shutdown := false
        backoffDelay := cfg.reconnectBaseDelay }
  | .loopHead =>
      match w.phase with
      | .head =>
          if w.shutdown then some (w.startSaving (.saving (.return (.ok ()))))
          else some { w.setTask .live (some connectTask) with phase := .connecting }
      | _ => none
  | .poll x answer => w.pollTask C x answer
  | .settle .live => w.settleLive C cfg
  | .settle .stream => w.settleStream
  | .settle (.caller k) =>
      match w.tasks (.caller k) with
      | some (.ready _) => some (w.setTask (.caller k) none)
      | _ => none
  | .tick =>
      match w.phase with
      | .streaming none =>
          if w.parked .stream then some (w.startSaving (.streaming (some .tick))) else none
      | _ => none
  | .seeShutdown =>
      if w.shutdown then
        match w.phase with
        | .streaming none =>
            if w.parked .stream then some (w.startSaving (.streaming (some .shutdown)))
            else none
        | .retryWait => some (w.startSaving (.saving (.return (.ok ()))))
        | .reconnectWait => some { w with phase := .returned (.ok ()) }
        | _ => none
      else none
  | .timer =>
      match w.phase with
      | .retryWait | .reconnectWait => some (w.afterWait C cfg)
      | _ => none
  | .sendShutdown => if w.store.liveHandle then some { w with shutdown := true } else none
  | .call k c =>
      match w.tasks (.caller k) with
      | none => some (w.setTask (.caller k) (some (c.task C)))
      | some _ => none
  | .cancel k => if w.parked (.caller k) then some (w.drop (.caller k)) else none
  | .crash => some w.crashed

end LiveWorld

end EventfoldEs
