/-
The position channel of the live loop over whole runs, with pull passes, broken
streams, reconnects, shutdown and crashes in between.
-/
import EventfoldEs.LiveAnnounce

namespace EventfoldEs

open Async OrderedLog LiveWorld

variable {C : Crates} {π μ κ : Type} {G : Registry π μ}
variable [DecidableEq π] [DecidableEq μ] [DecidableEq κ] {rising : Prop}

variable (C rising) in
/-- A task of the loop keeps what the loop owes, and a stream that it has opened
is at its start. -/
def RunnerTask.LiveAt (task : RunnerTask G) (s : StoreState G) (h : LiveHistory μ) : Prop :=
  task.Safe (liveTerms C rising) (fun out y => y.2.Owes [] ∧
    ∀ items, out.1 = .connected (.ok items) → StreamAt rising items y.1 y.2) (s, h)

omit [DecidableEq κ] in
theorem RunnerTask.LiveAt.mono {task : RunnerTask G} {s t : StoreState G}
    {h : LiveHistory μ} (hlive : task.LiveAt C rising s h)
    (hst : ∀ r, s.cursor r ≤ t.cursor r) : task.LiveAt C rising t h := by
  refine Future.Safe.stable (fun out x y hout hxy => ?_) hlive ⟨hst, rfl⟩
  refine ⟨hxy.2 ▸ hout.1, fun items hok => ?_⟩
  rw [hxy.2]
  exact (hout.2 items hok).mono hxy.1

omit [DecidableEq κ] in
theorem connectTask_liveAt {s : StoreState G} {h : LiveHistory μ} (hempty : h.readings = [])
    (hpassed : ∀ m ∈ h.published, ∀ r ∈ G.runners, m < s.cursor r) (howes : h.Owes []) :
    connectTask.LiveAt C rising s h :=
  (connect_live s hempty hpassed howes).bind fun _ _ ⟨howes, hresult⟩ =>
    ⟨howes, fun items hok => hresult items (TaskResult.connected.inj hok)⟩

omit [DecidableEq κ] in
theorem streamTask_liveAt {items : List Item} {s : StoreState G} {h : LiveHistory μ}
    (hat : StreamAt rising items s h) :
    RunnerTask.LiveAt C rising (streamTask C items) s h :=
  (processStreamWithDispatch_live items hat).bind fun _ _ howes =>
    ⟨howes, fun _ hok => by cases hok⟩

omit [DecidableEq π] [DecidableEq μ] [DecidableEq κ] in
theorem savingTask_silent : (savingTask (G := G)).Only RunnerOp.Silent := by
  refine Future.Only.bind ?_ fun _ => trivial
  unfold saveAllCheckpoints
  induction G.runners with
  | nil => trivial
  | cons r rest ih =>
      refine ⟨trivial, fun _ => Future.Only.bind ?_ fun _ => ⟨trivial, fun _ => ih⟩⟩
      refine ⟨trivial, fun out => ?_⟩
      cases out with
      | error e => trivial
      | ok u => exact ⟨trivial, fun _ => trivial⟩

/-- The live loop runs, and has neither a stream nor a connection under way. -/
def LivePhase.between : LivePhase → Bool
  | head | retryWait | saving _ | reconnectWait => true
  | _ => false

namespace ObservedWorld

/-- `subscribe_all_from` delivers positions from its own on, in increasing order. -/
def Ordered (o : ObservedWorld G κ) : ObservedAction π κ → Prop
  | .act (.poll x (.stream (.ok items))) => ∀ p,
      o.world.op? x = some (.subscribeAllFrom p) → Rising p (itemEvents items)
  | _ => True

/-- The live loop subscribes with a cursor that it has found: if runners are
registered, one of the cursors that it has read is not the largest number. -/
def FindsCursor (o : ObservedWorld G κ) : ObservedAction π κ → Prop
  | .act (.poll x (.stream (.ok _))) => x.ofLoop = true → ∀ p,
      o.world.op? x = some (.subscribeAllFrom p) → G.runners ≠ [] →
        ∃ n ∈ o.history.readings, n < u64Max
  | _ => True

/-- The position after every event that is delivered is a number of 64 bits. -/
def Numbered (_ : ObservedWorld G κ) : ObservedAction π κ → Prop
  | .act (.poll _ (.stream (.ok items))) => ∀ e ∈ itemEvents items, e.globalPosition < u64Max
  | _ => True

variable (C rising) in
/-- What every run keeps: the tasks of the loop owe what its history says. -/
structure Announcing (o : ObservedWorld G κ) : Prop where
  coherent : o.world.Coherent
  handled : ∀ work ∈ o.history.disposed, o.world.store.Handled work
  passed : ∀ m ∈ o.history.published, ∀ r ∈ G.runners, m < o.world.store.cursor r
  silent : ∀ task, o.world.tasks .live = some task → o.world.phase ≠ .connecting →
    task.Only RunnerOp.Silent
  connecting : ∀ task, o.world.tasks .live = some task → o.world.phase = .connecting →
    task.LiveAt C rising o.world.store o.history
  stream : ∀ task, o.world.tasks .stream = some task →
    task.LiveAt C rising o.world.store o.history
  owes : o.world.phase.between = true → o.history.Owes []

variable {o : ObservedWorld G κ}

omit [DecidableEq π] [DecidableEq μ] in
theorem note_disposed {op : RunnerOp π μ} {r : op.Res G} {present : List RecordedEvent}
    {h : LiveHistory μ} {work : Work μ} (hwork : work ∈ (op.note present r h).disposed) :
    work ∈ h.disposed ∨ work ∈ op.disposes r := by
  cases op with
  | dispatch other =>
      cases r with
      | ok u => exact List.mem_append.mp hwork
      | error e => exact Or.inl hwork
  | appendDeadLetter other error => exact List.mem_append.mp hwork
  | subscribeAllFrom p => cases r <;> exact Or.inl hwork
  | _ => exact Or.inl hwork

omit [DecidableEq π] [DecidableEq μ] in
theorem note_published {op : RunnerOp π μ} {r : op.Res G} {present : List RecordedEvent}
    {h : LiveHistory μ} {m : Nat} (hm : m ∈ (op.note present r h).published) :
    m ∈ h.published ∨ op = .sendPosition m := by
  cases op with
  | sendPosition n =>
      rcases List.mem_append.mp hm with hold | hnew
      · exact Or.inl hold
      · exact Or.inr (by rw [List.mem_singleton.mp hnew])
  | dispatch other => cases r <;> exact Or.inl hm
  | subscribeAllFrom p => cases r <;> exact Or.inl hm
  | _ => exact Or.inl hm

omit [DecidableEq π] [DecidableEq μ] in
theorem note_silent {op : RunnerOp π μ} (hsilent : op.Silent) (r : op.Res G)
    (present : List RecordedEvent) (h : LiveHistory μ) : op.note present r h = h := by
  cases op <;> first | rfl | exact hsilent.elim

/-- What a poll that goes through adds to the history. -/
theorem noted_served {x : Waiter κ} {answer : RunnerAnswer} {l : List (Work μ)}
    {op : RunnerOp π μ} {resume : op.Res G → RunnerTask G} {r : op.Res G} {s : StoreState G}
    (htask : o.world.tasks x = some (.await l op resume))
    (hgranted : (op.lockUse.poll x o.world.mutexes).1 = true)
    (hserve : op.serve C answer o.world.store = some (r, s)) :
    o.noted C (.poll x answer) =
      if x.ofLoop then op.note o.present r o.history else o.history := by
  simp only [noted, htask, hgranted, hserve, Bool.and_true]

theorem noted_pending {x : Waiter κ} {answer : RunnerAnswer} {l : List (Work μ)}
    {op : RunnerOp π μ} {resume : op.Res G → RunnerTask G}
    (htask : o.world.tasks x = some (.await l op resume))
    (hpending : (op.lockUse.poll x o.world.mutexes).1 = false) :
    o.noted C (.poll x answer) = o.history := by
  simp [noted, htask, hpending]

omit [DecidableEq κ] in
/-- What a task of the loop is promised when its operation goes through. -/
theorem serves_of_serve {x : Waiter κ} {answer : RunnerAnswer} {l : List (Work μ)}
    {op : RunnerOp π μ} {resume : op.Res G → RunnerTask G} {r : op.Res G} {s : StoreState G}
    (hloop : x.ofLoop = true)
    (hrising : rising → G.runners ≠ [] ∧ o.Ordered (.act (.poll x answer)) ∧
      o.FindsCursor (.act (.poll x answer)))
    (htask : o.world.tasks x = some (.await l op resume))
    (hserve : op.serve C answer o.world.store = some (r, s)) :
    (liveTerms C rising).serves op (o.world.store, o.history) r
      (s, op.note o.present r o.history) := by
  refine ⟨fun h => ?_, ⟨answer, hserve⟩, o.present, rfl⟩
  obtain ⟨hrunners, hordered, hfinds⟩ := hrising h
  have hop : o.world.op? x = some op := by rw [op?, htask]
  cases op with
  | subscribeAllFrom p =>
      rcases answer with _ | ⟨_ | _⟩ | result | _ <;> cases hserve
      cases r with
      | error status => trivial
      | ok items => exact ⟨hfinds hloop p hop hrunners, hordered p hop⟩
  | _ => trivial

omit [DecidableEq κ] in
/-- A poll of a task of the loop that keeps what it owes. -/
theorem Announcing.served (ho : o.Announcing C rising) {l : List (Work μ)} {op : RunnerOp π μ}
    {resume : op.Res G → RunnerTask G} {r : op.Res G} {s : StoreState G}
    (hlive : RunnerTask.LiveAt C rising (.await l op resume) o.world.store o.history)
    (hserves : (liveTerms C rising).serves op (o.world.store, o.history) r
      (s, op.note o.present r o.history)) :
    RunnerTask.LiveAt C rising (resume r) s (op.note o.present r o.history) ∧
      (∀ work ∈ (op.note o.present r o.history).disposed, s.Handled work) ∧
      ∀ m ∈ (op.note o.present r o.history).published, ∀ j ∈ G.runners, m < s.cursor j := by
  obtain ⟨⟨hcursors, hannounces⟩, hrest⟩ :=
    Future.Safe.served hlive ⟨fun _ => Nat.le_refl _, rfl⟩ hserves
  obtain ⟨answer, hserve⟩ := hserves.2.1
  obtain ⟨hgrows, -, hdisposed⟩ := serve_records hserve
  refine ⟨hrest, fun work hwork => ?_, fun m hm j hj => ?_⟩
  · rcases note_disposed hwork with hold | hnew
    · exact hgrows work (ho.handled work hold)
    · exact hdisposed work hnew
  · refine Nat.lt_of_lt_of_le ?_ (hcursors j)
    rcases note_published hm with hold | hnew
    · exact ho.passed m hold j hj
    · subst hnew
      exact hannounces.1 j hj

variable {cfg : LiveConfig}

omit [DecidableEq κ] in
/-- A loop that has not begun, or has just begun, owes nothing. -/
theorem announcing_fresh (hco : o.world.Coherent) (hlive : o.world.tasks .live = none)
    (hstream : o.world.tasks .stream = none) (hhistory : o.history = .empty) :
    o.Announcing C rising where
  coherent := hco
  handled work hwork := by
    rw [hhistory] at hwork
    cases hwork
  passed m hm := by
    rw [hhistory] at hm
    cases hm
  silent task htask := by cases hlive.symm.trans htask
  connecting task htask := by cases hlive.symm.trans htask
  stream task htask := by cases hstream.symm.trans htask
  owes _ work hwork := by
    rw [hhistory] at hwork
    cases hwork

/-- A poll that goes through. -/
theorem announcing_served {o' : ObservedWorld G κ} (ho : o.Announcing C rising)
    (hco : o'.world.Coherent) {x : Waiter κ} {answer : RunnerAnswer}
    (hrising : rising → G.runners ≠ [] ∧ o.Ordered (.act (.poll x answer)) ∧
      o.FindsCursor (.act (.poll x answer)))
    {l : List (Work μ)} {op : RunnerOp π μ} {resume : op.Res G → RunnerTask G}
    (htask : o.world.tasks x = some (.await l op resume)) (hpolls : o.world.polls x = true)
    {r : op.Res G} {s : StoreState G} (hserve : op.serve C answer o.world.store = some (r, s))
    (hstore : o'.world.store = s)
    (htasks : o'.world.tasks = Function.update o.world.tasks x (some (resume r)))
    (hphase : o'.world.phase = o.world.phase)
    (hhistory : o'.history =
      if x.ofLoop then op.note o.present r o.history else o.history) :
    o'.Announcing C rising := by
  have hself : o'.world.tasks x = some (resume r) := by rw [htasks, Function.update_self]
  have hother : ∀ y, y ≠ x → o'.world.tasks y = o.world.tasks y := fun y hy => by
    rw [htasks, Function.update_of_ne hy]
  have hcursors := cursors_serve hserve
  obtain ⟨hgrows, -, -⟩ := serve_records hserve
  subst hstore
  -- an operation that leaves the history alone
  have hquiet : o'.history = o.history →
      (∀ work ∈ o'.history.disposed, o'.world.store.Handled work) ∧
        ∀ m ∈ o'.history.published, ∀ j ∈ G.runners, m < o'.world.store.cursor j := by
    intro hsame
    rw [hsame]
    exact ⟨fun work hwork => hgrows work (ho.handled work hwork),
      fun m hm j hj => Nat.lt_of_lt_of_le (ho.passed m hm j hj) (hcursors j)⟩
  cases x with
  | caller k =>
      have hsame : o'.history = o.history := hhistory
      obtain ⟨hhandled, hpassed⟩ := hquiet hsame
      refine ⟨hco, hhandled, hpassed, ?_, ?_, ?_, ?_⟩
      · rw [hother .live (by simp), hphase]
        exact ho.silent
      · rw [hother .live (by simp), hphase, hsame]
        exact fun task htask hphase => (ho.connecting task htask hphase).mono hcursors
      · rw [hother .stream (by simp), hsame]
        exact fun task htask => (ho.stream task htask).mono hcursors
      · rw [hphase, hsame]
        exact ho.owes
  | stream =>
      have hstreaming := phase_of_polls hpolls
      have hidle : o.world.tasks .live = none := by
        simpa [hstreaming, LivePhase.busy] using ho.coherent.live
      have hserves := serves_of_serve rfl hrising htask hserve
      obtain ⟨hrest, hhandled, hpassed⟩ := ho.served (ho.stream _ htask) hserves
      have hnote : o'.history = op.note o.present r o.history := hhistory
      rw [← hnote] at hrest hhandled hpassed
      refine ⟨hco, hhandled, hpassed, ?_, ?_, ?_, ?_⟩
      · rw [hother .live (by simp), hidle]
        exact fun _ h => by cases h
      · rw [hother .live (by simp), hidle]
        exact fun _ h => by cases h
      · intro task hstream
        exact Option.some.inj (hself.symm.trans hstream) ▸ hrest
      · rw [hphase, hstreaming]
        exact fun h => by cases h
  | live =>
      by_cases hconnecting : o.world.phase = .connecting
      · have hnone : o.world.tasks .stream = none := by
          simpa [hconnecting, LivePhase.streams] using ho.coherent.stream
        have hserves := serves_of_serve rfl hrising htask hserve
        obtain ⟨hrest, hhandled, hpassed⟩ :=
          ho.served (ho.connecting _ htask hconnecting) hserves
        have hnote : o'.history = op.note o.present r o.history := hhistory
        rw [← hnote] at hrest hhandled hpassed
        refine ⟨hco, hhandled, hpassed, ?_, ?_, ?_, ?_⟩
        · exact fun _ _ hne => absurd (hphase.trans hconnecting) hne
        · intro task hlive _
          exact Option.some.inj (hself.symm.trans hlive) ▸ hrest
        · rw [hother .stream (by simp), hnone]
          exact fun _ h => by cases h
        · rw [hphase, hconnecting]
          exact fun h => by cases h
      · obtain ⟨hsilent, hrest⟩ := ho.silent _ htask hconnecting
        have hsame : o'.history = o.history := by
          rw [hhistory]
          exact note_silent hsilent r o.present o.history
        obtain ⟨hhandled, hpassed⟩ := hquiet hsame
        refine ⟨hco, hhandled, hpassed, ?_, ?_, ?_, ?_⟩
        · intro task hlive _
          exact Option.some.inj (hself.symm.trans hlive) ▸ hrest r
        · exact fun _ _ heq => absurd (hphase.symm.trans heq) hconnecting
        · rw [hother .stream (by simp), hsame]
          exact fun task htask => (ho.stream task htask).mono hcursors
        · rw [hphase, hsame]
          exact ho.owes

omit [DecidableEq κ] in
/-- A turn of the loop or of the world around it that polls nothing and reports
nothing. -/
theorem announcing_turn {o' : ObservedWorld G κ} (ho : o.Announcing C rising)
    (hco : o'.world.Coherent) (hstore : o.world.store.SameRunners o'.world.store)
    (hhistory : o'.history = o.history)
    (hlive : ∀ task, o'.world.tasks .live = some task →
      (o'.world.phase ≠ .connecting ∧ task.Only RunnerOp.Silent) ∨
        (o.world.tasks .live = some task ∧ o'.world.phase = o.world.phase))
    (hstream : ∀ task, o'.world.tasks .stream = some task →
      o.world.tasks .stream = some task ∨ task.LiveAt C rising o.world.store o.history)
    (howes : o'.world.phase.between = true → o.history.Owes []) : o'.Announcing C rising := by
  have hcursor : ∀ r, o'.world.store.cursor r = o.world.store.cursor r := fun r => by
    rw [StoreState.cursor, hstore.memory]
    rfl
  have hmono : ∀ r, o.world.store.cursor r ≤ o'.world.store.cursor r := fun r =>
    Nat.le_of_eq (hcursor r).symm
  refine ⟨hco, ?_, ?_, fun task htask hphase => ?_, fun task htask hphase => ?_,
    fun task htask => ?_, hhistory ▸ howes⟩
  · rw [hhistory]
    intro work hwork
    rw [StoreState.Handled, hstore.dispatched, hstore.deadLetterTried]
    exact ho.handled work hwork
  · rw [hhistory]
    exact fun m hm r hr => hcursor r ▸ ho.passed m hm r hr
  · rcases hlive task htask with ⟨-, hsilent⟩ | ⟨hold, hsame⟩
    · exact hsilent
    · exact ho.silent task hold (hsame ▸ hphase)
  · rcases hlive task htask with ⟨hne, -⟩ | ⟨hold, hsame⟩
    · exact absurd hphase hne
    · rw [hhistory]
      exact (ho.connecting task hold (hsame ▸ hphase)).mono hmono
  · rw [hhistory]
    rcases hstream task htask with hold | hnew
    · exact (ho.stream task hold).mono hmono
    · exact hnew.mono hmono

omit [DecidableEq π] [DecidableEq μ] in
/-- The task of a loop that has just gone to save. -/
theorem silent_of_saving (tasks : Waiter κ → Option (RunnerTask G)) {task : RunnerTask G}
    (htask : Function.update tasks .live (some savingTask) .live = some task) :
    task.Only RunnerOp.Silent := by
  rw [Function.update_self] at htask
  exact Option.some.inj htask ▸ savingTask_silent

/-- One step keeps what the live loop owes. -/
theorem announcing_step {o' : ObservedWorld G κ} (ho : o.Announcing C rising)
    {a : ObservedAction π κ}
    (hrising : rising → G.runners ≠ [] ∧ o.Ordered a ∧ o.FindsCursor a)
    (hstep : o.step C cfg a = some o') : o'.Announcing C rising := by
  cases a with
  | append recorded =>
      cases hstep
      exact ⟨ho.coherent, ho.handled, ho.passed, ho.silent, ho.connecting, ho.stream, ho.owes⟩
  | act a =>
      obtain ⟨w', hw, rfl⟩ := Option.map_eq_some_iff.mp hstep
      have hco := coherent_step ho.coherent hw
      -- the loop goes to save
      have hsaving : ∀ {phase : LivePhase}, phase ≠ .connecting →
          (phase.between = true → o.history.Owes []) → (o.world.startSaving phase).Coherent →
          Announcing C rising { o with world := o.world.startSaving phase } := by
        intro phase hphase howes hco
        exact announcing_turn ho hco (.refl _) rfl
          (fun task htask => Or.inl ⟨hphase, silent_of_saving o.world.tasks htask⟩)
          (fun task htask => Or.inl (by simpa [startSaving, setTask] using htask)) howes
      -- it goes on without a future of its own
      have hidle : ∀ {phase phase' : LivePhase} {delay : Duration}, o.world.phase = phase →
          phase.busy = false → (phase'.between = true → phase.between = true) →
          ({ o.world with phase := phase', backoffDelay := delay } : LiveWorld G κ).Coherent →
          Announcing C rising
            { o with world := { o.world with phase := phase', backoffDelay := delay } } := by
        intro phase phase' delay hphase hbusy hbetween hco
        have hnone : o.world.tasks .live = none := by
          simpa [hphase, hbusy] using ho.coherent.live
        exact announcing_turn ho hco (.refl _) rfl
          (fun task htask => by cases hnone.symm.trans htask)
          (fun task htask => Or.inl htask) fun h => ho.owes (by rw [hphase]; exact hbetween h)
      have hhead : o.world.phase = .head → o.world.tasks .stream = none := by
        intro hphase
        simpa [hphase, LivePhase.streams] using ho.coherent.stream
      cases turn_of_step hw with
      | polled hpolled =>
          cases hpolled with
          | pending htask _ hpending hnext =>
              subst hnext
              rw [noted_pending htask hpending]
              exact ⟨hco, ho.handled, ho.passed, ho.silent, ho.connecting, ho.stream, ho.owes⟩
          | served htask hpolls hgranted hserve hnext =>
              subst hnext
              exact announcing_served ho hco hrising htask hpolls hserve rfl rfl rfl
                (noted_served htask hgranted hserve)
      | crashed => exact announcing_fresh hco rfl rfl rfl
      | started hoff =>
          have hphase := ho.coherent.started hoff
          have hnone : o.world.tasks .live = none := by
            simpa [hphase, LivePhase.busy] using ho.coherent.live
          have hnone' : o.world.tasks .stream = none := by
            simpa [hphase, LivePhase.streams] using ho.coherent.stream
          exact announcing_fresh hco hnone hnone' rfl
      | stops hphase =>
          refine ⟨hco, ho.handled, ho.passed, fun task htask _ => ?_, fun _ _ h => (by cases h),
            fun task htask => ?_, fun _ => ho.owes (by rw [hphase]; rfl)⟩
          · exact silent_of_saving o.world.tasks htask
          · simp [startSaving, setTask, hhead hphase] at htask
      | connects hphase =>
          refine ⟨hco, ho.handled, ho.passed, fun _ _ hne => absurd rfl hne,
            fun task htask _ => ?_, fun task htask => ?_, fun h => (by cases h)⟩
          · have hconnect : task = connectTask := by simpa [setTask] using htask.symm
            rw [hconnect]
            exact connectTask_liveAt rfl ho.passed (ho.owes (by rw [hphase]; rfl))
          · simp [setTask, hhead hphase] at htask
      | @connected items dropped hphase hlive =>
          obtain ⟨howes, hat⟩ := ho.connecting _ hlive hphase
          refine announcing_turn ho hco (.refl _) rfl (fun task htask => ?_)
            (fun task htask => ?_) fun h => by cases h
          · simp [setTask] at htask
          · have htask : task = streamTask C items := by simpa [setTask] using htask.symm
            exact Or.inr (htask ▸ streamTask_liveAt (hat items rfl))
      | refused hphase hlive =>
          obtain ⟨howes, -⟩ := ho.connecting _ hlive hphase
          refine announcing_turn ho hco (.refl _) rfl (fun task htask => ?_)
            (fun task htask => ?_) fun _ => howes
          · simp [setTask] at htask
          · exact Or.inl (by simpa [setTask] using htask)
      | ticked _ _ =>
          refine announcing_turn ho hco (.refl _) rfl (fun task htask => ?_)
            (fun task htask => ?_) fun h => by cases h
          · simp [setTask] at htask
          · exact Or.inl (by simpa [setTask] using htask)
      | shutDown _ _ =>
          refine announcing_turn ho hco (.refl _) rfl (fun task htask => ?_)
            (fun task htask => ?_) fun h => by cases h
          · simp [drop, setTask] at htask
          · simp [drop, setTask] at htask
      | @saved next dropped hphase _ =>
          refine announcing_turn ho hco ?_ rfl (fun task htask => ?_) (fun task htask => ?_)
            fun _ => ho.owes (by rw [hphase]; rfl)
          · cases next <;> exact .refl _
          · cases next <;> simp [afterSave, setTask] at htask
          · exact Or.inl (by cases next <;> simpa [afterSave, setTask] using htask)
      | ended hphase hstream =>
          obtain ⟨howes, -⟩ := ho.stream _ hstream
          refine announcing_turn ho hco (.refl _) rfl
            (fun task htask => Or.inl ⟨fun h => (by cases h),
              silent_of_saving (Function.update o.world.tasks .stream none) htask⟩)
            (fun task htask => ?_) fun _ => howes
          simp [startSaving, setTask] at htask
      | answered _ =>
          exact announcing_turn ho hco (.refl _) rfl
            (fun task htask => Or.inr ⟨by simpa [setTask] using htask, rfl⟩)
            (fun task htask => Or.inl (by simpa [setTask] using htask)) ho.owes
      | ticks _ _ => exact hsaving (fun h => by cases h) (fun h => by cases h) hco
      | stopsStream _ _ => exact hsaving (fun h => by cases h) (fun h => by cases h) hco
      | stopsRetry hphase =>
          exact hsaving (fun h => by cases h) (fun _ => ho.owes (by rw [hphase]; rfl)) hco
      | stopsReconnect hphase => exact hidle hphase rfl (fun h => by cases h) hco
      | waited hphase _ =>
          rcases hphase with hphase | hphase
          · exact hidle hphase rfl id hco
          · exact hidle hphase rfl id hco
      | overflows hphase _ =>
          rcases hphase with hphase | hphase
          · exact hidle hphase rfl (fun h => by cases h) hco
          · exact hidle hphase rfl (fun h => by cases h) hco
      | signalled =>
          exact announcing_turn ho hco (.refl _) rfl (fun task htask => Or.inr ⟨htask, rfl⟩)
            (fun task htask => Or.inl htask) ho.owes
      | called _ =>
          exact announcing_turn ho hco (.refl _) rfl
            (fun task htask => Or.inr ⟨by simpa [setTask] using htask, rfl⟩)
            (fun task htask => Or.inl (by simpa [setTask] using htask)) ho.owes
      | cancelled =>
          exact announcing_turn ho hco (.refl _) rfl
            (fun task htask => Or.inr ⟨by simpa [drop, setTask] using htask, rfl⟩)
            (fun task htask => Or.inl (by simpa [drop, setTask] using htask)) ho.owes

omit [DecidableEq κ] in
theorem announcing_start {w : LiveWorld G κ} (hidle : w.Idle) (present : List RecordedEvent) :
    (start w present).Announcing C rising :=
  announcing_fresh hidle.coherent (hidle.tasks _) (hidle.tasks _) rfl

omit [DecidableEq κ] in
/-- An announcement of the loop finds everything in place. -/
theorem Announcing.announces (ho : o.Announcing C rising) {x : Waiter κ}
    (hloop : x.ofLoop = true) {l : List (Work μ)} {op : RunnerOp π μ}
    {resume : op.Res G → RunnerTask G}
    (htask : o.world.tasks x = some (.await l op resume)) (hop : ¬ op.Silent)
    (hserves : ∃ r y, (liveTerms C rising).serves op (o.world.store, o.history) r y) :
    op.Announces rising o.world.store o.history := by
  obtain ⟨r, y, hserves⟩ := hserves
  have hlive : RunnerTask.LiveAt C rising (.await l op resume) o.world.store o.history := by
    cases x with
    | caller k => cases hloop
    | stream => exact ho.stream _ htask
    | live =>
        by_cases hphase : o.world.phase = .connecting
        · exact ho.connecting _ htask hphase
        · exact absurd (ho.silent _ htask hphase).1 hop
  exact (Future.Safe.served hlive ⟨fun _ => Nat.le_refl _, rfl⟩ hserves).1.2

/-- In every run in which each delivered position has a successor and the loop finds
a cursor whenever it subscribes: when it publishes a position, every registered
runner is past it, every envelope that it has obtained up to there has been
dispatched or its dead letter attempted, and it has published nothing higher. -/
theorem position_channel_sound {w₀ : LiveWorld G κ} (hidle : w₀.Idle)
    {present : List RecordedEvent} {o' : ObservedWorld G κ}
    (hreach : Reaches (step C cfg) (fun o a => o.Ordered a ∧ o.Numbered a ∧ o.FindsCursor a)
      (start w₀ present) o) {x : Waiter κ} (hloop : x.ofLoop = true) {n : Nat}
    (hop : o.world.op? x = some (.sendPosition n)) (answer : RunnerAnswer)
    (hstep : o.step C cfg (.act (.poll x answer)) = some o') :
    (∀ r ∈ G.runners, n < o'.world.store.cursor r) ∧
      (∀ work ∈ o'.history.obtained, work.emission.position ≤ n →
        work ∈ o'.world.store.dispatched ∨ work ∈ o'.world.store.deadLetterTried) ∧
      (G.runners ≠ [] → ∀ m ∈ o.history.published, m ≤ n) := by
  have ho : o.Announcing C (G.runners ≠ []) :=
    hreach.invariant (announcing_start hidle present) fun _ _ _ ho hok hstep =>
      announcing_step ho (fun hrunners => ⟨hrunners, hok.1, hok.2.2⟩) hstep
  obtain ⟨w', hw, rfl⟩ := Option.map_eq_some_iff.mp hstep
  cases polled_of_pollTask hw with
  | @pending l op resume htask _ hpending _ =>
      have heq : op = .sendPosition n := by simpa [op?, htask] using hop
      subst heq
      cases hpending
  | @served l op resume r s htask _ hgranted hserve hnext =>
      have heq : op = .sendPosition n := by simpa [op?, htask] using hop
      subst heq
      have hserves : (liveTerms C (G.runners ≠ [])).serves (.sendPosition n)
          (o.world.store, o.history) r (s, (RunnerOp.sendPosition n).note o.present r o.history) :=
        ⟨fun _ => trivial, ⟨answer, hserve⟩, o.present, rfl⟩
      obtain ⟨hpast, howes, hnew⟩ := ho.announces hloop htask id ⟨r, _, hserves⟩
      obtain ⟨hgrows, -, -⟩ := serve_records hserve
      rw [noted_served htask hgranted hserve, if_pos hloop]
      subst hnext
      refine ⟨fun r hr => Nat.lt_of_lt_of_le (hpast r hr) (cursors_serve hserve r),
        fun work hwork _ => ?_, fun hrunners m hm => Nat.le_of_lt (hnew hrunners m hm)⟩
      have hdisposed := (howes work hwork).resolve_right List.not_mem_nil
      exact hgrows work (ho.handled work hdisposed)

end ObservedWorld

namespace LiveWitness

open ObservedWorld RunnerAnswer

/-- `Ordered`, evaluated. -/
def ordered {G : Registry Unit Manager} (o : ObservedWorld G Unit) :
    ObservedAction Unit Unit → Bool
  | .act (.poll x (.stream (.ok items))) => match o.world.op? x with
    | some (.subscribeAllFrom p) => decide (Rising p (itemEvents items))
    | _ => true
  | _ => true

theorem ordered_sound {G : Registry Unit Manager} (o : ObservedWorld G Unit)
    (a : ObservedAction Unit Unit) (hcheck : ordered o a = true) : o.Ordered a := by
  unfold Ordered
  split
  · intro p hop
    simpa only [ordered, hop, decide_eq_true_eq] using hcheck
  · trivial

/-- `Numbered`, evaluated. -/
def numbered {G : Registry Unit Manager} (_ : ObservedWorld G Unit) :
    ObservedAction Unit Unit → Bool
  | .act (.poll _ (.stream (.ok items))) =>
      (itemEvents items).all fun e => decide (e.globalPosition < u64Max)
  | _ => true

theorem numbered_sound {G : Registry Unit Manager} (o : ObservedWorld G Unit)
    (a : ObservedAction Unit Unit) (hcheck : numbered o a = true) : o.Numbered a := by
  unfold Numbered
  split
  · simpa only [numbered, List.all_eq_true, decide_eq_true_eq] using hcheck
  · trivial

/-- `FindsCursor`, evaluated, if every stream that is opened is the live loop's. -/
def findsCursor {G : Registry Unit Manager} (o : ObservedWorld G Unit) :
    ObservedAction Unit Unit → Bool
  | .act (.poll _ (.stream (.ok _))) => o.history.readings.any fun n => decide (n < u64Max)
  | _ => true

theorem findsCursor_sound {G : Registry Unit Manager} (o : ObservedWorld G Unit)
    (a : ObservedAction Unit Unit) (hcheck : findsCursor o a = true) : o.FindsCursor a := by
  unfold FindsCursor
  split
  · intro _ _ _ _
    simpa only [findsCursor, List.any_eq_true, decide_eq_true_eq] using hcheck
  · trivial

def acts (actions : List (LiveAction Unit Unit)) : List (ObservedAction Unit Unit) :=
  actions.map .act

/-- The live loop connects over the projection and billing, its stream delivers the
order, and the invoice that billing asks for is dispatched. -/
def announcing : List (LiveAction Unit Unit) :=
  [.startLive, .loopHead] ++
    polls .live [done, done, done, done, done, done, delivery] ++ [.settle .live] ++
    polls .stream [done, done, done, done, done, done, done, ok]

theorem position_channel_sound_announcing :
    ∃ o o' : ObservedWorld (shop [()] [.billing]) Unit,
      runActions (ObservedWorld.step crates delays) (start (opened _) orderLog)
        (acts announcing) = some o ∧
      o.step crates delays (.act (.poll .stream (.receivers true))) = some o' ∧
      (∀ r ∈ (shop [()] [.billing]).runners, 0 < o'.world.store.cursor r) ∧
      (∀ work ∈ o'.history.obtained, work.emission.position ≤ 0 →
        work ∈ o'.world.store.dispatched ∨ work ∈ o'.world.store.deadLetterTried) ∧
      ((shop [()] [.billing]).runners ≠ [] → ∀ m ∈ o.history.published, m ≤ 0) := by
  refine ⟨_, _, rfl, rfl, ?_⟩
  have hreach : Reaches (ObservedWorld.step crates delays)
      (fun o a => o.Ordered a ∧ o.Numbered a ∧ o.FindsCursor a)
      (start (opened (shop [()] [.billing])) orderLog) _ :=
    .run .start (acts announcing) (.and (allOk_of_checks ordered_sound rfl)
      (.and (allOk_of_checks numbered_sound rfl) (allOk_of_checks findsCursor_sound rfl))) rfl
  exact position_channel_sound (opened_idle _) hreach (x := .stream) rfl rfl
    (.receivers true) rfl

/-- The last order whose successor is a position. -/
def lastPlaced : RecordedEvent := { placed with globalPosition := u64Max - 1 }

/-- The live loop reads two orders, the stream ends, and it connects again. -/
def reconnecting : List (LiveAction Unit Unit) :=
  [.startLive, .loopHead] ++
    polls .live [done, done, done,
      .stream (.ok [.ok (.event placed), .ok (.event lastPlaced)])] ++ [.settle .live] ++
    polls .stream [done, done, done, done, .receivers true,
      done, done, done, done, .receivers true, done] ++ [.settle .stream] ++
    polls .live [done, ok, ok, done] ++ [.settle .live, .loopHead] ++
    polls .live [done, done, done, .stream (.ok [.ok (.event placed)])] ++ [.settle .live] ++
    polls .stream [done, done, done, done]

/-- The cursor of the only runner is the largest number, which the live loop takes
for "nothing is registered": it subscribes from 0, and publishes 0 after the
position of the last order. -/
theorem published_position_decreases :
    ∃ o o' : ObservedWorld (shop [()] []) Unit,
      Reaches (ObservedWorld.step crates delays) (fun o a => o.Ordered a ∧ o.Numbered a)
        (start (opened _) [placed, lastPlaced]) o ∧
      o.world.op? .stream = some (.sendPosition 0) ∧
      o.step crates delays (.act (.poll .stream (.receivers true))) = some o' ∧
      (shop [()] []).runners ≠ [] ∧ u64Max - 1 ∈ o.history.published := by
  refine ⟨_, _, .run .start (acts reconnecting) (.and (allOk_of_checks ordered_sound rfl)
    (allOk_of_checks numbered_sound rfl)) rfl, rfl, rfl, ?_, ?_⟩
  · exact List.cons_ne_nil _ _
  · exact List.mem_cons_of_mem _ List.mem_cons_self

end LiveWitness

end EventfoldEs
