/-
What being caught up means: when the live loop says so, no registered runner is
missing an event that the log had when its stream was opened, and whoever asks for
a live projection from then on is given a state that reflects them all.
-/
import EventfoldEs.LivePositions

namespace EventfoldEs

open Async OrderedLog LiveWorld

variable {C : Crates} {π μ κ : Type} {G : Registry π μ}
variable [DecidableEq π] [DecidableEq μ] [DecidableEq κ] {log : List RecordedEvent}

variable (C log) in
/-- The state is the fold of the log up to some cursor, past all that was seen. -/
def Reflects (seen : List RecordedEvent) (r : π ⊕ μ) (state : (G.runner r).State) : Prop :=
  ∃ cursor, (G.runner r).Consistent C log ⟨state, cursor⟩ ∧
    ∀ e ∈ seen, e ∈ below RecordedEvent.globalPosition log cursor

namespace ObservedWorld

variable {o : ObservedWorld G κ} {cfg : LiveConfig}

/-- The log of the server only grows, a stream delivers what it has, in order, and
all that it had at the subscription before `CaughtUp`. -/
def Delivers (log : List RecordedEvent) (o : ObservedWorld G κ) : ObservedAction π κ → Prop
  | .append recorded => o.present ++ [recorded] <+: log
  | .act a => o.world.Streams log a ∧ ∀ x items p, a = .poll x (.stream (.ok items)) →
      o.world.op? x = some (.subscribeAllFrom p) → streamStop items = .caughtUp →
        ∀ e ∈ o.present, p ≤ e.globalPosition → e ∈ (passRead items).1

/-- A step opens a stream for the live loop, starts a new history, or leaves the
stream as it is. -/
theorem noted_opening (o : ObservedWorld G κ) (a : LiveAction π κ) :
    ((o.noted C a).items = o.history.items ∧ (o.noted C a).opened = o.history.opened ∧
        (o.noted C a).fromPosition = o.history.fromPosition) ∨
      o.noted C a = .empty ∨
      ∃ x items p, a = .poll x (.stream (.ok items)) ∧
        o.world.op? x = some (.subscribeAllFrom p) ∧
        o.noted C a = { o.history with fromPosition := p, items, opened := o.present } := by
  cases a with
  | startLive => exact Or.inr (Or.inl rfl)
  | crash => exact Or.inr (Or.inl rfl)
  | poll x answer =>
      simp only [noted]
      split
      · rename_i l op resume htask
        split
        · split
          · rename_i r s hserve
            cases op with
            | subscribeAllFrom p =>
                rcases answer with _ | ⟨_ | _⟩ | result | _ <;> cases hserve
                cases r with
                | error status => exact Or.inl ⟨rfl, rfl, rfl⟩
                | ok items =>
                    exact Or.inr (Or.inr ⟨x, items, p, rfl, by rw [op?, htask], rfl⟩)
            | dispatch work => cases r <;> exact Or.inl ⟨rfl, rfl, rfl⟩
            | _ => exact Or.inl ⟨rfl, rfl, rfl⟩
          · exact Or.inl ⟨rfl, rfl, rfl⟩
        · exact Or.inl ⟨rfl, rfl, rfl⟩
      · exact Or.inl ⟨rfl, rfl, rfl⟩
  | _ => exact Or.inl ⟨rfl, rfl, rfl⟩

variable (C log) in
/-- What every run keeps: what the stream of the live loop has to deliver before
`CaughtUp` covers the log that it was opened on. -/
structure Covering (o : ObservedWorld G κ) : Prop where
  announcing : o.Announcing C False
  folds : o.world.Folds C log
  present : o.present <+: log
  opened : o.history.opened <+: o.present
  covered : streamStop o.history.items = .caughtUp → ∀ e ∈ o.history.opened,
    e.globalPosition < o.history.fromPosition ∨ e ∈ (passRead o.history.items).1

theorem covering_step (hlog : Increasing RecordedEvent.globalPosition log)
    {o' : ObservedWorld G κ} (ho : o.Covering C log) {a : ObservedAction π κ}
    (hdelivers : o.Delivers log a) (hstep : o.step C cfg a = some o') :
    o'.Covering C log := by
  have hannouncing := announcing_step ho.announcing nofun hstep
  cases a with
  | append recorded =>
      cases hstep
      exact ⟨hannouncing, ho.folds, hdelivers,
        ho.opened.trans (List.prefix_append _ _), ho.covered⟩
  | act a =>
      obtain ⟨w', hw, rfl⟩ := Option.map_eq_some_iff.mp hstep
      refine ⟨hannouncing, folds_step hlog ho.folds hdelivers.1 hw, ho.present, ?_, ?_⟩
      · rcases noted_opening (C := C) o a with ⟨-, hopened, -⟩ | hempty | ⟨x, items, p, -, -, hnew⟩
        · exact hopened ▸ ho.opened
        · have hnil : (o.noted C a).opened = [] := by rw [hempty, LiveHistory.empty]
          exact hnil ▸ List.nil_prefix
        · have hopened : (o.noted C a).opened = o.present := by rw [hnew]
          exact hopened ▸ List.prefix_refl _
      · rcases noted_opening (C := C) o a with
          ⟨hitems, hopened, hfrom⟩ | hempty | ⟨x, items, p, rfl, hop, hnew⟩
        · rw [hitems, hopened, hfrom]
          exact ho.covered
        · rw [hempty]
          exact fun _ => nofun
        · rw [hnew]
          intro hstop e he
          rcases Nat.lt_or_ge e.globalPosition p with hbehind | hfrom
          · exact Or.inl hbehind
          · exact Or.inr (hdelivers.2 x items p rfl hop hstop e he hfrom)

omit [DecidableEq κ] in
theorem covering_start {w : LiveWorld G κ} (hidle : w.Idle)
    (hstart : w.store.Consistent C log) {present : List RecordedEvent}
    (hpresent : present <+: log) : (start w present).Covering C log where
  announcing := announcing_start hidle present
  folds := hidle.folds hstart
  present := hpresent
  opened := List.nil_prefix
  covered _ := nofun

omit [DecidableEq κ] in
/-- When the live loop says that it has caught up, every registered runner is past
what the log held when its stream was opened. -/
theorem Covering.caughtUp (ho : o.Covering C log) {x : Waiter κ} (hloop : x.ofLoop = true)
    {l : List (Work μ)} {resume : Unit → RunnerTask G}
    (htask : o.world.tasks x = some (.await l .storeCaughtUp resume)) :
    ∀ r ∈ G.runners, ∀ e ∈ o.history.opened, e.globalPosition < o.world.store.cursor r := by
  have hserves : (liveTerms C False).serves .storeCaughtUp (o.world.store, o.history) ()
      ({ o.world.store with caughtUp := true }, o.history) :=
    ⟨False.elim, ⟨.done, rfl⟩, o.present, rfl⟩
  obtain ⟨hstop, hall⟩ := ho.announcing.announces hloop htask id ⟨(), _, hserves⟩
  intro r hr e he
  obtain ⟨hbehind, hread⟩ := hall r hr
  rcases ho.covered hstop e he with hbefore | hdelivered
  · exact Nat.lt_of_lt_of_le hbefore hbehind
  · exact hread e hdelivered

section Reads

variable (C log) in
/-- The terms on which a live projection is read: cursors move on, checkpoints stay
folds, and live mode is not left. -/
def readTerms :
    Terms (List (Work μ)) (RunnerOp π μ) (RunnerOp.Res G) (StoreState G) where
  rely s t := (∀ r, s.cursor r ≤ t.cursor r) ∧ t.Consistent C log ∧
    (s.liveHandle = true → t.liveHandle = true)
  serves op s r t := ∃ answer, op.serve C answer s = some (r, t)
  guarantee _ _ _ _ := True
  during _ _ := True
  rely_trans hst htv := ⟨fun r => Nat.le_trans (hst.1 r) (htv.1 r), htv.2.1,
    fun h => htv.2.2 (hst.2.2 h)⟩
  during_stable _ _ := trivial

variable (C log) in
/-- The task of a live projection that is to reflect what was seen. -/
def ReadsSeen (seen : List RecordedEvent) (p : π) (task : RunnerTask G) (s : StoreState G) :
    Prop :=
  task.Safe (readTerms C log) (fun out _ => ∀ result, out.1 = .projection p result →
    ∃ state, result = .ok state ∧ Reflects C log seen (.inl p) state) s

omit [DecidableEq κ] in
/-- In live mode a registered projection is read as it is, and that is past all that
was seen. -/
theorem liveProjection_reads {seen : List RecordedEvent} (hseen : ∀ e ∈ seen, e ∈ log) {p : π}
    (hp : p ∈ G.projections) {s : StoreState G} (hhandle : s.liveHandle = true)
    (hpast : ∀ e ∈ seen, e.globalPosition < s.cursor (.inl p)) :
    ReadsSeen C log seen p ((Call.liveProjection p).task C) s := by
  refine ⟨trivial, fun s₁ h₁ isSome t₁ ⟨answer, hserve⟩ => ⟨trivial, ?_⟩⟩
  have hsome : isSome = true ∧ t₁ = s₁ := by
    rcases answer with _ | ⟨_ | _⟩ | _ | _ <;> cases hserve
    exact ⟨h₁.2.2 hhandle, rfl⟩
  obtain ⟨rfl, rfl⟩ := hsome
  simp only [if_true, if_pos hp]
  refine ⟨trivial, fun s₂ h₂ u t₂ ⟨answer, hserve⟩ => ⟨trivial, ?_⟩⟩
  have hlock : t₂ = s₂ := by
    rcases answer with _ | ⟨_ | _⟩ | _ | _ <;> cases hserve
    rfl
  subst hlock
  refine ⟨trivial, fun s₃ h₃ state t₃ ⟨answer, hserve⟩ => ⟨trivial, ?_⟩⟩
  have hstate : state = (s₃.memory (.inl p)).state := by
    rcases answer with _ | ⟨_ | _⟩ | _ | _ <;> cases hserve
    rfl
  refine ⟨trivial, fun _ _ _ _ _ => ⟨trivial, fun result heq => ?_⟩⟩
  cases heq
  refine ⟨state, rfl, s₃.cursor (.inl p), hstate ▸ h₃.2.1.memory (.inl p), fun e he => ?_⟩
  have hmono : s.cursor (.inl p) ≤ s₃.cursor (.inl p) :=
    Nat.le_trans (h₁.1 _) (Nat.le_trans (h₂.1 _) (h₃.1 _))
  exact List.mem_filter.mpr
    ⟨hseen e he, decide_eq_true (Nat.lt_of_lt_of_le (hpast e he) hmono)⟩

/-- Live mode is not left while the process lives. -/
theorem liveHandle_step {w w' : LiveWorld G κ} {a : LiveAction π κ}
    (hstep : w.step C cfg a = some w') (hcrash : a ≠ .crash)
    (hhandle : w.store.liveHandle = true) : w'.store.liveHandle = true := by
  cases turn_of_step hstep with
  | polled hpolled =>
      cases hpolled with
      | pending _ _ _ hnext => exact hnext ▸ hhandle
      | served _ _ _ hserve hnext => exact hnext ▸ (liveHandle_serve hserve).trans hhandle
  | started _ => rfl
  | crashed => exact absurd rfl hcrash
  | @saved next _ _ _ => cases next <;> exact hhandle
  | _ => exact hhandle

/-- Without a crash cursors only move on. -/
theorem cursors_step {w w' : LiveWorld G κ} (hco : w.Coherent) {a : LiveAction π κ}
    (hstep : w.step C cfg a = some w') (hcrash : a ≠ .crash) (r : π ⊕ μ) :
    w.store.cursor r ≤ w'.store.cursor r := by
  cases stepped_of_step hco hstep with
  | polled _ hpolled =>
      cases hpolled with
      | pending _ _ _ hnext => exact hnext ▸ Nat.le_refl _
      | served _ _ _ hserve hnext => exact hnext ▸ cursors_serve hserve r
  | shifted hshifts =>
      unfold StoreState.cursor
      exact Nat.le_of_eq (by rw [hshifts.store.memory])
  | crashed hcrashes _ => exact absurd hcrashes hcrash

/-- The task of a caller is polled, goes, or comes by a call. -/
theorem caller_step {w w' : LiveWorld G κ} {a : LiveAction π κ}
    (hstep : w.step C cfg a = some w') (hpoll : ∀ x answer, a ≠ .poll x answer) {k : κ}
    {task : RunnerTask G} (htask : w'.tasks (.caller k) = some task)
    (hcall : ∀ c, a ≠ .call k c) : w.tasks (.caller k) = some task := by
  cases turn_of_step hstep with
  | polled _ => exact absurd rfl (hpoll _ _)
  | crashed => cases htask
  | @called j c _ =>
      have hne : k ≠ j := by
        rintro rfl
        exact hcall c rfl
      simpa [setTask, hne] using htask
  | @cancelled j =>
      by_cases hkj : k = j
      · simp [drop, setTask, hkj] at htask
      · simpa [drop, setTask, hkj] using htask
  | @answered j _ _ =>
      by_cases hkj : k = j
      · simp [setTask, hkj] at htask
      · simpa [setTask, hkj] using htask
  | shutDown _ _ => simpa [drop, setTask] using htask
  | @saved next _ _ _ => cases next <;> simpa [afterSave, setTask] using htask
  | _ => simpa [startSaving, setTask] using htask

variable (C log) in
/-- Live mode is on, and every registered runner is past what was seen. -/
structure Aware (seen : List RecordedEvent) (o : ObservedWorld G κ) : Prop where
  covering : o.Covering C log
  handle : o.world.store.liveHandle = true
  past : ∀ r ∈ G.runners, ∀ e ∈ seen, e.globalPosition < o.world.store.cursor r

theorem aware_step (hlog : Increasing RecordedEvent.globalPosition log)
    {seen : List RecordedEvent} {o' : ObservedWorld G κ} (ho : o.Aware C log seen)
    {a : ObservedAction π κ} (hdelivers : o.Delivers log a) (hcrash : a ≠ .act .crash)
    (hstep : o.step C cfg a = some o') : o'.Aware C log seen := by
  have hcovering := covering_step hlog ho.covering hdelivers hstep
  cases a with
  | append recorded =>
      cases hstep
      exact ⟨hcovering, ho.handle, ho.past⟩
  | act a =>
      have hlives : a ≠ .crash := fun h => hcrash (by rw [h])
      obtain ⟨w', hw, rfl⟩ := Option.map_eq_some_iff.mp hstep
      exact ⟨hcovering, liveHandle_step hw hlives ho.handle, fun r hr e he =>
        Nat.lt_of_lt_of_le (ho.past r hr e he)
          (cursors_step ho.covering.folds.coherent hw hlives r)⟩

/-- A live projection that is being read stays one that reflects what was seen. -/
theorem reads_step (hlog : Increasing RecordedEvent.globalPosition log)
    {seen : List RecordedEvent} {p : π} {k : κ} {o' : ObservedWorld G κ}
    (ho : o.Aware C log seen)
    (hreads : ∀ task, o.world.tasks (.caller k) = some task →
      ReadsSeen C log seen p task o.world.store)
    {a : ObservedAction π κ} (hdelivers : o.Delivers log a) (hcrash : a ≠ .act .crash)
    (hcall : ∀ c, a ≠ .act (.call k c)) (hstep : o.step C cfg a = some o') :
    ∀ task, o'.world.tasks (.caller k) = some task →
      ReadsSeen C log seen p task o'.world.store := by
  have ho' := aware_step hlog ho hdelivers hcrash hstep
  cases a with
  | append recorded =>
      cases hstep
      exact hreads
  | act a =>
      have hlives : a ≠ .crash := fun h => hcrash (by rw [h])
      obtain ⟨w', hw, rfl⟩ := Option.map_eq_some_iff.mp hstep
      have hrely : (readTerms C log).rely o.world.store w'.store :=
        ⟨cursors_step ho.covering.folds.coherent hw hlives, ho'.covering.folds.store,
          fun _ => ho'.handle⟩
      have hstable : ∀ task, o.world.tasks (.caller k) = some task →
          ReadsSeen C log seen p task w'.store := fun task htask =>
        Future.Safe.stable (fun _ _ _ hout _ => hout) (hreads task htask) hrely
      intro task htask
      by_cases hpoll : ∃ x answer, a = .poll x answer
      · obtain ⟨x, answer, rfl⟩ := hpoll
        cases polled_of_pollTask hw with
        | pending _ _ _ hnext =>
            subst hnext
            exact hstable task htask
        | served hpolled _ _ hserve hnext =>
            subst hnext
            rcases task_of_update htask with ⟨rfl, rfl⟩ | ⟨-, hold⟩
            · have hrefl : (readTerms C log).rely o.world.store o.world.store :=
                ⟨fun _ => Nat.le_refl _, ho.covering.folds.store, id⟩
              exact (Future.Safe.served (hreads _ hpolled) hrefl ⟨answer, hserve⟩).2
            · exact hstable task hold
      · exact hstable task (caller_step hw (fun x answer h => hpoll ⟨x, answer, h⟩) htask
          fun c h => hcall c (by rw [h]))

theorem called_task {o' : ObservedWorld G κ} {k : κ} {c : Call π}
    (hcall : o.step C cfg (.act (.call k c)) = some o') :
    o'.world.tasks (.caller k) = some (c.task C) := by
  obtain ⟨w', hw, rfl⟩ := Option.map_eq_some_iff.mp hcall
  simp only [LiveWorld.step] at hw
  split at hw <;> simp only [Option.some.injEq, reduceCtorEq] at hw
  subst hw
  exact Function.update_self ..

/-- Until the next call of `k`, what its live projection gives reflects what was
seen. -/
theorem reads_of_reaches (hlog : Increasing RecordedEvent.globalPosition log)
    {seen : List RecordedEvent} (hseen : ∀ e ∈ seen, e ∈ log) {p : π} (hp : p ∈ G.projections)
    {k : κ} {o' : ObservedWorld G κ} (ho : o.Aware C log seen)
    (htask : o.world.tasks (.caller k) = some ((Call.liveProjection p).task C))
    (hreach : Reaches (step C cfg) (fun o a => o.Delivers log a ∧ a ≠ .act .crash ∧
      ∀ c, a ≠ .act (.call k c)) o o') :
    ∀ task, o'.world.tasks (.caller k) = some task →
      ReadsSeen C log seen p task o'.world.store := by
  have hreads : o'.Aware C log seen ∧ ∀ task, o'.world.tasks (.caller k) = some task →
      ReadsSeen C log seen p task o'.world.store := by
    induction hreach with
    | start =>
        refine ⟨ho, fun task hcurrent => ?_⟩
        rw [← Option.some.inj (htask.symm.trans hcurrent)]
        exact liveProjection_reads hseen hp ho.handle
          (ho.past _ (List.mem_append_left _ (List.mem_map_of_mem hp)))
    | next _ hok hstep ih =>
        exact ⟨aware_step hlog ih.1 hok.1 hok.2.1 hstep,
          reads_step hlog ih.1 ih.2 hok.1 hok.2.1 hok.2.2 hstep⟩
  exact hreads.2

end Reads

/-- What the live loop does when it sets the flag. -/
theorem Covering.sets (ho : o.Covering C log) {x : Waiter κ} (hloop : x.ofLoop = true)
    (hop : o.world.op? x = some .storeCaughtUp) {answer : RunnerAnswer}
    {o' : ObservedWorld G κ} (hstep : o.step C cfg (.act (.poll x answer)) = some o') :
    answer = .done ∧ o'.world.store.caughtUp = true ∧ o'.world.store.liveHandle = true ∧
      ∀ r ∈ G.runners, ∀ e ∈ o.history.opened, e.globalPosition < o'.world.store.cursor r := by
  obtain ⟨w', hw, rfl⟩ := Option.map_eq_some_iff.mp hstep
  cases polled_of_pollTask hw with
  | @pending l op resume htask _ hpending _ =>
      have heq : op = .storeCaughtUp := by simpa [op?, htask] using hop
      subst heq
      cases hpending
  | @served l op resume r s htask _ hgranted hserve hnext =>
      have heq : op = .storeCaughtUp := by simpa [op?, htask] using hop
      subst heq
      have hon : o.world.phase ≠ .off := by
        intro hoff
        have hlive := ho.folds.coherent.live
        have hstream := ho.folds.coherent.stream
        rw [hoff] at hlive hstream
        cases x with
        | caller k => cases hloop
        | live => simp [htask, LivePhase.busy] at hlive
        | stream => simp [htask, LivePhase.streams] at hstream
      have hhandle : o.world.store.liveHandle = true := by
        by_contra hnone
        exact hon (ho.folds.coherent.started (by simpa using hnone))
      have hpast := ho.caughtUp hloop htask
      rcases answer with _ | ⟨_ | _⟩ | _ | _ <;> cases hserve
      subst hnext
      exact ⟨rfl, rfl, hhandle, hpast⟩

/-- When the live loop sets the flag, whatever has happened before, every registered
runner is past all that the log had when the stream was opened, and its state is the
fold of the log below its cursor; and every call of `live_projection` that begins
from then on, while the process lives, returns a state that reflects them all. -/
theorem caught_up_is_complete (hlog : Increasing RecordedEvent.globalPosition log)
    {w₀ : LiveWorld G κ} (hidle : w₀.Idle) (hstart : w₀.store.Consistent C log)
    {present : List RecordedEvent} (hpresent : present <+: log) {o o' : ObservedWorld G κ}
    (hreach : Reaches (step C cfg) (Delivers log) (start w₀ present) o)
    {x : Waiter κ} (hloop : x.ofLoop = true)
    (hop : o.world.op? x = some .storeCaughtUp) (answer : RunnerAnswer)
    (hstep : o.step C cfg (.act (.poll x answer)) = some o') :
    o'.world.store.caughtUp = true ∧
      (∀ r ∈ G.runners,
        (∀ e ∈ o.history.opened, e.globalPosition < o'.world.store.cursor r) ∧
        (G.runner r).Consistent C log (o'.world.store.memory r)) ∧
      ∀ o₁ o₂ o₃ : ObservedWorld G κ, ∀ k, ∀ p ∈ G.projections,
        Reaches (step C cfg) (fun o a => o.Delivers log a ∧ a ≠ .act .crash) o' o₁ →
        o₁.step C cfg (.act (.call k (.liveProjection p))) = some o₂ →
        Reaches (step C cfg) (fun o a => o.Delivers log a ∧ a ≠ .act .crash ∧
          ∀ c, a ≠ .act (.call k c)) o₂ o₃ →
        ∀ result dropped, o₃.world.tasks (.caller k) =
            some (.ready (.projection p result, dropped)) →
          ∃ state, result = .ok state ∧ Reflects C log o.history.opened (.inl p) state := by
  have ho : o.Covering C log := hreach.invariant (covering_start hidle hstart hpresent)
    fun _ _ _ ho hok hstep => covering_step hlog ho hok hstep
  have hseen : ∀ e ∈ o.history.opened, e ∈ log := fun e he =>
    (ho.opened.trans ho.present).subset he
  obtain ⟨hanswer, hflag, hhandle, hpast⟩ := ho.sets hloop hop hstep
  have hdelivers : o.Delivers log (.act (.poll x answer)) := by
    subst hanswer
    exact ⟨trivial, fun _ _ _ h => by cases h⟩
  have haware : o'.Aware C log o.history.opened :=
    ⟨covering_step hlog ho hdelivers hstep, hhandle, hpast⟩
  refine ⟨hflag, fun r hr => ⟨hpast r hr, haware.covering.folds.store.memory r⟩, ?_⟩
  intro o₁ o₂ o₃ k p hp hreach₁ hcall hreach₃ result dropped hresult
  have haware₁ : o₁.Aware C log o.history.opened := hreach₁.invariant haware
    fun _ _ _ ho hok hstep => aware_step hlog ho hok.1 hok.2 hstep
  have haware₂ : o₂.Aware C log o.history.opened :=
    aware_step hlog haware₁ (show o₁.Delivers log (.act (.call k (.liveProjection p))) from
      ⟨trivial, fun _ _ _ h => by cases h⟩) (fun h => by cases h) hcall
  have hreads₃ := reads_of_reaches hlog hseen hp haware₂ (called_task hcall) hreach₃
  exact hreads₃ _ hresult result rfl

end ObservedWorld

namespace LiveWitness

open ObservedWorld RunnerAnswer

/-- `Delivers`, evaluated. -/
def delivers {G : Registry Unit Manager} (o : ObservedWorld G Unit) :
    ObservedAction Unit Unit → Bool
  | .append recorded => decide (o.present ++ [recorded] <+: orderLog)
  | .act (.poll x (.stream (.ok items))) => streams o.world (.poll x (.stream (.ok items))) &&
      match o.world.op? x with
      | some (.subscribeAllFrom p) => match streamStop items with
        | .caughtUp => decide (∀ e ∈ o.present, p ≤ e.globalPosition → e ∈ (passRead items).1)
        | _ => true
      | _ => true
  | .act a => streams o.world a

theorem delivers_sound {G : Registry Unit Manager} (o : ObservedWorld G Unit)
    (a : ObservedAction Unit Unit) (hcheck : delivers o a = true) : o.Delivers orderLog a := by
  cases a with
  | append recorded =>
      have hgrows : o.present ++ [recorded] <+: orderLog := of_decide_eq_true hcheck
      exact hgrows
  | act a =>
      by_cases hopens : ∃ x items, a = .poll x (.stream (.ok items))
      · obtain ⟨x, items, rfl⟩ := hopens
        simp only [delivers, Bool.and_eq_true] at hcheck
        refine ⟨streams_sound _ _ hcheck.1, fun y items' p heq hop hstop => ?_⟩
        cases heq
        simpa only [hop, hstop, decide_eq_true_eq] using hcheck.2
      · have hstreams : streams o.world a = true := by
          unfold delivers at hcheck
          split at hcheck
          · rename_i heq
            cases heq
          · rename_i x items heq
            exact absurd ⟨x, items, ObservedAction.act.inj heq⟩ hopens
          · rename_i heq
            exact ObservedAction.act.inj heq ▸ hcheck
        exact ⟨streams_sound _ _ hstreams, fun x items p heq =>
          absurd ⟨x, items, heq⟩ hopens⟩

/-- An order is placed; the first stream breaks before it delivers anything, the
second one delivers the order and then the sentinel. -/
def catchingUp : List (ObservedAction Unit Unit) :=
  .append placed :: acts ([.startLive, .loopHead] ++
    polls .live [done, done, done, .stream (.ok [.error ⟨.unavailable, "reset"⟩])] ++
    [.settle .live] ++ polls .stream [done] ++ [.settle .stream] ++
    polls .live [done, ok, ok, done] ++ [.settle .live, .timer, .loopHead] ++
    polls .live [done, done, done, delivery] ++ [.settle .live] ++
    polls .stream [done, done, done, done, .receivers false, done])

/-- Then a caller asks for the live projection. -/
def asking : List (ObservedAction Unit Unit) :=
  acts (polls (.caller ()) [done, done, done, done])

theorem asks_only (a : ObservedAction Unit Unit) (ha : a ∈ asking) :
    a ≠ .act .crash ∧ ∀ c, a ≠ .act (.call () c) := by
  obtain ⟨b, hb, rfl⟩ := List.mem_map.mp ha
  obtain ⟨answer, -, rfl⟩ := List.mem_map.mp hb
  constructor
  · nofun
  · nofun

theorem caught_up_is_complete_asking :
    ∃ o o' o₂ o₃ : ObservedWorld (shop [()] []) Unit,
      runActions (ObservedWorld.step crates delays) (start (opened _) []) catchingUp = some o ∧
      o.step crates delays (.act (.poll .stream .done)) = some o' ∧
      o'.step crates delays (.act (.call () (.liveProjection ()))) = some o₂ ∧
      runActions (ObservedWorld.step crates delays) o₂ asking = some o₃ ∧
      o₃.world.tasks (.caller ()) = some (.ready (.projection () (.ok (1 : Nat)), [])) ∧
      o'.world.store.caughtUp = true ∧
      ∃ state, (.ok (1 : Nat) : Except String Nat) = .ok state ∧
        Reflects (G := shop [()] []) crates orderLog [placed] (.inl ()) state := by
  refine ⟨_, _, _, _, rfl, rfl, rfl, rfl, rfl, ?_⟩
  have hreach : Reaches (ObservedWorld.step crates delays)
      (ObservedWorld.Delivers orderLog) (start (opened (shop [()] [])) []) _ :=
    .of_checks delivers_sound catchingUp rfl rfl
  have hall := caught_up_is_complete orderLog_increasing (opened_idle _)
    (opened_consistent _) List.nil_prefix hreach (x := .stream) rfl rfl .done rfl
  refine ⟨hall.1, ?_⟩
  refine hall.2.2 _ _ _ () () List.mem_cons_self .start rfl (.run .start asking ?_ rfl) _ _ rfl
  exact .and (allOk_of_checks delivers_sound rfl)
    (allOk_of_mem (fun a ha _ => asks_only a ha) _)

end LiveWitness

end EventfoldEs
