/-
What is on disk when the live loop exits: `save_all_checkpoints` only logs a save that
fails, and the loop may exit without another pass over the runners, so that a graceful
shutdown returns `Ok` whatever has been saved.
-/
import EventfoldEs.LiveFold

namespace EventfoldEs

open Async

variable (C : Crates) {π μ κ : Type} {G : Registry π μ}

/-- The checkpoint files next to the runners: whose temporary file has been written since
it last took a new event, and who has taken one since what is on disk was written. -/
structure FileNotes (π μ : Type) where
  written : π ⊕ μ → Bool
  behind : π ⊕ μ → Bool

variable [DecidableEq π] [DecidableEq μ] [DecidableEq κ]

/-- A runner is offered an event; one that is behind its cursor is not new. -/
def FileNotes.event (s : StoreState G) (r : π ⊕ μ) (recorded : RecordedEvent)
    (n : FileNotes π μ) : FileNotes π μ :=
  if recorded.globalPosition < s.cursor r then n
  else ⟨Function.update n.written r false, Function.update n.behind r true⟩

namespace RunnerOp

def fileNote (s : StoreState G) :
    (op : RunnerOp π μ) → op.Res G → FileNotes π μ → FileNotes π μ
  | .applyEvent p recorded, _, n => n.event s (.inl p) recorded
  | .reactEvent m recorded, _, n => n.event s (.inr m) recorded
  | .writeTmp r, .ok (), n => { n with written := Function.update n.written r true }
  | .writeTmp r, .error _, n => { n with written := Function.update n.written r false }
  | .rename r, .ok (), n =>
      ⟨Function.update n.written r false, Function.update n.behind r (!n.written r)⟩
  | _, _, n => n

/-- A step of a save that does not succeed. -/
def failsSave : (op : RunnerOp π μ) → op.Res G → Bool
  | .writeTmp _, .error _ | .rename _, .error _ => true
  | _, _ => false

/-- The runners that are saved, after the operation. -/
def markSaved : (op : RunnerOp π μ) → op.Res G → (π ⊕ μ → Bool) → π ⊕ μ → Bool
  | .rename r, .ok (), saved => Function.update saved r true
  | _, _, saved => saved

end RunnerOp

/-- The last pass of the loop over its runners, the checkpoint files, and the store as
it was when the loop exited. -/
structure SaveNotes (G : Registry π μ) where
  files : FileNotes π μ
  saved : π ⊕ μ → Bool
  failed : Bool
  exited : Option (StoreState G)

namespace SaveNotes

def start : SaveNotes G := ⟨⟨fun _ => false, fun _ => false⟩, fun _ => false, false, none⟩

def newPass (n : SaveNotes G) : SaveNotes G :=
  { n with saved := fun _ => false, failed := false }

/-- The task of `x` has an operation answered. -/
def served (n : SaveNotes G) (s : StoreState G) (x : Waiter κ) (op : RunnerOp π μ)
    (r : op.Res G) : SaveNotes G :=
  match x with
  | .live => { n with
      files := op.fileNote s r n.files
      saved := op.markSaved r n.saved
      failed := n.failed || op.failsSave r }
  | _ => { n with files := op.fileNote s r n.files }

end SaveNotes

namespace LiveWorld

/-- The operation that a poll of `x` has answered, if it comes to that. -/
def served? (w : LiveWorld G κ) (x : Waiter κ) (answer : RunnerAnswer) :
    Option (Σ op : RunnerOp π μ, op.Res G) :=
  match w.tasks x with
  | some (.await _ op _) =>
      if (op.lockUse.poll x w.mutexes).1 then
        (op.serve C answer w.store).map fun out => ⟨op, out.1⟩
      else none
  | _ => none

/-- The loop is noted to have exited, if it has. -/
def noteExit (w : LiveWorld G κ) (n : SaveNotes G) : SaveNotes G :=
  { n with exited := match w.phase with
      | .returned _ => some w.store
      | _ => n.exited }

/-- What a step changes in the notes.  A pass begins wherever the loop may go to
`save_all_checkpoints`. -/
def saving (w : LiveWorld G κ) (a : LiveAction π κ) (w' : LiveWorld G κ) (n : SaveNotes G) :
    SaveNotes G :=
  match a with
  | .crash => .start
  | .startLive => w'.noteExit .start
  | .poll x answer => match w.served? C x answer with
    | some ⟨op, r⟩ => n.served w.store x op r
    | none => n
  | .loopHead | .tick | .settle .stream => n.newPass
  | .seeShutdown => match w.phase with
    | .reconnectWait => w'.noteExit n
    | _ => n.newPass
  | .settle .live | .timer => w'.noteExit n
  | _ => n

/-- `LiveHandle::shutdown`: what the call that awaits the task returns once this is
finished; the signal that it gives before is `sendShutdown`. -/
def shutdownResult (w : LiveWorld G κ) : Option (Except String Unit) :=
  match w.phase with
  | .returned result => some result
  | _ => none

/-- The loop exits in this step, and does not panic. -/
def Exits (w : LiveWorld G κ) : LiveAction π κ → Prop
  | .settle .live => match w.phase with
    | .saving (.return _) | .streaming (some .shutdown) => True
    | _ => False
  | .seeShutdown => match w.phase with
    | .reconnectWait => True
    | _ => False
  | _ => False

/-- The loop returns only when no save of its last pass has failed, and no runner has taken
a new event since its last save. -/
def ExitsSaved (o : LiveWorld G κ × SaveNotes G) (a : LiveAction π κ) : Prop :=
  o.1.Exits a → o.2.failed = false ∧ ∀ r ∈ G.runners, o.2.files.behind r = false

end LiveWorld

/-- However the operations are answered, either one of the saves fails or every runner
is saved when the future ends. -/
def SavesAll {α : Type} : RunnerFuture G α → (π ⊕ μ → Bool) → Prop
  | .ready _, saved => ∀ r ∈ G.runners, saved r = true
  | .await _ op resume, saved =>
      ∀ r, op.failsSave r = false → SavesAll (resume r) (op.markSaved r saved)

omit [DecidableEq κ] in
theorem saveCheckpoints_savesAll {α : Type} (a : α) {rs : List (π ⊕ μ)}
    {saved : π ⊕ μ → Bool} (hrest : ∀ r ∈ G.runners, saved r = true ∨ r ∈ rs) :
    SavesAll ((saveCheckpoints rs : RunnerFuture G Unit).bind fun _ => .ready a) saved := by
  induction rs generalizing saved with
  | nil =>
      intro r hr
      exact (hrest r hr).resolve_right List.not_mem_nil
  | cons r rest ih =>
      intro _ _ written hwritten
      cases written with
      | error e => cases hwritten
      | ok done =>
          intro renamed hrenamed
          cases renamed with
          | error e => cases hrenamed
          | ok done =>
              intro _ _
              refine ih fun r' hr' => ?_
              by_cases hself : r' = r
              · exact Or.inl (by rw [hself]; exact Function.update_self ..)
              · rcases hrest r' hr' with hsaved | hmem
                · refine Or.inl ?_
                  change Function.update saved r true r' = true
                  rw [Function.update_of_ne hself]
                  exact hsaved
                · exact Or.inr ((List.mem_cons.mp hmem).resolve_left hself)

/-- A pass of `save_all_checkpoints` in which no save fails saves every runner. -/
theorem savingTask_savesAll : SavesAll (savingTask : RunnerTask G) fun _ => false :=
  saveCheckpoints_savesAll _ fun _ hr => Or.inr hr

variable {C}

/-- What the notes tell of the checkpoint files. -/
structure Tracks (s : StoreState G) (n : FileNotes π μ) (saved : π ⊕ μ → Bool) : Prop where
  written : ∀ r, n.written r = true → s.tmp r = some (s.memory r)
  saved : ∀ r, saved r = true → n.behind r = false → s.disk r = some (s.memory r)

omit [DecidableEq κ] in
/-- What a flag is after one of them has been set. -/
theorem flag_cases {flags : π ⊕ μ → Bool} {r j : π ⊕ μ} {b v : Bool}
    (hj : Function.update flags r b j = v) : (j = r ∧ b = v) ∨ (j ≠ r ∧ flags j = v) := by
  by_cases hself : j = r
  · subst hself
    rw [Function.update_self] at hj
    exact Or.inl ⟨rfl, hj⟩
  · rw [Function.update_of_ne hself] at hj
    exact Or.inr ⟨hself, hj⟩

omit [DecidableEq κ] in
/-- A runner that takes a new event is ahead of its files. -/
theorem Tracks.moved {s : StoreState G} {n : FileNotes π μ} {saved : π ⊕ μ → Bool}
    (htracks : Tracks s n saved) (r : π ⊕ μ) (checkpoint : Checkpoint (G.runner r).State) :
    Tracks { s with memory := Function.update s.memory r checkpoint }
      ⟨Function.update n.written r false, Function.update n.behind r true⟩ saved := by
  have hothers : ∀ j, j ≠ r → Function.update s.memory r checkpoint j = s.memory j :=
    fun j hj => Function.update_of_ne hj ..
  constructor
  · intro j hj
    rcases flag_cases hj with ⟨-, hfalse⟩ | ⟨hother, hj⟩
    · cases hfalse
    · exact (htracks.written j hj).trans (congrArg some (hothers j hother).symm)
  · intro j hsaved hj
    rcases flag_cases hj with ⟨-, htrue⟩ | ⟨hother, hj⟩
    · cases htrue
    · exact (htracks.saved j hsaved hj).trans (congrArg some (hothers j hother).symm)

omit [DecidableEq κ] in
theorem Tracks.event {s : StoreState G} {n : FileNotes π μ} {saved : π ⊕ μ → Bool}
    (htracks : Tracks s n saved) (r : π ⊕ μ) (recorded : RecordedEvent) :
    Tracks (s.event C r recorded).1 (n.event s r recorded) saved := by
  by_cases hold : recorded.globalPosition < s.cursor r
  · have hsame : (s.event C r recorded).1 = s := by
      unfold StoreState.event
      rw [Runner.event_behind hold]
      exact congrArg (fun memory => { s with memory }) (Function.update_eq_self r s.memory)
    rw [hsame, FileNotes.event, if_pos hold]
    exact htracks
  · rw [FileNotes.event, if_neg hold]
    exact htracks.moved r _

omit [DecidableEq κ] in
theorem Tracks.writeTmp {s : StoreState G} {n : FileNotes π μ} {saved : π ⊕ μ → Bool}
    (htracks : Tracks s n saved) (r : π ⊕ μ) {entry : Option (Checkpoint (G.runner r).State)}
    {fresh : Bool} (hfresh : fresh = true → entry = some (s.memory r)) :
    Tracks { s with tmp := Function.update s.tmp r entry }
      { n with written := Function.update n.written r fresh } saved := by
  refine ⟨fun j hj => ?_, htracks.saved⟩
  change Function.update s.tmp r entry j = some (s.memory j)
  rcases flag_cases hj with ⟨rfl, hset⟩ | ⟨hother, hj⟩
  · rw [Function.update_self]
    exact hfresh hset
  · rw [Function.update_of_ne hother]
    exact htracks.written j hj

omit [DecidableEq κ] in
/-- A temporary file that is as its runner makes what is on disk so. -/
theorem Tracks.rename {s : StoreState G} {n : FileNotes π μ} {saved : π ⊕ μ → Bool}
    (htracks : Tracks s n saved) {r : π ⊕ μ} {checkpoint : Checkpoint (G.runner r).State}
    (htmp : s.tmp r = some checkpoint) :
    Tracks { s with
        tmp := Function.update s.tmp r none
        disk := Function.update s.disk r (some checkpoint) }
      ⟨Function.update n.written r false, Function.update n.behind r (!n.written r)⟩
      (Function.update saved r true) := by
  constructor
  · intro j hj
    change Function.update s.tmp r none j = some (s.memory j)
    rcases flag_cases hj with ⟨-, hfalse⟩ | ⟨hother, hj⟩
    · cases hfalse
    · rw [Function.update_of_ne hother]
      exact htracks.written j hj
  · intro j hsaved hj
    change Function.update s.disk r (some checkpoint) j = some (s.memory j)
    rcases flag_cases hj with ⟨rfl, hset⟩ | ⟨hother, hj⟩
    · rw [Function.update_self, ← htmp]
      exact htracks.written j (Bool.not_eq_eq_eq_not.mp hset)
    · rw [Function.update_of_ne hother]
      rw [Function.update_of_ne hother] at hsaved
      exact htracks.saved j hsaved hj

omit [DecidableEq π] [DecidableEq μ] [DecidableEq κ] in
theorem Tracks.mono {s : StoreState G} {n : FileNotes π μ} {saved saved' : π ⊕ μ → Bool}
    (htracks : Tracks s n saved) (hless : ∀ r, saved' r = true → saved r = true) :
    Tracks s n saved' :=
  ⟨htracks.written, fun r hr => htracks.saved r (hless r hr)⟩

omit [DecidableEq κ] in
theorem markSaved_of_saved (op : RunnerOp π μ) (out : op.Res G) {saved : π ⊕ μ → Bool}
    (r : π ⊕ μ) (hr : saved r = true) : op.markSaved out saved r = true := by
  unfold RunnerOp.markSaved
  split
  · rename_i _ j
    by_cases hself : r = j
    · subst hself
      exact Function.update_self ..
    · exact (Function.update_of_ne hself ..).trans hr
  · exact hr

omit [DecidableEq κ] in
theorem Tracks.served {s t : StoreState G} {n : FileNotes π μ} {saved : π ⊕ μ → Bool}
    (htracks : Tracks s n saved) {op : RunnerOp π μ} {answer : RunnerAnswer} {r : op.Res G}
    (hserve : op.serve C answer s = some (r, t)) :
    Tracks t (op.fileNote s r n) (op.markSaved r saved) := by
  cases op with
  | applyEvent p recorded =>
      obtain ⟨rfl, -⟩ := serve_takes rfl hserve
      exact htracks.event _ _
  | reactEvent m recorded =>
      obtain ⟨rfl, -⟩ := serve_takes rfl hserve
      exact htracks.event _ _
  | writeTmp j =>
      rcases answer with _ | ⟨_ | _⟩ | _ | _ <;> cases hserve
      · exact htracks.writeTmp j nofun
      · exact htracks.writeTmp j fun _ => rfl
  | rename j =>
      rcases answer with _ | ⟨_ | _⟩ | _ | _
      case result.error =>
        cases hserve
        exact htracks
      case result.ok =>
        obtain ⟨checkpoint, htmp, hmapped⟩ := Option.map_eq_some_iff.mp hserve
        cases hmapped
        exact htracks.rename htmp
      all_goals cases hserve
  | sendPosition position =>
      rcases answer with _ | ⟨_ | _⟩ | _ | any <;> cases hserve
      cases any with
      | false => exact htracks
      | true => exact ⟨htracks.written, htracks.saved⟩
  | _ =>
      rcases answer with _ | ⟨_ | _⟩ | _ | _ <;> cases hserve <;>
        exact ⟨htracks.written, htracks.saved⟩

namespace LiveWorld

/-- What the last pass of the loop comes to, where the loop is. -/
def PassSaves (w : LiveWorld G κ) (n : SaveNotes G) : Prop :=
  match w.phase with
  | .saving _ | .streaming (some _) =>
      n.failed = false → ∀ task, w.tasks .live = some task → SavesAll task n.saved
  | .reconnectWait => n.failed = false → ∀ r ∈ G.runners, n.saved r = true
  | .returned result => ∃ s, n.exited = some s ∧
      (result = .ok () → ∀ r ∈ G.runners, s.disk r = some (s.memory r)) ∧
      (n.failed = true → ∃ e, result = .error e)
  | _ => True

structure Saving (w : LiveWorld G κ) (n : SaveNotes G) : Prop where
  coherent : w.Coherent
  tracks : Tracks w.store n.files n.saved
  pass : w.PassSaves n

/-- What a poll of `x` does to the phase, the tasks and the store. -/
theorem Polled.served?_cases {w w' : LiveWorld G κ} {x : Waiter κ} {answer : RunnerAnswer}
    (hpolled : Polled C w x answer w') :
    w'.phase = w.phase ∧
      ((w.served? C x answer = none ∧ w'.tasks = w.tasks ∧ w'.store = w.store) ∨
        ∃ l op resume r, w.tasks x = some (.await l op resume) ∧
          w.served? C x answer = some ⟨op, r⟩ ∧
          op.serve C answer w.store = some (r, w'.store) ∧
          w'.tasks = Function.update w.tasks x (some (resume r))) := by
  cases hpolled with
  | pending htask _ hpending hnext =>
      subst hnext
      refine ⟨rfl, Or.inl ⟨?_, rfl, rfl⟩⟩
      rw [served?, htask]
      exact if_neg (by rw [hpending]; nofun)
  | @served l op resume r store htask _ hgranted hserve hnext =>
      subst hnext
      refine ⟨rfl, Or.inr ⟨l, op, resume, r, htask, ?_, hserve, rfl⟩⟩
      rw [served?, htask]
      simp only [hgranted, if_true, hserve, Option.map_some]

/-- An operation of the loop itself takes its pass on. -/
theorem passSaves_served {w w' : LiveWorld G κ} {n : SaveNotes G} (hco : w.Coherent)
    (hpass : w.PassSaves n) {x : Waiter κ} {l : List (Work μ)} {op : RunnerOp π μ}
    {resume : op.Res G → RunnerTask G} {r : op.Res G}
    (htask : w.tasks x = some (.await l op resume)) (hphase : w'.phase = w.phase)
    (htasks : w'.tasks = Function.update w.tasks x (some (resume r))) :
    w'.PassSaves (n.served w.store x op r) := by
  have hothers : x ≠ .live → w'.tasks .live = w.tasks .live := fun hx => by
    rw [htasks]
    exact Function.update_of_ne (Ne.symm hx) ..
  unfold PassSaves at hpass ⊢
  rw [hphase]
  cases x with
  | live =>
      rw [htasks]
      have hbusy : w.phase.busy = true := by
        rw [← hco.live, htask]
        rfl
      have hnext : (n.failed = false → ∀ task, w.tasks .live = some task →
            SavesAll task n.saved) →
          (n.served w.store (.live : Waiter κ) op r).failed = false →
            ∀ task, Function.update w.tasks .live (some (resume r)) .live = some task →
              SavesAll task (n.served w.store (.live : Waiter κ) op r).saved := by
        intro hall hfailed task htask'
        obtain ⟨hbefore, hnow⟩ := Bool.or_eq_false_iff.mp hfailed
        rw [Function.update_self, Option.some.injEq] at htask'
        rw [← htask']
        exact hall hbefore _ htask r hnow
      cases hw : w.phase with
      | saving next =>
          rw [hw] at hpass
          exact hnext hpass
      | streaming handler =>
          rw [hw] at hpass
          cases handler with
          | none => trivial
          | some handler => exact hnext hpass
      | connecting => trivial
      | _ =>
          rw [hw] at hbusy
          cases hbusy
  | _ =>
      rw [hothers (by nofun)]
      exact hpass

theorem saving_polled {w w' : LiveWorld G κ} {n : SaveNotes G} (hsaving : w.Saving n)
    (hco : w'.Coherent) {x : Waiter κ} {answer : RunnerAnswer}
    (hpolled : Polled C w x answer w') :
    w'.Saving (w.saving C (.poll x answer) w' n) := by
  obtain ⟨hphase, ⟨hnone, htasks, hstore⟩ |
    ⟨l, op, resume, r, htask, hserved, hserve, htasks⟩⟩ := hpolled.served?_cases
  · simp only [saving, hnone]
    refine ⟨hco, hstore ▸ hsaving.tracks, ?_⟩
    have hpass := hsaving.pass
    unfold PassSaves at hpass ⊢
    rw [hphase, htasks]
    exact hpass
  · simp only [saving, hserved]
    refine ⟨hco, ?_, passSaves_served hsaving.coherent hsaving.pass htask hphase htasks⟩
    have htracks := hsaving.tracks.served hserve
    cases x with
    | live => exact htracks
    | _ => exact htracks.mono fun j hj => markSaved_of_saved op r j hj

omit [DecidableEq π] [DecidableEq μ] [DecidableEq κ] in
/-- Nothing is saved yet. -/
theorem tracks_start (s : StoreState G) :
    Tracks s (SaveNotes.start : SaveNotes G).files (SaveNotes.start : SaveNotes G).saved where
  written _ hr := by cases hr
  saved _ hr := by cases hr

omit [DecidableEq π] [DecidableEq μ] [DecidableEq κ] in
theorem tracks_sameRunners {s t : StoreState G} {n : FileNotes π μ} {saved : π ⊕ μ → Bool}
    (htracks : Tracks s n saved) (hsame : s.SameRunners t) : Tracks t n saved where
  written r hr := by
    rw [hsame.tmp, hsame.memory]
    exact htracks.written r hr
  saved r hr hbehind := by
    rw [hsame.disk, hsame.memory]
    exact htracks.saved r hr hbehind

omit [DecidableEq π] [DecidableEq μ] in
theorem startSaving_live (w : LiveWorld G κ) (phase : LivePhase) :
    (w.startSaving phase).tasks .live = some savingTask := by
  unfold startSaving setTask
  exact Function.update_self (.live : Waiter κ) (some savingTask) w.tasks

omit [DecidableEq π] [DecidableEq μ] in
theorem setTask_live (w : LiveWorld G κ) {x : Waiter κ} (hx : x ≠ .live)
    (task : Option (RunnerTask G)) : (w.setTask x task).tasks .live = w.tasks .live := by
  unfold setTask
  exact Function.update_of_ne (Ne.symm hx) task w.tasks

omit [DecidableEq κ] in
/-- A pass begins. -/
theorem passSaves_start {w : LiveWorld G κ} {n : SaveNotes G}
    (htask : w.tasks .live = some savingTask)
    (hphase : (∃ handler, w.phase = .streaming (some handler)) ∨ ∃ next, w.phase = .saving next) :
    w.PassSaves n.newPass := by
  have hall : n.newPass.failed = false → ∀ task, w.tasks .live = some task →
      SavesAll task n.newPass.saved := by
    intro _ task hsome
    rw [htask, Option.some.injEq] at hsome
    exact hsome ▸ savingTask_savesAll
  unfold PassSaves
  rcases hphase with ⟨handler, hphase⟩ | ⟨next, hphase⟩
  · rw [hphase]
    exact hall
  · rw [hphase]
    exact hall

omit [DecidableEq κ] in
/-- The loop goes on as before. -/
theorem passSaves_same {w w' : LiveWorld G κ} {n : SaveNotes G} (hpass : w.PassSaves n)
    (hphase : w'.phase = w.phase) (htask : w'.tasks .live = w.tasks .live) :
    w'.PassSaves n := by
  unfold PassSaves at hpass ⊢
  rw [hphase, htask]
  exact hpass

variable {cfg : LiveConfig}

omit [DecidableEq κ] in
/-- The loop exits after a pass. -/
theorem passSaves_exit {w w' : LiveWorld G κ} {n : SaveNotes G} {a : LiveAction π κ}
    {result : Except String Unit} (hsaving : w.Saving n) (hexits : ExitsSaved (w, n) a)
    (hnow : w.Exits a) (hphase : w'.phase = .returned result) (hstore : w'.store = w.store)
    (hall : n.failed = false → ∀ r ∈ G.runners, n.saved r = true) :
    w'.PassSaves (w'.noteExit n) := by
  obtain ⟨hfailed, hbehind⟩ := hexits hnow
  unfold PassSaves noteExit
  rw [hphase, hstore]
  refine ⟨w.store, rfl, fun _ r hr => ?_, fun htrue => ?_⟩
  · exact hsaving.tracks.saved r (hall hfailed r hr) (hbehind r hr)
  · cases hfailed.symm.trans htrue

omit [DecidableEq κ] in
/-- The loop panics, and `shutdown` has an error to return. -/
theorem passSaves_panics {w : LiveWorld G κ} {n : SaveNotes G} {e : String}
    (hphase : w.phase = .returned (.error e)) : w.PassSaves (w.noteExit n) := by
  unfold PassSaves noteExit
  rw [hphase]
  exact ⟨w.store, rfl, fun hok => (by cases hok), fun _ => ⟨e, rfl⟩⟩

theorem passSaves_step {w w' : LiveWorld G κ} {n : SaveNotes G} {a : LiveAction π κ}
    (hsaving : w.Saving n) (hexits : ExitsSaved (w, n) a)
    (hpoll : ∀ x answer, a ≠ .poll x answer) (hstep : w.step C cfg a = some w') :
    w'.PassSaves (w.saving C a w' n) := by
  have hpass := hsaving.pass
  unfold PassSaves at hpass
  cases turn_of_step hstep with
  | polled _ => exact absurd rfl (hpoll _ _)
  | started _ =>
      rcases LivePhase.started_cases C cfg with hhead | ⟨e, herror⟩
      · unfold PassSaves
        simp only [hhead]
      · exact passSaves_panics herror
  | overflows _ _ => exact passSaves_panics rfl
  | stops _ => exact passSaves_start (startSaving_live ..) (Or.inr ⟨_, rfl⟩)
  | shutDown hphase hlive =>
      rw [hphase] at hpass
      exact passSaves_exit hsaving hexits (by simp only [Exits, hphase]) rfl rfl
        fun hfailed => hpass hfailed _ hlive
  | @saved next dropped hphase hlive =>
      rw [hphase] at hpass
      cases next with
      | reconnect => trivial
      | backoff => exact fun hfailed => hpass hfailed _ hlive
      | «return» result =>
          exact passSaves_exit hsaving hexits (by simp only [Exits, hphase]) rfl rfl
            fun hfailed => hpass hfailed _ hlive
  | ended _ _ => exact passSaves_start (startSaving_live ..) (Or.inr ⟨_, rfl⟩)
  | answered _ =>
      exact passSaves_same hsaving.pass rfl (setTask_live _ (fun h => by cases h) _)
  | ticks _ _ => exact passSaves_start (startSaving_live ..) (Or.inl ⟨_, rfl⟩)
  | stopsStream hphase _ =>
      simp only [saving, hphase]
      exact passSaves_start (startSaving_live ..) (Or.inl ⟨_, rfl⟩)
  | stopsRetry hphase =>
      simp only [saving, hphase]
      exact passSaves_start (startSaving_live ..) (Or.inr ⟨_, rfl⟩)
  | stopsReconnect hphase =>
      rw [hphase] at hpass
      simp only [saving, hphase]
      exact passSaves_exit hsaving hexits (by simp only [Exits, hphase]) rfl rfl hpass
  | signalled => exact passSaves_same hsaving.pass rfl rfl
  | called _ =>
      exact passSaves_same hsaving.pass rfl (setTask_live _ (fun h => by cases h) _)
  | @cancelled k =>
      refine passSaves_same hsaving.pass rfl ?_
      exact setTask_live w (x := .caller k) (fun h => by cases h) none
  | _ => trivial

/-- A step that is no poll leaves the notes on the files alone, or empties them. -/
theorem tracks_saving {w w' : LiveWorld G κ} {n : SaveNotes G} {a : LiveAction π κ}
    {s : StoreState G} (htracks : Tracks s n.files n.saved)
    (hpoll : ∀ x answer, a ≠ .poll x answer) :
    Tracks s (w.saving C a w' n).files (w.saving C a w' n).saved := by
  have hnone : Tracks s n.files fun _ => false := htracks.mono fun _ hr => by cases hr
  cases a with
  | poll x answer => exact absurd rfl (hpoll x answer)
  | startLive => exact tracks_start s
  | crash => exact tracks_start s
  | loopHead => exact hnone
  | tick => exact hnone
  | seeShutdown =>
      simp only [saving]
      split
      · exact htracks
      · exact hnone
  | settle x =>
      cases x with
      | live => exact htracks
      | stream => exact hnone
      | caller k => exact htracks
  | _ => exact htracks

theorem saving_step {w w' : LiveWorld G κ} {n : SaveNotes G} {a : LiveAction π κ}
    (hsaving : w.Saving n) (hexits : ExitsSaved (w, n) a)
    (hstep : w.step C cfg a = some w') : w'.Saving (w.saving C a w' n) := by
  have hco := coherent_step hsaving.coherent hstep
  by_cases hpolls : ∃ x answer, a = .poll x answer
  · obtain ⟨x, answer, rfl⟩ := hpolls
    exact saving_polled hsaving hco (polled_of_pollTask hstep)
  · have hpoll : ∀ x answer, a ≠ .poll x answer :=
      fun x answer heq => hpolls ⟨x, answer, heq⟩
    refine ⟨hco, ?_, passSaves_step hsaving hexits hpoll hstep⟩
    cases stepped_of_step hsaving.coherent hstep with
    | polled haction _ => exact absurd haction (hpoll _ _)
    | shifted hshifts =>
        exact tracks_saving (tracks_sameRunners hsaving.tracks hshifts.store) hpoll
    | crashed haction _ =>
        subst haction
        exact tracks_start _

/-- When the loop only exits after a pass in which every save has succeeded and which no
new event has followed, what the call of `shutdown` that awaits it returns is true of the
checkpoints: `Ok` with every registered runner on disk as it was in memory, and an error
if a save had failed. -/
theorem shutdown_reports_lost_checkpoints {w₀ : LiveWorld G κ} (hidle : w₀.Idle)
    {o : LiveWorld G κ × SaveNotes G}
    (hreach : Reaches (notedStep (step C cfg) (saving C)) ExitsSaved (w₀, .start) o)
    {result : Except String Unit} (hresult : o.1.shutdownResult = some result) :
    ∃ s, o.2.exited = some s ∧
      (result = .ok () → ∀ r ∈ G.runners, s.disk r = some (s.memory r)) ∧
      (o.2.failed = true → ∃ e, result = .error e) := by
  have hsaving : o.1.Saving o.2 := by
    clear hresult
    induction hreach with
    | start =>
        refine ⟨hidle.coherent, tracks_start _, ?_⟩
        unfold PassSaves
        rw [hidle.phase]
        trivial
    | next _ hexits hstep ih =>
        obtain ⟨hworld, hnote⟩ := notedStep_cases hstep
        rw [hnote]
        exact saving_step ih hexits hworld
  have hpass := hsaving.pass
  unfold PassSaves at hpass
  unfold shutdownResult at hresult
  split at hresult
  · rename_i hphase
    rw [hphase] at hpass
    cases hresult
    exact hpass
  · cases hresult

end LiveWorld

namespace LiveWitness

open LiveWorld RunnerAnswer

abbrev Shop := shop [()] []

/-- `ExitsSaved`, evaluated. -/
def exitsSaved (o : LiveWorld Shop Unit × SaveNotes Shop) : LiveAction Unit Unit → Bool
  | .settle .live => match o.1.phase with
    | .saving (.return _) | .streaming (some .shutdown) =>
        !o.2.failed && !o.2.files.behind (.inl ())
    | _ => true
  | .seeShutdown => match o.1.phase with
    | .reconnectWait => !o.2.failed && !o.2.files.behind (.inl ())
    | _ => true
  | _ => true

theorem exitsSaved_sound (o : LiveWorld Shop Unit × SaveNotes Shop)
    (a : LiveAction Unit Unit) (hcheck : exitsSaved o a = true) : ExitsSaved o a := by
  intro hexits
  have hsaved : (!o.2.failed && !o.2.files.behind (.inl ())) = true := by
    unfold Exits at hexits
    unfold exitsSaved at hcheck
    split at hexits
    · split at hexits <;> rename_i hphase
      · simpa only [hphase] using hcheck
      · simpa only [hphase] using hcheck
      · exact hexits.elim
    · split at hexits <;> rename_i hphase
      · simpa only [hphase] using hcheck
      · exact hexits.elim
    · exact hexits.elim
  obtain ⟨hfailed, hbehind⟩ := Bool.and_eq_true_iff.mp hsaved
  refine ⟨Bool.not_eq_eq_eq_not.mp hfailed, fun r hr => ?_⟩
  obtain rfl := List.mem_singleton.mp hr
  exact Bool.not_eq_eq_eq_not.mp hbehind

/-- The order is projected; then the loop is told to stop. -/
def stopping : List (LiveAction Unit Unit) :=
  [.startLive, .loopHead] ++ polls .live [done, done, done, delivery] ++ [.settle .live] ++
    polls .stream [done, done, done, done, .receivers false] ++
    [.sendShutdown, .seeShutdown] ++ polls .live [done, ok, ok, done] ++ [.settle .live]

theorem shutdown_reports_lost_checkpoints_stopping :
    ∃ o, runActions (notedStep (step crates delays) (saving crates))
        (opened Shop, .start) stopping = some o ∧
      o.1.shutdownResult = some (.ok ()) ∧
      ∃ s, o.2.exited = some s ∧
        ((.ok () : Except String Unit) = .ok () →
          ∀ r ∈ Shop.runners, s.disk r = some (s.memory r)) ∧
        (o.2.failed = true → ∃ e, (.ok () : Except String Unit) = .error e) := by
  obtain ⟨o, hrun, hresult⟩ : ∃ o, runActions (notedStep (step crates delays)
      (saving crates)) (opened Shop, .start) stopping = some o ∧
      o.1.shutdownResult = some (.ok ()) := ⟨_, rfl, rfl⟩
  exact ⟨o, hrun, hresult, shutdown_reports_lost_checkpoints (opened_idle _)
    (.of_checks exitsSaved_sound stopping rfl hrun) hresult⟩

/-- The loop is told to stop before it connects, and the disk is full. -/
def losing : List (LiveAction Unit Unit) :=
  [.startLive, .sendShutdown, .loopHead] ++
    polls .live [done, .result (.error "disk full"), done] ++ [.settle .live]

/-- The stream breaks; while the loop waits to connect again a call moves the projection
and cannot save it, and then the loop is told to stop. -/
def unsaved : List (LiveAction Unit Unit) :=
  [.startLive, .loopHead] ++
    polls .live [done, done, done, .stream (.ok [.error ⟨.unavailable, "reset"⟩])] ++
    [.settle .live] ++ polls .stream [done] ++ [.settle .stream] ++
    polls .live [done, ok, ok, done] ++ [.settle .live, .call () (.projection ())] ++
    polls (.caller ())
      [done, done, delivery, done, done, done, .result (.error "disk full"), done] ++
    [.sendShutdown, .seeShutdown]

/-- `shutdown` returns `Ok` after a final save that has failed, and after none at all;
what is on disk is not what was in memory. -/
theorem shutdown_ok_with_lost_checkpoints :
    ∃ o s o' s', runActions (notedStep (step crates delays) (saving crates))
        (opened Shop, .start) losing = some o ∧
      runActions (notedStep (step crates delays) (saving crates))
        (opened Shop, .start) unsaved = some o' ∧
      .inl () ∈ Shop.runners ∧
      (o.1.shutdownResult = some (.ok ()) ∧ o.2.failed = true ∧ o.2.exited = some s ∧
        s.disk (.inl ()) ≠ some (s.memory (.inl ()))) ∧
      o'.1.shutdownResult = some (.ok ()) ∧ o'.2.exited = some s' ∧
        s'.disk (.inl ()) ≠ some (s'.memory (.inl ())) := by
  refine ⟨_, _, _, _, rfl, rfl, List.mem_cons_self, ⟨rfl, rfl, rfl, nofun⟩, rfl, rfl, ?_⟩
  intro hsame
  cases congrArg (Option.map Checkpoint.lastGlobalPosition) hsame

end LiveWitness

end EventfoldEs
