/-
The live world over real checkpoint files: saves write and rename files, and a
process that has died is opened again from what it finds there.  Each of its runs
is a run of the live world whose files are tables of checkpoints.
-/
import EventfoldEs.CheckpointFiles
import EventfoldEs.LiveExclusion

namespace EventfoldEs

open Async OrderedLog LexicalPath

variable {C : Crates} {π μ κ : Type} {G : Registry π μ}

/-- The tables of saved checkpoints in the store of `live` stay empty: the files are
here. -/
structure FileWorld (G : Registry π μ) (κ : Type) where
  live : LiveWorld G κ
  files : Files

/-- `write` and `rename` poll a task that saves; `live` is every other step. -/
inductive FileAction (π μ κ : Type)
  | live (a : LiveAction π κ)
  | write (x : Waiter κ) (outcome : WriteOutcome)
  | rename (x : Waiter κ) (failure : Option String)
  | crash (readError : π ⊕ μ → Option String)

/-- Where and how the checkpoints of a store are kept. -/
structure FileSetup (G : Registry π μ) where
  json : ∀ r, CheckpointJson (G.runner r).State
  cwd : List Name
  baseDir : List Char

namespace FileSetup

variable (F : FileSetup G)

def dir (r : π ⊕ μ) : List Char := runnerDir F.baseDir (G.runner r)

/-- `ProjectionRunner::new` and `ProcessManagerRunner::new`, as far as the file goes. -/
def load (files : Files) (readError : π ⊕ μ → Option String) (r : π ⊕ μ) :
    Except String (Option (Checkpoint (G.runner r).State)) :=
  loadCheckpoint (F.json r) F.cwd (F.dir r) (readError r) files

/-- What a runner starts with: the default, if there is nothing to load. -/
def loaded (files : Files) (r : π ⊕ μ) : Checkpoint (G.runner r).State :=
  match F.load files (fun _ => none) r with
  | .ok (some checkpoint) => checkpoint
  | _ => (G.runner r).start

/-- `open` panics when the checkpoint of a registered runner cannot be read. -/
def opens (files : Files) (readError : π ⊕ μ → Option String) : Bool :=
  G.runners.all fun r => (F.load files readError r).isOk

end FileSetup

namespace LiveWorld

variable [DecidableEq π] [DecidableEq μ] [DecidableEq κ]

/-- The world with other tables of saved checkpoints. -/
def withTables (w : LiveWorld G κ) (tmp disk : ∀ r, Option (Checkpoint (G.runner r).State)) :
    LiveWorld G κ :=
  { w with store := { w.store with tmp, disk } }

/-- The task of `x` is at a save. -/
def saves (w : LiveWorld G κ) (x : Waiter κ) : Bool :=
  match w.tasks x with
  | some (.await _ (.writeTmp _) _) | some (.await _ (.rename _) _) => true
  | _ => false

end LiveWorld

namespace FileWorld

variable [DecidableEq π] [DecidableEq μ] [DecidableEq κ]

/-- The process starts again, with the runners that it has loaded. -/
def reopened (F : FileSetup G) (f : FileWorld G κ) : FileWorld G κ :=
  { f with live := { f.live.crashed with
    store := { f.live.crashed.store with memory := F.loaded f.files } } }

variable (C) in
def step (F : FileSetup G) (cfg : LiveConfig) (f : FileWorld G κ) :
    FileAction π μ κ → Option (FileWorld G κ)
  | .live .crash => none
  | .live (.poll x answer) =>
      if f.live.saves x then none
      else (f.live.step C cfg (.poll x answer)).map fun live => { f with live }
  | .live a => (f.live.step C cfg a).map fun live => { f with live }
  | .write x outcome =>
      match f.live.tasks x with
      | some (.await _ (.writeTmp r) resume) =>
          if f.live.polls x then
            let (out, files) := writeTmpFile (F.json r) F.cwd (F.dir r)
              (f.live.store.memory r) outcome f.files
            some ⟨f.live.setTask x (some (resume out)), files⟩
          else none
      | _ => none
  | .rename x failure =>
      match f.live.tasks x with
      | some (.await _ (.rename r) resume) =>
          if f.live.polls x then
            let (out, files) := renameTmpFile F.cwd (F.dir r) failure f.files
            some ⟨f.live.setTask x (some (resume out)), files⟩
          else none
      | _ => none
  | .crash readError => if F.opens f.files readError then some (f.reopened F) else none

/-- `open` on files that are there. -/
def openStore (F : FileSetup G) (files : Files) (readError : π ⊕ μ → Option String) :
    Option (FileWorld G κ) :=
  if F.opens files readError then some {
    live := {
      store := {
        memory := F.loaded files
        tmp := fun _ => none
        disk := fun _ => none
        dispatched := []
        deadLetterTried := []
        deadLetters := []
        liveHandle := false
        caughtUp := false
        position := 0 }
      mutexes _ := .free
      tasks _ := none
      phase := .off
      shutdown := false
      backoffDelay := .zero }
    files }
  else none

/-- `subscribe_all_from` delivers what the log has. -/
def Streams (log : List RecordedEvent) (f : FileWorld G κ) : FileAction π μ κ → Prop
  | .live a => f.live.Streams log a
  | _ => True

/-- The tables show what the files hold. -/
structure Shows (F : FileSetup G) (files : Files)
    (tmp disk : ∀ r, Option (Checkpoint (G.runner r).State)) : Prop where
  disk : ∀ r, F.load files (fun _ => none) r = .ok (disk r)
  tmp : ∀ r checkpoint, tmp r = some checkpoint →
    ∃ text, (F.json r).toStringPretty checkpoint = .ok text ∧
      files (checkpointTmpFile F.cwd (F.dir r)) = some text.toUTF8

end FileWorld

namespace LiveWorld

variable [DecidableEq π] [DecidableEq μ] [DecidableEq κ] {cfg : LiveConfig}
  {tmp disk : ∀ r, Option (Checkpoint (G.runner r).State)}

omit [DecidableEq κ] in
/-- Only saves see the tables. -/
theorem serve_withTables (tmp disk : ∀ r, Option (Checkpoint (G.runner r).State))
    {op : RunnerOp π μ} (hwrite : ∀ r, op ≠ .writeTmp r)
    (hrename : ∀ r, op ≠ .rename r) (answer : RunnerAnswer) (s : StoreState G) :
    op.serve C answer { s with tmp, disk } =
      (op.serve C answer s).map fun out => (out.1, { out.2 with tmp, disk }) := by
  cases op with
  | writeTmp r => exact absurd rfl (hwrite r)
  | rename r => exact absurd rfl (hrename r)
  | sendPosition n =>
      rcases answer with _ | ⟨_ | _⟩ | _ | any
      case receivers => cases any <;> rfl
      all_goals rfl
  | _ => rcases answer with _ | ⟨_ | _⟩ | _ | _ <;> rfl

section WithTables

omit [DecidableEq π] [DecidableEq μ] [DecidableEq κ]

variable (w : LiveWorld G κ)

@[simp] theorem withTables_tasks : (w.withTables tmp disk).tasks = w.tasks := rfl

@[simp] theorem withTables_mutexes : (w.withTables tmp disk).mutexes = w.mutexes := rfl

@[simp] theorem withTables_phase : (w.withTables tmp disk).phase = w.phase := rfl

@[simp] theorem withTables_shutdown : (w.withTables tmp disk).shutdown = w.shutdown := rfl

@[simp] theorem withTables_liveHandle :
    (w.withTables tmp disk).store.liveHandle = w.store.liveHandle := rfl

@[simp] theorem withTables_store :
    (w.withTables tmp disk).store = { w.store with tmp, disk } := rfl

@[simp] theorem withTables_polls (x : Waiter κ) :
    (w.withTables tmp disk).polls x = w.polls x := rfl

@[simp] theorem withTables_backoffDelay :
    (w.withTables tmp disk).backoffDelay = w.backoffDelay := rfl

theorem withTables_afterWait :
    (w.withTables tmp disk).afterWait C cfg = (w.afterWait C cfg).withTables tmp disk := by
  unfold afterWait
  rw [withTables_backoffDelay]
  cases w.backoffDelay.checkedMul 2 <;> rfl

end WithTables

omit [DecidableEq π] [DecidableEq μ] in
@[simp] theorem withTables_parked (w : LiveWorld G κ) (x : Waiter κ) :
    (w.withTables tmp disk).parked x = w.parked x := rfl

/-- The live loop and its tasks do not see the tables, except where they save. -/
theorem step_withTables {w : LiveWorld G κ} {a : LiveAction π κ} (hcrash : a ≠ .crash)
    (hsaves : ∀ x answer, a = .poll x answer → w.saves x = false) :
    (w.withTables tmp disk).step C cfg a =
      (w.step C cfg a).map fun w => w.withTables tmp disk := by
  cases a with
  | crash => exact absurd rfl hcrash
  | poll x answer =>
      have hquiet := hsaves x answer rfl
      cases htask : w.tasks x with
      | none => simp [step, pollTask, htask]
      | some task =>
          cases task with
          | ready out => simp [step, pollTask, htask]
          | await l op resume =>
              have hop : (∀ r, op ≠ .writeTmp r) ∧ ∀ r, op ≠ .rename r := by
                constructor
                all_goals
                  rintro r rfl
                  simp [saves, htask] at hquiet
              have hserve :=
                serve_withTables (C := C) tmp disk hop.1 hop.2 answer w.store
              cases hpolls : w.polls x with
              | false => simp [step, pollTask, htask, hpolls]
              | true =>
                  simp only [step, pollTask, withTables_tasks, htask, withTables_polls, hpolls,
                    withTables_mutexes, withTables_store, if_true]
                  by_cases hgranted : (op.lockUse.poll x w.mutexes).1 = true
                  · simp only [hgranted, if_true, hserve]
                    cases op.serve C answer w.store <;> rfl
                  · simp only [hgranted, Bool.false_eq_true, if_false]
                    rfl
  | startLive =>
      by_cases hlive : w.store.liveHandle = true
      · simp [step, hlive]
      · simp only [step, withTables_liveHandle, hlive, Bool.false_eq_true, if_false]
        rfl
  | loopHead =>
      obtain ⟨store, mutexes, tasks, phase, shutdown, backoffDelay⟩ := w
      cases phase <;> cases shutdown <;> rfl
  | settle x =>
      cases x with
      | live =>
          simp only [step, settleLive, withTables_phase, withTables_tasks]
          rcases w.tasks .live with _ | ⟨_ | ⟨_ | _⟩ | _ | _ | _, _⟩ | _ <;>
            rcases w.phase with _ | _ | _ | _ | ⟨_ | _ | _⟩ | ⟨_ | _ | _⟩ | _ | _ <;> rfl
      | stream =>
          simp only [step, settleStream, withTables_phase, withTables_tasks]
          split <;> rfl
      | caller k =>
          simp only [step, withTables_tasks]
          rcases w.tasks (.caller k) with _ | _ | _ <;> rfl
  | tick =>
      by_cases hparked : w.parked .stream = true
      · simp only [step, withTables_phase, withTables_parked, hparked, if_true]
        rcases w.phase with _ | _ | _ | _ | ⟨_ | _⟩ | _ | _ | _ <;> rfl
      · simp only [step, withTables_phase, withTables_parked, hparked, Bool.false_eq_true,
          if_false]
        rcases w.phase with _ | _ | _ | _ | ⟨_ | _⟩ | _ | _ | _ <;> rfl
  | seeShutdown =>
      by_cases hshutdown : w.shutdown = true
      · by_cases hparked : w.parked .stream = true
        · simp only [step, withTables_phase, withTables_parked, withTables_shutdown, hshutdown,
            hparked, if_true]
          rcases w.phase with _ | _ | _ | _ | ⟨_ | _⟩ | _ | _ | _ <;> rfl
        · simp only [step, withTables_phase, withTables_parked, withTables_shutdown, hshutdown,
            hparked, if_true, Bool.false_eq_true, if_false]
          rcases w.phase with _ | _ | _ | _ | ⟨_ | _⟩ | _ | _ | _ <;> rfl
      · simp [step, hshutdown]
  | timer =>
      simp only [step, withTables_phase, withTables_afterWait]
      cases w.phase <;> rfl
  | sendShutdown =>
      by_cases hlive : w.store.liveHandle = true
      · simp only [step, withTables_liveHandle, hlive, if_true]
        rfl
      · simp [step, hlive]
  | call k c =>
      simp only [step, withTables_tasks]
      cases w.tasks (.caller k) <;> rfl
  | cancel k =>
      by_cases hparked : w.parked (.caller k) = true
      · simp only [step, withTables_parked, hparked, if_true]
        rfl
      · simp [step, hparked]

end LiveWorld

namespace FileWorld

variable [DecidableEq π] [DecidableEq μ] [DecidableEq κ] {cfg : LiveConfig} {F : FileSetup G}
  {f f' : FileWorld G κ} {tmp disk : ∀ r, Option (Checkpoint (G.runner r).State)}

section Shows

variable {files : Files} {r : π ⊕ μ}

omit [DecidableEq π] [DecidableEq μ] in
/-- A runner starts from what its table shows. -/
theorem Shows.loaded (hshows : Shows F files tmp disk) (r : π ⊕ μ) :
    F.loaded files r = (disk r).getD (G.runner r).start := by
  rw [FileSetup.loaded, hshows.disk r]
  cases disk r <;> rfl

omit [DecidableEq π] [DecidableEq μ] in
theorem tmpFile_ne (hapart : FilesApart F.cwd F.baseDir G) {r r' : π ⊕ μ} (hne : r ≠ r') :
    checkpointTmpFile F.cwd (F.dir r) ≠ checkpointTmpFile F.cwd (F.dir r') := by
  rw [checkpointTmpFile_eq, checkpointTmpFile_eq]
  intro heq
  exact hne (hapart r r' (List.cons.inj heq).2)

omit [DecidableEq π] [DecidableEq μ] in
theorem checkpointFile_ne (hapart : FilesApart F.cwd F.baseDir G) {r r' : π ⊕ μ}
    (hne : r ≠ r') : checkpointFile F.cwd (F.dir r) ≠ checkpointFile F.cwd (F.dir r') := by
  rw [checkpointFile_eq, checkpointFile_eq]
  intro heq
  exact hne (hapart r r' (List.cons.inj heq).2)

/-- After the temporary file of `r` has been written or torn. -/
theorem Shows.tmpWritten (hapart : FilesApart F.cwd F.baseDir G)
    (hshows : Shows F files tmp disk) {left : Option ByteArray}
    {entry : Option (Checkpoint (G.runner r).State)}
    (hentry : ∀ checkpoint, entry = some checkpoint → ∃ text,
      (F.json r).toStringPretty checkpoint = .ok text ∧ left = some text.toUTF8) :
    Shows F (Function.update files (checkpointTmpFile F.cwd (F.dir r)) left)
      (Function.update tmp r entry) disk where
  disk i := by
    rw [← hshows.disk i]
    exact loadCheckpoint_congr _ (Function.update_of_ne (checkpointFile_ne_tmp _ _ _) ..)
  tmp i checkpoint hsome := by
    by_cases hi : i = r
    · subst hi
      rw [Function.update_self] at hsome ⊢
      exact hentry checkpoint hsome
    · rw [Function.update_of_ne hi] at hsome
      rw [Function.update_of_ne (tmpFile_ne hapart hi)]
      exact hshows.tmp i checkpoint hsome

/-- After the temporary file of `r` has been renamed. -/
theorem Shows.renamed (hapart : FilesApart F.cwd F.baseDir G)
    (hjson : (F.json r).RoundTrips) (hshows : Shows F files tmp disk)
    {checkpoint : Checkpoint (G.runner r).State} (htmp : tmp r = some checkpoint)
    {bytes : ByteArray} (hbytes : files (checkpointTmpFile F.cwd (F.dir r)) = some bytes) :
    Shows F (Function.update (Function.update files (checkpointTmpFile F.cwd (F.dir r)) none)
        (checkpointFile F.cwd (F.dir r)) (some bytes))
      (Function.update tmp r none) (Function.update disk r (some checkpoint)) where
  disk i := by
    by_cases hi : i = r
    · subst hi
      obtain ⟨text, htext, hfile⟩ := hshows.tmp i checkpoint htmp
      rw [Function.update_self]
      refine loadCheckpoint_of_text hjson htext ?_
      rw [Function.update_self, ← hbytes, hfile]
    · rw [Function.update_of_ne hi, ← hshows.disk i]
      refine loadCheckpoint_congr _ ?_
      rw [Function.update_of_ne (checkpointFile_ne hapart hi),
        Function.update_of_ne (checkpointFile_ne_tmp _ _ _)]
  tmp i other hsome := by
    by_cases hi : i = r
    · subst hi
      rw [Function.update_self] at hsome
      cases hsome
    · rw [Function.update_of_ne hi] at hsome
      rw [Function.update_of_ne (checkpointFile_ne_tmp _ _ _).symm,
        Function.update_of_ne (tmpFile_ne hapart hi)]
      exact hshows.tmp i other hsome

end Shows

/-- A poll of a save over the tables. -/
theorem poll_save {x : Waiter κ} {l : List (Work μ)} {op : RunnerOp π μ}
    {resume : op.Res G → RunnerTask G} (hlocks : op.lockUse = .nothing)
    (htask : f.live.tasks x = some (.await l op resume)) (hpolls : f.live.polls x = true)
    {answer : RunnerAnswer} {out : op.Res G}
    {tmp' disk' : ∀ r, Option (Checkpoint (G.runner r).State)}
    (hserve : op.serve C answer { f.live.store with tmp, disk } =
      some (out, { f.live.store with tmp := tmp', disk := disk' })) :
    (f.live.withTables tmp disk).step C cfg (.poll x answer) =
      some ((f.live.setTask x (some (resume out))).withTables tmp' disk') := by
  simp [LiveWorld.step, LiveWorld.pollTask, htask, hpolls, hlocks, LockUse.poll, hserve]
  rfl

/-- Every step over the files is a step over the tables that they show. -/
theorem simulated_step (hapart : FilesApart F.cwd F.baseDir G)
    (hjson : ∀ r, (F.json r).RoundTrips) (hshows : Shows F f.files tmp disk)
    (hexclusive : (f.live.withTables tmp disk).Exclusive C (fun _ => True) LiveWorld.Anything)
    {a : FileAction π μ κ} {log : List RecordedEvent} (hstreams : f.Streams log a)
    (hstep : f.step C F cfg a = some f') :
    ∃ a' tmp' disk', (f.live.withTables tmp disk).Streams log a' ∧
      (f.live.withTables tmp disk).step C cfg a' = some (f'.live.withTables tmp' disk') ∧
      Shows F f'.files tmp' disk' := by
  have hlive : ∀ {b : LiveAction π κ} {v : LiveWorld G κ}, f.live.step C cfg b = some v →
      f' = { f with live := v } → f.live.Streams log b → b ≠ .crash →
      (∀ x answer, b = .poll x answer → f.live.saves x = false) →
      ∃ a' tmp' disk', (f.live.withTables tmp disk).Streams log a' ∧
        (f.live.withTables tmp disk).step C cfg a' = some (f'.live.withTables tmp' disk') ∧
        Shows F f'.files tmp' disk' := by
    rintro b v hv rfl hb hcrash hsaves
    refine ⟨b, tmp, disk, hb, ?_, hshows⟩
    rw [LiveWorld.step_withTables hcrash hsaves, hv]
    rfl
  cases a with
  | live b =>
      cases b with
      | crash => cases hstep
      | poll x answer =>
          simp only [step] at hstep
          split at hstep
          · cases hstep
          · rename_i hsaves
            obtain ⟨v, hv, rfl⟩ := Option.map_eq_some_iff.mp hstep
            refine hlive hv rfl hstreams (fun h => by cases h) fun y _ heq => ?_
            cases heq
            simpa using hsaves
      | _ =>
          obtain ⟨v, hv, rfl⟩ := Option.map_eq_some_iff.mp hstep
          exact hlive hv rfl trivial (fun h => by cases h) fun _ _ h => by cases h
  | write x outcome =>
      simp only [step] at hstep
      split at hstep
      · rename_i l r resume htask
        split at hstep
        · rename_i hpolls
          rcases writeTmpFile_cases (F.json r) F.cwd (F.dir r) f.files
            (f.live.store.memory r) outcome with
            ⟨e, left, hwrite⟩ | ⟨text, htext, hwrite⟩
          · rw [hwrite] at hstep
            cases hstep
            exact ⟨.poll x (.result (.error e)), _, disk, trivial,
              poll_save rfl htask hpolls rfl, hshows.tmpWritten hapart fun _ h => by cases h⟩
          · rw [hwrite] at hstep
            cases hstep
            refine ⟨.poll x (.result (.ok ())), _, disk, trivial,
              poll_save rfl htask hpolls rfl, hshows.tmpWritten hapart fun checkpoint hsome => ?_⟩
            cases hsome
            exact ⟨text, htext, rfl⟩
        · cases hstep
      · cases hstep
  | rename x failure =>
      simp only [step] at hstep
      split at hstep
      · rename_i l r resume htask
        split at hstep
        · rename_i hpolls
          rcases renameTmpFile_cases F.cwd (F.dir r) f.files failure with
            ⟨e, hrename⟩ | ⟨bytes, hbytes, hrename⟩
          · rw [hrename] at hstep
            cases hstep
            exact ⟨.poll x (.result (.error e)), tmp, disk, trivial,
              poll_save rfl htask hpolls rfl, hshows⟩
          · rw [hrename] at hstep
            cases hstep
            -- the temporary file is that of this save
            have hfinds : tmp r = some (f.live.store.memory r) :=
              hexclusive.finds_rename (x := x) (by simp [LiveWorld.op?, htask])
            refine ⟨.poll x (.result (.ok ())), _, _, trivial,
              poll_save rfl htask hpolls ?_, hshows.renamed hapart (hjson r) hfinds hbytes⟩
            simp [RunnerOp.serve, hfinds]
        · cases hstep
      · cases hstep
  | crash readError =>
      simp only [step] at hstep
      split at hstep
      · cases hstep
        refine ⟨.crash, tmp, disk, trivial, ?_, hshows⟩
        have hmemory : (fun r => (disk r).getD (G.runner r).start) = F.loaded f.files :=
          funext fun r => (hshows.loaded r).symm
        simp only [LiveWorld.step, LiveWorld.crashed, LiveWorld.withTables_store, hmemory]
        rfl
      · cases hstep

theorem simulated_run (hapart : FilesApart F.cwd F.baseDir G)
    (hjson : ∀ r, (F.json r).RoundTrips) (hshows : Shows F f.files tmp disk)
    (hexclusive : (f.live.withTables tmp disk).Exclusive C (fun _ => True) LiveWorld.Anything)
    {log : List RecordedEvent} (hreach : Reaches (step C F cfg) (Streams log) f f') :
    ∃ tmp' disk', Shows F f'.files tmp' disk' ∧
      Reaches (LiveWorld.step C cfg) (LiveWorld.Streams log) (f.live.withTables tmp disk)
        (f'.live.withTables tmp' disk') := by
  induction hreach with
  | start => exact ⟨tmp, disk, hshows, .start⟩
  | @next g g' a _ hstreams hstep ih =>
      obtain ⟨tmp₁, disk₁, hshows₁, hreach₁⟩ := ih
      obtain ⟨hexclusive₁, -⟩ :=
        LiveWorld.exclusive_of_reaches hexclusive (fun _ _ => trivial) hreach₁
      obtain ⟨a', tmp₂, disk₂, hstreams', hstep', hshows₂⟩ :=
        simulated_step hapart hjson hshows₁ hexclusive₁ hstreams hstep
      exact ⟨tmp₂, disk₂, hshows₂, hreach₁.next hstreams' hstep'⟩

/-- What a store is opened with. -/
structure Opened (F : FileSetup G) (files : Files)
    (disk : ∀ r, Option (Checkpoint (G.runner r).State)) (f : FileWorld G κ) : Prop where
  kept : f.files = files
  shows : Shows F files (fun _ => none) disk
  memory : ∀ r, f.live.store.memory r = (disk r).getD (G.runner r).start
  idle : (f.live.withTables (fun _ => none) disk).Idle

omit [DecidableEq π] [DecidableEq μ] [DecidableEq κ] in
theorem Opened.covers {files : Files} (hopened : Opened F files disk f) :
    (f.live.withTables (fun _ => none) disk).store.Covers :=
  fun r => Nat.le_of_eq (congrArg Checkpoint.lastGlobalPosition (hopened.memory r).symm)

omit [DecidableEq π] [DecidableEq μ] [DecidableEq κ] in
/-- A store that opens has read the checkpoints of all its runners. -/
theorem opened_of_openStore (hall : ∀ r, r ∈ G.runners) {files : Files}
    {readError : π ⊕ μ → Option String} (hopen : openStore F files readError = some f) :
    ∃ disk, Opened F files disk f := by
  unfold openStore at hopen
  split at hopen
  · rename_i hopens
    cases hopen
    have hread : ∀ r, ∃ saved, F.load files (fun _ => none) r = .ok saved := by
      intro r
      have hok := List.all_eq_true.mp hopens r (hall r)
      have hnone : readError r = none := by
        cases herror : readError r with
        | none => rfl
        | some e =>
            rw [FileSetup.load, herror] at hok
            cases hok
      rw [FileSetup.load, hnone] at hok
      cases hload : F.load files (fun _ => none) r with
      | ok saved => exact ⟨saved, rfl⟩
      | error e =>
          rw [FileSetup.load] at hload
          rw [hload] at hok
          cases hok
    choose disk hdisk using hread
    have hshows : Shows F files (fun _ => none) disk := ⟨hdisk, fun r _ h => by cases h⟩
    exact ⟨disk, rfl, hshows, hshows.loaded, fun _ => rfl, fun _ => rfl, rfl⟩
  · cases hopen

/-- Every run of a store over its files, torn writes, crashes and reopening included, is a
run of the live world over tables that show what the files hold. -/
theorem file_runs_refine (hapart : FilesApart F.cwd F.baseDir G)
    (hjson : ∀ r, (F.json r).RoundTrips) (hall : ∀ r, r ∈ G.runners) {files : Files}
    {readError : π ⊕ μ → Option String} {f₀ : FileWorld G κ}
    (hopen : openStore F files readError = some f₀) {log : List RecordedEvent}
    (hreach : Reaches (step C F cfg) (Streams log) f₀ f) :
    ∃ disk₀ tmp disk, Opened F files disk₀ f₀ ∧ Shows F f.files tmp disk ∧
      Reaches (LiveWorld.step C cfg) (LiveWorld.Streams log)
        (f₀.live.withTables (fun _ => none) disk₀) (f.live.withTables tmp disk) := by
  obtain ⟨disk₀, hopened⟩ := opened_of_openStore hall hopen
  obtain ⟨tmp, disk, hshows, hrun⟩ := simulated_run hapart hjson (hopened.kept ▸ hopened.shows)
    (hopened.idle.exclusive hopened.covers) hreach
  exact ⟨disk₀, tmp, disk, hopened, hshows, hrun⟩

/-- Whatever happens to a store that was opened on files whose checkpoints are folds of the
log, or corrupt, or missing: it can be opened again; what it starts from is then the fold
of the log below its cursor, and this cursor never goes back. -/
theorem checkpoints_survive_restarts (hapart : FilesApart F.cwd F.baseDir G)
    (hjson : ∀ r, (F.json r).RoundTrips) (hall : ∀ r, r ∈ G.runners) {files : Files}
    {readError : π ⊕ μ → Option String} {f₀ : FileWorld G κ}
    (hopen : openStore F files readError = some f₀) {log : List RecordedEvent}
    (hlog : Increasing RecordedEvent.globalPosition log)
    (hfiles : ∀ r checkpoint, F.load files (fun _ => none) r = .ok (some checkpoint) →
      (G.runner r).Consistent C log checkpoint)
    (hreach : Reaches (step C F cfg) (Streams log) f₀ f)
    (hreach' : Reaches (step C F cfg) (Streams log) f f') :
    F.opens f'.files (fun _ => none) = true ∧ ∀ r,
      (G.runner r).Consistent C log (F.loaded f'.files r) ∧
      (G.runner r).Consistent C log (f'.live.store.memory r) ∧
      (F.loaded f.files r).lastGlobalPosition ≤
        (F.loaded f'.files r).lastGlobalPosition ∧
      (F.loaded f'.files r).lastGlobalPosition ≤
        (f'.live.store.memory r).lastGlobalPosition := by
  obtain ⟨disk₀, tmp, disk, hopened, hshows, hrun⟩ :=
    file_runs_refine hapart hjson hall hopen hreach
  have hidle := hopened.idle
  have hstart : (f₀.live.withTables (fun _ => none) disk₀).store.Consistent C log := by
    have hdisk : ∀ r, ∀ checkpoint ∈ disk₀ r, (G.runner r).Consistent C log checkpoint :=
      fun r checkpoint hsome => hfiles r checkpoint
        ((hopened.shows.disk r).trans (congrArg Except.ok hsome))
    refine ⟨fun r => ?_, fun r _ h => (by cases h), hdisk⟩
    change (G.runner r).Consistent C log (f₀.live.store.memory r)
    rw [hopened.memory r]
    cases hsaved : disk₀ r with
    | none => exact Runner.start_consistent _ _
    | some checkpoint => exact hdisk r checkpoint hsaved
  obtain ⟨hexclusive, -⟩ := LiveWorld.exclusive_of_reaches (I := fun _ => True)
    (hidle.exclusive hopened.covers) (fun _ _ => trivial) hrun
  obtain ⟨tmp', disk', hshows', hrun'⟩ := simulated_run hapart hjson hshows hexclusive hreach'
  obtain ⟨hexclusive', hadvances⟩ :=
    LiveWorld.exclusive_of_reaches hexclusive (fun _ _ => trivial) hrun'
  have hfolds := (LiveWorld.folds_of_reaches hlog hidle hstart (hrun.trans hrun')).store
  have hpersisted : ∀ (g : FileWorld G κ) (tmp disk) (hshows : Shows F g.files tmp disk) r,
      (F.loaded g.files r).lastGlobalPosition =
        (g.live.withTables tmp disk).store.persisted r := by
    intro g tmp disk hshows r
    rw [hshows.loaded r]
    rfl
  refine ⟨List.all_eq_true.mpr fun r _ => by rw [hshows'.disk r]; rfl, fun r => ?_⟩
  rw [hpersisted f tmp disk hshows, hpersisted f' tmp' disk' hshows']
  refine ⟨?_, hfolds.memory r, hadvances.persisted r, hexclusive'.covers r⟩
  rw [hshows'.loaded r]
  cases hsaved : disk' r with
  | none => exact Runner.start_consistent _ _
  | some checkpoint => exact hfolds.disk r checkpoint hsaved

end FileWorld

namespace FileWorldWitness

open FileWorld LiveWitness LiveWorld

/-- Two unary numbers as the text of a checkpoint. -/
def unary : CheckpointJson Nat where
  toStringPretty checkpoint := .ok (String.ofList (List.replicate checkpoint.state 'x' ++
    ',' :: List.replicate checkpoint.lastGlobalPosition 'x'))
  fromStr text :=
    match text.toList.dropWhile (· == 'x') with
    | ',' :: cursor => some ⟨(text.toList.takeWhile (· == 'x')).length, cursor.length⟩
    | _ => none

theorem unary_roundTrips : unary.RoundTrips := by
  intro checkpoint text htext
  cases htext
  have hx : ∀ c ∈ List.replicate checkpoint.state 'x', (c == 'x') = true := by
    intro c hc
    rw [List.eq_of_mem_replicate hc]
    rfl
  simp only [unary, String.toList_ofList, List.dropWhile_append_of_pos hx,
    List.takeWhile_append_of_pos hx, List.dropWhile_cons, List.takeWhile_cons]
  simp

abbrev wholeShop : Registry Unit Manager := shop [()] [.billing, .audit]

def setup : FileSetup wholeShop where
  json
    | .inl _ => unary
    | .inr .billing => unary
    | .inr .audit => unary
  cwd := []
  baseDir := "/var".toList

theorem setup_roundTrips (r : Unit ⊕ Manager) : (setup.json r).RoundTrips := by
  rcases r with _ | _ | _
  all_goals exact unary_roundTrips

theorem setup_apart : FilesApart setup.cwd setup.baseDir wholeShop := by
  refine (filesApart_iff ?_).mpr ⟨fun _ _ _ => rfl, ?_⟩
  · intro r
    have hplain : ∀ name ∈ ["orders-seen", "billing", "audit"],
        '/' ∉ name.toList ∧ name.toList ≠ [] ∧ name.toList ≠ dot ∧ name.toList ≠ dotDot := by
      decide
    rcases r with _ | _ | _
    · exact hplain "orders-seen" (by decide)
    · exact hplain "billing" (by decide)
    · exact hplain "audit" (by decide)
  · rintro (_ | _) (_ | _) hname
    · rfl
    · exact absurd hname (by decide)
    · exact absurd hname (by decide)
    · rfl

theorem wholeShop_registered (r : Unit ⊕ Manager) : r ∈ wholeShop.runners := by
  rcases r with _ | _ | _ <;> simp [Registry.runners, shop]

/-- `Streams`, evaluated. -/
def fileStreams (f : FileWorld wholeShop Unit) : FileAction Unit Manager Unit → Bool
  | .live a => streams f.live a
  | _ => true

theorem fileStreams_sound (f : FileWorld wholeShop Unit) (a : FileAction Unit Manager Unit)
    (hcheck : fileStreams f a = true) : f.Streams orderLog a := by
  cases a with
  | live b => exact streams_sound _ _ hcheck
  | _ => trivial

/-- A projection catches up and is saved to its file. -/
def savingFile : List (FileAction Unit Manager Unit) :=
  (.call () (.projection ()) :: polls (.caller ())
    [.done, .done, delivery, .done, .done, .done]).map .live ++
      [.write (.caller ()) .written, .rename (.caller ()) none]

/-- The process crashes after the save, and opens its store again. -/
theorem savingFile_runs : ∃ f₀ f₁ f₂ : FileWorld wholeShop Unit,
    openStore setup (fun _ => none) (fun _ => none) = some f₀ ∧
    runActions (step crates setup delays) f₀ savingFile = some f₁ ∧
    AllOk (step crates setup delays) (Streams orderLog) f₀ savingFile ∧
    f₁.step crates setup delays (.crash fun _ => none) = some f₂ ∧
    f₂.live.store.memory (.inl ()) = ⟨(1 : Nat), 1⟩ :=
  ⟨_, _, _, rfl, rfl, allOk_of_checks fileStreams_sound rfl, rfl, rfl⟩

theorem file_runs_refine_saving :
    ∃ f₀ f₁ : FileWorld wholeShop Unit,
      runActions (step crates setup delays) f₀ savingFile = some f₁ ∧
      ∃ disk₀ tmp disk, Opened setup (fun _ => none) disk₀ f₀ ∧ Shows setup f₁.files tmp disk ∧
        Reaches (LiveWorld.step crates delays) (LiveWorld.Streams orderLog)
          (f₀.live.withTables (fun _ => none) disk₀) (f₁.live.withTables tmp disk) := by
  obtain ⟨f₀, f₁, -, hopen, hrun, hok, -⟩ := savingFile_runs
  exact ⟨f₀, f₁, hrun, file_runs_refine setup_apart setup_roundTrips wholeShop_registered hopen
    (.run .start savingFile hok hrun)⟩

theorem checkpoints_survive_restarts_saving :
    ∃ f₁ f₂ : FileWorld wholeShop Unit,
      f₁.step crates setup delays (.crash fun _ => none) = some f₂ ∧
      f₂.live.store.memory (.inl ()) = ⟨(1 : Nat), 1⟩ ∧
      setup.opens f₂.files (fun _ => none) = true ∧
      (Runner.projection ordersSeen).Consistent crates orderLog (f₂.live.store.memory (.inl ())) ∧
      (setup.loaded f₁.files (.inl ())).lastGlobalPosition ≤
        (setup.loaded f₂.files (.inl ())).lastGlobalPosition := by
  obtain ⟨f₀, f₁, f₂, hopen, hrun, hok, hcrash, hmemory⟩ := savingFile_runs
  have hreach : Reaches (step crates setup delays) (Streams orderLog) f₀ f₁ :=
    .run .start savingFile hok hrun
  have hreach' : Reaches (step crates setup delays) (Streams orderLog) f₁ f₂ :=
    .next (a := .crash fun _ => none) .start trivial hcrash
  obtain ⟨hopens, hall⟩ := checkpoints_survive_restarts setup_apart setup_roundTrips
    wholeShop_registered hopen orderLog_increasing (fun r checkpoint hload => by cases hload)
    hreach hreach'
  obtain ⟨-, hfold, hforward, -⟩ := hall (.inl ())
  exact ⟨f₁, f₂, hcrash, hmemory, hopens, hfold, hforward⟩

end FileWorldWitness

end EventfoldEs
