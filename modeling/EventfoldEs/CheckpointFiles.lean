/-
The checkpoint files of the runners: where they are kept, what saving and loading
does to them, and when no two runners share a file.
-/
import EventfoldEs.Live
import EventfoldEs.EventCodec
import EventfoldEs.SnapshotPath

namespace EventfoldEs

open LexicalPath

/-- `serde_json` on the checkpoints of one state type. -/
structure CheckpointJson (S : Type) where
  toStringPretty : Checkpoint S → Except String String
  fromStr : String → Option (Checkpoint S)

/-- What is written can be read back. -/
def CheckpointJson.RoundTrips {S : Type} (json : CheckpointJson S) : Prop :=
  ∀ checkpoint text, json.toStringPretty checkpoint = .ok text →
    json.fromStr text = some checkpoint

abbrev Files := List Name → Option ByteArray

/-- The name of a runner, and the directory of its kind. -/
def Runner.name : Runner → String
  | .projection P => P.name
  | .processManager PM => PM.name

def Runner.kindDir : Runner → Name
  | .projection _ => "projections".toList
  | .processManager _ => "process_managers".toList

/-- Where the builder has the checkpoint of a runner kept. -/
def runnerDir (baseDir : List Char) (R : Runner) : List Char :=
  join (join baseDir R.kindDir) R.name.toList

/-- `dir.join("checkpoint.json")`. -/
def checkpointFile (cwd : List Name) (dir : List Char) : List Name :=
  resolve cwd (join dir "checkpoint.json".toList)

/-- `dir.join("checkpoint.json.tmp")`. -/
def checkpointTmpFile (cwd : List Name) (dir : List Char) : List Name :=
  resolve cwd (join dir "checkpoint.json.tmp".toList)

/-- How far the writing of a temporary file gets. -/
inductive WriteOutcome
  | createDirFails (error : String)
  | writeFails (error : String) (left : Option ByteArray)
  | written

section Saving

variable {S : Type} (json : CheckpointJson S) (cwd : List Name) (dir : List Char)

/-- `save_checkpoint` and `save_pm_checkpoint` up to the rename.  A write that fails can
leave anything in the temporary file. -/
def writeTmpFile (checkpoint : Checkpoint S) (outcome : WriteOutcome) (files : Files) :
    Except String Unit × Files :=
  match outcome, json.toStringPretty checkpoint with
  | .createDirFails e, _ => (.error e, files)
  | _, .error e => (.error e, files)
  | .writeFails e left, .ok _ =>
      (.error e, Function.update files (checkpointTmpFile cwd dir) left)
  | .written, .ok text =>
      (.ok (), Function.update files (checkpointTmpFile cwd dir) (some text.toUTF8))

/-- The rename that ends both. -/
def renameTmpFile (failure : Option String) (files : Files) : Except String Unit × Files :=
  match failure, files (checkpointTmpFile cwd dir) with
  | some e, _ => (.error e, files)
  | none, none => (.error "No such file or directory", files)
  | none, some bytes => (.ok (), Function.update
      (Function.update files (checkpointTmpFile cwd dir) none)
      (checkpointFile cwd dir) (some bytes))

/-- `load_checkpoint` and `load_pm_checkpoint`: a missing or corrupt file is no error, one
that cannot be read as text is. -/
def loadCheckpoint (readError : Option String) (files : Files) :
    Except String (Option (Checkpoint S)) :=
  match readError, files (checkpointFile cwd dir) with
  | some e, _ => .error e
  | none, none => .ok none
  | none, some bytes =>
      match String.fromUTF8? bytes with
      | none => .error "stream did not contain valid UTF-8"
      | some text => .ok (json.fromStr text)

end Saving

section Apart

variable {cwd : List Name} {baseDir : List Char}

theorem checkpointFile_eq (cwd : List Name) (dir : List Char) :
    checkpointFile cwd dir = "checkpoint.json".toList :: resolve cwd dir := by
  rw [checkpointFile, resolve_join (by decide)]
  rfl

theorem checkpointTmpFile_eq (cwd : List Name) (dir : List Char) :
    checkpointTmpFile cwd dir = "checkpoint.json.tmp".toList :: resolve cwd dir := by
  rw [checkpointTmpFile, resolve_join (by decide)]
  rfl

theorem checkpointFile_ne_tmp (cwd : List Name) (dir dir' : List Char) :
    checkpointFile cwd dir ≠ checkpointTmpFile cwd dir' := by
  rw [checkpointFile_eq, checkpointTmpFile_eq]
  intro heq
  exact absurd (List.cons.inj heq).1 (by decide)

/-- A plain name is a directory of its own below that of its kind. -/
theorem resolve_runnerDir {R : Runner} (hname : PlainName R.name) :
    resolve cwd (runnerDir baseDir R) =
      R.name.toList :: R.kindDir :: resolve cwd baseDir := by
  obtain ⟨hslash, hne, hdot, hup⟩ := hname
  have hrelative : isAbsolute R.name.toList = false := by
    cases htext : R.name.toList with
    | nil => rfl
    | cons c cs =>
        have hc : c ≠ '/' := fun h => hslash (by rw [htext, h]; exact List.mem_cons_self)
        simp [isAbsolute, hc]
  have hkind : resolve cwd (join baseDir R.kindDir) = R.kindDir :: resolve cwd baseDir := by
    have hprojections : isAbsolute "projections".toList = false := by decide
    have hmanagers : isAbsolute "process_managers".toList = false := by decide
    cases R with
    | projection P => exact resolve_join hprojections
    | processManager PM => exact resolve_join hmanagers
  rw [runnerDir, resolve_join hrelative, hkind, List.splitOn_eq_singleton hslash, walk_cons,
    enter, if_neg (by simp [hne, hdot]), if_neg hup]
  rfl

variable {S : Type} {json : CheckpointJson S} {dir : List Char} {files : Files}

/-- A write that says it has gone through has; one that says it has not leaves all other
files alone. -/
theorem writeTmpFile_cases (json : CheckpointJson S) (cwd : List Name) (dir : List Char)
    (files : Files) (checkpoint : Checkpoint S) (outcome : WriteOutcome) :
    (∃ e left, writeTmpFile json cwd dir checkpoint outcome files =
        (.error e, Function.update files (checkpointTmpFile cwd dir) left)) ∨
      ∃ text, json.toStringPretty checkpoint = .ok text ∧
        writeTmpFile json cwd dir checkpoint outcome files = (.ok (),
          Function.update files (checkpointTmpFile cwd dir) (some text.toUTF8)) := by
  have hsame : ∀ e, (∃ e' left, ((.error e, files) : Except String Unit × Files) =
      (.error e', Function.update files (checkpointTmpFile cwd dir) left)) :=
    fun e => ⟨e, files (checkpointTmpFile cwd dir), by rw [Function.update_eq_self]⟩
  unfold writeTmpFile
  cases htext : json.toStringPretty checkpoint with
  | error e => cases outcome <;> exact Or.inl (hsame _)
  | ok text =>
      cases outcome with
      | createDirFails e => exact Or.inl (hsame e)
      | writeFails e left => exact Or.inl ⟨e, left, rfl⟩
      | written => exact Or.inr ⟨text, rfl, rfl⟩

/-- A rename either fails and changes nothing, or moves the temporary file. -/
theorem renameTmpFile_cases (cwd : List Name) (dir : List Char) (files : Files)
    (failure : Option String) :
    (∃ e, renameTmpFile cwd dir failure files = (.error e, files)) ∨
      ∃ bytes, files (checkpointTmpFile cwd dir) = some bytes ∧
        renameTmpFile cwd dir failure files = (.ok (), Function.update
          (Function.update files (checkpointTmpFile cwd dir) none)
          (checkpointFile cwd dir) (some bytes)) := by
  unfold renameTmpFile
  cases failure with
  | some e => exact Or.inl ⟨e, rfl⟩
  | none =>
      cases hfile : files (checkpointTmpFile cwd dir) with
      | none => exact Or.inl ⟨_, rfl⟩
      | some bytes => exact Or.inr ⟨bytes, rfl, rfl⟩

/-- What is loaded depends on the one file. -/
theorem loadCheckpoint_congr {files' : Files} (readError : Option String)
    (hsame : files' (checkpointFile cwd dir) = files (checkpointFile cwd dir)) :
    loadCheckpoint json cwd dir readError files' =
      loadCheckpoint json cwd dir readError files := by
  unfold loadCheckpoint
  rw [hsame]

/-- A file that holds the text of a checkpoint is loaded as that checkpoint. -/
theorem loadCheckpoint_of_text (hjson : json.RoundTrips) {checkpoint : Checkpoint S}
    {text : String} (htext : json.toStringPretty checkpoint = .ok text)
    (hfile : files (checkpointFile cwd dir) = some text.toUTF8) :
    loadCheckpoint json cwd dir none files = .ok (some checkpoint) := by
  unfold loadCheckpoint
  rw [hfile]
  simp only [utf8_bytes_decode, hjson checkpoint text htext]

variable {π μ : Type} {G : Registry π μ}

/-- No two runners keep their checkpoints in one directory. -/
def FilesApart (cwd : List Name) (baseDir : List Char) (G : Registry π μ) : Prop :=
  ∀ r r', resolve cwd (runnerDir baseDir (G.runner r)) =
    resolve cwd (runnerDir baseDir (G.runner r')) → r = r'

/-- Plain names: directories are shared exactly by namesakes of one kind. -/
theorem filesApart_iff (hplain : ∀ r, PlainName (G.runner r).name) :
    FilesApart cwd baseDir G ↔
      (∀ p p', (G.projection p).name = (G.projection p').name → p = p') ∧
        ∀ m m', (G.processManager m).name = (G.processManager m').name → m = m' := by
  have hdir : ∀ r r', resolve cwd (runnerDir baseDir (G.runner r)) =
      resolve cwd (runnerDir baseDir (G.runner r')) ↔
        (G.runner r).name = (G.runner r').name ∧
          (G.runner r).kindDir = (G.runner r').kindDir := by
    intro r r'
    rw [resolve_runnerDir (hplain r), resolve_runnerDir (hplain r')]
    simp only [List.cons.injEq, String.toList_inj, and_true]
  constructor
  · intro hapart
    refine ⟨fun p p' hname => ?_, fun m m' hname => ?_⟩
    · exact Sum.inl.inj (hapart (.inl p) (.inl p') ((hdir _ _).mpr ⟨hname, rfl⟩))
    · exact Sum.inr.inj (hapart (.inr m) (.inr m') ((hdir _ _).mpr ⟨hname, rfl⟩))
  · rintro ⟨hprojections, hmanagers⟩ r r' hsame
    obtain ⟨hname, hkind⟩ := (hdir r r').mp hsame
    have hkinds : "projections".toList ≠ "process_managers".toList := by decide
    rcases r with p | m <;> rcases r' with p' | m'
    · exact congrArg _ (hprojections p p' hname)
    · exact absurd hkind hkinds
    · exact absurd hkind.symm hkinds
    · exact congrArg _ (hmanagers m m' hname)

end Apart

end EventfoldEs
