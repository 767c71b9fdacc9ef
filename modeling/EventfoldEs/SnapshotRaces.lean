/-
Saves of one snapshot that overlap.  All calls of `save_snapshot` for one identity write
the same temporary file, so that a call may write or rename what another one has opened.
-/
import EventfoldEs.ActorRestart
import EventfoldEs.SnapshotPath
import EventfoldEs.Lib.NamedFiles

namespace EventfoldEs

open Async

/-- `snapshot.json` and `snapshot.json.tmp` of one identity. -/
inductive SnapshotFile
  | json
  | tmp
deriving DecidableEq

/-- How far a call of `save_snapshot` has come.  One that is writing has the temporary
file open. -/
inductive SaveCall (S : Type)
  | begun (snapshot : Snapshot S)
  | creating (snapshot : Snapshot S) (bytes : List UInt8)
  | writing (snapshot : Snapshot S) (bytes : List UInt8) (file : Nat)
  | moving (snapshot : Snapshot S)
  | returned (ok : Bool)

/-- The files of an identity and the calls that save it, in this process or another one.
It is remembered what was given to a call, and whose rename was the last to succeed. -/
structure SaveWorld (S κ : Type) where
  files : NamedFiles SnapshotFile UInt8
  calls : κ → Option (SaveCall S)
  given : List (Snapshot S)
  renamed : Option (Snapshot S)

/-- One file operation of a call, which may fail; a write may fail after some of the
bytes.  A call dies with its process. -/
inductive SaveAction (S κ : Type)
  | save (k : κ) (snapshot : Snapshot S)
  | createDirAll (k : κ) (failed : Bool)
  | create (k : κ) (failed : Bool)
  | write (k : κ) (cut : Option Nat)
  | rename (k : κ) (failed : Bool)
  | die (k : κ)

def bytesOf (bytes : List UInt8) : ByteArray := ⟨⟨bytes⟩⟩

def SaveCall.inProgress {S : Type} : SaveCall S → Bool
  | .returned _ => false
  | _ => true

namespace SaveWorld

variable {S κ : Type} [DecidableEq κ] (json : SnapshotJson S)

def setCall (w : SaveWorld S κ) (k : κ) (call : Option (SaveCall S)) : SaveWorld S κ :=
  { w with calls := Function.update w.calls k call }

def step (w : SaveWorld S κ) : SaveAction S κ → Option (SaveWorld S κ)
  | .save k snapshot =>
      if (w.calls k).any SaveCall.inProgress then none
      else some { w.setCall k (some (.begun snapshot)) with given := w.given ++ [snapshot] }
  | .createDirAll k failed =>
      match w.calls k with
      | some (.begun snapshot) =>
          if failed then some (w.setCall k (some (.returned false)))
          else match json.toVecPretty snapshot with
            | some bytes => some (w.setCall k (some (.creating snapshot bytes.data.toList)))
            | none => some (w.setCall k (some (.returned false)))
      | _ => none
  | .create k failed =>
      match w.calls k with
      | some (.creating snapshot bytes) =>
          if failed then some (w.setCall k (some (.returned false)))
          else some { w.setCall k (some (.writing snapshot bytes (w.files.create .tmp).1)) with
            files := (w.files.create .tmp).2 }
      | _ => none
  | .write k cut =>
      match w.calls k with
      | some (.writing snapshot bytes file) =>
          match cut with
          | none => some { w.setCall k (some (.moving snapshot)) with
              files := w.files.write file bytes }
          | some n => some { w.setCall k (some (.returned false)) with
              files := w.files.write file (bytes.take n) }
      | _ => none
  | .rename k failed =>
      match w.calls k with
      | some (.moving snapshot) =>
          match (if failed then none else w.files.rename .tmp .json) with
          | none => some (w.setCall k (some (.returned false)))
          | some files => some { w.setCall k (some (.returned true)) with
              files, renamed := some snapshot }
      | _ => none
  | .die k => some (w.setCall k none)

/-- `load_snapshot`. -/
def load (w : SaveWorld S κ) : Option String → Except String (Option (Snapshot S))
  | some message => .error message
  | none => .ok ((w.files.read .json).bind fun bytes => json.fromSlice (bytesOf bytes))

/-- No snapshot yet, and no calls. -/
def fresh : SaveWorld S κ := ⟨.empty, fun _ => none, [], none⟩

section Steps

variable {S κ : Type} [DecidableEq κ] {json : SnapshotJson S} {w w' : SaveWorld S κ}

/-- Everything that a step can do. -/
inductive Stepped (json : SnapshotJson S) (w : SaveWorld S κ) :
    SaveAction S κ → SaveWorld S κ → Prop
  | begun {k : κ} {snapshot : Snapshot S}
      (hfree : ∀ call, w.calls k = some call → call.inProgress = false) :
      Stepped json w (.save k snapshot)
        { w.setCall k (some (.begun snapshot)) with given := w.given ++ [snapshot] }
  | readied {k : κ} {snapshot : Snapshot S} {bytes : ByteArray}
      (hcall : w.calls k = some (.begun snapshot))
      (htext : json.toVecPretty snapshot = some bytes) :
      Stepped json w (.createDirAll k false)
        (w.setCall k (some (.creating snapshot bytes.data.toList)))
  | opened {k : κ} {snapshot : Snapshot S} {bytes : List UInt8}
      (hcall : w.calls k = some (.creating snapshot bytes)) :
      Stepped json w (.create k false)
        { w.setCall k (some (.writing snapshot bytes (w.files.create .tmp).1)) with
          files := (w.files.create .tmp).2 }
  | written {k : κ} {snapshot : Snapshot S} {bytes : List UInt8} {file : Nat}
      (hcall : w.calls k = some (.writing snapshot bytes file)) :
      Stepped json w (.write k none)
        { w.setCall k (some (.moving snapshot)) with files := w.files.write file bytes }
  | cut {k : κ} {snapshot : Snapshot S} {bytes : List UInt8} {file n : Nat}
      (hcall : w.calls k = some (.writing snapshot bytes file)) :
      Stepped json w (.write k (some n))
        { w.setCall k (some (.returned false)) with
          files := w.files.write file (bytes.take n) }
  | renamed {k : κ} {snapshot : Snapshot S} {file : Nat}
      (hcall : w.calls k = some (.moving snapshot))
      (hentry : w.files.entries .tmp = some file) :
      Stepped json w (.rename k false)
        { w.setCall k (some (.returned true)) with
          files := w.files.move .tmp .json, renamed := some snapshot }
  | stopped {k : κ} {a : SaveAction S κ} {call : Option (SaveCall S)}
      (hcall : call = none ∨ call = some (.returned false)) :
      Stepped json w a (w.setCall k call)

theorem stepped {a : SaveAction S κ} (hstep : w.step json a = some w') :
    Stepped json w a w' := by
  cases a with
  | save k snapshot =>
      simp only [step] at hstep
      split at hstep
      · cases hstep
      · rename_i hfree
        cases hstep
        refine .begun fun call hcall => ?_
        simpa [hcall] using hfree
  | createDirAll k failed =>
      simp only [step] at hstep
      split at hstep
      · rename_i hcall
        cases failed with
        | true =>
            cases hstep
            exact .stopped (Or.inr rfl)
        | false =>
            simp only [Bool.false_eq_true, if_false] at hstep
            split at hstep
            · rename_i htext
              cases hstep
              exact .readied hcall htext
            · cases hstep
              exact .stopped (Or.inr rfl)
      · cases hstep
  | create k failed =>
      simp only [step] at hstep
      split at hstep
      · rename_i hcall
        cases failed with
        | true =>
            cases hstep
            exact .stopped (Or.inr rfl)
        | false =>
            cases hstep
            exact .opened hcall
      · cases hstep
  | write k cut =>
      simp only [step] at hstep
      split at hstep
      · rename_i hcall
        cases cut with
        | none =>
            cases hstep
            exact .written hcall
        | some n =>
            cases hstep
            exact .cut hcall
      · cases hstep
  | rename k failed =>
      simp only [step] at hstep
      split at hstep
      · rename_i hcall
        split at hstep
        · cases hstep
          exact .stopped (Or.inr rfl)
        · rename_i files hfiles
          cases failed with
          | true => cases hfiles
          | false =>
              obtain ⟨rfl, file, hentry⟩ := NamedFiles.rename_cases hfiles
              cases hstep
              exact .renamed hcall hentry
      · cases hstep
  | die k =>
      cases hstep
      exact .stopped (Or.inl rfl)

end Steps

end SaveWorld

section Races

variable {S κ : Type} [DecidableEq κ] {json : SnapshotJson S} {closing : UInt8}
  {w w' : SaveWorld S κ} {given given' : List (Snapshot S)}

/-- A text that ends in nothing but closing brackets, if it is not empty. -/
def Closed (closing : UInt8) (content : List UInt8) : Prop :=
  content = [] ∨ content.getLast? = some closing

/-- The text of a snapshot that was given, and what it did not cover of an older one. -/
def TextOver (json : SnapshotJson S) (closing : UInt8) (given : List (Snapshot S))
    (content : List UInt8) : Prop :=
  content = [] ∨ ∃ snapshot ∈ given, ∃ bytes rest,
    json.toVecPretty snapshot = some (bytesOf bytes) ∧ Closed closing rest ∧
      content = bytes ++ rest

/-- The beginning of the text of a snapshot. -/
def TextCut (json : SnapshotJson S) (content : List UInt8) : Prop :=
  ∃ snapshot bytes n, json.toVecPretty snapshot = some (bytesOf bytes) ∧
    n < bytes.length ∧ content = bytes.take n

/-- What a call is about to write is the text of a snapshot that was given. -/
def SaveCall.Of (json : SnapshotJson S) (given : List (Snapshot S)) : SaveCall S → Prop
  | .begun snapshot | .moving snapshot => snapshot ∈ given
  | .creating snapshot bytes | .writing snapshot bytes _ =>
      snapshot ∈ given ∧ json.toVecPretty snapshot = some (bytesOf bytes)
  | .returned _ => True

namespace SaveWorld

/-- Some call has the file open. -/
def OpenBy (w : SaveWorld S κ) (k : κ) (file : Nat) : Prop :=
  ∃ snapshot bytes, w.calls k = some (.writing snapshot bytes file)

/-- A write ends halfway only in a file that nobody else has written to or is about to. -/
def CutsAlone (w : SaveWorld S κ) : SaveAction S κ → Prop
  | .write k (some _) => ∀ file, w.OpenBy k file →
      w.files.contents file = [] ∧ ∀ j, w.OpenBy j file → j = k
  | _ => True

/-- What the files can hold, however the calls interleave. -/
structure Sound (json : SnapshotJson S) (closing : UInt8) (w : SaveWorld S κ) : Prop where
  calls : ∀ k call, w.calls k = some call → call.Of json w.given
  files : ∀ file, TextOver json closing w.given (w.files.contents file) ∨
    (TextCut json (w.files.contents file) ∧ ∀ k, ¬ w.OpenBy k file)

end SaveWorld

/-- What is assumed of `serde_json`: the text of a snapshot is read back, no text goes on
after it, and a part of it is no text. -/
structure SnapshotJson.Strict (json : SnapshotJson S) (closing : UInt8) : Prop where
  reads : ∀ {snapshot bytes}, json.toVecPretty snapshot = some bytes →
    json.fromSlice bytes = some snapshot
  closed : ∀ {snapshot bytes}, json.toVecPretty snapshot = some (bytesOf bytes) →
    bytes.getLast? = some closing
  trailing : ∀ {snapshot bytes rest}, json.toVecPretty snapshot = some (bytesOf bytes) →
    rest.getLast? = some closing → json.fromSlice (bytesOf (bytes ++ rest)) = none
  cut : ∀ {snapshot bytes n}, json.toVecPretty snapshot = some (bytesOf bytes) →
    n < bytes.length → json.fromSlice (bytesOf (bytes.take n)) = none
  empty : json.fromSlice (bytesOf []) = none

theorem Closed.drop {content : List UInt8} (hclosed : Closed closing content) (n : Nat) :
    Closed closing (content.drop n) := by
  rcases hclosed with rfl | hlast
  · exact Or.inl List.drop_nil
  · by_cases hn : content.length ≤ n
    · exact Or.inl (List.drop_eq_nil_of_le hn)
    · rw [Closed, List.getLast?_drop, if_neg hn]
      exact Or.inr hlast

theorem TextOver.closed (hstrict : json.Strict closing) {content : List UInt8}
    (htext : TextOver json closing given content) : Closed closing content := by
  rcases htext with rfl | ⟨snapshot, -, bytes, rest, hbytes, hrest, rfl⟩
  · exact Or.inl rfl
  · refine Or.inr ?_
    rcases hrest with rfl | hlast
    · rw [List.append_nil]
      exact hstrict.closed hbytes
    · rw [List.getLast?_append, hlast]
      rfl

theorem TextOver.mono (hsub : ∀ snapshot ∈ given, snapshot ∈ given') {content : List UInt8}
    (htext : TextOver json closing given content) : TextOver json closing given' content :=
  htext.imp_right fun ⟨snapshot, hgiven, htext⟩ => ⟨snapshot, hsub snapshot hgiven, htext⟩

/-- Writing a text over such a file leaves such a file. -/
theorem TextOver.overwrite (hstrict : json.Strict closing) {snapshot : Snapshot S}
    {bytes old : List UInt8} (hgiven : snapshot ∈ given)
    (hbytes : json.toVecPretty snapshot = some (bytesOf bytes))
    (hold : TextOver json closing given old) :
    TextOver json closing given (NamedFiles.overwrite bytes old) :=
  Or.inr ⟨snapshot, hgiven, bytes, old.drop bytes.length, hbytes,
    (hold.closed hstrict).drop _, rfl⟩

theorem SaveCall.Of.mono (hsub : ∀ snapshot ∈ given, snapshot ∈ given') {call : SaveCall S}
    (hof : call.Of json given) : call.Of json given' := by
  cases call with
  | begun snapshot => exact hsub _ hof
  | creating snapshot bytes => exact ⟨hsub _ hof.1, hof.2⟩
  | writing snapshot bytes file => exact ⟨hsub _ hof.1, hof.2⟩
  | moving snapshot => exact hsub _ hof
  | returned ok => trivial

namespace SaveWorld

theorem calls_setCall {k j : κ} {call : Option (SaveCall S)} {c : SaveCall S}
    (hj : (w.setCall k call).calls j = some c) :
    (j = k ∧ call = some c) ∨ (j ≠ k ∧ w.calls j = some c) := by
  change Function.update w.calls k call j = some c at hj
  by_cases hjk : j = k
  · rw [hjk, Function.update_self] at hj
    exact Or.inl ⟨hjk, hj⟩
  · rw [Function.update_of_ne hjk] at hj
    exact Or.inr ⟨hjk, hj⟩

/-- A call that turns to something else has no file open any more. -/
theorem openBy_setCall {k j : κ} {call : Option (SaveCall S)} {file : Nat}
    (hcall : ∀ snapshot bytes, call ≠ some (.writing snapshot bytes file))
    (hopen : (w.setCall k call).OpenBy j file) : j ≠ k ∧ w.OpenBy j file := by
  obtain ⟨snapshot, bytes, hj⟩ := hopen
  rcases calls_setCall hj with ⟨-, heq⟩ | ⟨hjk, hj⟩
  · exact absurd heq (hcall snapshot bytes)
  · exact ⟨hjk, snapshot, bytes, hj⟩

/-- The calls of a sound world, after one of them has moved on. -/
theorem Sound.calls_next (hsound : w.Sound json closing) {k : κ}
    {call : Option (SaveCall S)} (hsub : ∀ snapshot ∈ w.given, snapshot ∈ given)
    (hcall : ∀ c, call = some c → c.Of json given) :
    ∀ j c, (w.setCall k call).calls j = some c → c.Of json given := by
  intro j c hj
  rcases calls_setCall hj with ⟨-, heq⟩ | ⟨-, hj⟩
  · exact hcall c heq
  · exact (hsound.calls j c hj).mono hsub

/-- The files of a sound world, when a call turns to something without an open file. -/
theorem Sound.files_kept (hsound : w.Sound json closing) {k : κ}
    {call : Option (SaveCall S)}
    (hcall : ∀ snapshot bytes file, call ≠ some (.writing snapshot bytes file)) (file : Nat) :
    TextOver json closing w.given (w.files.contents file) ∨
      (TextCut json (w.files.contents file) ∧ ∀ j, ¬ (w.setCall k call).OpenBy j file) := by
  refine (hsound.files file).imp_right fun ⟨hcut, hnobody⟩ => ⟨hcut, fun j hopen => ?_⟩
  exact hnobody j (openBy_setCall (hcall · · file) hopen).2

/-- The files that a write leaves alone. -/
theorem Sound.files_other (hsound : w.Sound json closing) {k : κ}
    {call : Option (SaveCall S)}
    (hcall : ∀ snapshot bytes file, call ≠ some (.writing snapshot bytes file))
    {target file : Nat} (bytes : List UInt8) (hfile : file ≠ target) :
    TextOver json closing w.given ((w.files.write target bytes).contents file) ∨
      (TextCut json ((w.files.write target bytes).contents file) ∧
        ∀ j, ¬ (w.setCall k call).OpenBy j file) := by
  rw [NamedFiles.write_other bytes hfile]
  exact hsound.files_kept hcall file

omit [DecidableEq κ] in
theorem sound_fresh :
    (fresh : SaveWorld S κ).Sound json closing where
  calls _ _ h := by cases h
  files _ := Or.inl (Or.inl rfl)

/-- Every step, halfway writes included, keeps the files sound. -/
theorem sound_step (hstrict : json.Strict closing) {a : SaveAction S κ}
    (hsound : w.Sound json closing) (hcuts : w.CutsAlone a)
    (hstep : w.step json a = some w') : w'.Sound json closing := by
  have hself : ∀ snapshot ∈ w.given, snapshot ∈ w.given := fun _ h => h
  cases stepped hstep with
  | @begun k snapshot hfree =>
      have hsub : ∀ s ∈ w.given, s ∈ w.given ++ [snapshot] := fun s hs =>
        List.mem_append_left _ hs
      refine ⟨hsound.calls_next hsub fun c hc => ?_, fun file => ?_⟩
      · cases hc
        exact List.mem_append_right _ List.mem_cons_self
      · exact (hsound.files_kept (k := k) (fun _ _ _ h => by cases h) file).imp_left
          (TextOver.mono hsub)
  | @readied k snapshot bytes hcall htext =>
      refine ⟨hsound.calls_next hself fun c hc => ?_,
        hsound.files_kept fun _ _ _ h => by cases h⟩
      cases hc
      exact ⟨hsound.calls k _ hcall, htext⟩
  | @opened k snapshot bytes hcall =>
      refine ⟨hsound.calls_next hself fun c hc => ?_, fun file => ?_⟩
      · have hof := hsound.calls k _ hcall
        cases hc
        exact hof
      · by_cases hfile : file = (w.files.create .tmp).1
        · subst hfile
          exact Or.inl (Or.inl NamedFiles.create_content)
        · change TextOver json closing w.given ((w.files.create .tmp).2.contents file) ∨
            (TextCut json ((w.files.create .tmp).2.contents file) ∧ _)
          rw [NamedFiles.create_other hfile]
          refine (hsound.files file).imp_right fun ⟨hcut, hnobody⟩ => ⟨hcut, fun j hopen => ?_⟩
          refine hnobody j (openBy_setCall (fun s b heq => hfile ?_) hopen).2
          cases heq
          rfl
  | @written k snapshot bytes target hcall =>
      obtain ⟨hgiven, hbytes⟩ := hsound.calls k _ hcall
      refine ⟨hsound.calls_next hself fun c hc => ?_, fun file => ?_⟩
      · cases hc
        exact hgiven
      · by_cases hfile : file = target
        · subst hfile
          rcases hsound.files file with hold | ⟨-, hnobody⟩
          · refine Or.inl ?_
            change TextOver json closing w.given ((w.files.write file bytes).contents file)
            rw [NamedFiles.write_content]
            exact hold.overwrite hstrict hgiven hbytes
          · exact absurd ⟨snapshot, bytes, hcall⟩ (hnobody k)
        · have hcloses : ∀ s b f, some (SaveCall.moving snapshot) ≠ some (.writing s b f) :=
            fun _ _ _ h => by cases h
          exact hsound.files_other hcloses bytes hfile
  | @cut k snapshot bytes target n hcall =>
      obtain ⟨hgiven, hbytes⟩ := hsound.calls k _ hcall
      obtain ⟨hempty, halone⟩ := hcuts target ⟨snapshot, bytes, hcall⟩
      refine ⟨hsound.calls_next hself fun c hc => ?_, fun file => ?_⟩
      · cases hc
        trivial
      · by_cases hfile : file = target
        · subst hfile
          change TextOver json closing w.given
              ((w.files.write file (bytes.take n)).contents file) ∨
            (TextCut json ((w.files.write file (bytes.take n)).contents file) ∧ _)
          rw [NamedFiles.write_content, hempty, NamedFiles.overwrite_nil]
          by_cases hn : n < bytes.length
          · refine Or.inr ⟨⟨snapshot, bytes, n, hbytes, hn, rfl⟩, fun j hopen => ?_⟩
            obtain ⟨hjk, hopen⟩ := openBy_setCall (fun _ _ h => by cases h) hopen
            exact hjk (halone j hopen)
          · rw [List.take_of_length_le (Nat.le_of_not_lt hn)]
            exact Or.inl (Or.inr ⟨snapshot, hgiven, bytes, [], hbytes, Or.inl rfl,
              (List.append_nil bytes).symm⟩)
        · have hcloses : ∀ s b f, some (SaveCall.returned (S := S) false) ≠ some (.writing s b f) :=
            fun _ _ _ h => by cases h
          exact hsound.files_other hcloses (bytes.take n) hfile
  | @renamed k snapshot file hcall hentry =>
      refine ⟨hsound.calls_next hself fun c hc => ?_,
        hsound.files_kept fun _ _ _ h => by cases h⟩
      cases hc
      trivial
  | @stopped k a call hcall =>
      refine ⟨hsound.calls_next hself fun c hc => ?_, hsound.files_kept fun s b file h => ?_⟩
      · rcases hcall with rfl | rfl
        · cases hc
        · cases hc
          trivial
      · rcases hcall with rfl | rfl
        · cases h
        · cases h

/-- Whatever the calls do to each other's file: what is loaded is a snapshot that was
given to one of them, or nothing. -/
theorem races_lose_but_never_mix (hstrict : json.Strict closing)
    (hreach : Reaches (step json) CutsAlone (fresh : SaveWorld S κ) w)
    (readError : Option String) :
    (∃ message, readError = some message ∧ w.load json readError = .error message) ∨
      w.load json readError = .ok none ∨
        ∃ snapshot ∈ w.given, w.load json readError = .ok (some snapshot) := by
  have hsound : w.Sound json closing :=
    hreach.invariant sound_fresh fun _ _ _ hsound hcuts hstep =>
      sound_step hstrict hsound hcuts hstep
  cases readError with
  | some message => exact Or.inl ⟨message, rfl, rfl⟩
  | none =>
      refine Or.inr ?_
      unfold load
      cases hentry : w.files.entries .json with
      | none =>
          rw [NamedFiles.read, hentry]
          exact Or.inl rfl
      | some file =>
          rw [NamedFiles.read_of_entry hentry, Option.bind_some]
          rcases hsound.files file with (hempty | ⟨snapshot, hgiven, bytes, rest, htext⟩) |
              ⟨⟨snapshot, bytes, n, hbytes, hn, htake⟩, -⟩
          · rw [hempty, hstrict.empty]
            exact Or.inl rfl
          · obtain ⟨hbytes, hrest | hlast, hcontent⟩ := htext
            · rw [hcontent, hrest, List.append_nil, hstrict.reads hbytes]
              exact Or.inr ⟨snapshot, hgiven, rfl⟩
            · rw [hcontent, hstrict.trailing hbytes hlast]
              exact Or.inl rfl
          · rw [htake, hstrict.cut hbytes hn]
            exact Or.inl rfl

end SaveWorld

end Races

section Spawns

variable {C : Crates} {A : Aggregate} {κ : Type} [DecidableEq κ]
  {json : SnapshotJson A.State} {closing : UInt8} {w : SaveWorld A.State κ}

namespace SaveWorld

/-- As long as what the calls are given are replays of prefixes of the stream, no race
between them shows: an actor spawned from what is loaded is as far as one that replays the
whole stream. -/
theorem races_never_change_a_spawn (hstrict : json.Strict closing)
    (hreach : Reaches (step json) CutsAlone (fresh : SaveWorld A.State κ) w)
    {instanceId : String} {s : Server} (hs : s.WellFormed)
    (hgood : ∀ snapshot ∈ w.given,
      snapshot.Good C (s.streams (streamUuid C A.aggregateType instanceId)))
    {readError : Option String} {loaded : Option (Snapshot A.State)}
    (hload : w.load json readError = .ok loaded) :
    (∀ snapshot ∈ loaded, snapshot ∈ w.given) ∧
      spawnOn C A instanceId loaded s = spawnOn C A instanceId none s := by
  have hnone : (∀ snapshot ∈ (none : Option (Snapshot A.State)), snapshot ∈ w.given) ∧
      spawnOn C A instanceId none s = spawnOn C A instanceId none s :=
    ⟨fun _ h => (by cases h), rfl⟩
  rcases races_lose_but_never_mix hstrict hreach readError with
    ⟨message, -, herror⟩ | hlost | ⟨snapshot, hgiven, hfound⟩
  · rw [herror] at hload
    cases hload
  · rw [hlost] at hload
    cases hload
    exact hnone
  · rw [hfound] at hload
    cases hload
    refine ⟨fun found h => ?_, ?_⟩
    · cases h
      exact hgiven
    · have hsame := (restartTransparent_iff hs).mpr (hgood snapshot hgiven).transparent
      exact hsame s (Server.Extends.refl s) hs

end SaveWorld

end Spawns

section InTurn

variable {S κ : Type} [DecidableEq κ] {json : SnapshotJson S} {closing : UInt8}
  {w w' : SaveWorld S κ}

/-- Where a call is with its file, as long as no other call comes in between. -/
def SaveCall.At (json : SnapshotJson S) (files : NamedFiles SnapshotFile UInt8) :
    SaveCall S → Prop
  | .begun _ | .returned _ => True
  | .creating snapshot bytes => json.toVecPretty snapshot = some (bytesOf bytes)
  | .writing snapshot bytes file => json.toVecPretty snapshot = some (bytesOf bytes) ∧
      files.entries .tmp = some file ∧ files.contents file = []
  | .moving snapshot => ∃ bytes, json.toVecPretty snapshot = some (bytesOf bytes) ∧
      files.read .tmp = some bytes

theorem SaveCall.at_of_idle {files : NamedFiles SnapshotFile UInt8} {call : SaveCall S}
    (hidle : call.inProgress = false) : call.At json files := by
  cases call with
  | returned ok => trivial
  | _ => cases hidle

namespace SaveWorld

/-- A save is begun only when no other one is in progress. -/
def Alone (w : SaveWorld S κ) : SaveAction S κ → Prop
  | .save _ _ => ∀ j call, w.calls j = some call → call.inProgress = false
  | _ => True

/-- The file shows the snapshot, or there is neither. -/
def Shown (json : SnapshotJson S) (content : Option (List UInt8)) :
    Option (Snapshot S) → Prop
  | none => content = none
  | some snapshot => ∃ bytes, json.toVecPretty snapshot = some (bytesOf bytes) ∧
      content = some bytes

/-- At most one call is in progress, and only a whole text ever gets the name. -/
structure InTurn (json : SnapshotJson S) (w : SaveWorld S κ) : Prop where
  single : ∀ j k c c', w.calls j = some c → w.calls k = some c' →
    c.inProgress = true → c'.inProgress = true → j = k
  point : ∀ k c, w.calls k = some c → c.At json w.files
  shown : Shown json (w.files.read .json) w.renamed

/-- The call that moves on is the only one in progress. -/
theorem InTurn.next {k : κ} {call : Option (SaveCall S)}
    {files : NamedFiles SnapshotFile UInt8} {given : List (Snapshot S)}
    {renamed : Option (Snapshot S)}
    (hothers : ∀ j c, j ≠ k → w.calls j = some c → c.inProgress = false)
    (hat : ∀ c, call = some c → c.At json files)
    (hshown : Shown json (files.read .json) renamed) :
    InTurn json ⟨files, (w.setCall k call).calls, given, renamed⟩ where
  single i j c c' hi hj hc hc' := by
    have honly : ∀ a b, (w.setCall k call).calls a = some b → b.inProgress = true → a = k := by
      intro a b ha hb
      rcases calls_setCall ha with ⟨hak, -⟩ | ⟨hak, ha⟩
      · exact hak
      · rw [hothers a b hak ha] at hb
        cases hb
    rw [honly i c hi hc, honly j c' hj hc']
  point j c hj := by
    rcases calls_setCall hj with ⟨-, heq⟩ | ⟨hjk, hj⟩
    · exact hat c heq
    · exact SaveCall.at_of_idle (hothers j c hjk hj)
  shown := hshown

omit [DecidableEq κ] in
theorem InTurn.others (hturn : w.InTurn json) {k : κ} {call : SaveCall S}
    (hcall : w.calls k = some call) (hprogress : call.inProgress = true) :
    ∀ j c, j ≠ k → w.calls j = some c → c.inProgress = false := by
  intro j c hjk hj
  by_contra hc
  exact hjk (hturn.single j k c call hj hcall (Bool.eq_true_of_not_eq_false hc) hprogress)

omit [DecidableEq κ] in
theorem inTurn_fresh : (fresh : SaveWorld S κ).InTurn json where
  single _ _ _ _ h := by cases h
  point _ _ h := by cases h
  shown := rfl

theorem inTurn_step {a : SaveAction S κ} (hturn : w.InTurn json) (halone : w.Alone a)
    (hstep : w.step json a = some w') : w'.InTurn json := by
  cases stepped hstep with
  | begun hfree =>
      refine InTurn.next (fun j c _ hj => halone j c hj) (fun c hc => ?_) hturn.shown
      cases hc
      trivial
  | readied hcall htext =>
      refine InTurn.next (hturn.others hcall rfl) (fun c hc => ?_) hturn.shown
      cases hc
      exact htext
  | @opened k snapshot bytes hcall =>
      have hbytes := hturn.point k _ hcall
      refine InTurn.next (hturn.others hcall rfl) (fun c hc => ?_) ?_
      · cases hc
        exact ⟨hbytes, NamedFiles.create_entry, NamedFiles.create_content⟩
      · rw [NamedFiles.read_create_ne (by decide)]
        exact hturn.shown
  | @written k snapshot bytes file hcall =>
      obtain ⟨hbytes, hentry, hempty⟩ := hturn.point k _ hcall
      refine InTurn.next (hturn.others hcall rfl) (fun c hc => ?_) ?_
      · cases hc
        refine ⟨bytes, hbytes, ?_⟩
        have hkept : (w.files.write file bytes).entries .tmp = some file := hentry
        rw [NamedFiles.read_of_entry hkept, NamedFiles.write_content, hempty,
          NamedFiles.overwrite_nil]
      · rw [NamedFiles.read_write_ne hentry (by decide)]
        exact hturn.shown
  | @cut k snapshot bytes file n hcall =>
      obtain ⟨-, hentry, -⟩ := hturn.point k _ hcall
      refine InTurn.next (hturn.others hcall rfl) (fun c hc => ?_) ?_
      · cases hc
        trivial
      · rw [NamedFiles.read_write_ne hentry (by decide)]
        exact hturn.shown
  | @renamed k snapshot file hcall hentry =>
      obtain ⟨bytes, hbytes, hread⟩ := hturn.point k _ hcall
      refine InTurn.next (hturn.others hcall rfl) (fun c hc => ?_) ?_
      · cases hc
        trivial
      · rw [NamedFiles.read_move]
        exact ⟨bytes, hbytes, hread⟩
  | @stopped k a call hcall =>
      have hidle : ∀ c, call = some c → c.inProgress = false := by
        intro c hc
        rcases hcall with rfl | rfl
        · cases hc
        · cases hc
          rfl
      refine ⟨fun i j c c' hi hj hc hc' => ?_, fun j c hj => ?_, hturn.shown⟩
      · rcases calls_setCall hi with ⟨-, heq⟩ | ⟨-, hi⟩
        · rw [hidle c heq] at hc
          cases hc
        · rcases calls_setCall hj with ⟨-, heq⟩ | ⟨-, hj⟩
          · rw [hidle c' heq] at hc'
            cases hc'
          · exact hturn.single i j c c' hi hj hc hc'
      · rcases calls_setCall hj with ⟨-, heq⟩ | ⟨-, hj⟩
        · exact SaveCall.at_of_idle (hidle c heq)
        · exact hturn.point j c hj

/-- One at a time, saves are atomic: whichever operations fail, wherever a write ends and
whichever processes die, the snapshot loaded is the one whose rename was the last to
succeed. -/
theorem saves_in_turn_are_atomic (hstrict : json.Strict closing)
    (hreach : Reaches (step json) Alone (fresh : SaveWorld S κ) w) :
    w.load json none = .ok w.renamed := by
  have hturn : w.InTurn json := hreach.invariant inTurn_fresh
    fun _ _ _ hturn halone hstep => inTurn_step hturn halone hstep
  have hshown := hturn.shown
  unfold load
  cases hrenamed : w.renamed with
  | none =>
      rw [hrenamed] at hshown
      have hread : w.files.read .json = none := hshown
      rw [hread]
      rfl
  | some snapshot =>
      rw [hrenamed] at hshown
      obtain ⟨bytes, hbytes, hread⟩ := hshown
      rw [hread, Option.bind_some, hstrict.reads hbytes]

end SaveWorld

end InTurn

section Lone

variable {S : Identity → Type} {κ : Type} [DecidableEq κ] {json : ∀ i, SnapshotJson (S i)}
  {cwd : List LexicalPath.Name} {baseDir : List Char} {i : Identity} {w : SaveWorld (S i) κ}
  {disk : Disk}

open LexicalPath

namespace SaveWorld

/-- The disk holds the files of the identity as they are here. -/
structure ShownOn (cwd : List Name) (baseDir : List Char) (i : Identity)
    (w : SaveWorld (S i) κ) (disk : Disk) : Prop where
  json : (disk (resolve cwd (snapshotPath baseDir i))).map SavedFile.bytes =
    (w.files.read .json).map bytesOf
  tmp : (disk (resolve cwd (snapshotTmpPath baseDir i))).map SavedFile.bytes =
    (w.files.read .tmp).map bytesOf

/-- The operations of one call that gets as far as the outcome says. -/
inductive LoneSave {T : Type} (k : κ) (snapshot : Snapshot T) (bytes : List UInt8) :
    SaveOutcome → List (SaveAction T κ) → Prop
  | createDirFails : LoneSave k snapshot bytes .createDirFails
      [.save k snapshot, .createDirAll k true]
  | createFails : LoneSave k snapshot bytes (.writeFails none)
      [.save k snapshot, .createDirAll k false, .create k true]
  | writeFails (n : Nat) : LoneSave k snapshot bytes
      (.writeFails (some (bytesOf (bytes.take n))))
      [.save k snapshot, .createDirAll k false, .create k false, .write k (some n)]
  | renameFails : LoneSave k snapshot bytes .renameFails
      [.save k snapshot, .createDirAll k false, .create k false, .write k none,
        .rename k true]
  | saved : LoneSave k snapshot bytes .saved
      [.save k snapshot, .createDirAll k false, .create k false, .write k none,
        .rename k false]

omit [DecidableEq κ] in
/-- With the new file under the temporary name. -/
theorem ShownOn.written (hshown : ShownOn cwd baseDir i w disk) (bytes : List UInt8)
    {w' : SaveWorld (S i) κ}
    (hfiles : w'.files = (w.files.create .tmp).2.write (w.files.create .tmp).1 bytes) :
    ShownOn cwd baseDir i w'
      (Function.update disk (resolve cwd (snapshotTmpPath baseDir i))
        (some ⟨i, bytesOf bytes⟩)) where
  json := by
    rw [Function.update_of_ne (snapshotPath_ne_tmpPath i i), hfiles,
      NamedFiles.read_written_ne bytes (by decide)]
    exact hshown.json
  tmp := by
    rw [Function.update_self, hfiles, NamedFiles.read_written]
    rfl

/-- A call that nothing comes in between does to the files what `saveSnapshot` says. -/
theorem lone_save {k : κ} {snapshot : Snapshot (S i)} {bytes : List UInt8}
    {outcome : SaveOutcome} {acts : List (SaveAction (S i) κ)}
    (htext : (json i).toVecPretty snapshot = some (bytesOf bytes))
    (hfree : w.calls k = none) (hshown : ShownOn cwd baseDir i w disk)
    (hlone : LoneSave k snapshot bytes outcome acts) :
    ∃ w', runActions (step (json i)) w acts = some w' ∧
      ShownOn cwd baseDir i w' (saveSnapshot json cwd baseDir disk i snapshot outcome) := by
  cases hlone with
  | createDirFails =>
      refine ⟨_, by simp [runActions, step, setCall, hfree]; rfl, ?_⟩
      exact ⟨hshown.json, hshown.tmp⟩
  | createFails =>
      refine ⟨_, by simp [runActions, step, setCall, hfree, htext]; rfl, ?_⟩
      simp only [saveSnapshot, htext]
      exact ⟨hshown.json, hshown.tmp⟩
  | writeFails n =>
      refine ⟨_, by simp [runActions, step, setCall, hfree, htext]; rfl, ?_⟩
      simp only [saveSnapshot, htext]
      exact hshown.written _ rfl
  | renameFails =>
      refine ⟨_, by simp [runActions, step, setCall, hfree, htext]; rfl, ?_⟩
      simp only [saveSnapshot, htext]
      exact hshown.written _ rfl
  | saved =>
      have hrename : ((w.files.create .tmp).2.write (w.files.create .tmp).1 bytes).rename
          .tmp .json = some (((w.files.create .tmp).2.write (w.files.create .tmp).1
            bytes).move .tmp .json) :=
        NamedFiles.rename_of_entry NamedFiles.create_entry
      refine ⟨_, by simp [runActions, step, setCall, hfree, htext, bytesOf, hrename]; rfl, ?_⟩
      simp only [saveSnapshot, htext]
      refine ⟨?_, ?_⟩
      · rw [Function.update_self, NamedFiles.read_move, NamedFiles.read_written]
        rfl
      · rw [Function.update_of_ne (snapshotPath_ne_tmpPath i i).symm, Function.update_self,
          NamedFiles.read_moved_from (by decide)]
        rfl

omit [DecidableEq κ] in
theorem ShownOn.load (hshown : ShownOn cwd baseDir i w disk) (readError : Option String) :
    (loadSnapshot json cwd baseDir disk i readError).map (Option.map Prod.snd) =
      w.load (json i) readError := by
  cases readError with
  | some message => rfl
  | none =>
      have hjson := hshown.json
      unfold loadSnapshot SaveWorld.load
      cases hdisk : disk (resolve cwd (snapshotPath baseDir i)) with
      | none =>
          rw [hdisk, Option.map_none] at hjson
          rw [Option.map_eq_none_iff.mp hjson.symm]
          rfl
      | some file =>
          rw [hdisk, Option.map_some] at hjson
          obtain ⟨bytes, hread, hbytes⟩ := Option.map_eq_some_iff.mp hjson.symm
          rw [hread, Option.bind_some, hbytes]
          exact congrArg Except.ok (by rw [Option.map_map]; exact Option.map_id')

end SaveWorld

end Lone

namespace SnapshotRacesWitness

open SaveWorld EventCodecWitness

/-- Snapshots of a state without data: as many zeros as the version says, and a one. -/
def versionJson : SnapshotJson Unit where
  toVecPretty snapshot := some (bytesOf (List.replicate snapshot.streamVersion 0 ++ [1]))
  fromSlice bytes :=
    match bytes.data.toList.dropWhile (· == 0) with
    | [1] => some ⟨(), bytes.data.toList.length - 1⟩
    | _ => none

theorem dropWhile_zeros (n : Nat) (bytes : List UInt8) :
    (List.replicate n 0 ++ 1 :: bytes).dropWhile (· == 0) = 1 :: bytes := by
  induction n with
  | zero => rfl
  | succ n ih => exact ih

theorem versionJson_strict : versionJson.Strict 1 where
  reads := by
    intro snapshot bytes hbytes
    cases hbytes
    have hdrop := dropWhile_zeros snapshot.streamVersion []
    simp only [versionJson, bytesOf, hdrop, List.length_append, List.length_replicate,
      List.length_singleton, Nat.add_sub_cancel]
  closed := by
    intro snapshot bytes hbytes
    cases hbytes
    simp
  trailing := by
    intro snapshot bytes rest hbytes hlast
    cases hbytes
    have hdrop := dropWhile_zeros snapshot.streamVersion rest
    cases rest with
    | nil => cases hlast
    | cons b rest => simp [versionJson, bytesOf, hdrop]
  cut := by
    intro snapshot bytes n hbytes hn
    cases hbytes
    have hle : n ≤ snapshot.streamVersion := by
      simp at hn
      omega
    have htake : (List.replicate snapshot.streamVersion (0 : UInt8) ++ [1]).take n =
        List.replicate n 0 := by
      rw [List.take_append_of_le_length (by simpa using hle), List.take_replicate,
        Nat.min_eq_left hle]
    rw [htake]
    simp [versionJson, bytesOf]
  empty := rfl

def whole (_ : SaveWorld Unit Bool) : SaveAction Unit Bool → Bool
  | .write _ (some _) => false
  | _ => true

theorem cutsAlone_of_whole (w : SaveWorld Unit Bool) (a : SaveAction Unit Bool)
    (hwhole : whole w a = true) : w.CutsAlone a := by
  cases a with
  | write k cut =>
      cases cut with
      | none => trivial
      | some n => cases hwhole
  | _ => trivial

/-- The second call writes over the whole file of the first one, which is renamed by then;
its own rename fails. -/
def covering : List (SaveAction Unit Bool) :=
  [.save true ⟨(), 3⟩, .createDirAll true false, .create true false,
    .save false ⟨(), 5⟩, .createDirAll false false, .create false false,
    .write true none, .rename true false, .write false none, .rename false false]

/-- Its state is always the same. -/
def blank : Aggregate where
  State := Unit
  Command := Unit
  DomainEvent := Unit
  Error := String
  aggregateType := "blank"
  default := ()
  handle _ _ := .ok []
  apply _ _ := ()
  toValue _ := .ok .null
  fromValue _ := .ok ()

def blankStream : Uuid := streamUuid crates "blank" "b-1"

/-- After six events of the stream. -/
def sixEvents : Server :=
  Server.commit crates ⟨fun _ => [], 0⟩ blankStream (List.replicate 6 ⟨"", "", .empty, .empty⟩) 0

theorem sixEvents_length : (sixEvents.streams blankStream).length = 6 := by
  rw [sixEvents, Server.commit_streams_self, Server.block]
  simp

theorem races_never_change_a_spawn_covering :
    ∃ w, runActions (step versionJson) fresh covering = some w ∧
      w.calls false = some (.returned false) ∧ w.given = [⟨(), 3⟩, ⟨(), 5⟩] ∧
      w.load versionJson none = .ok (some ⟨(), 5⟩) ∧
      spawnOn crates blank "b-1" (some ⟨(), 5⟩) sixEvents =
        spawnOn crates blank "b-1" none sixEvents := by
  obtain ⟨w, hrun, hcall, hgiven, hload⟩ :
      ∃ w, runActions (step versionJson) fresh covering = some w ∧
        w.calls false = some (.returned false) ∧ w.given = [⟨(), 3⟩, ⟨(), 5⟩] ∧
        w.load versionJson none = .ok (some ⟨(), 5⟩) :=
    ⟨_, rfl, rfl, rfl, rfl⟩
  have hreach : Reaches (step versionJson) CutsAlone fresh w :=
    .of_checks cutsAlone_of_whole covering rfl hrun
  have hgood : ∀ snapshot ∈ w.given,
      Snapshot.Good (A := blank) crates snapshot (sixEvents.streams blankStream) := by
    intro snapshot hsnapshot
    rw [hgiven] at hsnapshot
    refine ⟨?_, rfl⟩
    rw [sixEvents_length]
    simp only [List.mem_cons, List.not_mem_nil, or_false] at hsnapshot
    rcases hsnapshot with rfl | rfl
    · decide
    · decide
  have hwellFormed : sixEvents.WellFormed :=
    Server.commit_wellFormed crates (s := ⟨fun _ => [], 0⟩) (fun _ => trivial) _ _ _
  exact ⟨w, hrun, hcall, hgiven, hload, (races_never_change_a_spawn (A := blank)
    versionJson_strict hreach hwellFormed hgood hload).2⟩

def alone (w : SaveWorld Unit Bool) : SaveAction Unit Bool → Bool
  | .save _ _ => !(w.calls true).any SaveCall.inProgress &&
      !(w.calls false).any SaveCall.inProgress
  | _ => true

theorem alone_sound (w : SaveWorld Unit Bool) (a : SaveAction Unit Bool)
    (halone : alone w a = true) : w.Alone a := by
  cases a with
  | save k snapshot =>
      simp only [alone, Bool.and_eq_true, Bool.not_eq_true'] at halone
      intro j call hcall
      cases j with
      | true => simpa [hcall] using halone.1
      | false => simpa [hcall] using halone.2
  | _ => trivial

/-- One call saves, the write of the next one ends halfway, and another one dies. -/
def inTurn : List (SaveAction Unit Bool) :=
  [.save true ⟨(), 3⟩, .createDirAll true false, .create true false, .write true none,
    .rename true false, .save false ⟨(), 5⟩, .createDirAll false false, .create false false,
    .write false (some 2), .save true ⟨(), 1⟩, .createDirAll true false,
    .create true false, .die true]

theorem saves_in_turn_are_atomic_inTurn :
    ∃ w, runActions (step versionJson) fresh inTurn = some w ∧
      w.renamed = some ⟨(), 3⟩ ∧ w.load versionJson none = .ok w.renamed := by
  obtain ⟨w, hrun, hrenamed⟩ :
      ∃ w, runActions (step versionJson) fresh inTurn = some w ∧ w.renamed = some ⟨(), 3⟩ :=
    ⟨_, rfl, rfl⟩
  have hreach : Reaches (step versionJson) Alone fresh w :=
    .of_checks alone_sound inTurn rfl hrun
  exact ⟨w, hrun, hrenamed, saves_in_turn_are_atomic versionJson_strict hreach⟩

/-- Two calls have the temporary file open at once.  The first one writes it, renames it
and returns; then the second one writes over it. -/
def overlapping : List (SaveAction Unit Bool) :=
  [.save true ⟨(), 3⟩, .createDirAll true false, .create true false,
    .save false ⟨(), 1⟩, .createDirAll false false, .create false false,
    .write true none, .rename true false, .write false none, .rename false false]

/-- The saved snapshot is lost, although its call returned `Ok`; so calls have to be one
at a time for `saves_in_turn_are_atomic`. -/
theorem overlapping_saves_lose_a_snapshot :
    ∃ w, runActions (step versionJson) fresh overlapping = some w ∧
      w.calls true = some (.returned true) ∧ w.renamed = some ⟨(), 3⟩ ∧
      w.load versionJson none = .ok none :=
  ⟨_, rfl, rfl, rfl, rfl⟩

end SnapshotRacesWitness

end EventfoldEs
