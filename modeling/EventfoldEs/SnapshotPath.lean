/-
Where the snapshots of an aggregate are kept: the path made of its type and
instance id, and what saving and loading by that path does to the files.
-/
import EventfoldEs.Actor
import EventfoldEs.Lib.LexicalPath
import EventfoldEs.Lib.Run

namespace EventfoldEs

open Async LexicalPath

/-- An aggregate type and an instance id, both arbitrary. -/
structure Identity where
  aggregateType : String
  instanceId : String
deriving DecidableEq, Repr

def snapshotsDir (baseDir : List Char) : List Char :=
  join baseDir "snapshots".toList

def snapshotDir (baseDir : List Char) (i : Identity) : List Char :=
  join (join (snapshotsDir baseDir) i.aggregateType.toList) i.instanceId.toList

/-- `snapshot_path`. -/
def snapshotPath (baseDir : List Char) (i : Identity) : List Char :=
  join (snapshotDir baseDir i) "snapshot.json".toList

/-- `path.with_extension("json.tmp")`. -/
def snapshotTmpPath (baseDir : List Char) (i : Identity) : List Char :=
  join (snapshotDir baseDir i) "snapshot.json.tmp".toList

/-- `serde_json` on the snapshots of one state type. -/
structure SnapshotJson (S : Type) where
  toVecPretty : Snapshot S → Option ByteArray
  fromSlice : ByteArray → Option (Snapshot S)

/-- A file, with the identity whose `save_snapshot` wrote it. -/
structure SavedFile where
  savedFor : Identity
  bytes : ByteArray

abbrev Disk := List Name → Option SavedFile

/-- How far `save_snapshot` gets before an I/O error, if one happens. -/
inductive SaveOutcome
  | createDirFails
  | writeFails (written : Option ByteArray)
  | renameFails
  | saved

variable {S : Identity → Type} (json : ∀ i, SnapshotJson (S i))
variable (cwd : List Name) (baseDir : List Char)

def saveSnapshot (disk : Disk) (i : Identity) (snapshot : Snapshot (S i))
    (outcome : SaveOutcome) : Disk :=
  let path := resolve cwd (snapshotPath baseDir i)
  let tmpPath := resolve cwd (snapshotTmpPath baseDir i)
  match outcome, (json i).toVecPretty snapshot with
  | .createDirFails, _ => disk
  | _, none => disk
  | .writeFails none, some _ => disk
  | .writeFails (some bytes), some _ => Function.update disk tmpPath (some ⟨i, bytes⟩)
  | .renameFails, some bytes => Function.update disk tmpPath (some ⟨i, bytes⟩)
  | .saved, some bytes =>
      Function.update (Function.update disk tmpPath none) path (some ⟨i, bytes⟩)

/-- `load_snapshot`, with the identity the file was saved for.  Only an I/O
error other than a missing file is an error. -/
def loadSnapshot (disk : Disk) (i : Identity) (readError : Option String) :
    Except String (Option (Identity × Snapshot (S i))) :=
  match readError with
  | some message => .error message
  | none =>
      match disk (resolve cwd (snapshotPath baseDir i)) with
      | none => .ok none
      | some file =>
          .ok (((json i).fromSlice file.bytes).map fun snap => (file.savedFor, snap))

inductive CacheAction (S : Identity → Type)
  | save (i : Identity) (snapshot : Snapshot (S i)) (outcome : SaveOutcome)
  | load (i : Identity) (readError : Option String)

def CacheAction.identity : CacheAction S → Identity
  | save i _ _ => i
  | load i _ => i

def cacheStep (disk : Disk) : CacheAction S → Option Disk
  | .save i snapshot outcome => some (saveSnapshot json cwd baseDir disk i snapshot outcome)
  | .load _ _ => some disk

/-- The identities of `U` keep their snapshots apart and below the snapshot
directory, and no sequence of saves and loads mixes them up. -/
structure CacheIsolated (U : Identity → Prop) : Prop where
  inside : ∀ i, U i → ∃ ns, resolve cwd (snapshotPath baseDir i) =
    ns ++ resolve cwd (snapshotsDir baseDir)
  apart : ∀ i j, U i → U j → i ≠ j →
    resolve cwd (snapshotPath baseDir i) ≠ resolve cwd (snapshotPath baseDir j)
  loads : ∀ disk, Reaches (cacheStep json cwd baseDir) (fun _ a => U a.identity)
      (fun _ => none) disk →
    ∀ i, U i → ∀ readError owner snap,
      loadSnapshot json cwd baseDir disk i readError = .ok (some (owner, snap)) →
      owner = i

/-- Where the type and the instance id lead, read as one relative path from the
snapshot directory that must not climb out of the base directory. -/
def location (i : Identity) : Option (List Name) :=
  if isAbsolute i.aggregateType.toList || isAbsolute i.instanceId.toList then none
  else walkWithin ["snapshots".toList]
    (i.aggregateType.toList.splitOn '/' ++ i.instanceId.toList.splitOn '/')

/-- The identity leads to a place in the snapshot directory. -/
def StaysInside (i : Identity) : Prop :=
  ∃ ns, location i = some (ns ++ ["snapshots".toList])

variable {json} {cwd} {baseDir}

theorem resolve_snapshotsDir :
    resolve cwd (snapshotsDir baseDir) = "snapshots".toList :: resolve cwd baseDir := by
  rw [snapshotsDir, resolve_join (by decide)]
  rfl

theorem resolve_snapshotPath (i : Identity) :
    resolve cwd (snapshotPath baseDir i) =
      "snapshot.json".toList :: resolve cwd (snapshotDir baseDir i) := by
  rw [snapshotPath, resolve_join (by decide)]
  rfl

theorem resolve_snapshotTmpPath (i : Identity) :
    resolve cwd (snapshotTmpPath baseDir i) =
      "snapshot.json.tmp".toList :: resolve cwd (snapshotDir baseDir i) := by
  rw [snapshotTmpPath, resolve_join (by decide)]
  rfl

/-- Below any base directory an identity is kept at its location. -/
theorem resolve_snapshotDir_of_location {i : Identity} {ns : List Name}
    (hlocation : location i = some ns) :
    resolve cwd (snapshotDir baseDir i) = ns ++ resolve cwd baseDir := by
  unfold location at hlocation
  split at hlocation
  · cases hlocation
  · rename_i habs
    simp only [Bool.or_eq_true, not_or, Bool.not_eq_true] at habs
    rw [snapshotDir, resolve_join habs.2, resolve_join habs.1, ← walk_append,
      resolve_snapshotsDir]
    exact walk_of_walkWithin hlocation _

theorem resolve_fresh_base {home : Name} (hslash : '/' ∉ home) (hne : home ≠ [])
    (hdot : home ≠ dot) (hup : home ≠ dotDot) : resolve [] ('/' :: home) = [home] := by
  have hsplit : ('/' :: home).splitOn '/' = [[], home] := by
    rw [← List.nil_append ('/' :: home), List.splitOn_append_cons_self, List.splitOn_nil,
      List.splitOn_eq_singleton hslash]
    rfl
  have henter : enter [] home = [home] := by
    rw [enter, if_neg (by simp [hne, hdot]), if_neg hup]
  rw [resolve, hsplit]
  change enter (enter [] []) home = [home]
  exact henter

/-- An identity that is inside for every base directory is inside for one whose
name occurs nowhere in it, so it never climbs out of the base directory. -/
theorem staysInside_of_inside {i : Identity}
    (hinside : ∀ cwd baseDir, ∃ ns, resolve cwd (snapshotPath baseDir i) =
      ns ++ resolve cwd (snapshotsDir baseDir)) : StaysInside i := by
  obtain ⟨home, hfresh, hslash, hne, hdot, hup⟩ := exists_fresh_name
    ("snapshots".toList :: "snapshot.json".toList ::
      (i.aggregateType.toList.splitOn '/' ++ i.instanceId.toList.splitOn '/'))
  simp only [List.mem_cons, List.mem_append, not_or] at hfresh
  obtain ⟨hsnapshots, hjson, htype, hid⟩ := hfresh
  have hbase := resolve_fresh_base hslash hne hdot hup
  obtain ⟨ns, hns⟩ := hinside [] ('/' :: home)
  rw [resolve_snapshotPath, resolve_snapshotsDir, hbase] at hns
  have hhome : home ∈ resolve [] (snapshotDir ('/' :: home) i) := by
    have hmem : home ∈
        "snapshot.json".toList :: resolve [] (snapshotDir ('/' :: home) i) := by
      rw [hns]
      simp
    rcases List.mem_cons.mp hmem with heq | hmem
    · exact absurd heq hjson
    · exact hmem
  unfold StaysInside location
  cases hidAbs : isAbsolute i.instanceId.toList with
  | true =>
      rw [snapshotDir, resolve_join_absolute hidAbs] at hhome
      rcases mem_of_mem_walk hhome with hmem | hmem
      · cases hmem
      · exact absurd hmem hid
  | false =>
      rw [snapshotDir, resolve_join hidAbs] at hhome
      cases htypeAbs : isAbsolute i.aggregateType.toList with
      | true =>
          rw [resolve_join_absolute htypeAbs, ← walk_append] at hhome
          rcases mem_of_mem_walk hhome with hmem | hmem
          · cases hmem
          · exact absurd (List.mem_append.mp hmem) (not_or.mpr ⟨htype, hid⟩)
      | false =>
          rw [resolve_join htypeAbs, ← walk_append, resolve_snapshotsDir, hbase] at hhome
          simp only [Bool.or_self, Bool.false_eq_true, ↓reduceIte]
          cases hwalk : walkWithin ["snapshots".toList]
              (i.aggregateType.toList.splitOn '/' ++ i.instanceId.toList.splitOn '/') with
          | none =>
              refine absurd hhome (not_mem_walk_of_leaves hwalk ?_ ?_)
              · simpa using hsnapshots
              · exact fun hmem => (List.mem_append.mp hmem).elim htype hid
          | some at' =>
              have hdir : resolve [] (snapshotDir ('/' :: home) i) = at' ++ [home] := by
                rw [snapshotDir, resolve_join hidAbs, resolve_join htypeAbs, ← walk_append,
                  resolve_snapshotsDir, hbase]
                exact walk_of_walkWithin hwalk [home]
              rw [hdir] at hns
              have hat : "snapshot.json".toList :: at' = ns ++ ["snapshots".toList] := by
                have hsplit : ("snapshot.json".toList :: at') ++ [home] =
                    (ns ++ ["snapshots".toList]) ++ [home] := by simpa using hns
                exact List.append_cancel_right hsplit
              cases ns with
              | nil => exact absurd (List.cons.inj hat).1 (by decide)
              | cons n ns => exact ⟨ns, congrArg some (List.cons.inj hat).2⟩

/-- Every file under a snapshot path was saved for the identity of the path. -/
def OwnFiles (cwd : List Name) (baseDir : List Char) (U : Identity → Prop)
    (disk : Disk) : Prop :=
  ∀ i, U i → ∀ file ∈ disk (resolve cwd (snapshotPath baseDir i)), file.savedFor = i

theorem snapshotPath_ne_tmpPath (i j : Identity) :
    resolve cwd (snapshotPath baseDir i) ≠ resolve cwd (snapshotTmpPath baseDir j) := by
  rw [resolve_snapshotPath, resolve_snapshotTmpPath]
  intro heq
  exact absurd (List.cons.inj heq).1 (by decide)

/-- A save leaves the files alone, touches its temporary file, or completes. -/
theorem saveSnapshot_cases (disk : Disk) (i : Identity) (snapshot : Snapshot (S i))
    (outcome : SaveOutcome) :
    saveSnapshot json cwd baseDir disk i snapshot outcome = disk ∨
      (∃ file, saveSnapshot json cwd baseDir disk i snapshot outcome =
        Function.update disk (resolve cwd (snapshotTmpPath baseDir i)) file) ∨
      ∃ bytes, saveSnapshot json cwd baseDir disk i snapshot outcome =
        Function.update (Function.update disk
          (resolve cwd (snapshotTmpPath baseDir i)) none)
          (resolve cwd (snapshotPath baseDir i)) (some ⟨i, bytes⟩) := by
  unfold saveSnapshot
  cases (json i).toVecPretty snapshot with
  | none => cases outcome <;> exact Or.inl rfl
  | some bytes =>
      cases outcome with
      | createDirFails => exact Or.inl rfl
      | writeFails written =>
          cases written with
          | none => exact Or.inl rfl
          | some torn => exact Or.inr (Or.inl ⟨_, rfl⟩)
      | renameFails => exact Or.inr (Or.inl ⟨_, rfl⟩)
      | saved => exact Or.inr (Or.inr ⟨_, rfl⟩)

theorem ownFiles_saveSnapshot {U : Identity → Prop}
    (hapart : ∀ i j, U i → U j → i ≠ j →
      resolve cwd (snapshotPath baseDir i) ≠ resolve cwd (snapshotPath baseDir j))
    {disk : Disk} (hown : OwnFiles cwd baseDir U disk) {j : Identity} (hj : U j)
    (snapshot : Snapshot (S j)) (outcome : SaveOutcome) :
    OwnFiles cwd baseDir U (saveSnapshot json cwd baseDir disk j snapshot outcome) := by
  intro i hi file hfile
  have hne := @snapshotPath_ne_tmpPath cwd baseDir i j
  have htmp : ∀ (d : Disk) v, Function.update d (resolve cwd (snapshotTmpPath baseDir j)) v
      (resolve cwd (snapshotPath baseDir i)) = d (resolve cwd (snapshotPath baseDir i)) := by
    intro d v
    rw [Function.update_of_ne hne]
  rcases @saveSnapshot_cases S json cwd baseDir disk j snapshot outcome with
    hsave | ⟨torn, hsave⟩ | ⟨bytes, hsave⟩
  · rw [hsave] at hfile
    exact hown i hi file hfile
  · rw [hsave, htmp] at hfile
    exact hown i hi file hfile
  · rw [hsave] at hfile
    rcases eq_or_ne i j with rfl | heq
    · rw [Function.update_self, Option.mem_some_iff] at hfile
      rw [← hfile]
    · rw [Function.update_of_ne (hapart i j hi hj heq), htmp] at hfile
      exact hown i hi file hfile

theorem ownFiles_of_reaches {U : Identity → Prop}
    (hapart : ∀ i j, U i → U j → i ≠ j →
      resolve cwd (snapshotPath baseDir i) ≠ resolve cwd (snapshotPath baseDir j))
    {disk : Disk} (hreach : Reaches (cacheStep json cwd baseDir)
      (fun _ a => U a.identity) (fun _ => none) disk) :
    OwnFiles cwd baseDir U disk := by
  have hstart : OwnFiles cwd baseDir U fun _ => none := by
    intro i _ file hfile
    cases hfile
  refine hreach.invariant hstart ?_
  intro disk a disk' hown hU hstep
  cases a with
  | save j snapshot outcome =>
      cases hstep
      exact ownFiles_saveSnapshot hapart hown hU snapshot outcome
  | load j readError =>
      cases hstep
      exact hown

/-- Whatever the base directory, the snapshots of a set of identities stay
inside and apart exactly when each identity leads to a place in the snapshot
directory and no two lead to the same. -/
theorem snapshots_isolated_iff_locations_apart (json : ∀ i, SnapshotJson (S i))
    (U : Identity → Prop) :
    (∀ cwd baseDir, CacheIsolated json cwd baseDir U) ↔
      (∀ i, U i → StaysInside i) ∧
        ∀ i j, U i → U j → i ≠ j → location i ≠ location j := by
  constructor
  · intro hisolated
    have hstays : ∀ i, U i → StaysInside i := fun i hi =>
      staysInside_of_inside fun cwd baseDir => (hisolated cwd baseDir).inside i hi
    refine ⟨hstays, fun i j hi hj hne hsame => ?_⟩
    obtain ⟨ns, hns⟩ := hstays i hi
    apply (hisolated [] []).apart i j hi hj hne
    rw [resolve_snapshotPath, resolve_snapshotPath, resolve_snapshotDir_of_location hns,
      resolve_snapshotDir_of_location (hsame ▸ hns)]
  · rintro ⟨hstays, hlocations⟩ cwd baseDir
    have hapart : ∀ i j, U i → U j → i ≠ j →
        resolve cwd (snapshotPath baseDir i) ≠ resolve cwd (snapshotPath baseDir j) := by
      intro i j hi hj hne hsame
      obtain ⟨ns, hns⟩ := hstays i hi
      obtain ⟨ms, hms⟩ := hstays j hj
      rw [resolve_snapshotPath, resolve_snapshotPath, resolve_snapshotDir_of_location hns,
        resolve_snapshotDir_of_location hms, List.cons.injEq] at hsame
      apply hlocations i j hi hj hne
      rw [hns, hms, List.append_cancel_right hsame.2]
    refine ⟨fun i hi => ?_, hapart, ?_⟩
    · obtain ⟨ns, hns⟩ := hstays i hi
      refine ⟨"snapshot.json".toList :: ns, ?_⟩
      rw [resolve_snapshotPath, resolve_snapshotDir_of_location hns, resolve_snapshotsDir]
      simp
    · intro disk hreach i hi readError owner snap hload
      have hown := ownFiles_of_reaches hapart hreach
      unfold loadSnapshot at hload
      split at hload
      · cases hload
      · split at hload
        · cases hload
        · rename_i file hfile
          simp only [Except.ok.injEq, Option.map_eq_some_iff, Prod.mk.injEq] at hload
          obtain ⟨snap', -, howner, -⟩ := hload
          rw [← howner]
          exact hown i hi file hfile

/-- A string that is one path component and nothing special. -/
def PlainName (s : String) : Prop :=
  '/' ∉ s.toList ∧ s.toList ≠ [] ∧ s.toList ≠ dot ∧ s.toList ≠ dotDot

theorem location_of_plainName {i : Identity} (htype : PlainName i.aggregateType)
    (hid : PlainName i.instanceId) :
    location i =
      some [i.instanceId.toList, i.aggregateType.toList, "snapshots".toList] := by
  have hrelative : ∀ {s : String}, PlainName s → isAbsolute s.toList = false := by
    intro s hs
    cases htext : s.toList with
    | nil => rfl
    | cons c cs =>
        have hc : c ≠ '/' := fun h => hs.1 (by rw [htext, h]; exact List.mem_cons_self)
        simp [isAbsolute, hc]
  have henter : ∀ {s : String}, PlainName s → ∀ at',
      enterWithin at' s.toList = some (s.toList :: at') := by
    rintro s ⟨-, hne, hdot, hup⟩ at'
    unfold enterWithin
    rw [if_neg (by simp [hne, hdot]), if_neg hup]
  rw [location, hrelative htype, hrelative hid, List.splitOn_eq_singleton htype.1,
    List.splitOn_eq_singleton hid.1]
  simp only [Bool.or_self, Bool.false_eq_true, ↓reduceIte, List.cons_append,
    List.nil_append, walkWithin, henter htype, henter hid, Option.bind_some]

/-- Identities whose type and instance id are plain names are always isolated. -/
theorem cacheIsolated_of_plainName (json : ∀ i, SnapshotJson (S i))
    (cwd : List Name) (baseDir : List Char) :
    CacheIsolated json cwd baseDir fun i =>
      PlainName i.aggregateType ∧ PlainName i.instanceId := by
  refine (snapshots_isolated_iff_locations_apart json _).mpr ⟨?_, ?_⟩ cwd baseDir
  · rintro i ⟨htype, hid⟩
    exact ⟨[i.instanceId.toList, i.aggregateType.toList], location_of_plainName htype hid⟩
  · rintro ⟨a, x⟩ ⟨b, y⟩ ⟨ha, hx⟩ ⟨hb, hy⟩ hne hsame
    rw [location_of_plainName ha hx, location_of_plainName hb hy] at hsame
    simp only [Option.some.injEq, List.cons.injEq, String.toList_inj, and_true] at hsame
    obtain ⟨rfl, rfl⟩ := hsame
    exact hne rfl

namespace SnapshotPathWitness

/-- Two bytes that hold a small state and a small version. -/
def byteJson : SnapshotJson Nat where
  toVecPretty snap := some ⟨#[snap.state.toUInt8, snap.streamVersion.toUInt8]⟩
  fromSlice bytes :=
    match bytes.data.toList with
    | [state, version] => some ⟨state.toNat, version.toNat⟩
    | _ => none

/-- The ids `""` and `.` share a file, so one loads what the other saved; the
id `../../../etc` leads out of the cache directory. -/
theorem dot_loads_snapshot_of_empty_id :
    (⟨"counter", ""⟩ : Identity) ≠ ⟨"counter", "."⟩ ∧
      (∃ disk, Reaches (cacheStep (fun _ => byteJson) [] "/data".toList)
          (fun _ _ => True) (fun _ => none) disk ∧
        loadSnapshot (fun _ => byteJson) [] "/data".toList disk ⟨"counter", "."⟩ none =
          .ok (some (⟨"counter", ""⟩, ⟨7, 0⟩))) ∧
      resolve [] (snapshotPath "/data".toList ⟨"counter", "../../../etc"⟩) =
        ["snapshot.json".toList, "etc".toList] := by
  have hshared : resolve [] (snapshotPath "/data".toList ⟨"counter", "."⟩) =
      resolve [] (snapshotPath "/data".toList ⟨"counter", ""⟩) := by decide
  have hescapes : resolve [] (snapshotPath "/data".toList ⟨"counter", "../../../etc"⟩) =
      ["snapshot.json".toList, "etc".toList] := by decide
  have hdiffer : (⟨"counter", ""⟩ : Identity) ≠ ⟨"counter", "."⟩ := by decide
  let disk := saveSnapshot (fun _ => byteJson) [] "/data".toList (fun _ => none)
    ⟨"counter", ""⟩ ⟨7, 0⟩ .saved
  have hload : loadSnapshot (fun _ => byteJson) [] "/data".toList disk ⟨"counter", "."⟩ none =
      .ok (some (⟨"counter", ""⟩, ⟨7, 0⟩)) := by
    simp only [loadSnapshot, hshared, disk, saveSnapshot, byteJson, Function.update_self]
    rfl
  have hreach : Reaches (cacheStep (fun _ => byteJson) [] "/data".toList)
      (fun _ _ => True) (fun _ => none) disk :=
    .next (a := .save ⟨"counter", ""⟩ ⟨7, 0⟩ .saved) .start trivial rfl
  exact ⟨hdiffer, ⟨disk, hreach, hload⟩, hescapes⟩

end SnapshotPathWitness

end EventfoldEs
