/-
The dead-letter log of a process manager, which the live loop and
`run_process_managers` append to at the same time: one write for an entry, and another
for the end of its line.
-/
import EventfoldEs.Runner
import EventfoldEs.Lib.Future
import EventfoldEs.Lib.Lines
import EventfoldEs.Lib.Run

namespace EventfoldEs

open Async Lines

/-- An entry in the dead-letter log, recording a failed dispatch attempt. -/
structure DeadLetterEntry where
  envelope : CommandEnvelope
  error : String
  ts : Nat

/-- `serde_json` on the entries: `to_string` and `from_str`. -/
structure EntryFormat where
  toString : DeadLetterEntry → Except String String
  fromStr : String → Option DeadLetterEntry

/-- What is printed is read back and has no raw newline; nothing is read from an empty
text. -/
structure EntryFormat.Faithful (F : EntryFormat) : Prop where
  readsBack : ∀ entry text, F.toString entry = .ok text → F.fromStr text = some entry
  oneLine : ∀ entry text, F.toString entry = .ok text → '\n' ∉ text.toList
  blank : F.fromStr "" = none

/-- The file operations of an append; the file is open in append mode. -/
inductive LetterOp
  | createDirAll
  | openAppend
  | write (text : String)

/-- An append shows, while it is suspended, the text of the line it has left open. -/
abbrev LetterFuture :=
  Future (Option String) LetterOp (fun _ => Except String Unit) (Except String Unit)

/-- The second write of `writeln!`. -/
def endLine (text : String) : LetterFuture :=
  .await (some text) (.write "\n") fun written => .ready written

/-- `writeln!(file, "\x7bjson\x7d")` on an unbuffered file. -/
def writeLine (json : String) : LetterFuture :=
  .await none (.write json) fun
    | .ok () => endLine json
    | .error e => .ready (.error e)

/-- The file is opened, and created if there is none. -/
def openAndWrite (json : String) : LetterFuture :=
  .await none .openAppend fun
    | .ok () => writeLine json
    | .error e => .ready (.error e)

/-- The parent directory may not exist yet. -/
def createDirAndWrite (json : String) : LetterFuture :=
  .await none .createDirAll fun
    | .ok () => openAndWrite json
    | .error e => .ready (.error e)

/-- `append_dead_letter`; `ts` is what the clock shows. -/
def appendDeadLetter (F : EntryFormat) (ts : Nat) (envelope : CommandEnvelope)
    (error : String) : LetterFuture :=
  let entry : DeadLetterEntry := { envelope, error, ts }
  match F.toString entry with
  | .error e => .ready (.error e)
  | .ok json => createDirAndWrite json

/-- A call, and the entry it appends. -/
structure LetterCall where
  entry : DeadLetterEntry
  fut : LetterFuture

/-- The file, empty or missing at first, and the calls for its path. -/
structure LetterLog where
  content : List Char
  calls : List LetterCall

/-- Somebody calls, or an operation of a call is carried out. -/
inductive LetterAction
  | call (ts : Nat) (envelope : CommandEnvelope) (error : String)
  | serve (i : Nat) (result : Except String Unit)

/-- What an operation adds at the end of the file. -/
def LetterOp.written : LetterOp → Except String Unit → List Char
  | .write text, .ok () => text.toList
  | _, _ => []

namespace LetterCall

/-- The call is about to start a line. -/
def startsLine (c : LetterCall) : Bool :=
  match c.fut with
  | .await none (.write _) _ => true
  | _ => false

/-- The line that the call has left open. -/
def openText (c : LetterCall) : Option String := c.fut.locals?.join

def returnedOk (c : LetterCall) : Bool :=
  match c.fut with
  | .ready (.ok ()) => true
  | _ => false

def failed (c : LetterCall) : Bool :=
  match c.fut with
  | .ready (.error _) => true
  | _ => false

end LetterCall

namespace LetterLog

variable (F : EntryFormat)

def empty : LetterLog := ⟨[], []⟩

def step (w : LetterLog) : LetterAction → Option LetterLog
  | .call ts envelope error =>
      some { w with calls := w.calls ++
        [⟨{ envelope, error, ts }, appendDeadLetter F ts envelope error⟩] }
  | .serve i result =>
      match w.calls[i]? with
      | some ⟨entry, .await _ op resume⟩ =>
          some ⟨w.content ++ op.written result, w.calls.set i ⟨entry, resume result⟩⟩
      | _ => none

def openTexts (w : LetterLog) : List String := w.calls.filterMap LetterCall.openText

/-- The entries of the calls that have returned `Ok`. -/
def returned (w : LetterLog) : List DeadLetterEntry :=
  (w.calls.filter LetterCall.returnedOk).map LetterCall.entry

/-- A call starts its line only when no other call has left one open. -/
def Exclusive (w : LetterLog) : LetterAction → Prop
  | .serve i (.ok ()) => ∀ c ∈ w.calls[i]?, c.startsLine = true → w.openTexts = []
  | _ => True

/-- The file is a sequence of lines, each of which parses as one entry, and the entries
are exactly those of the calls, each once. -/
def OneEntryPerLine (w : LetterLog) : Prop :=
  ∃ lines : List String,
    w.content = unlines '\n' (lines.map String.toList) ∧
      (∀ line ∈ lines, '\n' ∉ line.toList) ∧
      ∃ entries : List DeadLetterEntry, lines.map F.fromStr = entries.map some ∧
        entries.Perm (w.calls.map LetterCall.entry)

end LetterLog

/-- Where a call can stand. -/
inductive LetterPoint (F : EntryFormat) (entry : DeadLetterEntry) : LetterFuture → Prop
  | returned (result : Except String Unit) : LetterPoint F entry (.ready result)
  | preparing {json : String} (hjson : F.toString entry = .ok json) :
      LetterPoint F entry (createDirAndWrite json)
  | opening {json : String} (hjson : F.toString entry = .ok json) :
      LetterPoint F entry (openAndWrite json)
  | starting {json : String} (hjson : F.toString entry = .ok json) :
      LetterPoint F entry (writeLine json)
  | ending {json : String} (hjson : F.toString entry = .ok json) :
      LetterPoint F entry (endLine json)

/-- What an operation of a call does to the call, and adds to the file. -/
inductive LetterServed (F : EntryFormat) (c : LetterCall) :
    Except String Unit → LetterCall → List Char → Prop
  | fails (e : String) : LetterServed F c (.error e) ⟨c.entry, .ready (.error e)⟩ []
  | prepares {fut : LetterFuture} (hstarts : c.startsLine = false)
      (hopen : c.openText = none) (hrunning : c.returnedOk = false)
      (hopen' : (LetterCall.mk c.entry fut).openText = none)
      (hrunning' : (LetterCall.mk c.entry fut).returnedOk = false)
      (hpoint : LetterPoint F c.entry fut) :
      LetterServed F c (.ok ()) ⟨c.entry, fut⟩ []
  | starts {json : String} (hjson : F.toString c.entry = .ok json)
      (hstarts : c.startsLine = true) (hopen : c.openText = none)
      (hrunning : c.returnedOk = false) :
      LetterServed F c (.ok ()) ⟨c.entry, endLine json⟩ json.toList
  | ends {json : String} (hjson : F.toString c.entry = .ok json)
      (hstarts : c.startsLine = false) (hopen : c.openText = some json)
      (hrunning : c.returnedOk = false) :
      LetterServed F c (.ok ()) ⟨c.entry, .ready (.ok ())⟩ ['\n']

variable {F : EntryFormat}

theorem letterPoint_append (ts : Nat) (envelope : CommandEnvelope) (error : String) :
    LetterPoint F { envelope, error, ts } (appendDeadLetter F ts envelope error) := by
  cases hjson : F.toString { envelope, error, ts } with
  | error e =>
      simp only [appendDeadLetter, hjson]
      exact .returned _
  | ok json =>
      simp only [appendDeadLetter, hjson]
      exact .preparing hjson

/-- A call that begins is at none of the points that are counted. -/
theorem append_uncounted (ts : Nat) (envelope : CommandEnvelope) (error : String)
    (entry : DeadLetterEntry) :
    (LetterCall.mk entry (appendDeadLetter F ts envelope error)).openText = none ∧
      (LetterCall.mk entry (appendDeadLetter F ts envelope error)).returnedOk = false := by
  cases hjson : F.toString { envelope, error, ts } with
  | error e =>
      simp only [appendDeadLetter, hjson]
      exact ⟨rfl, rfl⟩
  | ok json =>
      simp only [appendDeadLetter, hjson]
      exact ⟨rfl, rfl⟩

theorem letterServed_of_await {entry : DeadLetterEntry} {open? : Option String}
    {op : LetterOp} {resume : Except String Unit → LetterFuture}
    (hpoint : LetterPoint F entry (.await open? op resume)) (result : Except String Unit) :
    LetterServed F ⟨entry, .await open? op resume⟩ result ⟨entry, resume result⟩
      (op.written result) := by
  cases result with
  | error e => cases hpoint <;> exact .fails e
  | ok done =>
      cases hpoint with
      | preparing hjson => exact .prepares rfl rfl rfl rfl rfl (.opening hjson)
      | opening hjson => exact .prepares rfl rfl rfl rfl rfl (.starting hjson)
      | starting hjson => exact .starts hjson rfl rfl rfl
      | ending hjson => exact .ends hjson rfl rfl rfl

theorem LetterServed.point {c c' : LetterCall} {result : Except String Unit}
    {added : List Char} (hserved : LetterServed F c result c' added) :
    LetterPoint F c'.entry c'.fut := by
  cases hserved with
  | fails e => exact .returned _
  | prepares hstarts hopen hrunning hopen' hrunning' hpoint => exact hpoint
  | starts hjson hstarts hopen hrunning => exact .ending hjson
  | ends hjson hstarts hopen hrunning => exact .returned _

namespace LetterLog

variable (F) in
/-- Every call stands at one of its points. -/
def Points (w : LetterLog) : Prop := ∀ c ∈ w.calls, LetterPoint F c.entry c.fut

/-- Everything that a step can do. -/
inductive Stepped (F : EntryFormat) (w : LetterLog) : LetterAction → LetterLog → Prop
  | called {ts : Nat} {envelope : CommandEnvelope} {error : String} :
      Stepped F w (.call ts envelope error) ⟨w.content, w.calls ++
        [⟨{ envelope, error, ts }, appendDeadLetter F ts envelope error⟩]⟩
  | served {i : Nat} {result : Except String Unit} {earlier later : List LetterCall}
      {c c' : LetterCall} {added : List Char} (hcalls : w.calls = earlier ++ c :: later)
      (hat : w.calls[i]? = some c) (hgoing : c.failed = false)
      (hserved : LetterServed F c result c' added) :
      Stepped F w (.serve i result) ⟨w.content ++ added, earlier ++ c' :: later⟩

theorem stepped_of_step {w w' : LetterLog} {a : LetterAction} (hpoints : w.Points F)
    (hstep : w.step F a = some w') : Stepped F w a w' := by
  cases a with
  | call ts envelope error =>
      cases hstep
      exact .called
  | serve i result =>
      simp only [step] at hstep
      split at hstep
      · rename_i entry open? op resume hat
        cases hstep
        obtain ⟨hi, hget⟩ := List.getElem?_eq_some_iff.mp hat
        have hcalls : w.calls = w.calls.take i ++
            ⟨entry, .await open? op resume⟩ :: w.calls.drop (i + 1) := by
          rw [← hget, List.getElem_cons_drop, List.take_append_drop]
        rw [List.set_eq_take_append_cons_drop, if_pos hi]
        exact .served hcalls hat rfl
          (letterServed_of_await (hpoints _ (List.mem_of_getElem? hat)) result)
      · cases hstep

theorem points_step {w w' : LetterLog} {a : LetterAction} (hpoints : w.Points F)
    (hstepped : Stepped F w a w') : w'.Points F := by
  intro d hd
  cases hstepped with
  | called =>
      rcases List.mem_append.mp hd with hold | hnew
      · exact hpoints d hold
      · rw [List.mem_singleton.mp hnew]
        exact letterPoint_append _ _ _
  | @served i result earlier later c c' added hcalls hat hgoing hserved =>
      rw [Points, hcalls] at hpoints
      rcases List.mem_append.mp hd with hearlier | hlater
      · exact hpoints d (List.mem_append_left _ hearlier)
      · rcases List.mem_cons.mp hlater with rfl | hlater
        · exact hserved.point
        · exact hpoints d (List.mem_append_right _ (List.mem_cons_of_mem _ hlater))

variable (F) in
/-- The file holds one line for each call that has returned, and what the one call with
an open line has written. -/
structure InLine (w : LetterLog) : Prop where
  cut : ∃ (lines : List String) (entries : List DeadLetterEntry),
    Cut '\n' w.content (lines.map String.toList) (w.openTexts.flatMap String.toList) ∧
      entries.map F.toString = lines.map .ok ∧ entries.Perm w.returned
  alone : w.openTexts.length ≤ 1

/-- More has been written than there are lines to hold it. -/
def Tangled (w : LetterLog) : Prop :=
  ∃ lines rest, Cut '\n' w.content lines rest ∧
    filled lines rest < w.openTexts.length + w.returned.length

def SomeFailed (w : LetterLog) : Prop := ∃ c ∈ w.calls, c.failed = true

theorem openTexts_split {w : LetterLog} {earlier later : List LetterCall} {c : LetterCall}
    (hcalls : w.calls = earlier ++ c :: later) :
    w.openTexts = earlier.filterMap LetterCall.openText ++ c.openText.toList ++
      later.filterMap LetterCall.openText := by
  rw [openTexts, hcalls, List.filterMap_append, List.filterMap_cons]
  cases c.openText <;> simp

theorem returned_split {w : LetterLog} {earlier later : List LetterCall} {c : LetterCall}
    (hcalls : w.calls = earlier ++ c :: later) :
    w.returned = (earlier.filter LetterCall.returnedOk).map LetterCall.entry ++
      (if c.returnedOk then [c.entry] else []) ++
      (later.filter LetterCall.returnedOk).map LetterCall.entry := by
  rw [returned, hcalls, List.filter_append, List.filter_cons]
  cases c.returnedOk <;> simp

/-- A step of a call that is not counted before, and not after. -/
theorem same_of_uncounted {w : LetterLog} {earlier later : List LetterCall}
    {c c' : LetterCall} (hcalls : w.calls = earlier ++ c :: later)
    (hopen : c.openText = none) (hrunning : c.returnedOk = false)
    (hopen' : c'.openText = none) (hrunning' : c'.returnedOk = false)
    (content : List Char) :
    openTexts ⟨content, earlier ++ c' :: later⟩ = w.openTexts ∧
      returned ⟨content, earlier ++ c' :: later⟩ = w.returned := by
  rw [openTexts_split hcalls, returned_split hcalls, hopen, hrunning,
    openTexts_split (w := ⟨content, earlier ++ c' :: later⟩) rfl,
    returned_split (w := ⟨content, earlier ++ c' :: later⟩) rfl, hopen', hrunning']
  exact ⟨rfl, rfl⟩

theorem same_of_called (w : LetterLog) (ts : Nat) (envelope : CommandEnvelope)
    (error : String) (entry : DeadLetterEntry) :
    openTexts ⟨w.content, w.calls ++ [⟨entry, appendDeadLetter F ts envelope error⟩]⟩ =
        w.openTexts ∧
      returned ⟨w.content, w.calls ++ [⟨entry, appendDeadLetter F ts envelope error⟩]⟩ =
        w.returned := by
  obtain ⟨hopen, hrunning⟩ := @append_uncounted F ts envelope error entry
  simp [openTexts, returned, List.filterMap_append, List.filter_append, hopen, hrunning]

theorem someFailed_step {w w' : LetterLog} {a : LetterAction} (hfailed : w.SomeFailed)
    (hstepped : Stepped F w a w') : w'.SomeFailed := by
  obtain ⟨d, hd, hdfailed⟩ := hfailed
  cases hstepped with
  | called => exact ⟨d, List.mem_append_left _ hd, hdfailed⟩
  | @served i result earlier later c c' added hcalls hat hgoing hserved =>
      rw [hcalls] at hd
      rcases List.mem_append.mp hd with hearlier | hlater
      · exact ⟨d, List.mem_append_left _ hearlier, hdfailed⟩
      · rcases List.mem_cons.mp hlater with rfl | hlater
        · rw [hgoing] at hdfailed
          cases hdfailed
        · exact ⟨d, List.mem_append_right _ (List.mem_cons_of_mem _ hlater), hdfailed⟩

theorem empty_inLine : empty.InLine F where
  cut := ⟨[], [], Cut.nil, rfl, .refl _⟩
  alone := Nat.zero_le _

/-- As long as no line is started behind an open one, the file stays in line. -/
theorem inLine_step (hF : F.Faithful) {w w' : LetterLog} {a : LetterAction}
    (hw : w.InLine F) (hexclusive : w.Exclusive a) (hstepped : Stepped F w a w') :
    w'.InLine F ∨ w'.SomeFailed := by
  obtain ⟨⟨lines, entries, hcut, hprinted, hperm⟩, halone⟩ := hw
  cases hstepped with
  | @called ts envelope error =>
      obtain ⟨hopen, hreturned⟩ :=
        @same_of_called F w ts envelope error { envelope, error, ts }
      left
      refine ⟨⟨lines, entries, ?_, hprinted, ?_⟩, ?_⟩
      · rw [hopen]
        exact hcut
      · rw [hreturned]
        exact hperm
      · rw [hopen]
        exact halone
  | @served i result earlier later c c' added hcalls hat hgoing hserved =>
      cases hserved with
      | fails e =>
          exact Or.inr ⟨_, List.mem_append_right _ List.mem_cons_self, rfl⟩
      | prepares hstarts hopen hrunning hopen' hrunning' hpoint =>
          obtain ⟨hsame, hreturned⟩ :=
            same_of_uncounted hcalls hopen hrunning hopen' hrunning' (w.content ++ [])
          left
          refine ⟨⟨lines, entries, ?_, hprinted, ?_⟩, ?_⟩
          · rw [hsame]
            exact (List.append_nil w.content).symm ▸ hcut
          · rw [hreturned]
            exact hperm
          · rw [hsame]
            exact halone
      | @starts json hjson hstarts hopen hrunning =>
          have hnone := hexclusive c hat hstarts
          have hsplit := openTexts_split hcalls
          rw [hnone, hopen] at hsplit
          obtain ⟨hearlier, hlater⟩ := List.append_eq_nil_iff.mp hsplit.symm
          have hopen' : openTexts ⟨w.content ++ json.toList,
              earlier ++ ⟨c.entry, endLine json⟩ :: later⟩ = [json] := by
            rw [openTexts_split rfl, hlater, (List.append_eq_nil_iff.mp hearlier).1]
            rfl
          have hreturned : returned ⟨w.content ++ json.toList,
              earlier ++ ⟨c.entry, endLine json⟩ :: later⟩ = w.returned := by
            rw [returned_split hcalls, hrunning, returned_split rfl]
            rfl
          left
          refine ⟨⟨lines, entries, ?_, hprinted, ?_⟩, ?_⟩
          · rw [hopen']
            rw [hnone] at hcut
            simpa using hcut.write (hF.oneLine _ _ hjson)
          · rw [hreturned]
            exact hperm
          · rw [hopen']
            exact Nat.le_refl 1
      | @ends json hjson hstarts hopen hrunning =>
          have hsplit := openTexts_split hcalls
          rw [hopen] at hsplit
          rw [hsplit] at halone
          simp only [Option.toList_some, List.length_append, List.length_singleton] at halone
          have hearlier : earlier.filterMap LetterCall.openText = [] :=
            List.eq_nil_of_length_eq_zero (by omega)
          have hlater : later.filterMap LetterCall.openText = [] :=
            List.eq_nil_of_length_eq_zero (by omega)
          have hopen' : openTexts ⟨w.content ++ ['\n'],
              earlier ++ ⟨c.entry, .ready (.ok ())⟩ :: later⟩ = [] := by
            rw [openTexts_split rfl, hearlier, hlater]
            rfl
          left
          refine ⟨⟨lines ++ [json], entries ++ [c.entry], ?_, ?_, ?_⟩, ?_⟩
          · rw [hopen']
            rw [hsplit, hearlier, hlater] at hcut
            simpa using hcut.endLine
          · rw [List.map_append, hprinted, List.map_append]
            simp [hjson]
          · rw [returned_split rfl]
            rw [returned_split hcalls, hrunning] at hperm
            simp only [Bool.false_eq_true, ↓reduceIte, List.append_nil] at hperm
            refine (hperm.append_right [c.entry]).trans ?_
            rw [List.append_assoc, List.append_assoc]
            exact List.perm_append_comm.append_left _
          · rw [hopen']
            exact Nat.zero_le 1

/-- How many calls have written their text. -/
def begun (w : LetterLog) : Nat := w.openTexts.length + w.returned.length

theorem begun_starts {w : LetterLog} {earlier later : List LetterCall} {c : LetterCall}
    (hcalls : w.calls = earlier ++ c :: later) (hopen : c.openText = none)
    (hrunning : c.returnedOk = false) (json : String) (content : List Char) :
    begun ⟨content, earlier ++ ⟨c.entry, endLine json⟩ :: later⟩ = w.begun + 1 := by
  have hone : (LetterCall.mk c.entry (endLine json)).openText = some json := rfl
  have hnot : (LetterCall.mk c.entry (endLine json)).returnedOk = false := rfl
  rw [begun, begun, openTexts_split hcalls, returned_split hcalls, hopen, hrunning,
    openTexts_split rfl, returned_split rfl, hone, hnot]
  simp only [List.length_append, Option.toList_some, Option.toList_none,
    List.length_singleton, List.length_nil]
  omega

theorem begun_ends {w : LetterLog} {earlier later : List LetterCall} {c : LetterCall}
    (hcalls : w.calls = earlier ++ c :: later) {json : String}
    (hopen : c.openText = some json) (hrunning : c.returnedOk = false)
    (content : List Char) :
    begun ⟨content, earlier ++ ⟨c.entry, .ready (.ok ())⟩ :: later⟩ = w.begun := by
  have hnone : (LetterCall.mk c.entry (.ready (.ok ()))).openText = none := rfl
  have hdone : (LetterCall.mk c.entry (.ready (.ok ()))).returnedOk = true := rfl
  rw [begun, begun, openTexts_split hcalls, returned_split hcalls, hopen, hrunning,
    openTexts_split rfl, returned_split rfl, hnone, hdone]
  simp only [List.length_append, Option.toList_some, Option.toList_none, ↓reduceIte,
    Bool.false_eq_true, List.length_singleton, List.length_nil]
  omega

/-- What is tangled stays so. -/
theorem tangled_step (hF : F.Faithful) {w w' : LetterLog} {a : LetterAction}
    (hw : w.Tangled) (hstepped : Stepped F w a w') : w'.Tangled ∨ w'.SomeFailed := by
  obtain ⟨lines, rest, hcut, hfilled⟩ := hw
  cases hstepped with
  | @called ts envelope error =>
      obtain ⟨hopen, hreturned⟩ :=
        @same_of_called F w ts envelope error { envelope, error, ts }
      left
      refine ⟨lines, rest, hcut, ?_⟩
      rw [hopen, hreturned]
      exact hfilled
  | @served i result earlier later c c' added hcalls hat hgoing hserved =>
      cases hserved with
      | fails e =>
          exact Or.inr ⟨_, List.mem_append_right _ List.mem_cons_self, rfl⟩
      | prepares hstarts hopen hrunning hopen' hrunning' hpoint =>
          obtain ⟨hsame, hreturned⟩ :=
            same_of_uncounted hcalls hopen hrunning hopen' hrunning' (w.content ++ [])
          left
          refine ⟨lines, rest, (List.append_nil w.content).symm ▸ hcut, ?_⟩
          rw [hsame, hreturned]
          exact hfilled
      | @starts json hjson hstarts hopen hrunning =>
          left
          refine ⟨lines, _, hcut.write (hF.oneLine _ _ hjson), ?_⟩
          have hbegun := begun_starts hcalls hopen hrunning json (w.content ++ json.toList)
          have hle := filled_write lines rest json.toList
          change _ < begun _
          change _ < w.begun at hfilled
          omega
      | ends hjson hstarts hopen hrunning =>
          left
          refine ⟨_, _, hcut.endLine, ?_⟩
          change _ < begun _
          rw [filled_endLine, begun_ends hcalls hopen hrunning]
          exact hfilled

/-- A line that is started behind an open one tangles the file. -/
theorem tangled_of_overlap (hF : F.Faithful) {w w' : LetterLog} {a : LetterAction}
    (hw : w.InLine F) (hoverlap : ¬ w.Exclusive a) (hstepped : Stepped F w a w') :
    w'.Tangled := by
  obtain ⟨⟨lines, entries, hcut, hprinted, hperm⟩, -⟩ := hw
  cases hstepped with
  | called => exact absurd trivial hoverlap
  | @served i result earlier later c c' added hcalls hat hgoing hserved =>
      cases hserved with
      | fails e => exact absurd trivial hoverlap
      | prepares hstarts hopen hrunning hopen' hrunning' hpoint =>
          refine absurd (fun d hd hdstarts => ?_) hoverlap
          cases hat.symm.trans hd
          cases hstarts.symm.trans hdstarts
      | ends hjson hstarts hopen hrunning =>
          refine absurd (fun d hd hdstarts => ?_) hoverlap
          cases hat.symm.trans hd
          cases hstarts.symm.trans hdstarts
      | @starts json hjson hstarts hopen hrunning =>
          refine ⟨_, _, hcut.write (hF.oneLine _ _ hjson), ?_⟩
          have hsome : w.openTexts ≠ [] := fun hnone => hoverlap fun d hd hdstarts => hnone
          have hpos := List.length_pos_iff.mpr hsome
          have hlines : lines.length = w.returned.length := by
            rw [← hperm.length_eq, ← List.length_map (f := F.toString), hprinted,
              List.length_map]
          have hbegun := begun_starts hcalls hopen hrunning json (w.content ++ json.toList)
          have hle := filled_le (lines.map String.toList)
            (w.openTexts.flatMap String.toList ++ json.toList)
          rw [List.length_map] at hle
          change _ < begun _
          rw [hbegun, begun]
          omega

/-- From a file in line, a run in which no line is started behind an open one keeps it
in line, and any other tangles it, unless a call fails. -/
theorem inLine_or_tangled (hF : F.Faithful) {w w' : LetterLog} {acts : List LetterAction}
    (hpoints : w.Points F) (hw : w.InLine F) (hrun : runActions (step F) w acts = some w') :
    (AllOk (step F) Exclusive w acts ∧ (w'.InLine F ∨ w'.SomeFailed)) ∨
      (¬ AllOk (step F) Exclusive w acts ∧ (w'.Tangled ∨ w'.SomeFailed)) := by
  have hcases := @runActions_cases _ _ (step F) Exclusive
    (fun v => v.Points F ∧ (v.InLine F ∨ v.SomeFailed))
    (fun v => v.Points F ∧ (v.Tangled ∨ v.SomeFailed)) ?_ ?_ ?_ _ _ _
    ⟨hpoints, Or.inl hw⟩ hrun
  · rcases hcases with ⟨hall, -, hgood⟩ | ⟨hnot, -, hbad⟩
    · exact Or.inl ⟨hall, hgood⟩
    · exact Or.inr ⟨hnot, hbad⟩
  · rintro v a v' ⟨hv, hgood⟩ hok hstep
    have hstepped := stepped_of_step hv hstep
    refine ⟨points_step hv hstepped, ?_⟩
    rcases hgood with hin | hfailed
    · exact inLine_step hF hin hok hstepped
    · exact Or.inr (someFailed_step hfailed hstepped)
  · rintro v a v' ⟨hv, hgood⟩ hoverlap hstep
    have hstepped := stepped_of_step hv hstep
    refine ⟨points_step hv hstepped, ?_⟩
    rcases hgood with hin | hfailed
    · exact Or.inl (tangled_of_overlap hF hin hoverlap hstepped)
    · exact Or.inr (someFailed_step hfailed hstepped)
  · rintro v a v' ⟨hv, hbad⟩ hstep
    have hstepped := stepped_of_step hv hstep
    refine ⟨points_step hv hstepped, ?_⟩
    rcases hbad with htangled | hfailed
    · exact tangled_step hF htangled hstepped
    · exact Or.inr (someFailed_step hfailed hstepped)

/-- A file in line, with nothing open, holds an entry on each line. -/
theorem InLine.oneEntryPerLine (hF : F.Faithful) {w : LetterLog} (hw : w.InLine F)
    (hopen : w.openTexts = [])
    (hreturned : w.returned = w.calls.map LetterCall.entry) : w.OneEntryPerLine F := by
  obtain ⟨lines, entries, hcut, hprinted, hperm⟩ := hw.cut
  refine ⟨lines, ?_, ?_, entries, ?_, hreturned ▸ hperm⟩
  · rw [hcut.content_eq, hopen]
    exact List.append_nil _
  · exact fun line hline => hcut.lines_clean _ (List.mem_map_of_mem hline)
  · clear hcut hperm
    induction entries generalizing lines with
    | nil =>
        rw [List.map_eq_nil_iff.mp hprinted.symm]
        rfl
    | cons entry entries ih =>
        cases lines with
        | nil => cases hprinted
        | cons line lines =>
            obtain ⟨hline, hlines⟩ := List.cons.inj hprinted
            rw [List.map_cons, List.map_cons, ih lines hlines, hF.readsBack entry line hline]

/-- A tangled file has an empty line, from which no entry is read. -/
theorem Tangled.not_oneEntryPerLine (hF : F.Faithful) {w : LetterLog} (hw : w.Tangled)
    (hopen : w.openTexts = [])
    (hreturned : w.returned = w.calls.map LetterCall.entry) : ¬ w.OneEntryPerLine F := by
  rintro ⟨lines', hcontent, hclean, entries, hparsed, hperm⟩
  obtain ⟨lines, rest, hcut, hfilled⟩ := hw
  have hcut' : Cut '\n' w.content (lines'.map String.toList) [] := by
    refine ⟨by rw [hcontent, List.append_nil], fun line hline => ?_, List.not_mem_nil⟩
    obtain ⟨text, htext, rfl⟩ := List.mem_map.mp hline
    exact hclean text htext
  obtain ⟨rfl, rfl⟩ := hcut.unique hcut'
  have hnonempty : ∀ line ∈ lines'.map String.toList, line ≠ [] := by
    intro line hline hempty
    obtain ⟨text, htext, rfl⟩ := List.mem_map.mp hline
    have hread : F.fromStr text ∈ entries.map some :=
      hparsed ▸ List.mem_map_of_mem htext
    obtain ⟨entry, -, hentry⟩ := List.mem_map.mp hread
    rw [String.toList_eq_nil_iff.mp hempty, hF.blank] at hentry
    cases hentry
  have hlength : lines'.length = w.calls.length := by
    rw [← List.length_map (f := F.fromStr), hparsed, List.length_map, hperm.length_eq,
      List.length_map]
  rw [filled_of_nonempty hnonempty, hopen, hreturned, List.length_map, List.length_map,
    List.length_nil] at hfilled
  omega

/-- Once all calls have returned `Ok`, the file is one entry per line exactly if no line
was started while another call had one open. -/
theorem one_entry_per_line_iff (hF : F.Faithful) (acts : List LetterAction)
    {w : LetterLog} (hrun : runActions (step F) empty acts = some w)
    (hall : ∀ c ∈ w.calls, c.fut = .ready (.ok ())) :
    w.OneEntryPerLine F ↔ AllOk (step F) Exclusive empty acts := by
  have hopen : w.openTexts = [] := by
    refine List.filterMap_eq_nil_iff.mpr fun c hc => ?_
    rw [LetterCall.openText, hall c hc]
    rfl
  have hreturned : w.returned = w.calls.map LetterCall.entry := by
    have hfilter : w.calls.filter LetterCall.returnedOk = w.calls := by
      refine List.filter_eq_self.mpr fun c hc => ?_
      rw [LetterCall.returnedOk, hall c hc]
    rw [returned, hfilter]
  have hnone : ¬ w.SomeFailed := by
    rintro ⟨c, hc, hfailed⟩
    rw [LetterCall.failed, hall c hc] at hfailed
    cases hfailed
  rcases inLine_or_tangled hF (fun c hc => by cases hc) empty_inLine hrun with
    ⟨hexclusive, hin | hfailed⟩ | ⟨hoverlap, htangled | hfailed⟩
  · exact ⟨fun _ => hexclusive, fun _ => hin.oneEntryPerLine hF hopen hreturned⟩
  · exact absurd hfailed hnone
  · exact ⟨fun hentries => absurd hentries (htangled.not_oneEntryPerLine hF hopen hreturned),
      fun hexclusive => absurd hexclusive hoverlap⟩
  · exact absurd hfailed hnone

end LetterLog

namespace DeadLetterLogWitness

open LetterLog

def envelope : CommandEnvelope := ⟨"door", "m-1", .null, .default⟩

/-- What is printed of an entry before its error. -/
def printedHead : String :=
  "\x7b\"envelope\":\x7b\"aggregate_type\":\"door\"," ++ "\"instance_id\":\"m-1\"," ++
    "\"command\":null,\"context\":\x7b" ++ "\"actor\":null,\"correlation_id\":null," ++
    "\"metadata\":null\x7d\x7d,\"error\":\""

def printed (error : String) : String := printedHead ++ error ++ "\",\"ts\":0\x7d"

/-- Stand-ins for `serde_json` on two entries. -/
def format : EntryFormat where
  toString
    | ⟨⟨"door", "m-1", .null, ⟨none, none, none, none⟩⟩, error, 0⟩ =>
        if error = "first" ∨ error = "second" then .ok (printed error)
        else .error "not printed here"
    | _ => .error "not printed here"
  fromStr text :=
    if text = printed "first" then some ⟨envelope, "first", 0⟩
    else if text = printed "second" then some ⟨envelope, "second", 0⟩
    else none

theorem format_toString {entry : DeadLetterEntry} {text : String}
    (hprint : format.toString entry = .ok text) :
    (entry = ⟨envelope, "first", 0⟩ ∧ text = printed "first") ∨
      (entry = ⟨envelope, "second", 0⟩ ∧ text = printed "second") := by
  simp only [format] at hprint
  split at hprint
  · split at hprint
    · rename_i herror
      cases hprint
      rcases herror with rfl | rfl
      · exact Or.inl ⟨rfl, rfl⟩
      · exact Or.inr ⟨rfl, rfl⟩
    · cases hprint
  · cases hprint

theorem printed_second_ne_first : printed "second" ≠ printed "first" := by
  intro heq
  rw [printed, printed, String.append_left_inj, String.append_right_inj] at heq
  exact absurd heq (by decide)

theorem printed_nonempty (error : String) : printed error ≠ "" := by
  intro hempty
  exact absurd (String.append_eq_empty_iff.mp hempty).2 (by decide)

theorem printed_oneLine {error : String} (herror : '\n' ∉ error.toList) :
    '\n' ∉ (printed error).toList := by
  have hhead : '\n' ∉ printedHead.toList := by decide +kernel
  rw [printed, String.toList_append, String.toList_append]
  simp only [List.mem_append, not_or]
  exact ⟨⟨hhead, herror⟩, by decide⟩

theorem format_faithful : format.Faithful where
  readsBack entry text hprint := by
    rcases format_toString hprint with ⟨rfl, rfl⟩ | ⟨rfl, rfl⟩
    · simp only [format, ↓reduceIte]
    · simp only [format, if_neg printed_second_ne_first, ↓reduceIte]
  oneLine entry text hprint := by
    rcases format_toString hprint with ⟨-, rfl⟩ | ⟨-, rfl⟩
    · exact printed_oneLine (by decide)
    · exact printed_oneLine (by decide)
  blank := by
    simp only [format, if_neg (printed_nonempty _).symm]

/-- One call after the other. -/
def inTurn : List LetterAction :=
  .call 0 envelope "first" :: List.replicate 4 (.serve 0 (.ok ())) ++
    .call 0 envelope "second" :: List.replicate 4 (.serve 1 (.ok ()))

/-- The second call starts its line before the first has ended its own. -/
def atOnce : List LetterAction :=
  .call 0 envelope "first" :: .call 0 envelope "second" ::
    List.replicate 3 (.serve 0 (.ok ())) ++ List.replicate 3 (.serve 1 (.ok ())) ++
      [.serve 0 (.ok ()), .serve 1 (.ok ())]

theorem one_entry_per_line_iff_in_turn :
    ∃ w, runActions (step format) empty inTurn = some w ∧
      (w.OneEntryPerLine format ↔ AllOk (step format) Exclusive empty inTurn) := by
  refine ⟨_, rfl, one_entry_per_line_iff format_faithful inTurn rfl ?_⟩
  intro c hc
  rcases List.mem_cons.mp hc with rfl | hc
  · rfl
  · cases List.mem_singleton.mp hc
    rfl

/-- Two entries that share a line. -/
theorem tangled_of_shared {w : LetterLog} {first second : List Char}
    (hfirst : '\n' ∉ first) (hsecond : '\n' ∉ second)
    (hcontent : w.content = unlines '\n' [first ++ second, []])
    (hreturned : w.returned.length = 2) : w.Tangled := by
  refine ⟨[first ++ second] ++ [[]], [], ⟨?_, fun line hline => ?_, List.not_mem_nil⟩, ?_⟩
  · rw [hcontent, List.append_nil]
    rfl
  · rcases List.mem_cons.mp hline with heq | hline
    · rw [heq]
      exact fun hin => (List.mem_append.mp hin).elim hfirst hsecond
    · rw [List.mem_singleton.mp hline]
      exact List.not_mem_nil
  · rw [filled_endLine, hreturned]
    exact Nat.lt_of_le_of_lt List.countP_le_length (Nat.lt_add_left _ (Nat.lt_succ_self 1))

/-- Both calls return `Ok`, and leave one line with two entries and an empty line. -/
theorem dead_letters_share_a_line :
    ∃ w, runActions (step format) empty atOnce = some w ∧
      (∀ c ∈ w.calls, c.fut = .ready (.ok ())) ∧
      w.content = unlines '\n' [(printed "first").toList ++ (printed "second").toList, []] ∧
      ¬ w.OneEntryPerLine format := by
  obtain ⟨w, hrun, hcontent, hcalls⟩ : ∃ w, runActions (step format) empty atOnce = some w ∧
      w.content = unlines '\n' [(printed "first").toList ++ (printed "second").toList, []] ∧
      w.calls = [⟨⟨envelope, "first", 0⟩, .ready (.ok ())⟩,
        ⟨⟨envelope, "second", 0⟩, .ready (.ok ())⟩] :=
    ⟨_, rfl, by simp [unlines, LetterOp.written, empty], rfl⟩
  have hopen : w.openTexts = [] := by
    rw [openTexts, hcalls]
    rfl
  have hreturned : w.returned = w.calls.map LetterCall.entry := by
    rw [returned, hcalls]
    rfl
  refine ⟨w, hrun, ?_, hcontent, Tangled.not_oneEntryPerLine format_faithful ?_ hopen
    hreturned⟩
  · rw [hcalls]
    intro c hc
    rcases List.mem_cons.mp hc with heq | hc
    · rw [heq]
    · rw [List.mem_singleton.mp hc]
  · refine tangled_of_shared (printed_oneLine (by decide)) (printed_oneLine (by decide))
      hcontent ?_
    rw [hreturned, hcalls]
    rfl

end DeadLetterLogWitness

end EventfoldEs
