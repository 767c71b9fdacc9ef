/-
Any number of actors of one instance, with their retries and lost answers, do what the
aggregate alone does: one order of the commands explains the stream, the answers and
the states that anyone is shown.
-/
import EventfoldEs.ActorSerialWorld

namespace EventfoldEs

open Async Replay Decide

variable {C : Crates} {B : Aggregate}

/-- The command and the events of an execute that was acknowledged with events. -/
def Completed.appended? : Completed B → Option (B.Command × List B.DomainEvent)
  | ⟨.execute cmd _ _, _, .execute (.ok (e :: rest))⟩ => some (cmd, e :: rest)
  | _ => none

/-- What the aggregate itself said to a command, where the answer comes from it. -/
def ExecuteResult.ruling? :
    ExecuteResult B → Option (Except B.Error (List B.DomainEvent))
  | .ok events => some (.ok events)
  | .error (.domain e) => some (.error e)
  | .error _ => none

/-- The slot an action is about. -/
def WorldAction.slot? {ι : Type} {A : ι → Aggregate} : WorldAction ι A → Option ι
  | .foreign _ _ _ => none
  | .spawn i _ => some i
  | .serve i _ => some i
  | .settle i => some i
  | .receive i _ => some i
  | .exit i _ => some i

namespace World

variable {ι : Type} [DecidableEq ι]

/-- One order of commands that explains everything the actors of a stream show. -/
structure OneOrder (C : Crates) (instanceId : ι → String) (id : Uuid)
    (w : World fun _ : ι => B) (log : List (B.Command × List B.DomainEvent))
    (place : Nat → Nat) : Prop where
  written : Explains C B id log (w.server.streams id)
  whole : B.decider.Runs log (replayEvents C B (w.server.streams id))
  held : ∀ j l, streamOf C (fun _ => B) instanceId j = id →
    (w.slots j).pair? = some l → ∃ earlier, earlier <+: log ∧ B.decider.Runs earlier l.state
  saved : ∀ j snap, streamOf C (fun _ => B) instanceId j = id → w.disk j = some snap →
    ∃ earlier, earlier <+: log ∧ B.decider.Runs earlier snap.state
  shown : ∀ j commits state, streamOf C (fun _ => B) instanceId j = id →
    (⟨j, .getState, commits, .getState state⟩ : Σ _ : ι, Completed B) ∈ w.history →
      ∃ earlier, earlier <+: log ∧ B.decider.Runs earlier state
  ruled : ∀ j cmd ctx newV4 commits result ruling,
    streamOf C (fun _ => B) instanceId j = id →
    (⟨j, .execute cmd ctx newV4, commits, .execute result⟩ : Σ _ : ι, Completed B) ∈
      w.history → ExecuteResult.ruling? result = some ruling →
      ∃ earlier state, earlier <+: log ∧ B.decider.Runs earlier state ∧
        B.handle state cmd = ruling
  placed : ∀ p j done entry, streamOf C (fun _ => B) instanceId j = id →
    w.history[p]? = some ⟨j, done⟩ → done.appended? = some entry →
      log[place p]? = some entry
  once : ∀ p q j k done done' entry entry', streamOf C (fun _ => B) instanceId j = id →
    streamOf C (fun _ => B) instanceId k = id →
    w.history[p]? = some ⟨j, done⟩ → done.appended? = some entry →
    w.history[q]? = some ⟨k, done'⟩ → done'.appended? = some entry' →
      place p = place q → p = q

variable {instanceId : ι → String} {id : Uuid}

section Blocks

variable {w w' : World fun _ : ι => B}

/-- Who holds a block of the stream: an answer of the history, or an actor that is at
its message. -/
def Holds (C : Crates) (instanceId : ι → String) (id : Uuid) (w : World fun _ : ι => B) :
    Nat ⊕ ι → Commit → Prop
  | .inl p, c => ∃ j done, streamOf C (fun _ => B) instanceId j = id ∧
      w.history[p]? = some ⟨j, done⟩ ∧ c ∈ done.commits
  | .inr j, c => streamOf C (fun _ => B) instanceId j = id ∧
      ∃ msg trail fut, w.slots j = .busy msg trail fut ∧ c ∈ trail.commits

/-- Nobody holds a block that starts where a block of someone else does. -/
def Apart (C : Crates) (instanceId : ι → String) (id : Uuid) (w : World fun _ : ι => B) :
    Prop :=
  ∀ a b c c', w.Holds C instanceId id a c → w.Holds C instanceId id b c' →
    c.start = c'.start → a = b

omit [DecidableEq ι] in
/-- A held block lies inside the stream. -/
theorem Serial.start_lt {log : List (B.Command × List B.DomainEvent)} {lengths : List Nat}
    (hw : w.Serial C instanceId id log lengths) {a : Nat ⊕ ι} {c : Commit}
    (hholds : w.Holds C instanceId id a c) : c.start < (w.server.streams id).length := by
  rcases a with p | j
  · obtain ⟨j, done, hj, hat, hc⟩ := hholds
    obtain ⟨_, _, _, -, -, -, hlt⟩ :=
      (hw.answered j done hj (List.mem_of_getElem? hat)).2 c hc
    exact hlt
  · obtain ⟨hj, msg, trail, fut, hat, hc⟩ := hholds
    have hslot := hw.slots j hj
    rw [hat] at hslot
    obtain ⟨_, _, _, -, -, -, hlt⟩ := hslot.2 c hc
    exact hlt

/-- How a block that is held after a step came there: it was held before, it is the
block that the step has appended, or its actor has handed it to its answer. -/
inductive Handed (C : Crates) (instanceId : ι → String) (id : Uuid)
    (w w' : World fun _ : ι => B) (act : WorldAction ι fun _ => B) (a : Nat ⊕ ι)
    (c : Commit) : Prop
  | kept (hholds : w.Holds C instanceId id a c)
  | appended {j : ι} (hslot : act.slot? = some j) (ha : a = .inr j)
      (hstart : c.start = (w.server.streams id).length)
  | answered {j : ι} {done : Completed B} (ha : a = .inl w.history.length)
      (hhistory : w'.history = w.history ++ [⟨j, done⟩])
      (hholds : w.Holds C instanceId id (.inr j) c)
      (hgone : ∀ c', ¬ w'.Holds C instanceId id (.inr j) c')

/-- A call leaves at most one block on the trail, at the end of the stream. -/
theorem serve_commits {op : StoreOp} (hop : op.GoesTo id) {answer : Answer} {s s' : Server}
    {trail trail' : Trail} {r : op.Res}
    (hserve : op.serve C answer (s, trail) = some (r, (s', trail'))) :
    trail'.commits = trail.commits ∨
      ∃ c, c.start = (s.streams id).length ∧ trail'.commits = trail.commits ++ [c] := by
  cases op with
  | append other expected events =>
      change other = id at hop
      subst hop
      rcases serve_append_cases hserve with
        ⟨_, _, -, -, -, -, rfl⟩ | ⟨_, -, -, -, -, rfl⟩ |
        ⟨_, -, -, ⟨-, rfl⟩ | ⟨_, -, -, rfl⟩⟩
      · exact Or.inr ⟨_, rfl, rfl⟩
      · exact Or.inl rfl
      · exact Or.inl rfl
      · exact Or.inr ⟨_, rfl, rfl⟩
  | readStream other n count =>
      refine Or.inl ?_
      cases answer with
      | server recordedAt =>
          simp only [StoreOp.serve] at hserve
          split at hserve <;>
            simp only [Option.some.injEq, Prod.mk.injEq] at hserve <;>
            rw [← hserve.2.2]
      | fault status committed recordedAt =>
          simp only [StoreOp.serve] at hserve
          split at hserve
          · cases hserve
          · simp only [Option.some.injEq, Prod.mk.injEq] at hserve
            rw [← hserve.2.2]
  | panic => exact r.elim

/-- A step after which slot `j` holds no block of its own and no answer was added. -/
theorem holds_of_slot {j : ι} {slot : Slot B}
    (hslot : ∀ msg trail fut, slot = .busy msg trail fut → trail.commits = [])
    (hslots : w'.slots = (w.setSlot j slot).slots) (hhistory : w'.history = w.history)
    {a : Nat ⊕ ι} {c : Commit} (hholds : w'.Holds C instanceId id a c) :
    w.Holds C instanceId id a c := by
  rcases a with p | k
  · obtain ⟨i, done, hi, hat, hc⟩ := hholds
    exact ⟨i, done, hi, hhistory ▸ hat, hc⟩
  · obtain ⟨hk, msg, trail, fut, hat, hc⟩ := hholds
    refine ⟨hk, msg, trail, fut, ?_, hc⟩
    by_cases heq : k = j
    · subst heq
      rw [hslots, setSlot_slots_self] at hat
      rw [hslot msg trail fut hat] at hc
      cases hc
    · rw [hslots, setSlot_slots_ne w heq] at hat
      exact hat

theorem handed_serve (hhome : w.Home C instanceId) {j : ι} {answer : Answer}
    (hserved : Served C w j answer w') {a : Nat ⊕ ι} {c : Commit}
    (hholds : w'.Holds C instanceId id a c) :
    Handed C instanceId id w w' (.serve j answer) a c := by
  have hgoes := hhome j
  cases hserved with
  | spawning hat hserve hnext =>
      subst hnext
      exact .kept (holds_of_slot (fun _ _ _ h => by cases h) rfl rfl hholds)
  | @busy msg trail trail' l op resume r s hat hserve hnext =>
      subst hnext
      rw [hat] at hgoes
      rcases a with p | k
      · exact .kept hholds
      · obtain ⟨hk, msg', trail'', fut, hat', hc⟩ := hholds
        by_cases heq : k = j
        · subst heq
          simp only [setSlot_slots_self, Slot.busy.injEq] at hat'
          obtain ⟨rfl, rfl, -⟩ := hat'
          rcases serve_commits (hk ▸ hgoes.1) hserve with hsame | ⟨new, hstart, hnew⟩
          · rw [hsame] at hc
            exact .kept ⟨hk, _, _, _, hat, hc⟩
          · rw [hnew] at hc
            rcases List.mem_append.mp hc with hold | hlast
            · exact .kept ⟨hk, _, _, _, hat, hold⟩
            · rw [List.mem_singleton.mp hlast]
              exact .appended rfl rfl hstart
        · rw [setSlot_slots_ne w heq] at hat'
          exact .kept ⟨hk, msg', trail'', fut, hat', hc⟩

theorem handed_settle {j : ι} (hsettled : Settled w j w') {a : Nat ⊕ ι} {c : Commit}
    (hholds : w'.Holds C instanceId id a c) :
    Handed C instanceId id w w' (.settle j) a c := by
  cases hsettled with
  | spawned hat hnext =>
      subst hnext
      exact .kept (holds_of_slot (fun _ _ _ h => by cases h) rfl rfl hholds)
  | ended hnext =>
      subst hnext
      exact .kept (holds_of_slot (fun _ _ _ h => by cases h) rfl rfl hholds)
  | @replied msg trail l reply hat hnext =>
      subst hnext
      rcases a with p | k
      · obtain ⟨i, done, hi, hdone, hc⟩ := hholds
        by_cases hp : p = w.history.length
        · subst hp
          simp only [List.getElem?_concat_length, Option.some.injEq] at hdone
          cases hdone
          refine .answered rfl rfl ⟨hi, _, _, _, hat, hc⟩ ?_
          rintro c' ⟨-, _, _, _, hat', -⟩
          simp at hat'
        · have hlt : p < w.history.length := by
            have := (List.getElem?_eq_some_iff.mp hdone).1
            simp only [List.length_append, List.length_singleton] at this
            omega
          rw [List.getElem?_append_left hlt] at hdone
          exact .kept ⟨i, done, hi, hdone, hc⟩
      · obtain ⟨hk, msg', trail', fut, hat', hc⟩ := hholds
        by_cases heq : k = j
        · subst heq
          simp at hat'
        · rw [setSlot_slots_ne w heq] at hat'
          exact .kept ⟨hk, msg', trail', fut, hat', hc⟩

theorem handed_step (hhome : w.Home C instanceId) {act : WorldAction ι fun _ => B}
    (hstep : w.step C instanceId act = some w') {a : Nat ⊕ ι} {c : Commit}
    (hholds : w'.Holds C instanceId id a c) : Handed C instanceId id w w' act a c := by
  cases act with
  | foreign other events recordedAt =>
      simp only [step, Option.some.injEq] at hstep
      subst hstep
      exact .kept hholds
  | serve j answer => exact handed_serve hhome (served_of_serveSlot C hstep) hholds
  | settle j => exact handed_settle (settled_of_settleSlot hstep) hholds
  | spawn j snapshot =>
      simp only [step] at hstep
      split at hstep <;> simp only [Option.some.injEq, reduceCtorEq] at hstep
      subst hstep
      exact .kept (holds_of_slot (fun _ _ _ h => by cases h) rfl rfl hholds)
  | receive j msg =>
      simp only [step] at hstep
      split at hstep <;> simp only [Option.some.injEq, reduceCtorEq] at hstep
      subst hstep
      refine .kept (holds_of_slot (fun msg' trail fut h => ?_) rfl rfl hholds)
      simp only [Slot.busy.injEq] at h
      rw [← h.2.1]
  | exit j saved =>
      simp only [step] at hstep
      split at hstep <;> simp only [Option.some.injEq, reduceCtorEq] at hstep
      subst hstep
      exact .kept (holds_of_slot (j := j) (fun _ _ _ h => by cases h) rfl rfl hholds)

/-- A new block starts behind all the others. -/
theorem apart_step {log : List (B.Command × List B.DomainEvent)} {lengths : List Nat}
    (hw : w.Apart C instanceId id) (hserial : w.Serial C instanceId id log lengths)
    {act : WorldAction ι fun _ => B} (hstep : w.step C instanceId act = some w') :
    w'.Apart C instanceId id := by
  intro a b c c' ha hb hstart
  have hbelow := fun {a c} (h : w.Holds C instanceId id a c) => hserial.start_lt h
  cases handed_step hserial.home hstep ha with
  | kept hold =>
      cases handed_step hserial.home hstep hb with
      | kept hold' => exact hw a b c c' hold hold' hstart
      | appended hslot hbj hnew =>
          have := hbelow hold
          omega
      | answered hbn hhistory hold' hgone =>
          have := hw a _ c c' hold hold' hstart
          subst this
          exact absurd ha (hgone c)
  | appended hslot haj hnew =>
      cases handed_step hserial.home hstep hb with
      | kept hold' =>
          have := hbelow hold'
          omega
      | appended hslot' hbj hnew' =>
          cases Option.some.inj (hslot.symm.trans hslot')
          exact haj.trans hbj.symm
      | answered hbn hhistory hold' hgone =>
          have := hbelow hold'
          omega
  | answered han hhistory hold hgone =>
      cases handed_step hserial.home hstep hb with
      | kept hold' =>
          have := hw _ b c c' hold hold' hstart
          subst this
          exact absurd hb (hgone c')
      | appended hslot hbj hnew =>
          have := hbelow hold
          omega
      | answered hbn hhistory' hold' hgone' => exact han.trans hbn.symm

omit [DecidableEq ι] in
theorem Fresh.apart (hfresh : w.Fresh) : w.Apart C instanceId id := by
  rintro (p | j) b c c' ha
  · obtain ⟨j, done, -, hat, -⟩ := ha
    rw [hfresh.unanswered] at hat
    cases hat
  · obtain ⟨-, msg, trail, fut, hat, -⟩ := ha
    rw [hfresh.absent j] at hat
    cases hat

end Blocks

section Runs

variable {w₀ w : World fun _ : ι => B}

omit [DecidableEq ι] in
/-- A block that is held is the entry of the log that its place in the stream names. -/
theorem Serial.place {log : List (B.Command × List B.DomainEvent)} {lengths : List Nat}
    (hw : w.Serial C instanceId id log lengths) {p : Nat} {j : ι} {done : Completed B}
    {entry : B.Command × List B.DomainEvent}
    (hj : streamOf C (fun _ => B) instanceId j = id) (hat : w.history[p]? = some ⟨j, done⟩)
    (hentry : done.appended? = some entry) :
    ∃ k c, log[k]? = some entry ∧ w.Holds C instanceId id (.inl p) c ∧
      c.start = ((log.take k).flatMap Prod.snd).length := by
  obtain ⟨hanswered, hlogged⟩ := hw.answered j done hj (List.mem_of_getElem? hat)
  obtain ⟨msg, commits, reply⟩ := done
  cases msg with
  | getState => simp [Completed.appended?] at hentry
  | inject proposed => simp [Completed.appended?] at hentry
  | execute cmd ctx newV4 =>
      cases reply with
      | getState state => simp [Completed.appended?] at hentry
      | inject result => simp [Completed.appended?] at hentry
      | execute result =>
          cases result with
          | error e => simp [Completed.appended?] at hentry
          | ok events =>
              cases events with
              | nil => simp [Completed.appended?] at hentry
              | cons e rest =>
                  simp only [Completed.appended?, Option.some.injEq] at hentry
                  subst hentry
                  obtain ⟨c, hcommits, -, hhandle⟩ := hanswered
                  change commits = [c] at hcommits
                  subst hcommits
                  obtain ⟨earlier, cmd', events', hcarries, hpre, hexplains, hlt⟩ :=
                    hlogged c List.mem_cons_self
                  have hcmd : cmd' = cmd := hcarries
                  subst hcmd
                  -- the log entry was decided on the same state as the answer
                  obtain ⟨_, hruns⟩ := hw.explained.runs.of_prefix hpre
                  obtain ⟨s, hearlier, hdecide, -⟩ := hruns.concat_cases
                  have hs := hearlier.unique hexplains.runs
                  subst hs
                  have hevents : events' = e :: rest :=
                    Except.ok.inj (hdecide.symm.trans hhandle)
                  subst hevents
                  obtain ⟨later, rfl⟩ := hpre
                  refine ⟨earlier.length, c, ?_, ⟨j, _, hj, hat, List.mem_cons_self⟩, ?_⟩
                  · simp
                  · rw [List.append_assoc, List.take_left, ← hexplains.length,
                      List.length_take, Nat.min_eq_left (Nat.le_of_lt hlt)]

theorem serial_of_reaches (hfresh : w₀.Fresh) (hempty : w₀.server.streams id = [])
    (hdisk : ∀ j, streamOf C (fun _ => B) instanceId j = id → w₀.disk j = none)
    (hreach : Reaches (step C instanceId) (fun w a =>
      w.Admits C instanceId (streamOf C (fun _ => B) instanceId · = id) a ∧
        OnlyExecutes C instanceId id a) w₀ w) :
    (∃ log lengths, w.Serial C instanceId id log lengths) ∧ w.Apart C instanceId id := by
  induction hreach with
  | start => exact ⟨⟨[], [], hfresh.serial hempty hdisk⟩, hfresh.apart⟩
  | next _ hok hstep ih =>
      obtain ⟨⟨log, lengths, hw⟩, hapart⟩ := ih
      obtain ⟨log', lengths', -, hw'⟩ := serial_step hw hok.1 hok.2 hstep
      exact ⟨⟨log', lengths', hw'⟩, apart_step hapart hw hstep⟩

omit [DecidableEq ι] in
/-- Whatever an answer was decided on is the state after the first commands of the
log. -/
theorem Serial.ruled {log : List (B.Command × List B.DomainEvent)} {lengths : List Nat}
    (hw : w.Serial C instanceId id log lengths) {j : ι} {cmd : B.Command}
    {ctx : CommandContext} {newV4 : Nat → Nat → Uuid} {commits : List Commit}
    {result : ExecuteResult B} {ruling : Except B.Error (List B.DomainEvent)}
    (hj : streamOf C (fun _ => B) instanceId j = id)
    (hdone : (⟨j, .execute cmd ctx newV4, commits, .execute result⟩ :
      Σ _ : ι, Completed B) ∈ w.history)
    (hruling : ExecuteResult.ruling? result = some ruling) :
    ∃ earlier state, earlier <+: log ∧ B.decider.Runs earlier state ∧
      B.handle state cmd = ruling := by
  obtain ⟨hruled, hlogged⟩ := hw.answered j _ hj hdone
  have hcut : ∀ n ∈ lengths, B.handle (w.server.stateAt C B id n) cmd = ruling →
      ∃ earlier state, earlier <+: log ∧ B.decider.Runs earlier state ∧
        B.handle state cmd = ruling := by
    intro n hn hhandle
    obtain ⟨-, earlier, hpre, hearlier⟩ := hw.cuts n hn
    exact ⟨earlier, _, hpre, hearlier.runs, hhandle⟩
  cases result with
  | ok events =>
      simp only [ExecuteResult.ruling?, Option.some.injEq] at hruling
      subst hruling
      cases events with
      | nil =>
          obtain ⟨n, hn, -, hhandle⟩ := hruled
          exact hcut n hn hhandle
      | cons e rest =>
          obtain ⟨c, hcommits, -, hhandle⟩ := hruled
          have hc : c ∈ commits := by
            rw [show commits = [c] from hcommits]
            exact List.mem_cons_self
          obtain ⟨earlier, _, _, -, hpre, hexplains, -⟩ := hlogged c hc
          exact ⟨earlier, _, (List.prefix_append _ _).trans hpre, hexplains.runs, hhandle⟩
  | error e =>
      cases e with
      | domain e =>
          simp only [ExecuteResult.ruling?, Option.some.injEq] at hruling
          subst hruling
          obtain ⟨n, hn, -, hhandle⟩ := hruled
          exact hcut n hn hhandle
      | wrongExpectedVersion => simp [ExecuteResult.ruling?] at hruling
      | io message => simp [ExecuteResult.ruling?] at hruling
      | transport status => simp [ExecuteResult.ruling?] at hruling
      | actorGone => simp [ExecuteResult.ruling?] at hruling

omit [DecidableEq ι] in
/-- Where the acknowledged answers stand in the log. -/
theorem Serial.exists_place {log : List (B.Command × List B.DomainEvent)}
    {lengths : List Nat} (hw : w.Serial C instanceId id log lengths) :
    ∃ place : Nat → Nat, ∀ p j done entry, streamOf C (fun _ => B) instanceId j = id →
      w.history[p]? = some ⟨j, done⟩ → done.appended? = some entry →
      log[place p]? = some entry ∧ ∃ c, w.Holds C instanceId id (.inl p) c ∧
        c.start = ((log.take (place p)).flatMap Prod.snd).length := by
  have hplace : ∀ p, ∃ k, ∀ j done entry, streamOf C (fun _ => B) instanceId j = id →
      w.history[p]? = some ⟨j, done⟩ → done.appended? = some entry →
      log[k]? = some entry ∧ ∃ c, w.Holds C instanceId id (.inl p) c ∧
        c.start = ((log.take k).flatMap Prod.snd).length := by
    intro p
    by_cases hp : ∃ j done entry, streamOf C (fun _ => B) instanceId j = id ∧
        w.history[p]? = some ⟨j, done⟩ ∧ done.appended? = some entry
    · obtain ⟨j, done, entry, hj, hat, hentry⟩ := hp
      obtain ⟨k, c, hk, hholds, hstart⟩ := hw.place hj hat hentry
      refine ⟨k, fun j' done' entry' _ hat' hentry' => ?_⟩
      cases Option.some.inj (hat.symm.trans hat')
      cases Option.some.inj (hentry.symm.trans hentry')
      exact ⟨hk, c, hholds, hstart⟩
    · exact ⟨0, fun j done entry hj hat hentry => absurd ⟨j, done, entry, hj, hat, hentry⟩ hp⟩
  choose place hplace using hplace
  exact ⟨place, hplace⟩

omit [DecidableEq ι] in
theorem Serial.oneOrder {log : List (B.Command × List B.DomainEvent)} {lengths : List Nat}
    (hw : w.Serial C instanceId id log lengths) (hapart : w.Apart C instanceId id)
    {place : Nat → Nat}
    (hplace : ∀ p j done entry, streamOf C (fun _ => B) instanceId j = id →
      w.history[p]? = some ⟨j, done⟩ → done.appended? = some entry →
      log[place p]? = some entry ∧ ∃ c, w.Holds C instanceId id (.inl p) c ∧
        c.start = ((log.take (place p)).flatMap Prod.snd).length) :
    w.OneOrder C instanceId id log place where
  written := hw.explained
  whole := hw.explained.runs
  held j l hj hpair := by
    have hslot := hw.slots j hj
    cases hat : w.slots j with
    | absent => simp [hat, Slot.pair?] at hpair
    | spawning trail fut => simp [hat, Slot.pair?] at hpair
    | idle seen l' =>
        rw [hat] at hslot hpair
        cases hpair
        exact hw.runs_of_held hslot
    | busy msg trail fut =>
        rw [hat] at hslot hpair
        cases hpair
        cases fut with
        | ready out => exact hw.runs_of_held hslot.1.1
        | await l' op resume => exact hw.runs_of_held (hslot.1.during rfl)
  saved := hw.saved
  shown j commits state hj hdone := by
    obtain ⟨⟨n, hn, -, hstate⟩, -⟩ := hw.answered j _ hj hdone
    obtain ⟨-, earlier, hpre, hearlier⟩ := hw.cuts n hn
    exact ⟨earlier, hpre, hstate ▸ hearlier.runs⟩
  ruled _ _ _ _ _ _ _ hj hdone hruling := hw.ruled hj hdone hruling
  placed p j done entry hj hat hentry := (hplace p j done entry hj hat hentry).1
  once p q j k done done' entry entry' hj hk hat hentry hat' hentry' hsame := by
    obtain ⟨-, c, hholds, hstart⟩ := hplace p j done entry hj hat hentry
    obtain ⟨-, c', hholds', hstart'⟩ := hplace q k done' entry' hk hat' hentry'
    have hsum := hapart _ _ c c' hholds hholds' (by rw [hstart, hstart', hsame])
    exact Sum.inl.inj hsum

/-- In every run in which only executes write a stream, however many actors write it:
one order of commands explains the stream, every answer, and every state that an actor
holds, shows or saves; and every acknowledged command has one place in it. -/
theorem actors_refine_plain_aggregate (hfresh : w₀.Fresh)
    (hempty : w₀.server.streams id = [])
    (hdisk : ∀ j, streamOf C (fun _ => B) instanceId j = id → w₀.disk j = none)
    (hreach : Reaches (step C instanceId) (fun w a =>
      w.Admits C instanceId (streamOf C (fun _ => B) instanceId · = id) a ∧
        OnlyExecutes C instanceId id a) w₀ w) :
    ∃ log place, w.OneOrder C instanceId id log place := by
  obtain ⟨⟨log, lengths, hw⟩, hapart⟩ := serial_of_reaches hfresh hempty hdisk hreach
  obtain ⟨place, hplace⟩ := hw.exists_place
  exact ⟨log, place, hw.oneOrder hapart hplace⟩

/-- What the aggregate keeps when it is alone, it keeps under any number of actors: in
the stream, in every state that is held, shown or saved. -/
theorem domain_rule_is_kept {P : B.State → Prop} (hdefault : P B.default)
    (hkeep : ∀ s cmd events, P s → B.handle s cmd = .ok events →
      P (events.foldl B.apply s))
    (hfresh : w₀.Fresh) (hempty : w₀.server.streams id = [])
    (hdisk : ∀ j, streamOf C (fun _ => B) instanceId j = id → w₀.disk j = none)
    (hreach : Reaches (step C instanceId) (fun w a =>
      w.Admits C instanceId (streamOf C (fun _ => B) instanceId · = id) a ∧
        OnlyExecutes C instanceId id a) w₀ w) :
    P (replayEvents C B (w.server.streams id)) ∧
      ∀ j, streamOf C (fun _ => B) instanceId j = id →
        (∀ l, (w.slots j).pair? = some l → P l.state) ∧
        (∀ snap, w.disk j = some snap → P snap.state) ∧
        ∀ commits state, (⟨j, .getState, commits, .getState state⟩ :
          Σ _ : ι, Completed B) ∈ w.history → P state := by
  obtain ⟨log, place, horder⟩ := actors_refine_plain_aggregate hfresh hempty hdisk hreach
  have hall : ∀ {earlier state}, B.decider.Runs earlier state → P state := fun hruns =>
    hruns.invariant hdefault hkeep
  refine ⟨hall horder.whole, fun j hj => ⟨fun l hpair => ?_, fun snap hsnap => ?_,
    fun commits state hdone => ?_⟩⟩
  · obtain ⟨earlier, -, hruns⟩ := horder.held j l hj hpair
    exact hall hruns
  · obtain ⟨earlier, -, hruns⟩ := horder.saved j snap hj hsnap
    exact hall hruns
  · obtain ⟨earlier, -, hruns⟩ := horder.shown j commits state hj hdone
    exact hall hruns

end Runs

section RealTime

variable {w₀ w₁ w w' : World fun _ : ι => B}

/-- The actor is at a message. -/
def AtMessage (w : World fun _ : ι => B) (j : ι) : Prop :=
  ∃ msg trail fut, w.slots j = .busy msg trail fut

/-- A holder that came to its block after `w₁`: a later answer of an actor that was not
at a message in `w₁`, or such an actor itself. -/
def LaterThan (w₁ w : World fun _ : ι => B) : Nat ⊕ ι → Prop
  | .inl p => w₁.history.length ≤ p ∧ ∃ k done, w.history[p]? = some ⟨k, done⟩ ∧ ¬ w₁.AtMessage k
  | .inr k => ¬ w₁.AtMessage k

/-- Since `w₁` the blocks of later holders start behind the first `n` records. -/
structure Since (C : Crates) (instanceId : ι → String) (id : Uuid) (n : Nat)
    (w₁ w : World fun _ : ι => B) : Prop where
  grown : n ≤ (w.server.streams id).length
  history : w₁.history <+: w.history
  behind : ∀ a c, w.Holds C instanceId id a c → LaterThan w₁ w a → n ≤ c.start

theorem step_history {act : WorldAction ι fun _ => B}
    (hstep : w.step C instanceId act = some w') : w.history <+: w'.history := by
  cases act with
  | foreign other events recordedAt =>
      simp only [step, Option.some.injEq] at hstep
      exact hstep ▸ List.prefix_rfl
  | serve j answer =>
      cases served_of_serveSlot C hstep with
      | spawning _ _ hnext => exact hnext ▸ List.prefix_rfl
      | busy _ _ hnext => exact hnext ▸ List.prefix_rfl
  | settle j =>
      cases settled_of_settleSlot hstep with
      | spawned _ hnext => exact hnext ▸ List.prefix_rfl
      | replied _ hnext => exact hnext ▸ List.prefix_append _ _
      | ended hnext => exact hnext ▸ List.prefix_rfl
  | spawn j snapshot =>
      simp only [step] at hstep
      split at hstep <;> simp only [Option.some.injEq, reduceCtorEq] at hstep
      exact hstep ▸ List.prefix_rfl
  | receive j msg =>
      simp only [step] at hstep
      split at hstep <;> simp only [Option.some.injEq, reduceCtorEq] at hstep
      exact hstep ▸ List.prefix_rfl
  | exit j saved =>
      simp only [step] at hstep
      split at hstep <;> simp only [Option.some.injEq, reduceCtorEq] at hstep
      exact hstep ▸ List.prefix_rfl

theorem Since.step {n : Nat} (hw : Since C instanceId id n w₁ w) (hwf : w.server.WellFormed)
    (hhome : w.Home C instanceId) {act : WorldAction ι fun _ => B}
    (hstep : w.step C instanceId act = some w') : Since C instanceId id n w₁ w' where
  grown := hw.grown.trans ((step_grows hwf hstep).1 id).length_le
  history := hw.history.trans (step_history hstep)
  behind a c hholds hlater := by
    cases handed_step hhome hstep hholds with
    | kept hold =>
        refine hw.behind a c hold ?_
        rcases a with p | k
        · obtain ⟨j, done, -, hat, -⟩ := hold
          obtain ⟨hp, k, done', hat', hk⟩ := hlater
          obtain ⟨added, hadded⟩ := step_history hstep
          have hsame : w'.history[p]? = some ⟨j, done⟩ := by
            rw [← hadded, List.getElem?_append_left (List.getElem?_eq_some_iff.mp hat).1]
            exact hat
          cases Option.some.inj (hsame.symm.trans hat')
          exact ⟨hp, j, done, hat, hk⟩
        · exact hlater
    | appended hslot ha hstart => exact hstart ▸ hw.grown
    | @answered j done ha hhistory hold hgone =>
        subst ha
        refine hw.behind _ c hold ?_
        obtain ⟨-, k, done', hat, hk⟩ := hlater
        rw [hhistory, List.getElem?_concat_length] at hat
        cases hat
        exact hk

/-- What is acknowledged before another command is received stands before it: the one
order keeps the order in real time. -/
theorem acknowledged_keep_real_time_order (hfresh : w₀.Fresh)
    (hempty : w₀.server.streams id = [])
    (hdisk : ∀ j, streamOf C (fun _ => B) instanceId j = id → w₀.disk j = none)
    (hreach₁ : Reaches (step C instanceId) (fun w a =>
      w.Admits C instanceId (streamOf C (fun _ => B) instanceId · = id) a ∧
        OnlyExecutes C instanceId id a) w₀ w₁)
    (hreach : Reaches (step C instanceId) (fun w a =>
      w.Admits C instanceId (streamOf C (fun _ => B) instanceId · = id) a ∧
        OnlyExecutes C instanceId id a) w₁ w) :
    ∃ log place, w.OneOrder C instanceId id log place ∧
      ∀ p q j k done done' entry entry', streamOf C (fun _ => B) instanceId j = id →
        streamOf C (fun _ => B) instanceId k = id →
        w₁.history[p]? = some ⟨j, done⟩ → done.appended? = some entry →
        w.history[q]? = some ⟨k, done'⟩ → done'.appended? = some entry' →
        w₁.history.length ≤ q → ¬ w₁.AtMessage k → place p < place q := by
  obtain ⟨⟨log₁, lengths₁, hw₁⟩, -⟩ := serial_of_reaches hfresh hempty hdisk hreach₁
  have hsince : Since C instanceId id (w₁.server.streams id).length w₁ w := by
    have hstart : Since C instanceId id (w₁.server.streams id).length w₁ w₁ := by
      refine ⟨Nat.le_refl _, List.prefix_rfl, ?_⟩
      rintro (p | k) c hholds hlater
      · obtain ⟨j, done, -, hat, -⟩ := hholds
        have hlt := (List.getElem?_eq_some_iff.mp hat).1
        exact absurd hlater.1 (Nat.not_le.mpr hlt)
      · obtain ⟨-, msg, trail, fut, hat, -⟩ := hholds
        exact absurd ⟨msg, trail, fut, hat⟩ hlater
    induction hreach with
    | start => exact hstart
    | next hprior _ hstep ih =>
        obtain ⟨⟨_, _, hmid⟩, -⟩ :=
          serial_of_reaches hfresh hempty hdisk (hreach₁.trans hprior)
        exact ih.step hmid.wellFormed hmid.home hstep
  obtain ⟨⟨log, lengths, hw⟩, hapart⟩ :=
    serial_of_reaches hfresh hempty hdisk (hreach₁.trans hreach)
  obtain ⟨place, hplace⟩ := hw.exists_place
  refine ⟨log, place, hw.oneOrder hapart hplace, ?_⟩
  intro p q j k done done' entry entry' hj hk hat₁ hentry hat' hentry' hq hidle
  have hat : w.history[p]? = some ⟨j, done⟩ := by
    obtain ⟨added, hadded⟩ := hsince.history
    rw [← hadded, List.getElem?_append_left (List.getElem?_eq_some_iff.mp hat₁).1]
    exact hat₁
  obtain ⟨-, c, hholds, hstart⟩ := hplace p j done entry hj hat hentry
  obtain ⟨-, c', hholds', hstart'⟩ := hplace q k done' entry' hk hat' hentry'
  have hlate := hsince.behind _ c' hholds' ⟨hq, k, done', hat', hidle⟩
  have hearly : c.start < (w₁.server.streams id).length := by
    refine hw₁.start_lt (a := .inl p) ⟨j, done, hj, hat₁, ?_⟩
    obtain ⟨j', done'', -, hat'', hc⟩ := hholds
    cases Option.some.inj (hat.symm.trans hat'')
    exact hc
  by_contra hnot
  have hle : c'.start ≤ c.start := by
    rw [hstart, hstart']
    obtain ⟨more, hmore⟩ := List.take_prefix_take_left (l := log) (Nat.not_lt.mp hnot)
    rw [← hmore, List.flatMap_append, List.length_append]
    exact Nat.le_add_right _ _
  omega

end RealTime

end World

namespace ActorRefinementWitness

open ActorRunsWitness EventCodecWitness World

/-- A door that opens once. -/
def latch : Aggregate where
  State := Nat
  Command := Unit
  DomainEvent := Unit
  Error := String
  aggregateType := "latch"
  default := 0
  handle opened _ := if opened = 0 then .ok [()] else .error "already open"
  apply opened _ := opened + 1
  toValue := door.toValue
  fromValue := door.fromValue

theorem latch_eventsSurvive : latch.EventsSurvive crates := by
  intro e newV4 ctx aggregateType instanceId p henc streamId version position recordedAt
  cases henc
  rw [decodeDomainEvent_of_parses crates_parses_null rfl]
  rfl

section TwoActors

variable {B : Aggregate}

/-- Two actors of one instance, and nothing stored yet. -/
def twoActors (B : Aggregate) : World fun _ : Bool => B where
  server := ⟨fun _ => [], 0⟩
  slots _ := .absent
  disk _ := none
  history := []

theorem twoActors_fresh (B : Aggregate) : (twoActors B).Fresh :=
  ⟨fun _ => trivial, fun _ => rfl, rfl⟩

def oneId : Bool → String := fun _ => "l-1"

def oneStream (B : Aggregate) : Uuid := streamUuid crates B.aggregateType "l-1"

/-- Both are spawned, and the first executes the command. -/
def firstExecutes (cmd : B.Command) : List (WorldAction Bool fun _ => B) :=
  [.spawn false none, .serve false (.server 0), .settle false,
    .spawn true none, .serve true (.server 0), .settle true,
    .receive true (.execute cmd .default fun _ _ => 7), .serve true (.server 0), .settle true]

/-- The other is behind: its append is refused, and it reads again. -/
def otherRetries (cmd : B.Command) : List (WorldAction Bool fun _ => B) :=
  [.receive false (.execute cmd .default fun _ _ => 8), .serve false (.server 0),
    .serve false (.server 0)]

/-- The other shows its state and exits with a snapshot. -/
def otherShows : List (WorldAction Bool fun _ => B) :=
  [.settle false, .receive false .getState, .settle false, .exit false true]

/-- What the runs of the two actors owe. -/
abbrev TwoActorsOwe (B : Aggregate) (w : World fun _ : Bool => B)
    (a : WorldAction Bool fun _ => B) : Prop :=
  w.Admits crates oneId (streamOf crates (fun _ => B) oneId · = oneStream B) a ∧
    OnlyExecutes crates oneId (oneStream B) a

theorem twoActors_owe (hsurvive : B.EventsSurvive crates) {a : WorldAction Bool fun _ => B}
    (hspawn : ∀ i snap, a ≠ .spawn i (some snap))
    (hforeign : ∀ id events recordedAt, a ≠ .foreign id events recordedAt)
    (hinject : ∀ i p, a ≠ .receive i (.inject p)) (w : World fun _ : Bool => B) :
    TwoActorsOwe B w a := by
  cases a with
  | foreign id events recordedAt => exact absurd rfl (hforeign id events recordedAt)
  | spawn i snapshot =>
      refine ⟨fun _ snap hsnap => ?_, trivial⟩
      exact absurd (congrArg (WorldAction.spawn i) hsnap) (hspawn i snap)
  | receive i msg =>
      cases msg with
      | execute cmd ctx newV4 => exact ⟨fun _ _ _ _ e _ => hsurvive e, trivial⟩
      | getState => exact ⟨fun _ => trivial, trivial⟩
      | inject p => exact absurd rfl (hinject i p)
  | serve i answer => exact ⟨trivial, trivial⟩
  | settle i => exact ⟨trivial, trivial⟩
  | exit i saved => exact ⟨trivial, trivial⟩

theorem firstExecutes_owe (hsurvive : B.EventsSurvive crates) (cmd : B.Command)
    (w : World fun _ : Bool => B) :
    AllOk (step crates oneId) (TwoActorsOwe B) w (firstExecutes cmd) := by
  refine allOk_of_mem (fun a ha => ?_) w
  simp only [firstExecutes, List.mem_cons, List.not_mem_nil, or_false] at ha
  rcases ha with rfl | rfl | rfl | rfl | rfl | rfl | rfl | rfl | rfl <;>
    exact twoActors_owe hsurvive (by simp) (by simp) (by simp)

theorem otherRetries_owe (hsurvive : B.EventsSurvive crates) (cmd : B.Command)
    (w : World fun _ : Bool => B) :
    AllOk (step crates oneId) (TwoActorsOwe B) w (otherRetries cmd) := by
  refine allOk_of_mem (fun a ha => ?_) w
  simp only [otherRetries, List.mem_cons, List.not_mem_nil, or_false] at ha
  rcases ha with rfl | rfl | rfl <;>
    exact twoActors_owe hsurvive (by simp) (by simp) (by simp)

theorem otherShows_owe (hsurvive : B.EventsSurvive crates) (w : World fun _ : Bool => B) :
    AllOk (step crates oneId) (TwoActorsOwe B) w otherShows := by
  refine allOk_of_mem (fun a ha => ?_) w
  simp only [otherShows, List.mem_cons, List.not_mem_nil, or_false] at ha
  rcases ha with rfl | rfl | rfl | rfl <;>
    exact twoActors_owe hsurvive (by simp) (by simp) (by simp)

end TwoActors

/-- The first opens the latch; the other decides, once it has read, that it is open. -/
theorem actors_refine_plain_aggregate_latch :
    ∃ w, runActions (step crates oneId) (twoActors latch)
        (firstExecutes () ++ otherRetries () ++ otherShows) = some w ∧
      ∃ log place, w.OneOrder crates oneId (oneStream latch) log place := by
  refine ⟨_, rfl, actors_refine_plain_aggregate (twoActors_fresh latch) rfl (fun _ _ => rfl)
    (.run (.run (.run .start (firstExecutes ()) (firstExecutes_owe latch_eventsSurvive () _)
      rfl) (otherRetries ()) (otherRetries_owe latch_eventsSurvive () _) rfl) otherShows
      (otherShows_owe latch_eventsSurvive _) rfl)⟩

def openedOnce : latch.State → Prop := fun (opened : Nat) => opened ≤ 1

theorem domain_rule_is_kept_latch :
    ∃ w, runActions (step crates oneId) (twoActors latch)
        (firstExecutes () ++ otherRetries () ++ otherShows) = some w ∧
      openedOnce (replayEvents crates latch (w.server.streams (oneStream latch))) := by
  refine ⟨_, rfl, (domain_rule_is_kept (P := openedOnce) (Nat.zero_le 1) ?_
    (twoActors_fresh latch) rfl (fun _ _ => rfl)
    (.run (.run (.run .start (firstExecutes ()) (firstExecutes_owe latch_eventsSurvive () _)
      rfl) (otherRetries ()) (otherRetries_owe latch_eventsSurvive () _) rfl) otherShows
      (otherShows_owe latch_eventsSurvive _) rfl)).1⟩
  intro (opened : Nat) cmd events hle hhandle
  by_cases hopened : opened = 0
  · have hone : events = [()] := by
      rw [show latch.handle opened cmd = .ok [()] from if_pos hopened] at hhandle
      exact (Except.ok.inj hhandle).symm
    rw [hone, hopened]
    exact Nat.le_refl 1
  · rw [show latch.handle opened cmd = .error "already open" from if_neg hopened] at hhandle
    cases hhandle

/-- A door can be opened again: the two openings stand in the order of their answers. -/
theorem acknowledged_keep_real_time_order_door :
    ∃ w₁ w, runActions (step crates oneId) (twoActors door) (firstExecutes ()) = some w₁ ∧
      runActions (step crates oneId) w₁
        (otherRetries () ++ [.serve false (.server 0), .settle false]) = some w ∧
      ∃ log place, w.OneOrder crates oneId (oneStream door) log place ∧
        place 0 < place 1 := by
  have hanswered : ∀ w : World fun _ : Bool => door, AllOk (step crates oneId)
      (TwoActorsOwe door) w [.serve false (.server 0), .settle false] := fun w =>
    allOk_of_mem (fun a ha => by
      simp only [List.mem_cons, List.not_mem_nil, or_false] at ha
      rcases ha with rfl | rfl <;>
        exact twoActors_owe door_eventsSurvive (by simp) (by simp) (by simp)) w
  obtain ⟨log, place, horder, hbefore⟩ := acknowledged_keep_real_time_order
    (twoActors_fresh door) rfl (fun _ _ => rfl)
    (.run .start (firstExecutes ()) (firstExecutes_owe door_eventsSurvive () _) rfl)
    (.run (.run .start (otherRetries ()) (otherRetries_owe door_eventsSurvive () _) rfl)
      [.serve false (.server 0), .settle false] (hanswered _) rfl)
  refine ⟨_, _, rfl, rfl, log, place, horder, ?_⟩
  refine hbefore 0 1 true false _ _ _ _ rfl rfl rfl rfl rfl rfl (Nat.le_refl 1) ?_
  rintro ⟨msg, trail, fut, hat⟩
  cases hat

end ActorRefinementWitness

end EventfoldEs
