/-
The runs in which only executes write a stream.  A log of commands grows with the
stream and explains it, whoever executes them and whatever answers are lost.
-/
import EventfoldEs.ActorSerial
import EventfoldEs.GlobalLog

namespace EventfoldEs

open Async Replay Decide

variable {C : Crates} {B : Aggregate}

/-- The block of a command is an entry of the log, behind what the stream held. -/
def Logged (C : Crates) (B : Aggregate) (id : Uuid)
    (log : List (B.Command × List B.DomainEvent)) (stream : List RecordedEvent)
    (msg : ActorMessage B) (c : Commit) : Prop :=
  ∃ earlier cmd events, msg.Carries cmd ∧ (earlier ++ [(cmd, events)]) <+: log ∧
    Explains C B id earlier (stream.take c.start) ∧ c.start < stream.length

theorem Logged.mono {id : Uuid} {log log' : List (B.Command × List B.DomainEvent)}
    {stream stream' : List RecordedEvent} {msg : ActorMessage B} {c : Commit}
    (hc : Logged C B id log stream msg c) (hlog : log <+: log')
    (hstream : stream <+: stream') : Logged C B id log' stream' msg c := by
  obtain ⟨earlier, cmd, events, hcarries, hpre, hexplains, hlt⟩ := hc
  obtain ⟨added, rfl⟩ := hstream
  refine ⟨earlier, cmd, events, hcarries, hpre.trans hlog, ?_, ?_⟩
  · rw [List.take_append_of_le_length (Nat.le_of_lt hlt)]
    exact hexplains
  · rw [List.length_append]
    exact Nat.lt_add_right _ hlt

namespace World

variable {ι : Type} [DecidableEq ι]

/-- Only executes write the stream: others append elsewhere, and nothing is injected
into it. -/
def OnlyExecutes (C : Crates) (instanceId : ι → String) (id : Uuid) :
    WorldAction ι (fun _ => B) → Prop
  | .foreign other _ _ => other ≠ id
  | .receive j (.inject _) => streamOf C (fun _ => B) instanceId j ≠ id
  | _ => True

variable {instanceId : ι → String} {id : Uuid}

/-- What a slot of the stream holds, by the lengths the stream has had. -/
def SlotSerial (C : Crates) (id : Uuid) (log : List (B.Command × List B.DomainEvent))
    (lengths : List Nat) (server : Server) : Slot B → Prop
  | .absent => True
  | .spawning trail fut =>
      fut.Safe (serialSpawnTerms C B id)
        (fun out y => ∀ l, out = .ok l → Held C id l y) ((server, trail), lengths)
  | .idle seen l => Held C id l ((server, ⟨[], seen⟩), lengths)
  | .busy msg trail fut =>
      fut.Safe (serialTerms C B id msg.Carries)
        (fun out y => Held C id out.1 y ∧ AnsweredFrom C B id msg y out.2)
        ((server, trail), lengths) ∧
      ∀ c ∈ trail.commits, Logged C B id log (server.streams id) msg c

/-- What holds of every answer given on the stream. -/
def DoneSerial (C : Crates) (id : Uuid) (log : List (B.Command × List B.DomainEvent))
    (lengths : List Nat) (server : Server) (done : Completed B) : Prop :=
  AnsweredFrom C B id done.msg ((server, ⟨done.commits, []⟩), lengths) done.reply ∧
    ∀ c ∈ done.commits, Logged C B id log (server.streams id) done.msg c

/-- The invariant of the runs in which only executes write the stream. -/
structure Serial (C : Crates) (instanceId : ι → String) (id : Uuid)
    (log : List (B.Command × List B.DomainEvent)) (lengths : List Nat)
    (w : World fun _ : ι => B) : Prop where
  wellFormed : w.server.WellFormed
  explained : Explains C B id log (w.server.streams id)
  cuts : ∀ n ∈ lengths, n ≤ (w.server.streams id).length ∧ ∃ earlier, earlier <+: log ∧
    Explains C B id earlier ((w.server.streams id).take n)
  home : w.Home C instanceId
  slots : ∀ j, streamOf C (fun _ => B) instanceId j = id →
    SlotSerial C id log lengths w.server (w.slots j)
  saved : ∀ j snap, streamOf C (fun _ => B) instanceId j = id → w.disk j = some snap →
    ∃ earlier, earlier <+: log ∧ B.decider.Runs earlier snap.state
  answered : ∀ j done, streamOf C (fun _ => B) instanceId j = id →
    (⟨j, done⟩ : Σ _ : ι, Completed B) ∈ w.history →
      DoneSerial C id log lengths w.server done

section Steps

variable {log log' : List (B.Command × List B.DomainEvent)} {lengths lengths' : List Nat}
variable {w w' : World fun _ : ι => B}

theorem SlotSerial.stable {s t : Server} {slot : Slot B}
    (hslot : SlotSerial C id log lengths s slot) (hext : s.Extends t) (hwf : t.WellFormed)
    (hlog : log <+: log') (hlengths : lengths ⊆ lengths') :
    SlotSerial C id log' lengths' t slot := by
  cases slot with
  | absent => trivial
  | spawning trail fut =>
      refine Future.Safe.stable ?_ hslot ⟨⟨hext, hwf, rfl⟩, hlengths⟩
      intro out x y hout hrely l hl
      exact (hout l hl).stable hrely.1 hrely.2
  | idle seen l => exact Held.stable hslot ⟨hext, hwf, rfl⟩ hlengths
  | busy msg trail fut =>
      refine ⟨Future.Safe.stable ?_ hslot.1 ⟨⟨hext, hwf, rfl⟩, hlengths⟩, ?_⟩
      · rintro out x y ⟨hheld, hanswered⟩ hrely
        refine ⟨hheld.stable hrely.1 hrely.2, hanswered.stable hrely.1.1 ?_ hrely.2⟩
        rw [show y.1.2 = x.1.2 from hrely.1.2.2]
      · exact fun c hc => (hslot.2 c hc).mono hlog (hext id)

theorem DoneSerial.stable {s t : Server} {done : Completed B}
    (hdone : DoneSerial C id log lengths s done) (hext : s.Extends t)
    (hlog : log <+: log') (hlengths : lengths ⊆ lengths') :
    DoneSerial C id log' lengths' t done :=
  ⟨hdone.1.stable hext rfl hlengths, fun c hc => (hdone.2 c hc).mono hlog (hext id)⟩

/-- A step that touches one slot only has to answer for it, and for what it adds. -/
theorem Serial.of_slot (hw : w.Serial C instanceId id log lengths) (j : ι)
    (hothers : ∀ k, k ≠ j → w'.slots k = w.slots k)
    (hgrows : w.server.Extends w'.server ∧ w'.server.WellFormed)
    (hlog : log <+: log') (hlengths : lengths ⊆ lengths')
    (hexplained : Explains C B id log' (w'.server.streams id))
    (hcuts : ∀ n ∈ lengths', n ∈ lengths ∨ n = (w'.server.streams id).length)
    (hhome : w'.Home C instanceId)
    (hslot : streamOf C (fun _ => B) instanceId j = id →
      SlotSerial C id log' lengths' w'.server (w'.slots j))
    (hsaved : ∀ k snap, streamOf C (fun _ => B) instanceId k = id →
      w'.disk k = some snap → w.disk k = some snap ∨
        ∃ earlier, earlier <+: log ∧ B.decider.Runs earlier snap.state)
    (hdone : ∀ k done, streamOf C (fun _ => B) instanceId k = id →
      (⟨k, done⟩ : Σ _ : ι, Completed B) ∈ w'.history →
        (⟨k, done⟩ : Σ _ : ι, Completed B) ∈ w.history ∨
          DoneSerial C id log' lengths' w'.server done) :
    w'.Serial C instanceId id log' lengths' where
  wellFormed := hgrows.2
  explained := hexplained
  cuts n hn := by
    rcases hcuts n hn with hold | rfl
    · obtain ⟨hle, earlier, hpre, hearlier⟩ := hw.cuts n hold
      obtain ⟨added, hadded⟩ := hgrows.1 id
      refine ⟨hle.trans (hgrows.1 id).length_le, earlier, hpre.trans hlog, ?_⟩
      rw [← hadded, List.take_append_of_le_length hle]
      exact hearlier
    · refine ⟨Nat.le_refl _, log', List.prefix_rfl, ?_⟩
      rw [List.take_length]
      exact hexplained
  home := hhome
  slots k hk := by
    by_cases heq : k = j
    · subst heq
      exact hslot hk
    · rw [hothers k heq]
      exact (hw.slots k hk).stable hgrows.1 hgrows.2 hlog hlengths
  saved k snap hk hdisk := by
    rcases hsaved k snap hk hdisk with hold | ⟨earlier, hpre, hruns⟩
    · obtain ⟨earlier, hpre, hruns⟩ := hw.saved k snap hk hold
      exact ⟨earlier, hpre.trans hlog, hruns⟩
    · exact ⟨earlier, hpre.trans hlog, hruns⟩
  answered k done hk hmem := by
    rcases hdone k done hk hmem with hold | hnew
    · exact (hw.answered k done hk hold).stable hgrows.1 hlog hlengths
    · exact hnew

omit [DecidableEq ι] in
/-- A held pair is the state of the aggregate after the first commands of the log. -/
theorem Serial.runs_of_held (hw : w.Serial C instanceId id log lengths)
    {l : ActorLocals B} {trail : Trail} (hl : Held C id l ((w.server, trail), lengths)) :
    ∃ earlier, earlier <+: log ∧ B.decider.Runs earlier l.state := by
  obtain ⟨-, earlier, hpre, hearlier⟩ := hw.cuts _ hl.length
  exact ⟨earlier, hpre, hl.state ▸ hearlier.runs⟩

omit [DecidableEq ι] in
/-- A call of an actor of another stream leaves the stream. -/
theorem streams_of_goesTo {op : StoreOp} {j : ι} {answer : Answer} {s s' : Server}
    {trail trail' : Trail} {r : op.Res}
    (hhome : op.GoesTo (streamOf C (fun _ : ι => B) instanceId j))
    (hj : streamOf C (fun _ => B) instanceId j ≠ id)
    (hserve : op.serve C answer (s, trail) = some (r, (s', trail'))) :
    s'.streams id = s.streams id :=
  (hhome.ignores hj answer s trail r s' trail' hserve).1

theorem serial_serve (hw : w.Serial C instanceId id log lengths) {j : ι} {answer : Answer}
    (hserved : Served C w j answer w')
    (hgrows : w.server.Extends w'.server ∧ w'.server.WellFormed)
    (hhome' : w'.Home C instanceId) :
    ∃ log' lengths', log <+: log' ∧ w'.Serial C instanceId id log' lengths' := by
  have hhome := hw.home j
  by_cases hj : streamOf C (fun _ => B) instanceId j = id
  · have hslot := hw.slots j hj
    have hsub : lengths ⊆ (w'.server.streams id).length :: lengths :=
      List.subset_cons_self _ _
    have hcuts : ∀ n ∈ (w'.server.streams id).length :: lengths,
        n ∈ lengths ∨ n = (w'.server.streams id).length := fun n hn =>
      (List.mem_cons.mp hn).symm
    cases hserved with
    | spawning hat hserve hnext =>
        subst hnext
        rw [hat] at hslot
        rw [hat] at hhome
        obtain ⟨⟨-, hcarried⟩, hsafe⟩ := Future.Safe.served hslot
          (serialTerms_refl id (fun _ => False) _ lengths hw.wellFormed)
          (serialTerms_serves id (fun _ => False) hserve lengths)
        cases hcarried with
        | quiet hstream hcommits =>
            refine ⟨log, _, List.prefix_rfl, hw.of_slot j
              (fun k hk => setSlot_slots_ne w hk _) hgrows List.prefix_rfl hsub
              (hstream.symm ▸ hw.explained) hcuts hhome' (fun _ => ?_)
              (fun _ _ _ hdisk => Or.inl hdisk) (fun _ _ _ hdone => Or.inl hdone)⟩
            simpa [SlotSerial] using hsafe
        | grows hmay _ _ => exact hmay.elim
    | @busy msg trail trail' l op resume r s hat hserve hnext =>
        subst hnext
        rw [hat] at hslot
        rw [hat] at hhome
        obtain ⟨hsafe, hlogged⟩ := hslot
        obtain ⟨⟨-, hcarried⟩, hsafe'⟩ := Future.Safe.served hsafe
          (serialTerms_refl id _ _ lengths hw.wellFormed)
          (serialTerms_serves id _ hserve lengths)
        cases hcarried with
        | quiet hstream hcommits =>
            refine ⟨log, _, List.prefix_rfl, hw.of_slot j
              (fun k hk => setSlot_slots_ne w hk _) hgrows List.prefix_rfl hsub
              (hstream.symm ▸ hw.explained) hcuts hhome' (fun _ => ?_)
              (fun _ _ _ hdisk => Or.inl hdisk) (fun _ _ _ hdone => Or.inl hdone)⟩
            rw [setSlot_slots_self]
            refine ⟨hsafe', fun c hc => ?_⟩
            rw [show trail'.commits = trail.commits from hcommits] at hc
            exact (hlogged c hc).mono List.prefix_rfl (hgrows.1 id)
        | @grows cmd events block hmay hgrown hcommits =>
            have hpre : log <+: log ++ [(cmd, events)] := List.prefix_append _ _
            refine ⟨log ++ [(cmd, events)], _, hpre, hw.of_slot j
              (fun k hk => setSlot_slots_ne w hk _) hgrows hpre hsub
              (hw.explained.grows hgrown) hcuts hhome' (fun _ => ?_)
              (fun _ _ _ hdisk => Or.inl hdisk) (fun _ _ _ hdone => Or.inl hdone)⟩
            rw [setSlot_slots_self]
            refine ⟨hsafe', fun c hc => ?_⟩
            rw [show trail'.commits = trail.commits ++ _ from hcommits] at hc
            rcases List.mem_append.mp hc with hold | hnew
            · exact (hlogged c hold).mono hpre (hgrows.1 id)
            · rw [List.mem_singleton.mp hnew]
              refine ⟨log, cmd, events, hmay, List.prefix_rfl, ?_, ?_⟩
              · obtain ⟨added, hadded⟩ := hgrows.1 id
                change Explains C B id log ((s.streams id).take _)
                rw [← show w.server.streams id ++ added = s.streams id from hadded,
                  List.take_left]
                exact hw.explained
              · have hlength := hgrown.length
                have hpos := List.length_pos_iff.mpr hgrown.nonempty
                dsimp only at hlength ⊢
                omega
  · refine ⟨log, lengths, List.prefix_rfl, ?_⟩
    cases hserved with
    | spawning hat hserve hnext =>
        subst hnext
        rw [hat] at hhome
        have hstream := streams_of_goesTo hhome.1 hj hserve
        exact hw.of_slot j (fun k hk => setSlot_slots_ne w hk _) hgrows List.prefix_rfl
          (List.Subset.refl _) (hstream.symm ▸ hw.explained) (fun n hn => Or.inl hn) hhome'
          (fun h => absurd h hj) (fun _ _ _ hdisk => Or.inl hdisk)
          (fun _ _ _ hdone => Or.inl hdone)
    | busy hat hserve hnext =>
        subst hnext
        rw [hat] at hhome
        have hstream := streams_of_goesTo hhome.1 hj hserve
        exact hw.of_slot j (fun k hk => setSlot_slots_ne w hk _) hgrows List.prefix_rfl
          (List.Subset.refl _) (hstream.symm ▸ hw.explained) (fun n hn => Or.inl hn) hhome'
          (fun h => absurd h hj) (fun _ _ _ hdisk => Or.inl hdisk)
          (fun _ _ _ hdone => Or.inl hdone)

theorem serial_settle (hw : w.Serial C instanceId id log lengths) {j : ι}
    (hsettled : Settled w j w') (hhome : w'.Home C instanceId) :
    w'.Serial C instanceId id log lengths := by
  cases hsettled with
  | @spawned trail l hat hnext =>
      subst hnext
      refine hw.of_slot j (fun k hk => setSlot_slots_ne w hk _)
        ⟨Server.Extends.refl _, hw.wellFormed⟩ List.prefix_rfl (List.Subset.refl _)
        hw.explained (fun n hn => Or.inl hn) hhome (fun hj => ?_)
        (fun _ _ _ hdisk => Or.inl hdisk) (fun _ _ _ hdone => Or.inl hdone)
      have hslot := hw.slots j hj
      rw [hat] at hslot
      obtain ⟨hnamed, hlength⟩ := hslot l rfl
      rw [setSlot_slots_self]
      exact ⟨⟨hnamed.exact, hnamed.unseen⟩, hlength⟩
  | @replied msg trail l reply hat hnext =>
      subst hnext
      refine hw.of_slot j (fun k hk => setSlot_slots_ne w hk _)
        ⟨Server.Extends.refl _, hw.wellFormed⟩ List.prefix_rfl (List.Subset.refl _)
        hw.explained (fun n hn => Or.inl hn) hhome (fun hj => ?_)
        (fun _ _ _ hdisk => Or.inl hdisk) (fun k done hk hdone => ?_)
      · have hslot := hw.slots j hj
        rw [hat] at hslot
        obtain ⟨hnamed, hlength⟩ := hslot.1.1
        rw [setSlot_slots_self]
        exact ⟨⟨hnamed.exact, hnamed.unseen⟩, hlength⟩
      · rcases List.mem_append.mp hdone with hold | hnew
        · exact Or.inl hold
        · rw [List.mem_singleton] at hnew
          cases hnew
          have hslot := hw.slots j hk
          rw [hat] at hslot
          exact Or.inr ⟨hslot.1.2.stable (Server.Extends.refl _) rfl (List.Subset.refl _),
            hslot.2⟩
  | ended hnext =>
      subst hnext
      refine hw.of_slot j (fun k hk => setSlot_slots_ne w hk _)
        ⟨Server.Extends.refl _, hw.wellFormed⟩ List.prefix_rfl (List.Subset.refl _)
        hw.explained (fun n hn => Or.inl hn) hhome
        (fun _ => by rw [setSlot_slots_self]; trivial)
        (fun _ _ _ hdisk => Or.inl hdisk) (fun _ _ _ hdone => Or.inl hdone)

/-- What one step does to the log: it adds at most one command. -/
theorem serial_step (hw : w.Serial C instanceId id log lengths) {a : WorldAction ι fun _ => B}
    (hadmits : w.Admits C instanceId (streamOf C (fun _ => B) instanceId · = id) a)
    (honly : OnlyExecutes C instanceId id a) (hstep : w.step C instanceId a = some w') :
    ∃ log' lengths', log <+: log' ∧ w'.Serial C instanceId id log' lengths' := by
  have hgrows := step_grows hw.wellFormed hstep
  have hhome := home_step hw.home hstep
  cases a with
  | foreign other events recordedAt =>
      simp only [step, Option.some.injEq] at hstep
      subst hstep
      have hstream := Server.commit_streams_ne C w.server (Ne.symm honly) events recordedAt
      exact ⟨log, lengths, List.prefix_rfl, {
        wellFormed := hgrows.2
        explained := hstream.symm ▸ hw.explained
        cuts := fun n hn => hstream.symm ▸ hw.cuts n hn
        home := hhome
        slots := fun j hj => (hw.slots j hj).stable hgrows.1 hgrows.2 List.prefix_rfl
          (List.Subset.refl _)
        saved := hw.saved
        answered := fun j done hj hdone => (hw.answered j done hj hdone).stable hgrows.1
          List.prefix_rfl (List.Subset.refl _) }⟩
  | serve j answer => exact serial_serve hw (served_of_serveSlot C hstep) hgrows hhome
  | settle j =>
      exact ⟨log, lengths, List.prefix_rfl,
        serial_settle hw (settled_of_settleSlot hstep) hhome⟩
  | spawn j snapshot =>
      simp only [step] at hstep
      split at hstep <;> simp only [Option.some.injEq, reduceCtorEq] at hstep
      subst hstep
      refine ⟨log, lengths, List.prefix_rfl, hw.of_slot j
        (fun k hk => setSlot_slots_ne w hk _) hgrows List.prefix_rfl (List.Subset.refl _)
        hw.explained (fun n hn => Or.inl hn) hhome (fun hj => ?_)
        (fun _ _ _ hdisk => Or.inl hdisk) (fun _ _ _ hdone => Or.inl hdone)⟩
      rw [setSlot_slots_self]
      have hload := hadmits hj
      subst hj
      exact spawnActorWithStore_serial (instanceId j) ((w.server, ⟨[], []⟩), lengths) rfl hload
  | receive j msg =>
      simp only [step] at hstep
      split at hstep <;> simp only [Option.some.injEq, reduceCtorEq] at hstep
      rename_i seen l hat
      subst hstep
      refine ⟨log, lengths, List.prefix_rfl, hw.of_slot j
        (fun k hk => setSlot_slots_ne w hk _) hgrows List.prefix_rfl (List.Subset.refl _)
        hw.explained (fun n hn => Or.inl hn) hhome (fun hj => ?_)
        (fun _ _ _ hdisk => Or.inl hdisk) (fun _ _ _ hdone => Or.inl hdone)⟩
      have hslot := hw.slots j hj
      rw [hat] at hslot
      rw [setSlot_slots_self]
      refine ⟨?_, fun c hc => by cases hc⟩
      have hnone : ∀ p, msg ≠ .inject p := by
        rintro p rfl
        exact honly hj
      have hsurvives := hadmits hj
      subst hj
      exact onMessage_serial (instanceId j) msg hnone hsurvives l
        ((w.server, ⟨[], seen⟩), lengths) hw.wellFormed hslot rfl
  | exit j saved =>
      simp only [step] at hstep
      split at hstep <;> simp only [Option.some.injEq, reduceCtorEq] at hstep
      rename_i seen l hat
      subst hstep
      refine ⟨log, lengths, List.prefix_rfl, hw.of_slot j
        (fun k hk => setSlot_slots_ne w hk _) hgrows List.prefix_rfl (List.Subset.refl _)
        hw.explained (fun n hn => Or.inl hn) hhome
        (fun _ => by simp [setSlot, SlotSerial]) (fun k snap hk hdisk => ?_)
        (fun _ _ _ hdone => Or.inl hdone)⟩
      cases saved with
      | false => exact Or.inl hdisk
      | true =>
          by_cases heq : k = j
          · subst heq
            simp only [↓reduceIte, Function.update_self, Option.some.injEq] at hdisk
            have hslot := hw.slots k hk
            rw [hat] at hslot
            exact Or.inr (hdisk ▸ hw.runs_of_held hslot)
          · simp only [↓reduceIte, Function.update_of_ne heq] at hdisk
            exact Or.inl hdisk

omit [DecidableEq ι] in
theorem Fresh.serial {w₀ : World fun _ : ι => B} (hfresh : w₀.Fresh)
    (hempty : w₀.server.streams id = [])
    (hdisk : ∀ j, streamOf C (fun _ => B) instanceId j = id → w₀.disk j = none) :
    w₀.Serial C instanceId id [] [] where
  wellFormed := hfresh.wellFormed
  explained := hempty ▸ .nil
  cuts n hn := by cases hn
  home := hfresh.home
  slots j _ := by
    rw [hfresh.absent j]
    trivial
  saved j snap hj hsnap := by
    rw [hdisk j hj] at hsnap
    cases hsnap
  answered j done _ hdone := by
    rw [hfresh.unanswered] at hdone
    cases hdone

end Steps

end World

end EventfoldEs
