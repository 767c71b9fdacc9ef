/-
The account of a pass of `run_process_managers` that returns `Ok`: which envelopes its
catch-ups produced, how each of them was handled, and when the checkpoints were saved,
whatever the operations of the pass are answered with.
-/
import EventfoldEs.LivePull

namespace EventfoldEs

open Async

variable {C : Crates} {π μ : Type} {G : Registry π μ}

/-- An operation of a runner function, with its answer. -/
abbrev RunnerTurn (G : Registry π μ) := Σ op : RunnerOp π μ, op.Res G

/-- The operations of the first loop. -/
def RunnerOp.catchesUp : RunnerOp π μ → Prop
  | .lock _ | .unlock _ | .position _ | .subscribeAllFrom _ | .nextItem => True
  | .reactEvent _ _ => True
  | _ => False

/-- The operations of the third loop. -/
def RunnerOp.saves : RunnerOp π μ → Prop
  | .lock _ | .unlock _ | .writeTmp _ | .rename _ => True
  | _ => False

/-- How an envelope is handled: a dispatcher takes it or refuses it, or there is none. -/
inductive Handling
  | dispatched
  | refused (error : String)
  | unknown

namespace Handling

def isDispatched : Handling → Bool
  | dispatched => true
  | _ => false

/-- The error that goes into the dead letter. -/
def error? (work : Work μ) : Handling → Option String
  | dispatched => none
  | refused error => some error
  | unknown => some ("unknown aggregate type: " ++ work.emission.envelope.aggregateType)

/-- What is done with the envelope, all of it. -/
def turns (work : Work μ) : Handling → List (RunnerTurn G)
  | dispatched => [⟨.dispatch work, .ok ()⟩]
  | refused error =>
      [⟨.dispatch work, .error error⟩, ⟨.appendDeadLetter work error, .ok ()⟩]
  | unknown =>
      [⟨.appendDeadLetter work
        ("unknown aggregate type: " ++ work.emission.envelope.aggregateType), .ok ()⟩]

end Handling

/-- The envelopes of the catch-ups, in the order of their production. -/
def produced (trace : List (RunnerTurn G)) : List (Work μ) :=
  trace.flatMap fun
    | ⟨.reactEvent m recorded, envelopes⟩ => reactionWork m recorded envelopes
    | _ => []

/-- What is appended to the dead-letter log at `log`; an envelope goes to the log of the
process manager that produced it. -/
def lettersAt (deadLetterPath : μ → String) (log : String) (trace : List (RunnerTurn G)) :
    List (Work μ × String) :=
  trace.filterMap fun
    | ⟨.appendDeadLetter work error, .ok ()⟩ =>
        if deadLetterPath work.pm = log then some (work, error) else none
    | _ => none

/-- An envelope, and how it was handled. -/
abbrev Handled (μ : Type) := Work μ × Handling

/-- The dead letters of what was handled, as far as they belong to the log. -/
def lettersOf (deadLetterPath : μ → String) (log : String) (handled : List (Handled μ)) :
    List (Work μ × String) :=
  handled.filterMap fun h =>
    if deadLetterPath h.1.pm = log then (h.2.error? h.1).map fun error => (h.1, error)
    else none

variable (G) in
/-- The handling of an envelope that the dispatcher map allows. -/
def Handled.Allowed (h : Handled μ) : Prop :=
  h.2 = .unknown ↔ h.1.emission.envelope.aggregateType ∉ G.dispatchers

theorem produced_append (earlier later : List (RunnerTurn G)) :
    produced (earlier ++ later) = produced earlier ++ produced later :=
  List.flatMap_append

theorem dispatchOne_runs {work : Work μ} {rest : List (Work μ)}
    {trace : List (RunnerTurn G)} {disposal : Disposal}
    (hruns : (dispatchOne work rest).Runs trace disposal) :
    (∃ e, disposal = .deadLettered (.error e)) ∨
      ∃ handling : Handling, trace = handling.turns work ∧
        Handled.Allowed G (work, handling) ∧
        disposal = if handling.isDispatched then .dispatched else .deadLettered (.ok ()) := by
  unfold dispatchOne at hruns
  split at hruns
  · rename_i hregistered
    cases hruns with
    | await r hrest =>
        cases r with
        | ok done =>
            cases hrest
            refine Or.inr ⟨.dispatched, rfl, ?_, rfl⟩
            simp [Handled.Allowed, hregistered]
        | error error =>
            cases hrest with
            | await written hready =>
                cases hready
                cases written with
                | error e => exact Or.inl ⟨e, rfl⟩
                | ok done =>
                    refine Or.inr ⟨.refused error, rfl, ?_, rfl⟩
                    simp [Handled.Allowed, hregistered]
  · rename_i hunknown
    cases hruns with
    | await written hready =>
        cases hready
        cases written with
        | error e => exact Or.inl ⟨e, rfl⟩
        | ok done =>
            refine Or.inr ⟨.unknown, rfl, ?_, rfl⟩
            simp [Handled.Allowed, hunknown]

/-- What was handled, one envelope after the other, is the trace of the second loop, and
the report counts it. -/
theorem dispatchEach_runs {works : List (Work μ)} {before report : ProcessManagerReport}
    {trace : List (RunnerTurn G)} (hruns : (dispatchEach works before).Runs trace (.ok report)) :
    ∃ handled : List (Handled μ), handled.map Prod.fst = works ∧
      trace = handled.flatMap (fun h => h.2.turns h.1) ∧
      (∀ h ∈ handled, Handled.Allowed G h) ∧
      report.dispatched = before.dispatched + handled.countP (fun h => h.2.isDispatched) ∧
      report.deadLettered =
        before.deadLettered + handled.countP (fun h => !h.2.isDispatched) := by
  induction works generalizing before trace with
  | nil =>
      cases hruns
      exact ⟨[], rfl, rfl, List.forall_mem_nil _, rfl, rfl⟩
  | cons work rest ih =>
      obtain ⟨earlier, disposal, later, rfl, hone, hrest⟩ := hruns.of_bind
      rcases dispatchOne_runs hone with ⟨e, rfl⟩ | ⟨handling, rfl, hallowed, rfl⟩
      · cases hrest
      · have hcounted : ∃ between : ProcessManagerReport,
            (dispatchEach rest between).Runs later (.ok report) ∧
            between.dispatched = before.dispatched + (if handling.isDispatched then 1 else 0) ∧
            between.deadLettered =
              before.deadLettered + (if handling.isDispatched then 0 else 1) := by
          cases hdispatched : handling.isDispatched with
          | true =>
              rw [hdispatched] at hrest
              exact ⟨_, hrest, rfl, rfl⟩
          | false =>
              rw [hdispatched] at hrest
              exact ⟨_, hrest, rfl, rfl⟩
        obtain ⟨between, hlater, hcount, hcount'⟩ := hcounted
        obtain ⟨handled, hworks, rfl, hall, hsum, hsum'⟩ := ih hlater
        refine ⟨(work, handling) :: handled, ?_, rfl, ?_, ?_, ?_⟩
        · rw [List.map_cons, hworks]
        · intro h hh
          rcases List.mem_cons.mp hh with rfl | hh
          · exact hallowed
          · exact hall h hh
        · simp only [hsum, hcount, List.countP_cons]
          omega
        · rw [hsum', hcount', List.countP_cons, Nat.add_assoc, Nat.add_comm (List.countP _ _)]
          congr 2
          cases handling <;> rfl

theorem save_runs {r : π ⊕ μ} {trace : List (RunnerTurn G)}
    (hruns : (save r).Runs trace (.ok ())) :
    trace = [⟨.writeTmp r, .ok ()⟩, ⟨.rename r, .ok ()⟩] := by
  cases hruns with
  | await written hrest =>
      cases written with
      | error e => cases hrest
      | ok done =>
          cases hrest with
          | await result hready =>
              cases hready
              rfl

/-- The third loop does nothing but save, and saves every process manager. -/
theorem saveEach_runs {ms : List μ} {trace : List (RunnerTurn G)}
    (hruns : (saveEach ms).Runs trace (.ok ())) :
    (∀ turn ∈ trace, turn.1.saves) ∧
      ∀ m ∈ ms, (⟨.rename (.inr m), .ok ()⟩ : RunnerTurn G) ∈ trace := by
  induction ms generalizing trace with
  | nil =>
      cases hruns
      exact ⟨List.forall_mem_nil _, List.forall_mem_nil _⟩
  | cons m rest ih =>
      cases hruns with
      | await locked hsave =>
          obtain ⟨saving, result, later, rfl, hsaving, hunlock⟩ := hsave.of_bind
          cases hunlock with
          | await unlocked hrest =>
              cases result with
              | error e => cases hrest
              | ok done =>
                  rw [save_runs hsaving]
                  obtain ⟨hsaves, hrenames⟩ := ih hrest
                  refine ⟨fun turn hturn => ?_, fun m' hm' => ?_⟩
                  · simp only [List.cons_append, List.nil_append, List.mem_cons] at hturn
                    rcases hturn with rfl | rfl | rfl | rfl | hturn
                    · trivial
                    · trivial
                    · trivial
                    · trivial
                    · exact hsaves turn hturn
                  · rcases List.mem_cons.mp hm' with rfl | hm'
                    · simp
                    · exact List.mem_cons_of_mem _ (List.mem_append_right _
                        (List.mem_cons_of_mem _ (hrenames m' hm')))

/-- The last item of a stream, and the end of it, produce nothing. -/
theorem produced_nextItem (acc : List (Work μ)) (next : Unit) :
    (∀ turn ∈ [(⟨.nextItem, next⟩ : RunnerTurn G)], turn.1.catchesUp) ∧
      acc = acc ++ produced [(⟨.nextItem, next⟩ : RunnerTurn G)] := by
  constructor
  · intro turn hturn
    rw [List.mem_singleton.mp hturn]
    trivial
  · exact (List.append_nil acc).symm

/-- The stream of a process manager ends with what was produced on the way. -/
theorem managerStream_runs (m : μ) {items : List Item} {acc works : List (Work μ)}
    {trace : List (RunnerTurn G)}
    (hruns : (processStream C (fun acc recorded =>
      .await acc (.reactEvent m recorded) fun envelopes =>
        .ready (acc ++ reactionWork m recorded envelopes)) items acc).Runs trace (.ok works)) :
    (∀ turn ∈ trace, turn.1.catchesUp) ∧ works = acc ++ produced trace := by
  induction items generalizing acc trace with
  | nil =>
      cases hruns with
      | await next hready =>
          cases hready
          exact produced_nextItem _ next
  | cons item rest ih =>
      cases item with
      | error status =>
          cases hruns with
          | await next hready => cases hready
      | ok response =>
          cases response with
          | event recorded =>
              cases hruns with
              | await next hreact =>
                  cases hreact with
                  | await envelopes hrest =>
                      obtain ⟨hreads, rfl⟩ := ih hrest
                      refine ⟨?_, List.append_assoc _ _ _⟩
                      exact List.forall_mem_cons.mpr
                        ⟨trivial, List.forall_mem_cons.mpr ⟨trivial, hreads⟩⟩
          | caughtUp =>
              cases hruns with
              | await next hready =>
                  cases hready
                  exact produced_nextItem _ next
          | empty =>
              cases hruns with
              | await next hrest =>
                  obtain ⟨hreads, rfl⟩ := ih hrest
                  exact ⟨List.forall_mem_cons.mpr ⟨trivial, hreads⟩, rfl⟩

theorem processManagerCatchUp_runs (m : μ) {works : List (Work μ)}
    {trace : List (RunnerTurn G)}
    (hruns : (processManagerCatchUp C m).Runs trace (.ok works)) :
    (∀ turn ∈ trace, turn.1.catchesUp) ∧ works = produced trace := by
  cases hruns with
  | await position hsubscribe =>
      cases hsubscribe with
      | await result hstream =>
          cases result with
          | error status => cases hstream
          | ok items =>
              obtain ⟨hreads, rfl⟩ := managerStream_runs m hstream
              exact ⟨List.forall_mem_cons.mpr
                ⟨trivial, List.forall_mem_cons.mpr ⟨trivial, hreads⟩⟩, rfl⟩

/-- The first loop collects what every catch-up produces, one after the other. -/
theorem catchUpEach_runs {ms : List μ} {allWork works : List (Work μ)}
    {trace : List (RunnerTurn G)}
    (hruns : (catchUpEach C ms allWork).Runs trace (.ok works)) :
    (∀ turn ∈ trace, turn.1.catchesUp) ∧ works = allWork ++ produced trace := by
  induction ms generalizing allWork trace with
  | nil =>
      cases hruns
      exact ⟨List.forall_mem_nil _, (List.append_nil _).symm⟩
  | cons m rest ih =>
      cases hruns with
      | await locked hcatch =>
          obtain ⟨earlier, result, later, rfl, hfirst, hunlock⟩ := hcatch.of_bind
          cases result with
          | error e =>
              cases hunlock with
              | await unlocked hready => cases hready
          | ok envelopes =>
              obtain ⟨hreads, rfl⟩ := processManagerCatchUp_runs m hfirst.of_mapLocals
              cases hunlock with
              | await unlocked hrest =>
                  obtain ⟨hlater, rfl⟩ := ih hrest
                  constructor
                  · exact List.forall_mem_cons.mpr ⟨trivial, List.forall_mem_append.mpr
                      ⟨hreads, List.forall_mem_cons.mpr ⟨trivial, hlater⟩⟩⟩
                  · rw [List.append_assoc]
                    change _ = allWork ++ produced (earlier ++ _)
                    rw [produced_append]
                    rfl

/-- What is not an answer of a process manager produces nothing. -/
theorem produced_nil {trace : List (RunnerTurn G)}
    (hnone : ∀ turn ∈ trace, ∀ m recorded, turn.1 ≠ .reactEvent m recorded) :
    produced trace = [] := by
  refine List.flatMap_eq_nil_iff.mpr fun turn hturn => ?_
  obtain ⟨op, r⟩ := turn
  cases op with
  | reactEvent m recorded => exact absurd rfl (hnone _ hturn m recorded)
  | _ => rfl

theorem lettersAt_append {deadLetterPath : μ → String} {log : String}
    (earlier later : List (RunnerTurn G)) :
    lettersAt deadLetterPath log (earlier ++ later) =
      lettersAt deadLetterPath log earlier ++ lettersAt deadLetterPath log later :=
  List.filterMap_append

/-- What appends to no log leaves no dead letters. -/
theorem lettersAt_nil {deadLetterPath : μ → String} {log : String}
    {trace : List (RunnerTurn G)}
    (hnone : ∀ turn ∈ trace, ∀ work error, turn.1 ≠ .appendDeadLetter work error) :
    lettersAt deadLetterPath log trace = [] := by
  refine List.filterMap_eq_nil_iff.mpr fun turn hturn => ?_
  obtain ⟨op, r⟩ := turn
  cases op with
  | appendDeadLetter work error => exact absurd rfl (hnone _ hturn work error)
  | _ => rfl

theorem RunnerOp.catchesUp.ne_appendDeadLetter {op : RunnerOp π μ} (hop : op.catchesUp)
    (work : Work μ) (error : String) : op ≠ .appendDeadLetter work error := by
  rintro rfl
  exact hop

theorem RunnerOp.saves.ne_appendDeadLetter {op : RunnerOp π μ} (hop : op.saves)
    (work : Work μ) (error : String) : op ≠ .appendDeadLetter work error := by
  rintro rfl
  exact hop

theorem RunnerOp.saves.ne_reactEvent {op : RunnerOp π μ} (hop : op.saves)
    (m : μ) (recorded : RecordedEvent) : op ≠ .reactEvent m recorded := by
  rintro rfl
  exact hop

/-- Handling envelopes produces none. -/
theorem produced_handled (handled : List (Handled μ)) :
    produced (handled.flatMap fun h => (h.2.turns h.1 : List (RunnerTurn G))) = [] := by
  induction handled with
  | nil => rfl
  | cons h rest ih =>
      obtain ⟨work, handling⟩ := h
      rw [List.flatMap_cons, produced_append, ih]
      cases handling <;> rfl

/-- The dead letters that are appended are those of what was handled. -/
theorem lettersAt_handled (deadLetterPath : μ → String) (log : String)
    (handled : List (Handled μ)) :
    lettersAt deadLetterPath log
        (handled.flatMap fun h => (h.2.turns h.1 : List (RunnerTurn G))) =
      lettersOf deadLetterPath log handled := by
  induction handled with
  | nil => rfl
  | cons h rest ih =>
      obtain ⟨work, handling⟩ := h
      rw [List.flatMap_cons, lettersAt_append, ih]
      by_cases hlog : deadLetterPath work.pm = log
      · cases handling <;> simp [lettersAt, lettersOf, Handling.turns, Handling.error?, hlog]
      · cases handling <;> simp [lettersAt, lettersOf, Handling.turns, hlog]

/-- A pass that returns `Ok` has caught up, handled the envelopes in the order of their
production, each once, and then saved: what was not dispatched is in the dead-letter log
of its process manager and in no other, the report counts both, and every process
manager is saved. -/
theorem ok_pass_accounts_for_every_envelope {trace : List (RunnerTurn G)}
    {report : ProcessManagerReport}
    (hruns : (runProcessManagers C : RunnerFuture G _).Runs trace (.ok report)) :
    ∃ (catchUps : List (RunnerTurn G)) (handled : List (Handled μ))
      (saves : List (RunnerTurn G)),
      trace = catchUps ++ handled.flatMap (fun h => h.2.turns h.1) ++ saves ∧
      (∀ turn ∈ catchUps, turn.1.catchesUp) ∧ (∀ turn ∈ saves, turn.1.saves) ∧
      handled.map Prod.fst = produced trace ∧ (∀ h ∈ handled, Handled.Allowed G h) ∧
      (∀ deadLetterPath log,
        lettersAt deadLetterPath log trace = lettersOf deadLetterPath log handled) ∧
      report.dispatched = handled.countP (fun h => h.2.isDispatched) ∧
      report.deadLettered = handled.countP (fun h => !h.2.isDispatched) ∧
      report.dispatched + report.deadLettered = (produced trace).length ∧
      ∀ m ∈ G.processManagers, (⟨.rename (.inr m), .ok ()⟩ : RunnerTurn G) ∈ saves := by
  obtain ⟨catchUps, caughtUp, later, rfl, hcatch, hlater⟩ := hruns.of_bind
  cases caughtUp with
  | error e => cases hlater
  | ok allWork =>
      obtain ⟨hreads, rfl⟩ := catchUpEach_runs hcatch
      obtain ⟨handling, dispatched, saves, rfl, hdispatch, hsave⟩ := hlater.of_bind
      cases dispatched with
      | error e => cases hsave
      | ok counted =>
          obtain ⟨handled, hworks, rfl, hallowed, hcount, hcount'⟩ :=
            dispatchEach_runs hdispatch
          obtain ⟨saves, saved, rest, rfl, heach, hreport⟩ := hsave.of_bind
          cases saved with
          | error e => cases hreport
          | ok done =>
              cases hreport
              obtain ⟨hsaves, hrenames⟩ := saveEach_runs heach
              rw [List.append_nil, ← List.append_assoc]
              have hproduced : produced (catchUps ++
                  handled.flatMap (fun h => h.2.turns h.1) ++ saves) = produced catchUps := by
                rw [produced_append, produced_append, produced_handled,
                  produced_nil fun turn hturn => (hsaves turn hturn).ne_reactEvent,
                  List.append_nil, List.append_nil]
              refine ⟨catchUps, handled, saves, rfl, hreads, hsaves,
                hworks.trans hproduced.symm, hallowed, fun deadLetterPath log => ?_, ?_, ?_,
                ?_, hrenames⟩
              · rw [lettersAt_append, lettersAt_append, lettersAt_handled,
                  lettersAt_nil fun turn hturn => (hreads turn hturn).ne_appendDeadLetter,
                  lettersAt_nil fun turn hturn => (hsaves turn hturn).ne_appendDeadLetter,
                  List.nil_append, List.append_nil]
              · exact hcount.trans (Nat.zero_add _)
              · exact hcount'.trans (Nat.zero_add _)
              · have hlength : handled.length = (produced catchUps).length := by
                  have := congrArg List.length hworks
                  simpa using this
                have hsplit := List.length_eq_countP_add_countP (l := handled)
                  (fun h => h.2.isDispatched)
                rw [hproduced, hcount, hcount', ← hlength, hsplit]
                simp

namespace LiveWitness

def letterWork : Work Manager := ⟨.billing, 0, 0, sendLetter⟩

def invoiceWork : Work Manager := ⟨.billing, 0, 1, sendInvoice⟩

/-- There is no dispatcher for the letter; the invoice is taken. -/
def deskTrace : List (RunnerTurn desk) :=
  [⟨.lock (.inr .billing), ()⟩, ⟨.position (.inr .billing), (0 : Nat)⟩,
    ⟨.subscribeAllFrom 0, .ok [.ok (.event placed), .ok .caughtUp]⟩, ⟨.nextItem, ()⟩,
    ⟨.reactEvent .billing placed, [sendLetter, sendInvoice]⟩, ⟨.nextItem, ()⟩,
    ⟨.unlock (.inr .billing), ()⟩,
    ⟨.appendDeadLetter letterWork "unknown aggregate type: letter", .ok ()⟩,
    ⟨.dispatch invoiceWork, .ok ()⟩, ⟨.lock (.inr .billing), ()⟩,
    ⟨.writeTmp (.inr .billing), .ok ()⟩, ⟨.rename (.inr .billing), .ok ()⟩,
    ⟨.unlock (.inr .billing), ()⟩]

theorem deskTrace_runs :
    (runProcessManagers crates : RunnerFuture desk _).Runs deskTrace (.ok ⟨1, 1⟩) :=
  .await _ (.await _ (.await _ (.await _ (.await _ (.await _ (.await _ (.await _ (.await _
    (.await _ (.await _ (.await _ (.await _ (.ready _)))))))))))))

theorem ok_pass_accounts_for_every_envelope_desk :
    ∃ (catchUps : List (RunnerTurn desk)) (handled : List (Handled Manager))
      (saves : List (RunnerTurn desk)),
      deskTrace = catchUps ++ handled.flatMap (fun h => h.2.turns h.1) ++ saves ∧
      (∀ turn ∈ catchUps, turn.1.catchesUp) ∧ (∀ turn ∈ saves, turn.1.saves) ∧
      handled.map Prod.fst = [letterWork, invoiceWork] ∧
      (∀ h ∈ handled, Handled.Allowed desk h) ∧
      (∀ deadLetterPath log, lettersAt deadLetterPath log deskTrace =
        lettersOf deadLetterPath log handled) ∧
      1 = handled.countP (fun h => h.2.isDispatched) ∧
      1 = handled.countP (fun h => !h.2.isDispatched) ∧
      1 + 1 = [letterWork, invoiceWork].length ∧
      ∀ m ∈ [Manager.billing], (⟨.rename (.inr m), .ok ()⟩ : RunnerTurn desk) ∈ saves :=
  ok_pass_accounts_for_every_envelope deskTrace_runs

end LiveWitness

end EventfoldEs
