/-
Reads that pull: what a call of `projection` answers is on disk by then, so that
later reads show at least as much of the log, crashes or not.
-/
import EventfoldEs.LiveExclusion

namespace EventfoldEs

open Async OrderedLog

variable {C : Crates} {π μ κ : Type} {G : Registry π μ}
variable [DecidableEq π] [DecidableEq μ] {I : StoreState G → Prop}

namespace LiveWorld

variable [DecidableEq κ] {cfg : LiveConfig}
  {Q : Waiter κ → TaskResult G × List (Work μ) → StoreState G × Option (π ⊕ μ) → Prop}

variable (I) in
/-- The read that the call of `k` ends in; the other tasks may end in anything. -/
def ReadEnds (base : Nat) (k : κ) (p : π) :
    Waiter κ → TaskResult G × List (Work μ) → StoreState G × Option (π ⊕ μ) → Prop :=
  fun x out t => x = .caller k →
    ∀ state, out.1 = .projection p (.ok state) → ReadSaved I base p state t.1

omit [DecidableEq κ] in
theorem readEnds_stable (base : Nat) (k : κ) (p : π) :
    (runnerGuards I).Stable RunnerOp.lockUse RunnerOp.Finds (answers C) (List (Work μ))
      (ReadEnds (G := G) I base k p) := by
  intro x out s t hends hrely hx state hout
  exact (hends hx state hout).advance hrely.2.2.1

omit [DecidableEq κ] in
theorem projectionCall_safe (p : π) {base : Nat} {s : StoreState G} (k : κ)
    (hbase : base ≤ s.persisted (.inl p)) :
    Future.Safe (guardTerms C I) (ReadEnds I base k p (.caller k))
      ((Call.projection p).task C : RunnerTask G) (s, none) := by
  refine (projection_reads p hbase).bind fun result t hread _ state hout => ?_
  cases hout
  exact hread.2 state rfl

/-- The call of `k` goes on, and nothing crashes. -/
def Waits (w : LiveWorld G κ) (k : κ) (a : LiveAction π κ) : Prop :=
  ¬ w.Leaves a (.caller k) ∧ a ≠ .crash

theorem isSome_of_waits {w w' : LiveWorld G κ} (hco : w.Coherent) {k : κ}
    (hsome : (w.tasks (.caller k)).isSome) {a : LiveAction π κ} (hwaits : w.Waits k a)
    (hstep : w.step C cfg a = some w') : (w'.tasks (.caller k)).isSome := by
  obtain ⟨task, htask⟩ := Option.isSome_iff_exists.mp hsome
  cases stepped_of_step hco hstep with
  | @polled x _ _ hpolled =>
      cases hpolled with
      | pending _ _ _ hnext => exact hnext ▸ hsome
      | served _ _ _ _ hnext =>
          subst hnext
          by_cases hx : .caller k = x
          · subst hx
            simp [setTask]
          · simpa [setTask, hx] using hsome
  | shifted hshifts =>
      rcases hshifts.left _ _ htask with hsame | hleaves
      · rw [hsame]
        rfl
      · exact absurd hleaves hwaits.1
  | crashed haction _ => exact absurd haction hwaits.2

variable (C cfg) in
/-- A call of `projection` that `k` makes in `w₀`, while anything else goes on, and that
in `w` has come to `state`. -/
def PullRead (log : List RecordedEvent) (k : κ) (p : π) (w₀ w : LiveWorld G κ)
    (state : (G.projection p).State) : Prop :=
  (∃ w₁, w₀.step C cfg (.call k (.projection p)) = some w₁ ∧
    Reaches (step C cfg) (fun w a => w.Streams log a ∧ w.Waits k a) w₁ w) ∧
  ∃ dropped, w.tasks (.caller k) = some (.ready (.projection p (.ok state), dropped))

omit [DecidableEq κ] in
theorem Exclusive.weaken
    {Q' : Waiter κ → TaskResult G × List (Work μ) → StoreState G × Option (π ⊕ μ) → Prop}
    {w : LiveWorld G κ} (hw : w.Exclusive C I Q)
    (hQ : ∀ x out t, (w.tasks x).isSome → Q x out t → Q' x out t) :
    w.Exclusive C I Q' := by
  obtain ⟨hco, hcovers, hfair, hidle, hstands⟩ := hw
  refine ⟨hco, hcovers, hfair, hidle, fun x task htask => ?_⟩
  obtain ⟨held, hstand, hsafe⟩ := hstands x task htask
  exact ⟨held, hstand, hsafe.weaken fun out t => hQ x out t (by rw [htask]; rfl)⟩

/-- A read that was made in `w₀` shows at least what is on disk there, and what it shows
is on disk when it has come to its end. -/
theorem PullRead.saved {log : List RecordedEvent} {k : κ} {p : π} {w₀ w : LiveWorld G κ}
    {state : (G.projection p).State} (hread : PullRead C cfg log k p w₀ w state)
    (hw₀ : w₀.Exclusive C I Anything)
    (hI : ∀ v, Reaches (step C cfg) (Streams log) w₀ v → I v.store) :
    ReadSaved I (w₀.store.persisted (.inl p)) p state w.store := by
  obtain ⟨⟨w₁, hcall, hreach⟩, dropped, hready⟩ := hread
  have hstable := readEnds_stable (C := C) (G := G) (I := I) (w₀.store.persisted (.inl p)) k p
  have hothers : ∀ {x : Waiter κ} {task : RunnerTask G} {v v' : LiveWorld G κ}, x ≠ .caller k →
      Starts C v v' x task → task.Safe (guardTerms C I)
        (ReadEnds I (w₀.store.persisted (.inl p)) k p x) (v'.store, none) := by
    intro x task v v' hx hstarts
    exact guarded_safe (starts_guarded hstarts) (fun _ _ h => absurd h hx) _
  have hcalled : Reaches (step C cfg) (Streams log) w₀ w₁ :=
    .next (a := .call k (.projection p)) .start trivial hcall
  -- the call starts a task that ends in a saved read
  have hfirst : w₁.Exclusive C I (ReadEnds I (w₀.store.persisted (.inl p)) k p) ∧
      (w₁.tasks (.caller k)).isSome := by
    have hnone : w₀.tasks (.caller k) = none := by
      cases turn_of_step hcall with
      | called hnone => exact hnone
    have htask : w₁.tasks (.caller k) = some ((Call.projection p).task C) := by
      cases turn_of_step hcall with
      | called _ => simp [setTask]
    have hbefore : w₀.Exclusive C I (ReadEnds I (w₀.store.persisted (.inl p)) k p) := by
      refine hw₀.weaken fun x out t hsome _ hx => ?_
      rw [hx, hnone] at hsome
      cases hsome
    have hstore : w₁.store = w₀.store :=
      store_step hcall (fun _ _ h => by cases h) (fun h => by cases h) fun h => by cases h
    refine ⟨(exclusive_step hbefore hstable (hI w₀ .start) (hI w₁ hcalled)
      (fun x task _ hx hstarts => ?_) hcall).1, by rw [htask]; rfl⟩
    by_cases hxk : x = .caller k
    · subst hxk
      obtain rfl := Option.some.inj (htask.symm.trans hx)
      exact projectionCall_safe p k (Nat.le_of_eq (by rw [hstore]))
    · exact hothers hxk hstarts
  -- and goes on until it has
  have hrun : Reaches (step C cfg) (Streams log) w₀ w ∧
      w.Exclusive C I (ReadEnds I (w₀.store.persisted (.inl p)) k p) ∧
      (w.tasks (.caller k)).isSome := by
    clear hready
    induction hreach with
    | start => exact ⟨hcalled, hfirst⟩
    | @next v v' a _ hwaits hstep ih =>
        obtain ⟨hv, hexclusive, hsome⟩ := ih
        have hv' := hv.next hwaits.1 hstep
        refine ⟨hv', (exclusive_step hexclusive hstable (hI v hv) (hI v' hv')
          (fun x task hnone _ hstarts => hothers ?_ hstarts) hstep).1,
          isSome_of_waits hexclusive.coherent hsome hwaits.2 hstep⟩
        rintro rfl
        rw [hnone] at hsome
        cases hsome
  obtain ⟨-, hexclusive, -⟩ := hrun
  obtain ⟨held, -, hsafe⟩ := hexclusive.together.stands _ _ hready
  exact hsafe rfl state rfl

/-- Reads through `projection` never go back, whatever runs in between, crashes included:
a call made after another has been answered is answered a fold of at least as much of the
log, and what either shows is on disk by then. -/
theorem pulled_reads_never_go_back {log : List RecordedEvent}
    (hlog : Increasing RecordedEvent.globalPosition log) {w₀ w₁ w₂ w₃ w₄ : LiveWorld G κ}
    (hidle : w₀.Idle) (hstart : w₀.store.Consistent C log) (hcovers : w₀.store.Covers)
    {k k' : κ} {p : π} {state state' : (G.projection p).State}
    (hbefore : Reaches (step C cfg) (Streams log) w₀ w₁)
    (hread : PullRead C cfg log k p w₁ w₂ state)
    (hbetween : Reaches (step C cfg) (Streams log) w₂ w₃)
    (hread' : PullRead C cfg log k' p w₃ w₄ state') :
    ∃ n n', w₁.store.persisted (.inl p) ≤ n ∧ n ≤ w₂.store.persisted (.inl p) ∧ n ≤ n' ∧
      n' ≤ w₄.store.persisted (.inl p) ∧
      (G.runner (.inl p)).Consistent C log ⟨state, n⟩ ∧
      (G.runner (.inl p)).Consistent C log ⟨state', n'⟩ := by
  have hfolds : ∀ v, Reaches (step C cfg) (Streams log) w₀ v → v.store.Consistent C log :=
    fun v hv => (folds_of_reaches hlog hidle hstart hv).store
  have hfrom : ∀ {v}, Reaches (step C cfg) (Streams log) w₀ v →
      ∀ v', Reaches (step C cfg) (Streams log) v v' → v'.store.Consistent C log :=
    fun hv v' hv' => hfolds v' (hv.trans hv')
  obtain ⟨⟨w, hcall, hwaits⟩, -⟩ := id hread
  have hcalled : Reaches (step C cfg) (Streams log) w₁ w :=
    .next (a := .call k (.projection p)) .start trivial hcall
  have hreach₂ : Reaches (step C cfg) (Streams log) w₀ w₂ :=
    hbefore.trans (hcalled.trans (hwaits.mono fun _ _ h => h.1))
  obtain ⟨hexclusive₁, -⟩ := exclusive_of_reaches (hidle.exclusive hcovers) hfolds hbefore
  obtain ⟨hexclusive₂, -⟩ := exclusive_of_reaches (hidle.exclusive hcovers) hfolds hreach₂
  obtain ⟨hexclusive₃, hadvances⟩ :=
    exclusive_of_reaches hexclusive₂ (hfrom hreach₂) hbetween
  obtain ⟨s, hs, hstate, hbase, hsaved⟩ := hread.saved hexclusive₁ (hfrom hbefore)
  obtain ⟨s', hs', hstate', hbase', hsaved'⟩ :=
    hread'.saved hexclusive₃ (hfrom (hreach₂.trans hbetween))
  refine ⟨s.cursor (.inl p), s'.cursor (.inl p), hbase, hsaved,
    Nat.le_trans hsaved (Nat.le_trans (hadvances.persisted _) hbase'), hsaved', ?_, ?_⟩
  · rw [← hstate]
    exact hs.memory (.inl p)
  · rw [← hstate']
    exact hs'.memory (.inl p)

end LiveWorld

namespace LiveReadsWitness

open LiveWorld RunnerAnswer LiveWitness LiveExclusionWitness

/-- The projection catches up and is saved. -/
def firstRead : List (LiveAction Unit Unit) :=
  polls (.caller ()) [done, done, delivery, done, done, done, ok, ok, done, done]

/-- The caller takes its answer, and the process crashes. -/
def crashing : List (LiveAction Unit Unit) := [.settle (.caller ()), .crash]

/-- There is nothing new in the log. -/
def secondRead : List (LiveAction Unit Unit) :=
  polls (.caller ()) [done, done, .stream (.ok [.ok .caughtUp]), done, ok, ok, done, done]

/-- Streams deliver the log, and only polls happen; evaluated. -/
def streamsPolls {G : Registry Unit Manager} (w : LiveWorld G Unit)
    (a : LiveAction Unit Unit) : Bool :=
  streams w a && match a with
    | .poll _ _ => true
    | _ => false

theorem streamsPolls_sound {G : Registry Unit Manager} (w : LiveWorld G Unit)
    (a : LiveAction Unit Unit) (hcheck : streamsPolls w a = true) :
    w.Streams orderLog a ∧ w.Waits () a := by
  simp only [streamsPolls, Bool.and_eq_true] at hcheck
  refine ⟨streams_sound w a hcheck.1, ?_⟩
  cases a with
  | poll x answer => exact ⟨id, fun h => by cases h⟩
  | _ => cases hcheck.2

def readOnce : List (LiveAction Unit Unit) := .call () (.projection ()) :: firstRead

def readTwice : List (LiveAction Unit Unit) :=
  readOnce ++ crashing ++ .call () (.projection ()) :: secondRead

/-- Where a run comes to. -/
def after (acts : List (LiveAction Unit Unit)) : LiveWorld (shop [()] []) Unit :=
  (runActions (step crates delays) (opened (shop [()] [])) acts).getD (opened (shop [()] []))

theorem read_once : PullRead crates delays orderLog () () (opened (shop [()] []))
    (after readOnce) (1 : Nat) :=
  ⟨⟨_, rfl, .of_checks streamsPolls_sound firstRead rfl rfl⟩, [], rfl⟩

theorem read_twice : PullRead crates delays orderLog () () (after (readOnce ++ crashing))
    (after readTwice) (1 : Nat) :=
  ⟨⟨_, rfl, .of_checks streamsPolls_sound secondRead rfl rfl⟩, [], rfl⟩

theorem crash_between : Reaches (step crates delays) (Streams orderLog) (after readOnce)
    (after (readOnce ++ crashing)) :=
  .of_checks streams_sound crashing rfl rfl

/-- Both reads show the one order. -/
theorem pulled_reads_never_go_back_shop :
    ∃ n n', n ≤ (after readOnce).store.persisted (.inl ()) ∧ n ≤ n' ∧
      (Runner.projection ordersSeen).Consistent crates orderLog ⟨(1 : Nat), n⟩ ∧
      (Runner.projection ordersSeen).Consistent crates orderLog ⟨(1 : Nat), n'⟩ := by
  obtain ⟨n, n', -, hsaved, hle, -, hfirst, hsecond⟩ := pulled_reads_never_go_back
    orderLog_increasing (opened_idle _) (opened_consistent _) (opened_covers _) .start read_once
    crash_between read_twice
  exact ⟨n, n', hsaved, hle, hfirst, hsecond⟩

end LiveReadsWitness

end EventfoldEs
