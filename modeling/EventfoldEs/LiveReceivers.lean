/-
The position channel with its receivers, which callers obtain, clone and drop at any
time.  A value that is sent while there is no receiver is not stored, so that a receiver
obtained afterwards reads an older one.
-/
import EventfoldEs.LiveFold

namespace EventfoldEs

open Async

variable (C : Crates) {π μ κ : Type} {G : Registry π μ}

/-- A world, the receivers that exist, and the position of the event that the live loop
has processed last.  All receivers share one stored value. -/
structure ListenedWorld (G : Registry π μ) (κ : Type) where
  world : LiveWorld G κ
  receivers : Nat
  processed : Option Nat

inductive ListenedAction (π κ : Type)
  | act (a : LiveAction π κ)
  | subscribe
  | clone
  | dropReceiver

namespace ListenedWorld

/-- What a receiver reads, be it an existing one or one that is just obtained. -/
def reads (o : ListenedWorld G κ) : Nat := o.world.store.position

def start (w : LiveWorld G κ) : ListenedWorld G κ := ⟨w, 0, none⟩

/-- `send` finds a receiver exactly when there is one. -/
def Answers (o : ListenedWorld G κ) : LiveAction π κ → Bool
  | .poll _ (.receivers any) => any == decide (0 < o.receivers)
  | _ => true

/-- The event whose position is sent has been processed. -/
def processedAfter (o : ListenedWorld G κ) : LiveAction π κ → Option Nat
  | .startLive | .crash => none
  | .poll x (.receivers _) => match o.world.op? x with
    | some (.sendPosition n) => some n
    | _ => o.processed
  | _ => o.processed

/-- `start_live` drops the receiver that the channel comes with. -/
def receiversAfter (o : ListenedWorld G κ) : LiveAction π κ → Nat
  | .startLive | .crash => 0
  | _ => o.receivers

variable [DecidableEq π] [DecidableEq μ] [DecidableEq κ]

def step (cfg : LiveConfig) (o : ListenedWorld G κ) :
    ListenedAction π κ → Option (ListenedWorld G κ)
  | .act a =>
      if o.Answers a then
        (o.world.step C cfg a).map fun world =>
          ⟨world, o.receiversAfter a, o.processedAfter a⟩
      else none
  | .subscribe =>
      if o.world.store.liveHandle then some { o with receivers := o.receivers + 1 } else none
  | .clone =>
      if 0 < o.receivers then some { o with receivers := o.receivers + 1 } else none
  | .dropReceiver =>
      if 0 < o.receivers then some { o with receivers := o.receivers - 1 } else none

/-- A position is only sent while there is a receiver, or when it is stored already. -/
def SentToSomeone (o : ListenedWorld G κ) : ListenedAction π κ → Prop
  | .act (.poll x (.receivers _)) =>
      ∀ n, o.world.op? x = some (.sendPosition n) → 0 < o.receivers ∨ o.reads = n
  | _ => True

/-- Every receiver reads the position of the event that was processed last. -/
def Current (o : ListenedWorld G κ) : Prop := ∀ n, o.processed = some n → o.reads = n

end ListenedWorld

variable [DecidableEq π] [DecidableEq μ] [DecidableEq κ] {C} {cfg : LiveConfig}

/-- What is stored in the channel changes only when a position is sent to a receiver. -/
theorem serve_position {op : RunnerOp π μ} {answer : RunnerAnswer} {s t : StoreState G}
    {r : op.Res G} (hserve : op.serve C answer s = some (r, t)) :
    (∃ n any, op = .sendPosition n ∧ answer = .receivers any ∧
      t.position = if any then n else s.position) ∨
      ((∀ n, op ≠ .sendPosition n) ∧ t.position = s.position) := by
  cases op with
  | rename j =>
      refine Or.inr ⟨nofun, ?_⟩
      rcases serve_rename hserve with rfl | ⟨checkpoint, -, rfl⟩ <;> rfl
  | sendPosition n =>
      rcases answer with _ | ⟨_ | _⟩ | _ | any <;> cases hserve
      refine Or.inl ⟨n, any, rfl, rfl, ?_⟩
      cases any <;> rfl
  | _ =>
      refine Or.inr ⟨nofun, ?_⟩
      rcases answer with _ | ⟨_ | _⟩ | _ | _ <;> cases hserve <;> rfl

namespace ListenedWorld

/-- The loop processes an event, or does something else. -/
theorem current_polled {o : ListenedWorld G κ} {w : LiveWorld G κ} {x : Waiter κ}
    {answer : RunnerAnswer} (ho : o.Current) (hanswers : o.Answers (.poll x answer) = true)
    (hsent : o.SentToSomeone (.act (.poll x answer)))
    (hpolled : LiveWorld.Polled C o.world x answer w) :
    (⟨w, o.receiversAfter (.poll x answer), o.processedAfter (.poll x answer)⟩ :
      ListenedWorld G κ).Current := by
  have hother : (∀ n, o.world.op? x ≠ some (.sendPosition n)) →
      o.processedAfter (.poll x answer) = o.processed := by
    intro hop
    cases answer with
    | receivers any => simp only [processedAfter]
    | _ => rfl
  cases hpolled with
  | @pending l op resume htask hpolls hpending hnext =>
      subst hnext
      have hop : ∀ n, o.world.op? x ≠ some (.sendPosition n) := by
        intro n heq
        rw [LiveWorld.op?, htask] at heq
        cases heq
        cases hpending
      intro n hn
      exact ho n ((hother hop).symm.trans hn)
  | @served l op resume r store htask hpolls hgranted hserve hnext =>
      subst hnext
      have hop : o.world.op? x = some op := by rw [LiveWorld.op?, htask]
      rcases serve_position hserve with ⟨n, any, rfl, rfl, hposition⟩ | ⟨hnot, hposition⟩
      · intro n' hn'
        simp only [processedAfter, hop, Option.some.injEq] at hn'
        subst hn'
        have hany : any = decide (0 < o.receivers) := beq_iff_eq.mp hanswers
        change store.position = n
        rw [hposition, hany]
        rcases hsent n hop with hsome | hstored
        · rw [decide_eq_true hsome, if_pos rfl]
        · split
          · rfl
          · exact hstored
      · intro n hn
        rw [hother fun n heq => hnot n (Option.some.inj (hop.symm.trans heq))] at hn
        exact hposition.trans (ho n hn)

theorem current_step {o o' : ListenedWorld G κ} {a : ListenedAction π κ} (ho : o.Current)
    (hsent : o.SentToSomeone a) (hstep : o.step C cfg a = some o') : o'.Current := by
  cases a with
  | act a =>
      simp only [step] at hstep
      split at hstep
      · rename_i hanswers
        obtain ⟨w, hw, rfl⟩ := Option.map_eq_some_iff.mp hstep
        cases a with
        | poll x answer =>
            exact current_polled ho hanswers hsent (LiveWorld.polled_of_pollTask hw)
        | startLive => exact fun n hn => by cases hn
        | crash => exact fun n hn => by cases hn
        | _ =>
            intro n hn
            have hstore := LiveWorld.store_step hw nofun nofun nofun
            exact (congrArg StoreState.position hstore).trans (ho n hn)
      · cases hstep
  | _ =>
      simp only [step] at hstep
      split at hstep <;> cases hstep
      exact ho

/-- In every run in which each position is sent while there is a receiver, or stored
already, every receiver reads the position of the event that was processed last, however
receivers come and go. -/
theorem position_channel_never_stale {w₀ : LiveWorld G κ} {o : ListenedWorld G κ}
    (hreach : Reaches (step C cfg) SentToSomeone (start w₀) o) (n : Nat)
    (hprocessed : o.processed = some n) : o.reads = n := by
  have hcurrent : o.Current := by
    refine hreach.invariant ?_ fun _ _ _ ho hsent hstep => current_step ho hsent hstep
    intro n hn
    cases hn
  exact hcurrent n hprocessed

end ListenedWorld

namespace LiveWitness

open ListenedWorld RunnerAnswer

def listened (acts : List (LiveAction Unit Unit)) : List (ListenedAction Unit Unit) :=
  acts.map .act

def later : RecordedEvent := { placed with globalPosition := 7 }

/-- The loop has connected to a stream of two events. -/
def delivering : List (ListenedAction Unit Unit) :=
  listened ([.startLive, .loopHead,
    .poll .live (.stream (.ok [.ok (.event placed), .ok (.event later)])), .settle .live])

/-- `SentToSomeone`, evaluated. -/
def sentToSomeone (o : ListenedWorld (shop [] []) Unit) : ListenedAction Unit Unit → Bool
  | .act (.poll x (.receivers _)) => match o.world.op? x with
    | some (.sendPosition n) => decide (0 < o.receivers ∨ o.reads = n)
    | _ => true
  | _ => true

theorem sentToSomeone_sound (o : ListenedWorld (shop [] []) Unit)
    (a : ListenedAction Unit Unit) (hcheck : sentToSomeone o a = true) :
    o.SentToSomeone a := by
  unfold SentToSomeone
  split
  · intro n hop
    simpa only [sentToSomeone, hop, decide_eq_true_eq] using hcheck
  · trivial

/-- A receiver comes and goes between the two events, and another one comes first. -/
def listening : List (ListenedAction Unit Unit) :=
  delivering ++ listened (polls .stream [done, .receivers false]) ++ [.subscribe, .clone] ++
    [.dropReceiver] ++ listened (polls .stream [done, .receivers true]) ++
    [.dropReceiver, .subscribe]

theorem position_channel_never_stale_listening :
    ∃ o, runActions (ListenedWorld.step crates delays) (start (opened (shop [] []))) listening =
        some o ∧ o.processed = some 7 ∧ o.receivers = 1 ∧ o.reads = 7 := by
  refine ⟨_, rfl, rfl, rfl, ?_⟩
  have hreach : Reaches (ListenedWorld.step crates delays) SentToSomeone
      (start (opened (shop [] []))) _ := .of_checks sentToSomeone_sound listening rfl rfl
  exact position_channel_never_stale hreach 7 rfl

/-- Nobody listens until both events have been processed. -/
def unheard : List (ListenedAction Unit Unit) :=
  delivering ++ listened (polls .stream [done, .receivers false, done, .receivers false]) ++
    [.subscribe]

/-- The receiver that is then obtained reads the initial position. -/
theorem late_receiver_reads_stale_position :
    ∃ o, runActions (ListenedWorld.step crates delays) (start (opened (shop [] []))) unheard =
        some o ∧ o.receivers = 1 ∧ o.processed = some 7 ∧ o.reads = 0 ∧ ¬ o.Current := by
  refine ⟨_, rfl, rfl, rfl, rfl, fun hcurrent => ?_⟩
  cases hcurrent 7 rfl

end LiveWitness

end EventfoldEs
