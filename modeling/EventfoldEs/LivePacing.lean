/-
How long the live loop waits before it connects again, over its whole history of failed
subscriptions, broken streams and streams that end: the delay doubles up to its maximum
with every wait since the last `CaughtUp`, as far as the ends of the streams let the loop
see that `CaughtUp`, and no delay is too long to be doubled.
-/
import EventfoldEs.LiveFold
import Mathlib.Algebra.Group.Nat.Defs

namespace EventfoldEs

open Async

variable {C : Crates} {π μ κ : Type} {G : Registry π μ}

/-- The delay, in nanoseconds, of the wait that comes after `waits` others. -/
def LiveConfig.delayAfter (cfg : LiveConfig) (waits : Nat) : Nat :=
  min (cfg.reconnectBaseDelay.nanos * 2 ^ waits) cfg.reconnectMaxDelay.nanos

theorem LiveConfig.delayAfter_zero {cfg : LiveConfig}
    (hbase : cfg.reconnectBaseDelay.nanos ≤ cfg.reconnectMaxDelay.nanos) :
    cfg.delayAfter 0 = cfg.reconnectBaseDelay.nanos := by
  unfold delayAfter
  rw [pow_zero, Nat.mul_one]
  exact Nat.min_eq_left hbase

/-- Doubling a delay that has been cut off is cut off where doubling goes on. -/
theorem LiveConfig.delayAfter_succ (cfg : LiveConfig) (waits : Nat) :
    cfg.delayAfter (waits + 1) =
      min (cfg.delayAfter waits * 2) cfg.reconnectMaxDelay.nanos := by
  unfold delayAfter
  rw [pow_succ, ← Nat.mul_assoc]
  omega

/-- A maximum of at most half the longest `Duration` keeps every doubling within it. -/
theorem LiveConfig.delayAfter_doubles {cfg : LiveConfig}
    (hmax : cfg.reconnectMaxDelay.nanos * 2 < UInt64.size * 1000000000) (waits : Nat) :
    cfg.delayAfter waits * 2 < UInt64.size * 1000000000 := by
  have hcut : cfg.delayAfter waits ≤ cfg.reconnectMaxDelay.nanos := Nat.min_le_right _ _
  omega

/-- How the loop comes to connect again: after a wait, of which it is the one after
`waits` others since the last `CaughtUp`, or at once after a clean end of the stream.  Or
it dies at the end of the wait. -/
inductive Reconnect
  | waited (waits : Nat) (delay : Nat)
  | atOnce (delivered : Bool)
  | died

/-- As the backoff has it: the delay is the one after so many waits, only a stream that
has delivered `CaughtUp` is replaced at once, and the loop goes on. -/
def Reconnect.Follows (cfg : LiveConfig) : Reconnect → Prop
  | waited waits delay => delay = cfg.delayAfter waits
  | atOnce delivered => delivered = true
  | died => False

/-- The waits since the last `CaughtUp` or the start of the loop, those since the last
clean end of a stream or the start, whether the last stream has delivered a `CaughtUp`,
and all reconnects. -/
structure Pace where
  waits : Nat
  doublings : Nat
  delivered : Bool
  reconnects : List Reconnect

namespace Pace

def start : Pace := ⟨0, 0, false, []⟩

structure Live (p : Pace) (caughtUp : Bool) : Prop where
  delivered : p.delivered = true
  waits : p.waits = 0
  caughtUp : caughtUp = true

/-- The delay that the loop has come to is the one that is due. -/
def Due (cfg : LiveConfig) (p : Pace) : Prop :=
  cfg.delayAfter p.doublings = cfg.delayAfter p.waits

end Pace

namespace LiveWorld

/-- The wait before a subscription is over. -/
def reconnected (w w' : LiveWorld G κ) (waits : Nat) : Reconnect :=
  match w'.phase with
  | .returned _ => .died
  | _ => .waited waits w.backoffDelay.nanos

/-- What a step changes in the pace of the loop. -/
def pacing (w : LiveWorld G κ) (a : LiveAction π κ) (w' : LiveWorld G κ) (p : Pace) : Pace :=
  match a with
  | .startLive => { p with waits := 0, doublings := 0, delivered := false }
  | .poll .stream _ => match w.op? .stream with
    | some .storeCaughtUp => { p with waits := 0, delivered := true }
    | _ => p
  | .settle .live => match w.phase with
    | .connecting => { p with delivered := false }
    | .saving .reconnect => { p with
        doublings := 0
        reconnects := p.reconnects ++ [.atOnce p.delivered] }
    | _ => p
  | .timer => { p with
      waits := p.waits + 1
      doublings := p.doublings + 1
      reconnects := p.reconnects ++ [w.reconnected w' p.waits] }
  | _ => p

/-- A stream that ends cleanly has delivered `CaughtUp`; one that has delivered it and
then breaks does so while so many waits since the last clean end leave the delay at its
base; and twice the delay of a wait is still a `Duration`. -/
def OutcomeFits (cfg : LiveConfig) (o : LiveWorld G κ × Pace) : LiveAction π κ → Prop
  | .settle .stream => match o.1.tasks .stream with
    | some (.ready (.streamed (.ok .ended), _)) => o.2.delivered = true
    | some (.ready (.streamed (.ok (.error _)), _)) =>
        o.2.delivered = true → cfg.delayAfter o.2.doublings = cfg.delayAfter 0
    | _ => True
  | .timer => cfg.delayAfter o.2.doublings * 2 < UInt64.size * 1000000000
  | _ => True

/-- What the loop knows of its pace where it is: the next delay is the right one, unless
the stream has delivered `CaughtUp`. -/
def KnowsDue (cfg : LiveConfig) (w : LiveWorld G κ) (p : Pace) : Prop :=
  match w.phase with
  | .head | .connecting | .retryWait | .saving .backoff | .reconnectWait => p.Due cfg
  | .streaming _ => p.Live w.store.caughtUp ∨ (p.delivered = false ∧ p.Due cfg)
  | .saving .reconnect => p.Live w.store.caughtUp
  | .off | .saving (.return _) | .returned _ => True

/-- The loop keeps its pace: its delay is the one that its doublings make. -/
structure Keeps (cfg : LiveConfig) (w : LiveWorld G κ) (p : Pace) : Prop where
  delay : w.phase ≠ .off → w.backoffDelay.nanos = cfg.delayAfter p.doublings
  due : KnowsDue cfg w p

variable [DecidableEq π] [DecidableEq μ] [DecidableEq κ] {cfg : LiveConfig}

/-- Nothing takes back that the loop has caught up. -/
theorem serve_caughtUp {op : RunnerOp π μ} {answer : RunnerAnswer} {s t : StoreState G}
    {r : op.Res G} (hserve : op.serve C answer s = some (r, t)) :
    t.caughtUp = s.caughtUp ∨ t.caughtUp = true := by
  cases op with
  | rename j =>
      rcases serve_rename hserve with rfl | ⟨checkpoint, -, rfl⟩
      · exact Or.inl rfl
      · exact Or.inl rfl
  | storeCaughtUp =>
      rcases answer with _ | ⟨_ | _⟩ | _ | _ <;> cases hserve
      exact Or.inr rfl
  | sendPosition n =>
      rcases answer with _ | ⟨_ | _⟩ | _ | any <;> cases hserve
      cases any <;> exact Or.inl rfl
  | _ =>
      rcases answer with _ | ⟨_ | _⟩ | _ | _ <;> cases hserve <;> exact Or.inl rfl

theorem storeCaughtUp_caughtUp {answer : RunnerAnswer} {s t : StoreState G} {r : Unit}
    (hserve : (RunnerOp.storeCaughtUp : RunnerOp π μ).serve C answer s = some (r, t)) :
    t.caughtUp = true := by
  rcases answer with _ | ⟨_ | _⟩ | _ | _ <;> cases hserve
  rfl

/-- A poll leaves the loop where it is, with its delay. -/
structure SameLoop (w w' : LiveWorld G κ) : Prop where
  phase : w'.phase = w.phase
  backoffDelay : w'.backoffDelay = w.backoffDelay
  caughtUp : w.store.caughtUp = true → w'.store.caughtUp = true

theorem Polled.sameLoop {w w' : LiveWorld G κ} {x : Waiter κ} {answer : RunnerAnswer}
    (hpolled : Polled C w x answer w') : w.SameLoop w' := by
  cases hpolled with
  | pending _ _ _ hnext =>
      subst hnext
      exact ⟨rfl, rfl, id⟩
  | served _ _ _ hserve hnext =>
      subst hnext
      refine ⟨rfl, rfl, fun hcaught => ?_⟩
      rcases serve_caughtUp hserve with hsame | htrue
      · exact hsame.trans hcaught
      · exact htrue

omit [DecidableEq π] [DecidableEq μ] [DecidableEq κ] in
theorem Keeps.sameLoop {w w' : LiveWorld G κ} {p : Pace} (hsame : w.SameLoop w')
    (hkeeps : Keeps cfg w p) : Keeps cfg w' p := by
  obtain ⟨hdelay, hdue⟩ := hkeeps
  refine ⟨fun hon => hsame.backoffDelay ▸ hdelay (hsame.phase ▸ hon), ?_⟩
  unfold KnowsDue at hdue ⊢
  rw [hsame.phase]
  cases hphase : w.phase with
  | streaming handler =>
      rw [hphase] at hdue
      rcases hdue with hlive | hdue
      · exact Or.inl ⟨hlive.delivered, hlive.waits, hsame.caughtUp hlive.caughtUp⟩
      · exact Or.inr hdue
  | saving next =>
      rw [hphase] at hdue
      cases next with
      | reconnect => exact ⟨hdue.delivered, hdue.waits, hsame.caughtUp hdue.caughtUp⟩
      | backoff => exact hdue
      | «return» result => trivial
  | _ =>
      rw [hphase] at hdue
      exact hdue

theorem Polled.storesCaughtUp {w w' : LiveWorld G κ} {answer : RunnerAnswer}
    (hpolled : Polled C w .stream answer w') (hop : w.op? .stream = some .storeCaughtUp) :
    w'.phase = .streaming none ∧ w'.store.caughtUp = true := by
  cases hpolled with
  | @pending l op resume htask hpolls hpending hnext =>
      rw [op?, htask] at hop
      cases hop
      cases hpending
  | @served l op resume r store htask hpolls hgranted hserve hnext =>
      rw [op?, htask] at hop
      cases hop
      subst hnext
      exact ⟨phase_of_polls hpolls, storeCaughtUp_caughtUp hserve⟩

omit [DecidableEq π] [DecidableEq μ] [DecidableEq κ] in
theorem pacing_poll_reconnects (w w' : LiveWorld G κ) (x : Waiter κ)
    (answer : RunnerAnswer) (p : Pace) :
    (pacing w (.poll x answer) w' p).reconnects = p.reconnects := by
  cases x with
  | stream =>
      simp only [pacing]
      split <;> rfl
  | _ => rfl

theorem keeps_polled {w w' : LiveWorld G κ} {x : Waiter κ} {answer : RunnerAnswer}
    {p : Pace} (hkeeps : Keeps cfg w p) (hpolled : Polled C w x answer w') :
    Keeps cfg w' (w.pacing (.poll x answer) w' p) := by
  have hsame := hkeeps.sameLoop hpolled.sameLoop
  cases x with
  | stream =>
      simp only [pacing]
      split
      · rename_i hop
        obtain ⟨hphase, hcaught⟩ := hpolled.storesCaughtUp hop
        refine ⟨hsame.delay, ?_⟩
        unfold KnowsDue
        rw [hphase]
        exact Or.inl ⟨rfl, rfl, hcaught⟩
      · exact hsame
  | _ => exact hsame

omit [DecidableEq π] [DecidableEq μ] [DecidableEq κ] in
theorem Keeps.moves {w w' : LiveWorld G κ} {p p' : Pace} {phase : LivePhase}
    (hkeeps : Keeps cfg w p) (hphase : w.phase = phase) (hon : phase ≠ .off)
    (hdelay : w'.backoffDelay = w.backoffDelay) (hdoublings : p'.doublings = p.doublings)
    (hdue : KnowsDue cfg w' p') : Keeps cfg w' p' := by
  refine ⟨fun _ => ?_, hdue⟩
  rw [hdelay, hdoublings]
  exact hkeeps.delay (hphase ▸ hon)

omit [DecidableEq π] [DecidableEq μ] in
/-- The loop goes on after saving: at once, to the wait, or not at all. -/
theorem keeps_saved
    (hbase : cfg.reconnectBaseDelay.nanos ≤ cfg.reconnectMaxDelay.nanos)
    {w : LiveWorld G κ} {p : Pace} {next : AfterSave} (hkeeps : Keeps cfg w p)
    (hreconnects : ∀ r ∈ p.reconnects, r.Follows cfg) (hphase : w.phase = .saving next)
    (w' : LiveWorld G κ) :
    Keeps cfg ((w.setTask .live none).afterSave cfg next) (pacing w (.settle .live) w' p) ∧
      ∀ r ∈ (pacing w (.settle .live) w' p).reconnects, r.Follows cfg := by
  have hdue := hkeeps.due
  unfold KnowsDue at hdue
  rw [hphase] at hdue
  simp only [pacing, hphase]
  cases next with
  | reconnect =>
      refine ⟨⟨fun _ => ?_, ?_⟩, List.forall_mem_append.mpr ⟨hreconnects, fun r hr => ?_⟩⟩
      · -- the delay that is due after no wait is the base that the loop goes back to
        change (if w.store.caughtUp then cfg.reconnectBaseDelay else w.backoffDelay).nanos =
          cfg.delayAfter 0
        rw [hdue.caughtUp, if_pos rfl, cfg.delayAfter_zero hbase]
      · change cfg.delayAfter 0 = cfg.delayAfter p.waits
        rw [hdue.waits]
      · rw [List.mem_singleton.mp hr]
        exact hdue.delivered
  | backoff =>
      exact ⟨hkeeps.moves hphase (fun h => by cases h) rfl rfl hdue, hreconnects⟩
  | «return» result =>
      exact ⟨hkeeps.moves hphase (fun h => by cases h) rfl rfl trivial, hreconnects⟩

omit [DecidableEq π] [DecidableEq μ] in
theorem keeps_ended {w : LiveWorld G κ} {p : Pace} {result : Except String StreamOutcome}
    {dropped : List (Work μ)} (hkeeps : Keeps cfg w p)
    (hfits : OutcomeFits cfg (w, p) (.settle .stream)) (hphase : w.phase = .streaming none)
    (hstream : w.tasks .stream = some (.ready (.streamed result, dropped))) :
    Keeps cfg ((w.setTask .stream none).startSaving (.saving (afterStream result))) p := by
  refine hkeeps.moves hphase (fun h => by cases h) rfl rfl ?_
  have hdue := hkeeps.due
  unfold KnowsDue at hdue
  rw [hphase] at hdue
  simp only [OutcomeFits, hstream] at hfits
  rcases result with e | ⟨_ | message⟩
  · trivial
  · rcases hdue with hlive | ⟨hnot, -⟩
    · exact hlive
    · rw [hfits] at hnot
      cases hnot
  · change p.Due cfg
    rcases hdue with hlive | ⟨-, hdue⟩
    · unfold Pace.Due
      rw [hlive.waits]
      exact hfits hlive.delivered
    · exact hdue

omit [DecidableEq π] [DecidableEq μ] [DecidableEq κ] in
/-- A wait is over, and the next delay is twice as long. -/
theorem keeps_waited {w w' : LiveWorld G κ} {p : Pace} {doubled : Duration}
    (hkeeps : Keeps cfg w p) (hreconnects : ∀ r ∈ p.reconnects, r.Follows cfg)
    (hon : w.phase ≠ .off) (hdue : p.Due cfg)
    (hdoubled : w.backoffDelay.checkedMul 2 = some doubled) (hphase : w'.phase = .head)
    (hdelay : w'.backoffDelay = min doubled cfg.reconnectMaxDelay) :
    Keeps cfg w' (pacing w .timer w' p) ∧
      ∀ r ∈ (pacing w .timer w' p).reconnects, r.Follows cfg := by
  have hbefore : w.backoffDelay.nanos = cfg.delayAfter p.doublings := hkeeps.delay hon
  refine ⟨⟨fun _ => ?_, ?_⟩, List.forall_mem_append.mpr ⟨hreconnects, fun r hr => ?_⟩⟩
  · change w'.backoffDelay.nanos = cfg.delayAfter (p.doublings + 1)
    rw [hdelay, Duration.nanos_min, Duration.nanos_of_checkedMul hdoubled, hbefore,
      cfg.delayAfter_succ]
  · unfold KnowsDue
    rw [hphase]
    change cfg.delayAfter (p.doublings + 1) = cfg.delayAfter (p.waits + 1)
    rw [cfg.delayAfter_succ, hdue, cfg.delayAfter_succ]
  · rw [List.mem_singleton.mp hr, reconnected, hphase]
    exact hbefore.trans hdue

omit [DecidableEq π] [DecidableEq μ] [DecidableEq κ] in
theorem Keeps.doubles {w : LiveWorld G κ} {p : Pace} (hkeeps : Keeps cfg w p)
    (hon : w.phase ≠ .off) (hfits : OutcomeFits cfg (w, p) .timer) :
    w.backoffDelay.checkedMul 2 ≠ none := by
  intro hnone
  have hover := Duration.checkedMul_eq_none_iff.mp hnone
  rw [hkeeps.delay hon] at hover
  exact absurd hfits (Nat.not_lt.mpr hover)

/-- The loop keeps its pace as long as the outcomes let it. -/
theorem keeps_step (hbase : cfg.reconnectBaseDelay.nanos ≤ cfg.reconnectMaxDelay.nanos)
    {w w' : LiveWorld G κ} {p : Pace} {a : LiveAction π κ} (hkeeps : Keeps cfg w p)
    (hreconnects : ∀ r ∈ p.reconnects, r.Follows cfg) (hfits : OutcomeFits cfg (w, p) a)
    (hstep : w.step C cfg a = some w') :
    Keeps cfg w' (pacing w a w' p) ∧ ∀ r ∈ (pacing w a w' p).reconnects, r.Follows cfg := by
  have hdue := hkeeps.due
  unfold KnowsDue at hdue
  -- the phase changes, and neither the delay nor the notes on it do
  have hmoves : ∀ {phase : LivePhase} {v : LiveWorld G κ}, w.phase = phase → phase ≠ .off →
      v.backoffDelay = w.backoffDelay → KnowsDue cfg v p →
      Keeps cfg v p ∧ ∀ r ∈ p.reconnects, r.Follows cfg :=
    fun hphase hon hdelay hknows =>
      ⟨hkeeps.moves hphase hon hdelay rfl hknows, hreconnects⟩
  cases turn_of_step hstep with
  | polled hpolled =>
      refine ⟨keeps_polled hkeeps hpolled, ?_⟩
      rw [pacing_poll_reconnects]
      exact hreconnects
  | started _ =>
      refine ⟨⟨fun _ => (cfg.delayAfter_zero hbase).symm, ?_⟩, hreconnects⟩
      unfold KnowsDue
      dsimp only
      rcases LivePhase.started_cases C cfg with hhead | ⟨e, herror⟩
      · rw [hhead]
        rfl
      · rw [herror]
        trivial
  | stops hphase => exact hmoves hphase (fun h => by cases h) rfl trivial
  | connects hphase =>
      rw [hphase] at hdue
      exact hmoves hphase (fun h => by cases h) rfl hdue
  | connected hphase _ =>
      rw [hphase] at hdue
      simp only [pacing, hphase]
      exact ⟨hkeeps.moves hphase (fun h => by cases h) rfl rfl (Or.inr ⟨rfl, hdue⟩),
        hreconnects⟩
  | refused hphase _ =>
      rw [hphase] at hdue
      simp only [pacing, hphase]
      exact ⟨hkeeps.moves hphase (fun h => by cases h) rfl rfl hdue, hreconnects⟩
  | ticked hphase _ =>
      rw [hphase] at hdue
      simp only [pacing, hphase]
      exact hmoves hphase (fun h => by cases h) rfl hdue
  | shutDown hphase _ =>
      simp only [pacing, hphase]
      exact hmoves hphase (fun h => by cases h) rfl trivial
  | saved hphase _ => exact keeps_saved hbase hkeeps hreconnects hphase _
  | ended hphase hstream => exact ⟨keeps_ended hkeeps hfits hphase hstream, hreconnects⟩
  | ticks hphase _ =>
      rw [hphase] at hdue
      exact hmoves hphase (fun h => by cases h) rfl hdue
  | stopsStream hphase _ =>
      rw [hphase] at hdue
      exact hmoves hphase (fun h => by cases h) rfl hdue
  | stopsRetry hphase => exact hmoves hphase (fun h => by cases h) rfl trivial
  | stopsReconnect hphase => exact hmoves hphase (fun h => by cases h) rfl trivial
  | waited hphase hdoubled =>
      rcases hphase with hphase | hphase
      · rw [hphase] at hdue
        exact keeps_waited hkeeps hreconnects (by rw [hphase]; exact fun h => by cases h)
          hdue hdoubled rfl rfl
      · rw [hphase] at hdue
        exact keeps_waited hkeeps hreconnects (by rw [hphase]; exact fun h => by cases h)
          hdue hdoubled rfl rfl
  | overflows hphase hnone =>
      have hon : w.phase ≠ .off := by
        rcases hphase with hphase | hphase
        · rw [hphase]
          exact fun h => by cases h
        · rw [hphase]
          exact fun h => by cases h
      exact absurd hnone (hkeeps.doubles hon hfits)
  | crashed => exact ⟨⟨fun hon => absurd rfl hon, trivial⟩, hreconnects⟩
  | _ => exact ⟨⟨hkeeps.delay, hkeeps.due⟩, hreconnects⟩

/-- In every run in which a clean end of a stream has delivered `CaughtUp`, a stream that
breaks after it does so while the doublings since the last clean end leave the delay at
its base, and no delay outgrows a `Duration`, every wait before a reconnect is the one
that so many waits since the last `CaughtUp` make, a reconnect at once replaces a stream
that delivered `CaughtUp`, and the loop never dies. -/
theorem reconnects_follow_backoff
    (hbase : cfg.reconnectBaseDelay.nanos ≤ cfg.reconnectMaxDelay.nanos)
    {w₀ : LiveWorld G κ} (hidle : w₀.Idle) {o : LiveWorld G κ × Pace}
    (hreach : Reaches (notedStep (step C cfg) pacing) (OutcomeFits cfg) (w₀, .start) o) :
    ∀ r ∈ o.2.reconnects, r.Follows cfg := by
  have hpaced : Keeps cfg o.1 o.2 ∧ ∀ r ∈ o.2.reconnects, r.Follows cfg := by
    induction hreach with
    | start =>
        refine ⟨⟨fun hon => absurd hidle.phase hon, ?_⟩, List.forall_mem_nil _⟩
        unfold KnowsDue
        rw [hidle.phase]
        trivial
    | @next o o' a hprior hfits hstep ih =>
        obtain ⟨hworld, hnote⟩ := notedStep_cases hstep
        rw [hnote]
        exact keeps_step hbase ih.1 ih.2 hfits hworld
  exact hpaced.2

end LiveWorld

namespace LiveWitness

open LiveWorld RunnerAnswer

def outcomeFits (o : LiveWorld (shop [] []) Unit × Pace) : LiveAction Unit Unit → Bool
  | .settle .stream => match o.1.tasks .stream with
    | some (.ready (.streamed (.ok .ended), _)) => o.2.delivered
    | some (.ready (.streamed (.ok (.error _)), _)) =>
        !o.2.delivered || delays.delayAfter o.2.doublings == delays.delayAfter 0
    | _ => true
  | _ => true

theorem outcomeFits_sound (o : LiveWorld (shop [] []) Unit × Pace)
    (a : LiveAction Unit Unit) (hcheck : outcomeFits o a = true) :
    OutcomeFits delays o a := by
  unfold OutcomeFits
  split
  · simp only [outcomeFits] at hcheck
    split <;> rename_i htask <;> simp only [htask] at hcheck
    · exact hcheck
    · intro hdelivered
      rw [hdelivered] at hcheck
      exact beq_iff_eq.mp hcheck
    · trivial
  · exact delays.delayAfter_doubles (by decide) _
  · trivial

/-- A subscription that fails, and the wait after it. -/
def refused : List (LiveAction Unit Unit) :=
  [.loopHead, .poll .live (.stream (.error ⟨.unavailable, "refused"⟩)), .settle .live, .timer]

/-- A stream of these items, up to its end, and the saving after it. -/
def streamed (items : List Item) (answers : List RunnerAnswer) :
    List (LiveAction Unit Unit) :=
  [.loopHead, .poll .live (.stream (.ok items)), .settle .live] ++
    polls .stream answers ++ [.settle .stream, .settle .live]

/-- Two subscriptions fail; a stream delivers `CaughtUp` and ends; another one fails. -/
def recovering : List (LiveAction Unit Unit) :=
  [.startLive] ++ refused ++ refused ++ streamed [.ok .caughtUp] [done, done, done] ++ refused

theorem reconnects_follow_backoff_recovering :
    ∃ o, runActions (notedStep (step crates delays) pacing)
        (opened (shop [] []), .start) recovering = some o ∧
      o.2.reconnects = [.waited 0 1000000000, .waited 1 2000000000, .atOnce true,
        .waited 0 1000000000] ∧
      ∀ r ∈ o.2.reconnects, r.Follows delays := by
  obtain ⟨o, hrun, hreconnects⟩ : ∃ o, runActions (notedStep (step crates delays) pacing)
      (opened (shop [] []), .start) recovering = some o ∧
      o.2.reconnects = [.waited 0 1000000000, .waited 1 2000000000, .atOnce true,
        .waited 0 1000000000] := ⟨_, rfl, rfl⟩
  exact ⟨o, hrun, hreconnects, reconnects_follow_backoff (by decide) (opened_idle _)
    (.of_checks outcomeFits_sound recovering (by decide +kernel) hrun)⟩

def ending : List (LiveAction Unit Unit) := .startLive :: streamed [] [done]

/-- A subscription fails, and the stream after it breaks right after `CaughtUp`. -/
def breaking : List (LiveAction Unit Unit) :=
  [.startLive] ++ refused ++
    streamed [.ok .caughtUp, .error ⟨.unavailable, "reset"⟩] [done, done, done] ++ [.timer]

def longest : LiveConfig :=
  let longest : Duration := ⟨UInt64.size * 1000000000 - 1, by decide⟩
  { delays with reconnectBaseDelay := longest, reconnectMaxDelay := longest }

/-- A stream that never delivered `CaughtUp` is replaced at once, a `CaughtUp` does not
reset the delay after a stream that breaks, and a delay that is doubled before it is cut
off takes the loop down. -/
theorem backoff_not_followed :
    ∃ o o' o'' : LiveWorld (shop [] []) Unit × Pace,
      runActions (notedStep (step crates delays) pacing) (opened _, .start) ending = some o ∧
      runActions (notedStep (step crates delays) pacing) (opened _, .start) breaking =
        some o' ∧
      runActions (notedStep (step crates longest) pacing) (opened _, .start)
        (.startLive :: refused) = some o'' ∧
      o.2.reconnects = [.atOnce false] ∧
      o'.2.reconnects = [.waited 0 1000000000, .waited 0 2000000000] ∧
      o''.2.reconnects = [.died] ∧
      ¬ (∀ r ∈ o.2.reconnects, r.Follows delays) ∧
      ¬ (∀ r ∈ o'.2.reconnects, r.Follows delays) ∧
      ¬ (∀ r ∈ o''.2.reconnects, r.Follows longest) := by
  refine ⟨_, _, _, rfl, rfl, rfl, rfl, rfl, rfl, fun hfollows => ?_, fun hfollows => ?_,
    fun hfollows => hfollows .died List.mem_cons_self⟩
  · cases hfollows (.atOnce false) List.mem_cons_self
  · have hdelay : 2000000000 = delays.delayAfter 0 :=
      hfollows (.waited 0 2000000000) (List.mem_cons_of_mem _ List.mem_cons_self)
    exact absurd hdelay (by decide)

end LiveWitness

end EventfoldEs
