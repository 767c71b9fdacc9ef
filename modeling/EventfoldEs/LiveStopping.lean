/-
The end of the live loop: once it has been told to stop, it has only a few turns left,
whatever its stream and the callers do meanwhile.
-/
import EventfoldEs.LiveLocks

namespace EventfoldEs

open Async

variable {C : Crates} {π μ κ : Type} {G : Registry π μ}

/-- How many turns the loop takes at most before it returns, once it has been told to. -/
def LivePhase.turnsLeft : LivePhase → Nat
  | .off | .returned _ => 0
  | .saving (.return _) | .streaming (some .shutdown) => 1
  | .head => 2
  | .retryWait | .reconnectWait | .saving .reconnect => 3
  | .saving .backoff => 4
  | .streaming none | .streaming (some .tick) => 5
  | .connecting => 6

namespace LiveWorld

variable [DecidableEq π] [DecidableEq μ] [DecidableEq κ] {cfg : LiveConfig}

/-- The loop itself moves on: not a poll of a future, and not a periodic save. -/
def turns (w : LiveWorld G κ) : LiveAction π κ → Bool
  | .loopHead | .settle .stream | .seeShutdown | .timer => true
  | .settle .live =>
      match w.phase with
      | .streaming (some .tick) => false
      | _ => true
  | _ => false

/-- The loop runs, and has been told to stop. -/
structure Stopping (w : LiveWorld G κ) : Prop where
  shutdown : w.shutdown = true
  handle : w.store.liveHandle = true
  on : w.phase ≠ .off

omit [DecidableEq π] [DecidableEq μ] [DecidableEq κ] in
/-- Nothing of the loop changes. -/
theorem Stopping.same {w w' : LiveWorld G κ} (hstopping : w.Stopping) {a : LiveAction π κ}
    (hturns : w.turns a = false) (hshutdown : w'.shutdown = true)
    (hhandle : w'.store.liveHandle = w.store.liveHandle) (hphase : w'.phase = w.phase) :
    w'.Stopping ∧ w'.phase.turnsLeft + (w.turns a).toNat ≤ w.phase.turnsLeft := by
  refine ⟨⟨hshutdown, hhandle.trans hstopping.handle, hphase ▸ hstopping.on⟩, ?_⟩
  rw [hturns, hphase]
  exact Nat.le_refl _

omit [DecidableEq π] [DecidableEq μ] [DecidableEq κ] in
/-- The loop goes from one phase to another, or one turn further. -/
theorem Stopping.next {w w' : LiveWorld G κ} (hstopping : w.Stopping) {a : LiveAction π κ}
    {taken : Bool} {phase phase' : LivePhase} (hturns : w.turns a = taken)
    (hphase : w.phase = phase) (hphase' : w'.phase = phase') (hon : phase' ≠ .off)
    (hleft : phase'.turnsLeft + taken.toNat ≤ phase.turnsLeft)
    (hshutdown : w'.shutdown = w.shutdown)
    (hhandle : w'.store.liveHandle = w.store.liveHandle) :
    w'.Stopping ∧ w'.phase.turnsLeft + (w.turns a).toNat ≤ w.phase.turnsLeft := by
  refine ⟨⟨hshutdown.trans hstopping.shutdown, hhandle.trans hstopping.handle, ?_⟩, ?_⟩
  · rw [hphase']
    exact hon
  · rw [hturns, hphase, hphase']
    exact hleft

end LiveWorld

namespace LiveWitness

open LiveWorld RunnerAnswer

end LiveWitness

end EventfoldEs
