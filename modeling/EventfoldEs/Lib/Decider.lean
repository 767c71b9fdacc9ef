/-
A decider: a command is decided on the state, and what it decides is folded into the
state.  A log of commands explains a state when each was decided on what the ones
before it lead to.
-/
import Mathlib.Data.List.Infix

namespace Decide

universe u v w x

structure Decider (S : Type u) (Cmd : Type v) (Ev : Type w) (Err : Type x) where
  initial : S
  decide : S → Cmd → Except Err (List Ev)
  evolve : S → Ev → S

variable {S : Type u} {Cmd : Type v} {Ev : Type w} {Err : Type x}

/-- The commands one after the other, each with what it decides. -/
inductive Decider.Runs (D : Decider S Cmd Ev Err) : List (Cmd × List Ev) → S → Prop
  | nil : Runs D [] D.initial
  | concat {log : List (Cmd × List Ev)} {s : S} {cmd : Cmd} {events : List Ev}
      (hlog : Runs D log s) (hdecide : D.decide s cmd = .ok events) :
      Runs D (log ++ [(cmd, events)]) (events.foldl D.evolve s)

namespace Decider.Runs

variable {D : Decider S Cmd Ev Err} {log earlier : List (Cmd × List Ev)} {s t : S}

/-- What the initial state meets and every decision keeps, every state of a run meets. -/
theorem invariant {P : S → Prop} (hinitial : P D.initial)
    (hkeep : ∀ s cmd events, P s → D.decide s cmd = .ok events →
      P (events.foldl D.evolve s))
    (hruns : Runs D log s) : P s := by
  induction hruns with
  | nil => exact hinitial
  | concat _ hdecide ih => exact hkeep _ _ _ ih hdecide

theorem concat_cases {cmd : Cmd} {events : List Ev}
    (hruns : Runs D (log ++ [(cmd, events)]) t) :
    ∃ s, Runs D log s ∧ D.decide s cmd = .ok events ∧ t = events.foldl D.evolve s := by
  generalize hlog : log ++ [(cmd, events)] = whole at hruns
  cases hruns with
  | nil => simp at hlog
  | @concat log' s cmd' events' hprior hdecide =>
      obtain ⟨rfl, hlast⟩ := List.append_inj' hlog rfl
      obtain ⟨rfl, rfl⟩ := Prod.mk.inj (List.singleton_injective hlast)
      exact ⟨s, hprior, hdecide, rfl⟩

/-- A log leads to one state. -/
theorem unique (hs : Runs D log s) (ht : Runs D log t) : s = t := by
  induction hs generalizing t with
  | nil =>
      generalize hlog : ([] : List (Cmd × List Ev)) = whole at ht
      cases ht with
      | nil => rfl
      | concat _ _ => simp at hlog
  | concat _ _ ih =>
      obtain ⟨s', hprior, -, rfl⟩ := ht.concat_cases
      rw [ih hprior]

/-- Every entry of a log was decided on the state of the ones before it. -/
theorem of_prefix (hruns : Runs D log s) (hpre : earlier <+: log) :
    ∃ t, Runs D earlier t := by
  induction hruns with
  | nil => exact ⟨D.initial, List.prefix_nil.mp hpre ▸ .nil⟩
  | concat hlog hdecide ih =>
      rcases List.prefix_concat_iff.mp hpre with rfl | hpre
      · exact ⟨_, hlog.concat hdecide⟩
      · exact ih hpre

end Decider.Runs

end Decide
