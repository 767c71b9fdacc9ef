/-
What the live loop has read, reacted to and announced since it was started, noted
down next to the world while the log of the server grows; and what every function
of the loop owes to those who listen to it.
-/
import EventfoldEs.LoneRuns

namespace EventfoldEs

open Async OrderedLog

variable (C : Crates) {π μ κ : Type} {G : Registry π μ}

/-- What the live loop has done since it was started.  `readings` are the cursors
that it has read for the next subscription; `fromPosition` and `items` are those
of the last one, and `opened` is what the log held when that was opened. -/
structure LiveHistory (μ : Type) where
  readings : List Nat
  fromPosition : Nat
  items : List Item
  opened : List RecordedEvent
  obtained : List (Work μ)
  disposed : List (Work μ)
  published : List Nat

namespace LiveHistory

def empty : LiveHistory μ := ⟨[], 0, [], [], [], [], []⟩

/-- All that has been obtained is disposed of, up to `works`. -/
def Owes (h : LiveHistory μ) (works : List (Work μ)) : Prop :=
  ∀ work ∈ h.obtained, work ∈ h.disposed ∨ work ∈ works

/-- Nothing is announced between the two, and no stream is opened. -/
structure SameStream (h k : LiveHistory μ) : Prop where
  fromPosition : k.fromPosition = h.fromPosition
  items : k.items = h.items
  published : k.published = h.published

theorem SameStream.refl (h : LiveHistory μ) : h.SameStream h := ⟨rfl, rfl, rfl⟩

theorem SameStream.trans {h k l : LiveHistory μ} (hhk : h.SameStream k)
    (hkl : k.SameStream l) : h.SameStream l :=
  ⟨hkl.fromPosition.trans hhk.fromPosition, hkl.items.trans hhk.items,
    hkl.published.trans hhk.published⟩

end LiveHistory

namespace RunnerOp

/-- What an operation of the live loop adds to its history. -/
def note (present : List RecordedEvent) :
    (op : RunnerOp π μ) → op.Res G → LiveHistory μ → LiveHistory μ
  | .position _, n, h => { h with readings := h.readings ++ [n] }
  | .subscribeAllFrom p, .ok items, h =>
      { h with fromPosition := p, items, opened := present }
  | .reactEvent m recorded, produced, h =>
      { h with obtained := h.obtained ++ reactionWork m recorded produced }
  | .dispatch work, .ok (), h => { h with disposed := h.disposed ++ [work] }
  | .appendDeadLetter work _, _, h => { h with disposed := h.disposed ++ [work] }
  | .sendPosition n, _, h => { h with published := h.published ++ [n] }
  | _, _, h => h

/-- Adds nothing to the history, and announces nothing. -/
def Silent : RunnerOp π μ → Prop
  | .lock _ | .unlock _ | .nextItem | .writeTmp _ | .rename _ => True
  | _ => False

end RunnerOp

/-- The loop runs the task itself. -/
def Waiter.ofLoop : Waiter κ → Bool
  | .caller _ => false
  | _ => true

/-- A world, what the log of the server holds by now, and the history of the live
loop. -/
structure ObservedWorld (G : Registry π μ) (κ : Type) where
  world : LiveWorld G κ
  present : List RecordedEvent
  history : LiveHistory μ

inductive ObservedAction (π κ : Type)
  | append (recorded : RecordedEvent)
  | act (a : LiveAction π κ)

namespace ObservedWorld

variable [DecidableEq π] [DecidableEq μ] [DecidableEq κ]

def start (w : LiveWorld G κ) (present : List RecordedEvent) : ObservedWorld G κ :=
  ⟨w, present, .empty⟩

/-- The history after a step; a new loop starts with an empty one. -/
def noted (o : ObservedWorld G κ) : LiveAction π κ → LiveHistory μ
  | .startLive | .crash => .empty
  | .loopHead => { o.history with readings := [] }
  | .poll x answer =>
      match o.world.tasks x with
      | some (.await _ op _) =>
          if x.ofLoop && (op.lockUse.poll x o.world.mutexes).1 then
            match op.serve C answer o.world.store with
            | some (r, _) => op.note o.present r o.history
            | none => o.history
          else o.history
      | _ => o.history
  | _ => o.history

def step (cfg : LiveConfig) (o : ObservedWorld G κ) :
    ObservedAction π κ → Option (ObservedWorld G κ)
  | .append recorded => some { o with present := o.present ++ [recorded] }
  | .act a => (o.world.step C cfg a).map fun world =>
      { o with world, history := o.noted C a }

end ObservedWorld

/-- A stream from `p` on whose positions increase. -/
structure Rising (p : Nat) (events : List RecordedEvent) : Prop where
  fromOn : ∀ e ∈ events, p ≤ e.globalPosition
  increasing : Increasing RecordedEvent.globalPosition events

instance (p : Nat) (events : List RecordedEvent) : Decidable (Rising p events) :=
  decidable_of_iff ((∀ e ∈ events, p ≤ e.globalPosition) ∧
      Increasing RecordedEvent.globalPosition events)
    ⟨fun h => ⟨h.1, h.2⟩, fun h => ⟨h.1, h.2⟩⟩

namespace RunnerOp

/-- What makes positions rise: the stream does, and one of the cursors that were
read for it is not the largest number, which stands for "nothing is registered". -/
def Rises (h : LiveHistory μ) : (op : RunnerOp π μ) → op.Res G → Prop
  | .subscribeAllFrom p, .ok items =>
      (∃ n ∈ h.readings, n < u64Max) ∧ Rising p (itemEvents items)
  | _, _ => True

/-- What holds when the live loop announces something: of a position, that every
registered runner is past it, that no envelope is still to be disposed of and
(if positions are to rise) that it is a new one; of being caught up, that every
registered runner is past what its stream had to deliver before. -/
def Announces (rising : Prop) (s : StoreState G) (h : LiveHistory μ) :
    RunnerOp π μ → Prop
  | .sendPosition n => (∀ r ∈ G.runners, n < s.cursor r) ∧ h.Owes [] ∧
      (rising → ∀ m ∈ h.published, m < n)
  | .storeCaughtUp => streamStop h.items = .caughtUp ∧
      ∀ r ∈ G.runners, h.fromPosition ≤ s.cursor r ∧
        ∀ e ∈ (LiveWorld.passRead h.items).1, e.globalPosition < s.cursor r
  | _ => True

end RunnerOp

section Terms

variable [DecidableEq π] [DecidableEq μ]

/-- The terms on which the functions of the live loop announce what they do, while
others move cursors on. -/
def liveTerms (rising : Prop) :
    Terms (List (Work μ)) (RunnerOp π μ) (RunnerOp.Res G) (StoreState G × LiveHistory μ) where
  rely x y := (∀ r, x.1.cursor r ≤ y.1.cursor r) ∧ y.2 = x.2
  serves op x r y := (rising → op.Rises x.2 r) ∧
    (∃ answer, op.serve C answer x.1 = some (r, y.1)) ∧ ∃ present, y.2 = op.note present r x.2
  guarantee op _ x y := (∀ r, x.1.cursor r ≤ y.1.cursor r) ∧ op.Announces rising x.1 x.2
  during _ _ := True
  rely_trans hxy hyz := ⟨fun r => Nat.le_trans (hxy.1 r) (hyz.1 r), hyz.2.trans hxy.2⟩
  during_stable _ _ := trivial

end Terms

end EventfoldEs
