/-
Asynchronous functions over a table of fair mutexes: those that hold at most
one of them at a time, and what each of them does to the others.
-/
import EventfoldEs.Lib.Future
import EventfoldEs.Lib.FairMutex
import Mathlib.Logic.Function.Basic

namespace Async

universe u v w x y z

/-- What an operation does to the locks of a table. -/
inductive LockUse (K : Type y)
  | acquire (k : K)
  | release (k : K)
  | nothing

namespace LockUse

variable {K : Type y} {ω : Type z}

/-- Whether it may be performed by a function that holds `held`. -/
def Allowed (held : Option K) : LockUse K → Prop
  | acquire _ => held = none
  | release k => held = some k
  | nothing => True

def heldAfter (held : Option K) : LockUse K → Option K
  | acquire k => some k
  | release _ => none
  | nothing => held

def acquired? : LockUse K → Option K
  | acquire k => some k
  | _ => none

/-- One poll of the operation by `a`: whether it goes through, and the table. -/
def poll [DecidableEq K] [DecidableEq ω] (a : ω) (locks : K → FairMutex ω) :
    LockUse K → Bool × (K → FairMutex ω)
  | acquire k => (((locks k).poll a).1, Function.update locks k ((locks k).poll a).2)
  | release k => (true, Function.update locks k (locks k).release)
  | nothing => (true, locks)

end LockUse

namespace Future

variable {L : Type u} {Op : Type v} {Res : Op → Type w} {α β : Type x} {K : Type y}

/-- Holding `held`, the future takes no lock while it holds one, releases only
what it holds, and ends holding `after`. -/
def Disciplined (use : Op → LockUse K) (after : Option K) :
    Option K → Future L Op Res α → Prop
  | held, ready _ => held = after
  | held, await _ op resume => (use op).Allowed held ∧
      ∀ r, (resume r).Disciplined use after ((use op).heldAfter held)

/-- The lock that the future is about to take. -/
def wants? (use : Op → LockUse K) : Future L Op Res α → Option K
  | ready _ => none
  | await _ op _ => (use op).acquired?

theorem Disciplined.bind {use : Op → LockUse K} {mid after held : Option K}
    {fut : Future L Op Res α} {f : α → Future L Op Res β}
    (hfut : fut.Disciplined use mid held)
    (hf : ∀ a, (f a).Disciplined use after mid) :
    (fut.bind f).Disciplined use after held := by
  induction fut generalizing held with
  | ready a => exact hfut ▸ hf a
  | await l op resume ih => exact ⟨hfut.1, fun r => ih r (hfut.2 r)⟩

/-- A future that touches no lock keeps what it holds. -/
theorem disciplined_of_only {use : Op → LockUse K} {held : Option K}
    {fut : Future L Op Res α} (hfut : fut.Only fun op => use op = .nothing) :
    fut.Disciplined use held held := by
  induction fut with
  | ready a => rfl
  | await l op resume ih =>
      obtain ⟨hop, hrest⟩ := hfut
      refine ⟨?_, fun r => ?_⟩
      · rw [hop]
        trivial
      · rw [hop]
        exact ih r (hrest r)

theorem Disciplined.mapLocals {L' : Type u} {use : Op → LockUse K}
    {after held : Option K} {fut : Future L Op Res α} {g : L → L'}
    (hfut : fut.Disciplined use after held) :
    (fut.mapLocals g).Disciplined use after held := by
  induction fut generalizing held with
  | ready a => exact hfut
  | await l op resume ih => exact ⟨hfut.1, fun r => ih r (hfut.2 r)⟩

end Future

section Table

variable {K : Type y} {ω : Type z}

/-- Between the two tables, nobody but `a` has moved; the first of a queue may
have become the owner. -/
def OnlyMoves (a : ω) (locks locks' : K → FairMutex ω) : Prop :=
  ∀ b, b ≠ a → ∀ k, ((locks' k).Involves b ↔ (locks k).Involves b) ∧
    ((locks k).owner = some b → (locks' k).owner = some b)

/-- `a` neither holds nor waits for any lock. -/
def Clear (locks : K → FairMutex ω) (a : ω) : Prop :=
  ∀ k, ¬ (locks k).Involves a

theorem OnlyMoves.clear {a b : ω} {locks locks' : K → FairMutex ω}
    (hmoves : OnlyMoves a locks locks') (hne : b ≠ a) (hclear : Clear locks b) :
    Clear locks' b :=
  fun k h => hclear k ((hmoves b hne k).1.mp h)

variable {L : Type u} {Op : Type v} {Res : Op → Type w} {α : Type x}

/-- `a` runs a disciplined future, owns what this holds, and waits at most for
the lock that it is about to take. -/
structure Stands (use : Op → LockUse K) (locks : K → FairMutex ω) (a : ω)
    (fut : Future L Op Res α) (held : Option K) : Prop where
  disciplined : fut.Disciplined use none held
  owns : ∀ k, held = some k → (locks k).owner = some a
  involved : ∀ k, (locks k).Involves a → held = some k ∨ fut.wants? use = some k

variable {use : Op → LockUse K} {locks locks' : K → FairMutex ω} {a : ω}

theorem Stands.of_onlyMoves {b : ω} (hmoves : OnlyMoves a locks locks') (hne : b ≠ a)
    {fut : Future L Op Res α} {held : Option K} (hstands : Stands use locks b fut held) :
    Stands use locks' b fut held where
  disciplined := hstands.disciplined
  owns k hk := (hmoves b hne k).2 (hstands.owns k hk)
  involved k hk := hstands.involved k ((hmoves b hne k).1.mp hk)

/-- A future that starts out clear of all locks. -/
theorem Stands.of_clear {fut : Future L Op Res α} (hfut : fut.Disciplined use none none)
    (hclear : Clear locks a) : Stands use locks a fut none where
  disciplined := hfut
  owns k hk := by cases hk
  involved k hk := absurd hk (hclear k)

/-- A future that is done is clear of all locks. -/
theorem Stands.clear_of_ready {v : α} {held : Option K}
    (hstands : Stands use locks a (.ready v : Future L Op Res α) held) :
    Clear locks a := by
  intro k hk
  have hnone : held = none := hstands.disciplined
  rcases hstands.involved k hk with h | h
  · rw [hnone] at h
    cases h
  · cases h

/-- The future of `a` releases only what `a` owns. -/
theorem Stands.owns_released {l : L} {op : Op} {resume : Res op → Future L Op Res α}
    {held : Option K} (hstands : Stands use locks a (.await l op resume) held) (k : K)
    (hk : use op = .release k) : (locks k).owner = some a := by
  have hallowed := hstands.disciplined.1
  rw [hk] at hallowed
  exact hstands.owns k hallowed

variable [DecidableEq ω]

theorem onlyMoves_cancel (hfair : ∀ k, (locks k).Fair) (a : ω) :
    OnlyMoves a locks fun k => (locks k).cancel a := by
  intro b hne k
  refine ⟨?_, fun hb => FairMutex.owner_cancel_of_owner hb hne⟩
  rw [FairMutex.involves_cancel_iff (hfair k)]
  exact and_iff_left hne

theorem clear_cancel (hfair : ∀ k, (locks k).Fair) (a : ω) :
    Clear (fun k => (locks k).cancel a) a :=
  fun k h => ((FairMutex.involves_cancel_iff (hfair k) a a).mp h).2 rfl

variable [DecidableEq K]

theorem fair_poll (hfair : ∀ k, (locks k).Fair) (a : ω) (lu : LockUse K) :
    ∀ k, ((lu.poll a locks).2 k).Fair := by
  intro k
  cases lu with
  | acquire j =>
      by_cases hkj : k = j
      · subst hkj
        simpa [LockUse.poll] using (hfair k).poll a
      · simpa [LockUse.poll, Function.update_of_ne hkj] using hfair k
  | release j =>
      by_cases hkj : k = j
      · subst hkj
        simpa [LockUse.poll] using (hfair k).release
      · simpa [LockUse.poll, Function.update_of_ne hkj] using hfair k
  | nothing => exact hfair k

/-- A poll by `a` moves nobody else, if `a` releases only what it owns. -/
theorem onlyMoves_poll (hfair : ∀ k, (locks k).Fair) {lu : LockUse K}
    (howns : ∀ k, lu = .release k → (locks k).owner = some a) :
    OnlyMoves a locks (lu.poll a locks).2 := by
  intro b hne k
  cases lu with
  | acquire j =>
      by_cases hkj : k = j
      · subst hkj
        simp only [LockUse.poll, Function.update_self]
        refine ⟨?_, fun hb => FairMutex.owner_poll_of_owner hb a⟩
        rw [FairMutex.involves_poll_iff (hfair k)]
        exact or_iff_left hne
      · simp [LockUse.poll, Function.update_of_ne hkj]
  | release j =>
      by_cases hkj : k = j
      · subst hkj
        have howner := howns k rfl
        simp only [LockUse.poll, Function.update_self]
        refine ⟨?_, fun hb => ?_⟩
        · rw [FairMutex.involves_release_iff (hfair k) howner]
          exact and_iff_left hne
        · rw [howner] at hb
          exact absurd (Option.some.inj hb).symm hne
      · simp [LockUse.poll, Function.update_of_ne hkj]
  | nothing => exact ⟨Iff.rfl, id⟩

/-- A poll that does not go through leaves the future where it stands. -/
theorem Stands.poll_pending {l : L} {op : Op}
    {resume : Res op → Future L Op Res α} {held : Option K}
    (hstands : Stands use locks a (.await l op resume) held)
    (hpending : ((use op).poll a locks).1 = false) :
    Stands use ((use op).poll a locks).2 a (.await l op resume) held := by
  have hallowed := hstands.disciplined.1
  cases huse : use op with
  | acquire j =>
      rw [huse] at hallowed
      refine ⟨hstands.disciplined, ?_, ?_⟩
      · intro k hk
        rw [show held = none from hallowed] at hk
        cases hk
      · intro k hk
        by_cases hkj : k = j
        · subst hkj
          exact Or.inr (congrArg LockUse.acquired? huse)
        · simp only [LockUse.poll, Function.update_of_ne hkj] at hk
          exact hstands.involved k hk
  | release j =>
      rw [huse] at hpending
      cases hpending
  | nothing =>
      rw [huse] at hpending
      cases hpending

/-- A poll that goes through leaves what comes next standing. -/
theorem Stands.poll_granted (hfair : ∀ k, (locks k).Fair) {l : L} {op : Op}
    {resume : Res op → Future L Op Res α} {held : Option K}
    (hstands : Stands use locks a (.await l op resume) held)
    (hgranted : ((use op).poll a locks).1 = true) (r : Res op) :
    Stands use ((use op).poll a locks).2 a (resume r) ((use op).heldAfter held) := by
  have hallowed := hstands.disciplined.1
  have hrest := hstands.disciplined.2 r
  have hinvolved := hstands.involved
  refine ⟨hrest, ?_, ?_⟩
  · intro k hk
    cases huse : use op with
    | acquire j =>
        rw [huse] at hgranted hk
        obtain rfl : j = k := Option.some.inj hk
        simpa [LockUse.poll] using (FairMutex.poll_granted_iff a).mp hgranted
    | release j =>
        rw [huse] at hk
        cases hk
    | nothing =>
        rw [huse] at hk
        exact hstands.owns k hk
  · intro k hk
    left
    cases huse : use op with
    | acquire j =>
        rw [huse] at hallowed hk
        by_cases hkj : k = j
        · rw [hkj]
          rfl
        · simp only [LockUse.poll, Function.update_of_ne hkj] at hk
          rcases hinvolved k hk with h | h
          · rw [show held = none from hallowed] at h
            cases h
          · simp only [Future.wants?, huse, LockUse.acquired?, Option.some.injEq] at h
            exact absurd h.symm hkj
    | release j =>
        have howner := hstands.owns_released j huse
        rw [huse] at hallowed hk
        by_cases hkj : k = j
        · subst hkj
          simp only [LockUse.poll, Function.update_self] at hk
          exact absurd rfl
            ((FairMutex.involves_release_iff (hfair k) howner a).mp hk).2
        · simp only [LockUse.poll, Function.update_of_ne hkj] at hk
          rcases hinvolved k hk with h | h
          · rw [show held = some j from hallowed] at h
            exact absurd (Option.some.inj h).symm hkj
          · simp only [Future.wants?, huse, LockUse.acquired?, reduceCtorEq] at h
    | nothing =>
        rw [huse] at hk
        rcases hinvolved k hk with h | h
        · exact h
        · simp only [Future.wants?, huse, LockUse.acquired?, reduceCtorEq] at h

end Table

end Async
