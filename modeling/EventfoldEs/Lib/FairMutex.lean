/-
A fair mutex: waiters queue in the order in which they asked, and a release
hands the lock to the first of them, whether or not it is running.
-/
import Mathlib.Data.List.Nodup

namespace Async

universe u

/-- `owner` holds the lock or has been handed it. -/
structure FairMutex (ω : Type u) where
  owner : Option ω
  queue : List ω

namespace FairMutex

variable {ω : Type u}

def free : FairMutex ω := ⟨none, []⟩

/-- Take the lock if it is free, else queue for it. -/
def request (m : FairMutex ω) (x : ω) : FairMutex ω :=
  match m.owner with
  | none => ⟨some x, m.queue⟩
  | some y => ⟨some y, m.queue ++ [x]⟩

def release (m : FairMutex ω) : FairMutex ω :=
  match m.queue with
  | [] => free
  | y :: rest => ⟨some y, rest⟩

/-- The waiter goes away, wherever it stands. -/
def cancel [DecidableEq ω] (m : FairMutex ω) (x : ω) : FairMutex ω :=
  if m.owner = some x then m.release else ⟨m.owner, m.queue.filter (· ≠ x)⟩

/-- One poll of a `lock` future: whether the lock is held now. -/
def poll [DecidableEq ω] (m : FairMutex ω) (x : ω) : Bool × FairMutex ω :=
  if m.owner = some x then (true, m)
  else if x ∈ m.queue then (false, m)
  else (m.owner.isNone, m.request x)

/-- The waiter holds the lock or waits for it. -/
def Involves (m : FairMutex ω) (x : ω) : Prop :=
  m.owner = some x ∨ x ∈ m.queue

/-- Nobody waits for a free lock, and nobody stands in line twice. -/
structure Fair (m : FairMutex ω) : Prop where
  busy : m.owner = none → m.queue = []
  nodup : m.queue.Nodup
  apart : ∀ x, m.owner = some x → x ∉ m.queue

theorem fair_free : (free : FairMutex ω).Fair :=
  ⟨fun _ => rfl, List.nodup_nil, fun _ _ => List.not_mem_nil⟩

theorem not_involves_free (x : ω) : ¬ (free : FairMutex ω).Involves x := by
  rintro (howner | hqueue)
  · cases howner
  · cases hqueue

theorem Fair.request {m : FairMutex ω} (hm : m.Fair) {x : ω} (hx : ¬ m.Involves x) :
    (m.request x).Fair := by
  unfold FairMutex.request
  cases howner : m.owner with
  | none =>
      rw [hm.busy howner]
      exact ⟨fun _ => rfl, List.nodup_nil, fun _ _ => List.not_mem_nil⟩
  | some y =>
      have hqueue : x ∉ m.queue := fun h => hx (Or.inr h)
      refine ⟨fun h => (Option.some_ne_none y h).elim, ?_, ?_⟩
      · rw [List.nodup_append]
        refine ⟨hm.nodup, List.nodup_singleton x, ?_⟩
        intro a ha b hb heq
        rw [List.mem_singleton] at hb
        exact hqueue (hb ▸ heq ▸ ha)
      · intro z hz hmem
        cases hz
        rcases List.mem_append.mp hmem with hmem | hmem
        · exact hm.apart y howner hmem
        · exact hx (Or.inl (List.mem_singleton.mp hmem ▸ howner))

theorem involves_request_iff {m : FairMutex ω} (hm : m.Fair) (x y : ω) :
    (m.request x).Involves y ↔ m.Involves y ∨ y = x := by
  unfold FairMutex.request Involves
  cases howner : m.owner with
  | none =>
      rw [hm.busy howner]
      simp [eq_comm]
  | some z => simp [or_assoc]

theorem Fair.release {m : FairMutex ω} (hm : m.Fair) : m.release.Fair := by
  unfold FairMutex.release
  have hnodup := hm.nodup
  cases hqueue : m.queue with
  | nil => exact fair_free
  | cons y rest =>
      rw [hqueue, List.nodup_cons] at hnodup
      refine ⟨fun h => (Option.some_ne_none y h).elim, hnodup.2, ?_⟩
      intro z hz
      cases hz
      exact hnodup.1

theorem involves_release_iff {m : FairMutex ω} (hm : m.Fair) {x : ω}
    (howner : m.owner = some x) (y : ω) :
    m.release.Involves y ↔ m.Involves y ∧ y ≠ x := by
  have hx := hm.apart x howner
  unfold FairMutex.release Involves
  cases hqueue : m.queue with
  | nil =>
      simp only [free, howner, reduceCtorEq, List.not_mem_nil, or_self, or_false,
        Option.some.injEq, false_iff, not_and, not_not]
      exact fun h => h.symm
  | cons z rest =>
      rw [hqueue, List.mem_cons, not_or] at hx
      simp only [howner, Option.some.injEq, List.mem_cons]
      constructor
      · rintro (rfl | hmem)
        · exact ⟨Or.inr (Or.inl rfl), fun h => hx.1 h.symm⟩
        · exact ⟨Or.inr (Or.inr hmem), fun h => hx.2 (h ▸ hmem)⟩
      · rintro ⟨rfl | rfl | hmem, hne⟩
        · exact absurd rfl hne
        · exact Or.inl rfl
        · exact Or.inr hmem

theorem owner_request_of_owner {m : FairMutex ω} {y : ω} (hy : m.owner = some y)
    (x : ω) : (m.request x).owner = some y := by
  unfold FairMutex.request
  rw [hy]

variable [DecidableEq ω]

theorem Fair.poll {m : FairMutex ω} (hm : m.Fair) (x : ω) : (m.poll x).2.Fair := by
  unfold FairMutex.poll
  by_cases howner : m.owner = some x
  · rw [if_pos howner]
    exact hm
  · rw [if_neg howner]
    by_cases hqueue : x ∈ m.queue
    · rw [if_pos hqueue]
      exact hm
    · rw [if_neg hqueue]
      exact hm.request fun h => h.elim howner hqueue

theorem involves_poll_iff {m : FairMutex ω} (hm : m.Fair) (x y : ω) :
    (m.poll x).2.Involves y ↔ m.Involves y ∨ y = x := by
  have halready : m.Involves x → (m.Involves y ↔ m.Involves y ∨ y = x) := fun hx =>
    ⟨Or.inl, fun h => h.elim id fun heq => heq ▸ hx⟩
  unfold FairMutex.poll
  by_cases howner : m.owner = some x
  · rw [if_pos howner]
    exact halready (Or.inl howner)
  · rw [if_neg howner]
    by_cases hqueue : x ∈ m.queue
    · rw [if_pos hqueue]
      exact halready (Or.inr hqueue)
    · rw [if_neg hqueue]
      exact involves_request_iff hm x y

/-- A poll says that the lock is held exactly when its owner is the poller. -/
theorem poll_granted_iff {m : FairMutex ω} (x : ω) :
    (m.poll x).1 = true ↔ (m.poll x).2.owner = some x := by
  unfold FairMutex.poll
  by_cases howner : m.owner = some x
  · simp [howner]
  · rw [if_neg howner]
    by_cases hqueue : x ∈ m.queue
    · simp [hqueue, howner]
    · rw [if_neg hqueue]
      unfold FairMutex.request
      cases hown : m.owner with
      | none => simp
      | some y =>
          rw [hown] at howner
          simpa using fun h : y = x => howner (congrArg some h)

theorem poll_granted {m : FairMutex ω} (hm : m.Fair) {x : ω}
    (hfree : m.owner = none ∨ m.owner = some x) : (m.poll x).1 = true := by
  unfold FairMutex.poll
  by_cases howner : m.owner = some x
  · rw [if_pos howner]
  · have hnone := hfree.resolve_right howner
    have hqueue : x ∉ m.queue := by
      rw [hm.busy hnone]
      exact List.not_mem_nil
    rw [if_neg howner, if_neg hqueue, hnone]
    rfl

theorem owner_poll_of_owner {m : FairMutex ω} {y : ω} (hy : m.owner = some y)
    (x : ω) : (m.poll x).2.owner = some y := by
  unfold FairMutex.poll
  by_cases howner : m.owner = some x
  · rw [if_pos howner]
    exact hy
  · rw [if_neg howner]
    by_cases hqueue : x ∈ m.queue
    · rw [if_pos hqueue]
      exact hy
    · rw [if_neg hqueue]
      exact owner_request_of_owner hy x

theorem owner_cancel_of_owner {m : FairMutex ω} {x y : ω} (hy : m.owner = some y)
    (hne : y ≠ x) : (m.cancel x).owner = some y := by
  unfold FairMutex.cancel
  rw [if_neg]
  · exact hy
  · rw [hy]
    exact fun h => hne (Option.some.inj h)

theorem Fair.cancel {m : FairMutex ω} (hm : m.Fair) (x : ω) : (m.cancel x).Fair := by
  unfold FairMutex.cancel
  by_cases howner : m.owner = some x
  · rw [if_pos howner]
    exact hm.release
  · rw [if_neg howner]
    refine ⟨fun h => ?_, hm.nodup.filter _, fun y hy hmem => ?_⟩
    · simp [hm.busy h]
    · exact hm.apart y hy (List.mem_of_mem_filter hmem)

theorem involves_cancel_iff {m : FairMutex ω} (hm : m.Fair) (x y : ω) :
    (m.cancel x).Involves y ↔ m.Involves y ∧ y ≠ x := by
  unfold FairMutex.cancel
  by_cases howner : m.owner = some x
  · rw [if_pos howner]
    exact involves_release_iff hm howner y
  · rw [if_neg howner]
    unfold Involves
    simp only [List.mem_filter, decide_eq_true_eq]
    constructor
    · rintro (hy | ⟨hmem, hne⟩)
      · exact ⟨Or.inl hy, fun h => howner (h ▸ hy)⟩
      · exact ⟨Or.inr hmem, hne⟩
    · rintro ⟨hy | hmem, hne⟩
      · exact Or.inl hy
      · exact Or.inr ⟨hmem, hne⟩

end FairMutex

end Async
