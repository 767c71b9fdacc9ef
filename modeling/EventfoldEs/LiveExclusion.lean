/-
What the mutex of a runner is for: whoever holds it finds the runner, and the two
files of its checkpoint, as it has left them.  So a save renames what is in memory,
and no checkpoint file goes back.
-/
import EventfoldEs.LiveDiscipline
import EventfoldEs.LiveFold
import EventfoldEs.Lib.Guarded

namespace EventfoldEs

open Async OrderedLog

variable {C : Crates} {π μ κ : Type} {G : Registry π μ}

namespace StoreState

/-- Where a restart goes on. -/
def persisted (s : StoreState G) (r : π ⊕ μ) : Nat :=
  ((s.disk r).getD (G.runner r).start).lastGlobalPosition

/-- No runner is behind its file. -/
def Covers (s : StoreState G) : Prop := ∀ r, s.persisted r ≤ s.cursor r

/-- A runner and its files are the same. -/
structure SameAt (r : π ⊕ μ) (s t : StoreState G) : Prop where
  memory : t.memory r = s.memory r
  tmp : t.tmp r = s.tmp r
  disk : t.disk r = s.disk r

theorem SameAt.refl (r : π ⊕ μ) (s : StoreState G) : s.SameAt r s := ⟨rfl, rfl, rfl⟩

theorem SameAt.trans {r : π ⊕ μ} {s t v : StoreState G} (hst : SameAt r s t)
    (htv : SameAt r t v) : SameAt r s v :=
  ⟨htv.memory.trans hst.memory, htv.tmp.trans hst.tmp, htv.disk.trans hst.disk⟩

theorem SameAt.cursor {r : π ⊕ μ} {s t : StoreState G} (hsame : SameAt r s t) :
    t.cursor r = s.cursor r := by
  rw [StoreState.cursor, StoreState.cursor, hsame.memory]

theorem SameAt.persisted {r : π ⊕ μ} {s t : StoreState G} (hsame : SameAt r s t) :
    t.persisted r = s.persisted r := by
  rw [StoreState.persisted, StoreState.persisted, hsame.disk]

theorem persisted_of_disk {s : StoreState G} {r : π ⊕ μ} {checkpoint}
    (hdisk : s.disk r = some checkpoint) :
    s.persisted r = checkpoint.lastGlobalPosition := by
  rw [persisted, hdisk, Option.getD_some]

/-- No file goes back or goes away. -/
structure Advances (s t : StoreState G) : Prop where
  persisted : ∀ r, s.persisted r ≤ t.persisted r
  kept : ∀ r, (s.disk r).isSome → (t.disk r).isSome
  covers : s.Covers → t.Covers

theorem Advances.refl (s : StoreState G) : s.Advances s :=
  ⟨fun _ => Nat.le_refl _, fun _ h => h, id⟩

theorem Advances.trans {s t v : StoreState G} (hst : s.Advances t) (htv : t.Advances v) :
    s.Advances v :=
  ⟨fun r => Nat.le_trans (hst.persisted r) (htv.persisted r),
    fun r h => htv.kept r (hst.kept r h), fun h => htv.covers (hst.covers h)⟩

/-- Where the files are the same and no cursor has gone back. -/
theorem advances_of_disk {s t : StoreState G} (hdisk : t.disk = s.disk)
    (hcursor : ∀ r, s.cursor r ≤ t.cursor r) : s.Advances t := by
  have hpersisted : ∀ r, t.persisted r = s.persisted r := by
    intro r
    rw [persisted, persisted, hdisk]
  refine ⟨fun r => Nat.le_of_eq (hpersisted r).symm, fun r h => hdisk ▸ h, fun h r => ?_⟩
  rw [hpersisted]
  exact Nat.le_trans (h r) (hcursor r)

end StoreState

/-- What the mutexes of the runners guard.  `I` is what is known of the store from
elsewhere. -/
def runnerGuards (I : StoreState G → Prop) : Guards (π ⊕ μ) (StoreState G) where
  same := StoreState.SameAt
  grows := StoreState.Advances
  known s := s.Covers ∧ I s
  same_refl := StoreState.SameAt.refl
  same_trans := StoreState.SameAt.trans
  grows_refl := StoreState.Advances.refl
  grows_trans := StoreState.Advances.trans

/-- The runner whose memory or files an operation changes. -/
def RunnerOp.touches? : RunnerOp π μ → Option (π ⊕ μ)
  | applyEvent p _ => some (.inl p)
  | reactEvent m _ => some (.inr m)
  | writeTmp r | rename r => some r
  | _ => none

variable [DecidableEq π] [DecidableEq μ]

variable (C) in
/-- How operations are answered. -/
def answers (op : RunnerOp π μ) (s : StoreState G) (r : op.Res G) (t : StoreState G) : Prop :=
  ∃ answer, op.serve C answer s = some (r, t)

/-- A temporary file that is renamed shows what is in memory. -/
def RunnerOp.Finds (op : RunnerOp π μ) (s : StoreState G) : Prop :=
  ∀ r, op = .rename r → s.tmp r = some (s.memory r)

variable (C) in
/-- The terms of a task that shows which runner it holds. -/
abbrev guardTerms (I : StoreState G → Prop) :
    Terms (List (Work μ)) (RunnerOp π μ) (RunnerOp.Res G) (StoreState G × Option (π ⊕ μ)) :=
  (runnerGuards I).terms (List (Work μ)) RunnerOp.lockUse RunnerOp.Finds (answers C)

variable {I : StoreState G → Prop}

/-- An operation changes the runner that it touches, and no other. -/
theorem sameAt_serve {op : RunnerOp π μ} {answer : RunnerAnswer} {s t : StoreState G}
    {r : op.Res G} (hserve : op.serve C answer s = some (r, t)) {j : π ⊕ μ}
    (hj : op.touches? ≠ some j) : s.SameAt j t := by
  have hne : ∀ {i : π ⊕ μ}, op.touches? = some i → j ≠ i := by
    rintro i hi rfl
    exact hj hi
  cases op with
  | applyEvent p recorded =>
      rw [(serve_takes rfl hserve).1]
      exact ⟨Function.update_of_ne (hne rfl) .., rfl, rfl⟩
  | reactEvent m recorded =>
      rw [(serve_takes rfl hserve).1]
      exact ⟨Function.update_of_ne (hne rfl) .., rfl, rfl⟩
  | writeTmp i =>
      obtain ⟨entry, rfl⟩ := serve_writeTmp hserve
      exact ⟨rfl, Function.update_of_ne (hne rfl) .., rfl⟩
  | rename i =>
      rcases serve_rename hserve with rfl | ⟨checkpoint, -, rfl⟩
      · exact .refl j _
      · exact ⟨rfl, Function.update_of_ne (hne rfl) .., Function.update_of_ne (hne rfl) ..⟩
  | sendPosition n =>
      rcases answer with _ | ⟨_ | _⟩ | _ | any <;> cases hserve
      cases any <;> exact ⟨rfl, rfl, rfl⟩
  | _ =>
      rcases answer with _ | ⟨_ | _⟩ | _ | _ <;> cases hserve <;> exact ⟨rfl, rfl, rfl⟩

/-- Only a rename changes a file. -/
theorem disk_serve {op : RunnerOp π μ} {answer : RunnerAnswer} {s t : StoreState G}
    {r : op.Res G} (hserve : op.serve C answer s = some (r, t))
    (hrename : ∀ j, op ≠ .rename j) : t.disk = s.disk := by
  cases op with
  | applyEvent p recorded =>
      rw [(serve_takes rfl hserve).1]
      rfl
  | reactEvent m recorded =>
      rw [(serve_takes rfl hserve).1]
      rfl
  | writeTmp i =>
      obtain ⟨entry, rfl⟩ := serve_writeTmp hserve
      rfl
  | rename i => exact absurd rfl (hrename i)
  | sendPosition n =>
      rcases answer with _ | ⟨_ | _⟩ | _ | any <;> cases hserve
      cases any <;> rfl
  | _ =>
      rcases answer with _ | ⟨_ | _⟩ | _ | _ <;> cases hserve <;> rfl

/-- A rename of what is in memory. -/
theorem advances_rename {answer : RunnerAnswer} {s t : StoreState G} {j : π ⊕ μ}
    {out : Except String Unit} (hserve : (RunnerOp.rename j).serve C answer s = some (out, t))
    (htmp : s.tmp j = some (s.memory j)) (hcovers : s.Covers) :
    s.Advances t ∧ (out = .ok () → t.disk j = some (t.memory j)) := by
  rcases answer with _ | ⟨_ | _⟩ | _ | _
  case result.error =>
    cases hserve
    exact ⟨.refl s, fun h => by cases h⟩
  case result.ok =>
    obtain ⟨checkpoint, hsome, hmapped⟩ := Option.map_eq_some_iff.mp hserve
    obtain rfl := Option.some.inj (htmp.symm.trans hsome)
    obtain ⟨-, ht⟩ := Prod.mk.inj hmapped
    have hmemory : t.memory = s.memory := by rw [← ht]
    have hself : t.disk j = some (s.memory j) := by
      rw [← ht]
      exact Function.update_self ..
    have hother : ∀ r, r ≠ j → t.disk r = s.disk r := by
      intro r hr
      rw [← ht]
      exact Function.update_of_ne hr ..
    have hat : ∀ r, s.persisted r ≤ t.persisted r ∧ t.persisted r ≤ s.cursor r ∧
        ((s.disk r).isSome → (t.disk r).isSome) := by
      intro r
      by_cases hr : r = j
      · subst hr
        rw [StoreState.persisted_of_disk hself]
        exact ⟨hcovers r, Nat.le_refl _, fun _ => by rw [hself]; rfl⟩
      · rw [StoreState.persisted, StoreState.persisted, hother r hr]
        exact ⟨Nat.le_refl _, hcovers r, id⟩
    refine ⟨⟨fun r => (hat r).1, fun r => (hat r).2.2, fun _ r => ?_⟩, fun _ => ?_⟩
    · rw [StoreState.cursor, hmemory]
      exact (hat r).2.1
    · rw [hself, hmemory]
  all_goals cases hserve

section Safe

variable {α β : Type} {Q : α → StoreState G × Option (π ⊕ μ) → Prop} {l : List (Work μ)}
  {op : RunnerOp π μ} {resume : op.Res G → RunnerFuture G α} {s : StoreState G}
  {held mid after : Option (π ⊕ μ)}

/-- An await whose operation leaves alone what is not held. -/
theorem safe_served (hserved : ∀ s₁ r t, (guardTerms C I).rely (s, held) (s₁, held) →
      answers C op s₁ r t →
        (op.Finds s₁ ∧ (∀ k, held ≠ some k → s₁.SameAt k t) ∧ s₁.Advances t) ∧
          (resume r).Safe (guardTerms C I) Q (t, op.lockUse.heldAfter held)) :
    Future.Safe (guardTerms C I) Q (.await l op resume) (s, held) := by
  refine ⟨trivial, fun now hrely r next hserves => ?_⟩
  obtain ⟨s₁, held₁⟩ := now
  obtain ⟨t, held₂⟩ := next
  obtain rfl : held₁ = held := hrely.1
  obtain rfl : held₂ = op.lockUse.heldAfter held₁ := hserves.1
  exact hserved s₁ r t hrely hserves.2

/-- An await that touches at most the runner that is held, and renames nothing. -/
theorem guarded_await (htouches : ∀ r, op.touches? = some r → held = some r)
    (hrename : ∀ r, op ≠ .rename r)
    (hrest : ∀ s₁ r t, (guardTerms C I).rely (s, held) (s₁, held) → answers C op s₁ r t →
      (resume r).Safe (guardTerms C I) Q (t, op.lockUse.heldAfter held)) :
    Future.Safe (guardTerms C I) Q (.await l op resume) (s, held) := by
  refine safe_served fun s₁ r t hrely hanswers => ?_
  obtain ⟨answer, hserve⟩ := hanswers
  exact ⟨⟨fun k hk => absurd hk (hrename k),
    fun k hk => sameAt_serve hserve fun htouch => hk (htouches k htouch),
    StoreState.advances_of_disk (disk_serve hserve hrename) (cursors_serve hserve)⟩,
    hrest s₁ r t hrely ⟨answer, hserve⟩⟩

variable (C I) in
/-- From any store the future keeps the terms, and ends holding `after`. -/
def Guarded (held after : Option (π ⊕ μ)) (fut : RunnerFuture G α) : Prop :=
  ∀ s, fut.Safe (guardTerms C I) (fun _ t => t.2 = after) (s, held)

theorem Guarded.ready (a : α) : Guarded C I held held (.ready a : RunnerFuture G α) :=
  fun _ => rfl

/-- An await that touches no runner. -/
theorem Guarded.await (hop : op.touches? = none)
    (hrest : ∀ r, Guarded C I (op.lockUse.heldAfter held) after (resume r)) :
    Guarded C I held after (.await l op resume) := by
  refine fun s => guarded_await (fun r hr => ?_) (fun r hr => ?_) fun _ r t _ _ => hrest r t
  · rw [hop] at hr
    cases hr
  · rw [hr] at hop
    cases hop

/-- An event for the runner that is held. -/
theorem Guarded.event {r : π ⊕ μ} {recorded : RecordedEvent}
    (htakes : op.takes? = some (r, recorded))
    (hrest : ∀ a, Guarded C I (some r) after (resume a)) :
    Guarded C I (some r) after (.await l op resume) := by
  have htouches : op.touches? = some r := by
    cases op <;> cases htakes <;> rfl
  have hkeeps : op.lockUse.heldAfter (some r) = some r := by
    cases op <;> cases htakes <;> rfl
  refine fun s => guarded_await (fun k hk => htouches.symm.trans hk) (fun k hk => ?_)
    fun _ a t _ _ => ?_
  · rw [hk] at htakes
    cases htakes
  · rw [hkeeps]
    exact hrest a t

theorem Guarded.bind {fut : RunnerFuture G α} {f : α → RunnerFuture G β}
    (hfut : Guarded C I held mid fut) (hf : ∀ a, Guarded C I mid after (f a)) :
    Guarded C I held after (fut.bind f) := by
  refine fun s => (hfut s).bind fun a next hnext => ?_
  obtain ⟨t, held₂⟩ := next
  obtain rfl : held₂ = mid := hnext
  exact hf a t

theorem Guarded.mapLocals {fut : RunnerFuture G α} {g : List (Work μ) → List (Work μ)}
    (hfut : Guarded C I held after fut) : Guarded C I held after (fut.mapLocals g) :=
  fun s => (hfut s).mapLocals fun _ _ _ => trivial

/-- A future that touches no runner. -/
theorem guarded_of_untouched {fut : RunnerFuture G α}
    (hlocks : fut.Disciplined RunnerOp.lockUse after held)
    (honly : fut.Only fun op => op.touches? = none) : Guarded C I held after fut := by
  induction fut generalizing held with
  | ready a => exact hlocks ▸ Guarded.ready a
  | await l op resume ih =>
      exact .await honly.1 fun r => ih r (hlocks.2 r) (honly.2 r)

/-- A save that has come to its end has written what is in memory. -/
theorem save_safe (r : π ⊕ μ) (s : StoreState G) :
    (save r).Safe (guardTerms C I) (fun out t => t.2 = some r ∧
      (out = .ok () → t.1.disk r = some (t.1.memory r))) (s, some r) := by
  refine guarded_await (fun k hk => hk) (fun k hk => by cases hk) fun s₁ out t _ hwrite => ?_
  obtain ⟨answer, hwrite⟩ := hwrite
  cases out with
  | error e => exact ⟨rfl, fun h => by cases h⟩
  | ok u =>
      -- the temporary file shows what is in memory, and nobody touches either
      have htmp : t.tmp r = some (t.memory r) := by
        rcases answer with _ | ⟨_ | _⟩ | _ | _ <;> cases hwrite
        exact Function.update_self ..
      refine safe_served fun t₁ out v hrely hrename => ?_
      obtain ⟨-, hsame, -, hcovers, -⟩ := hrely
      obtain ⟨answer, hserve⟩ := hrename
      have hat : t.SameAt r t₁ := hsame r rfl
      have hfinds : t₁.tmp r = some (t₁.memory r) := by rw [hat.tmp, htmp, hat.memory]
      obtain ⟨hadvances, hwritten⟩ := advances_rename hserve hfinds hcovers
      refine ⟨⟨fun k hk => ?_, fun k hk => sameAt_serve hserve hk, hadvances⟩, rfl, hwritten⟩
      cases hk
      exact hfinds

theorem save_guarded (r : π ⊕ μ) : Guarded C I (some r) (some r) (save r) :=
  fun s => (save_safe r s).weaken fun _ _ h => h.1

end Safe

section Functions

theorem processStream_guarded {held : Option (π ⊕ μ)}
    {onEvent : List (Work μ) → RecordedEvent → RunnerFuture G (List (Work μ))}
    (hevent : ∀ acc recorded, Guarded C I held held (onEvent acc recorded))
    (items : List Item) (acc : List (Work μ)) :
    Guarded C I held held (processStream C onEvent items acc) := by
  induction items generalizing acc with
  | nil => exact .await rfl fun _ => .ready _
  | cons item rest ih =>
      rcases item with status | recorded | _ | _
      · exact .await rfl fun _ => .ready _
      · exact .await rfl fun _ => (hevent acc recorded).bind fun acc => ih acc
      · exact .await rfl fun _ => .ready _
      · exact .await rfl fun _ => ih acc

theorem subscribeAndProcess_guarded {held : Option (π ⊕ μ)}
    {onEvent : List (Work μ) → RecordedEvent → RunnerFuture G (List (Work μ))}
    (hevent : ∀ acc recorded, Guarded C I held held (onEvent acc recorded)) (r : π ⊕ μ) :
    Guarded C I held held (subscribeAndProcess C onEvent r) := by
  refine .await rfl fun _ => .await rfl fun result => ?_
  cases result with
  | error status => exact .ready _
  | ok items => exact processStream_guarded hevent items []

/-- A pass of a projection that has come to its end has saved what it has read. -/
theorem projectionCatchUp_saves (p : π) (s : StoreState G) :
    (projectionCatchUp C p).Safe (guardTerms C I) (fun out t => t.2 = some (.inl p) ∧
      (out = .ok () → t.1.disk (.inl p) = some (t.1.memory (.inl p)))) (s, some (.inl p)) := by
  have hpass : Guarded C I (some (.inl p)) (some (.inl p)) (subscribeAndProcess C
      (fun acc recorded => .await acc (.applyEvent p recorded) fun _ => .ready acc)
      (.inl p)) :=
    subscribeAndProcess_guarded (fun acc recorded => .event rfl fun _ => .ready acc) _
  refine (hpass s).bind fun result next hnext => ?_
  obtain ⟨t, held⟩ := next
  obtain rfl : held = some (.inl p) := hnext
  cases result with
  | error e => exact ⟨rfl, fun h => by cases h⟩
  | ok works => exact save_safe (.inl p) t

theorem processManagerCatchUp_guarded (m : μ) :
    Guarded C I (some (.inr m)) (some (.inr m)) (processManagerCatchUp (G := G) C m) :=
  subscribeAndProcess_guarded (fun _ _ => .event rfl fun _ => .ready _) _

variable (I) in
/-- `state` is what the projection `p` showed when its file had come to be what it was in
memory, not before `base`. -/
def ReadSaved (base : Nat) (p : π) (state : (G.projection p).State) (t : StoreState G) :
    Prop :=
  ∃ s : StoreState G, I s ∧ (s.memory (.inl p)).state = state ∧
    base ≤ s.cursor (.inl p) ∧ s.cursor (.inl p) ≤ t.persisted (.inl p)

omit [DecidableEq π] [DecidableEq μ] in
theorem ReadSaved.advance {base : Nat} {p : π} {state : (G.projection p).State}
    {s t : StoreState G} (hread : ReadSaved I base p state s) (hadvances : s.Advances t) :
    ReadSaved I base p state t := by
  obtain ⟨v, hv, hstate, hbase, hcursor⟩ := hread
  exact ⟨v, hv, hstate, hbase, Nat.le_trans hcursor (hadvances.persisted _)⟩

/-- A pull read shows what it has saved. -/
theorem projection_reads (p : π) {base : Nat} {s : StoreState G}
    (hbase : base ≤ s.persisted (.inl p)) :
    (projection C p).Safe (guardTerms C I) (fun out t => t.2 = none ∧
      ∀ state, out = .ok state → ReadSaved I base p state t.1) (s, none) := by
  unfold projection
  split
  · refine guarded_await (fun k hk => by cases hk) (fun k hk => by cases hk)
      fun s₁ u t hrely hlock => ?_
    obtain ⟨answer, hlock⟩ := hlock
    have hbase₁ : base ≤ t.persisted (.inl p) := by
      rw [(sameAt_serve hlock (fun h => by cases h)).persisted]
      exact Nat.le_trans hbase (hrely.2.2.1.persisted _)
    have hpass := (projectionCatchUp_saves p t).frame (T := guardTerms C I)
      (F := fun t => base ≤ t.1.persisted (.inl p))
      (fun s t hF hrely => Nat.le_trans hF (hrely.2.2.1.persisted _))
      (fun _ _ s t hF hguarantee => Nat.le_trans hF (hguarantee.2.2.persisted _)) hbase₁
    refine hpass.bind fun result next hnext => ?_
    obtain ⟨v, held⟩ := next
    obtain ⟨⟨hheld, hsaved⟩, hbase₂⟩ := hnext
    obtain rfl : held = some (.inl p) := hheld
    cases result with
    | error e =>
        exact guarded_await (fun k hk => by cases hk) (fun k hk => by cases hk)
          fun _ _ _ _ _ => ⟨rfl, fun state h => by cases h⟩
    | ok u =>
        refine guarded_await (fun k hk => by cases hk) (fun k hk => by cases hk)
          fun v₁ state v₂ hrely₁ hstate => ?_
        -- nobody else has moved the projection or its file since the save
        obtain ⟨-, hsame, hadvances, -, hI⟩ := hrely₁
        have hat : v.SameAt (.inl p) v₁ := hsame (.inl p) rfl
        have hpersisted : v₁.persisted (.inl p) = v₁.cursor (.inl p) := by
          rw [hat.persisted, hat.cursor]
          exact StoreState.persisted_of_disk (hsaved rfl)
        have hread : ReadSaved I base p (v₁.memory (.inl p)).state v₁ :=
          ⟨v₁, hI, rfl, hpersisted ▸ Nat.le_trans hbase₂ (hadvances.persisted _),
            Nat.le_of_eq hpersisted.symm⟩
        obtain ⟨answer, hstate⟩ := hstate
        obtain ⟨rfl, rfl⟩ : (v₁.memory (.inl p)).state = state ∧ v₁ = v₂ := by
          rcases answer with _ | ⟨_ | _⟩ | _ | _ <;> cases hstate
          exact ⟨rfl, rfl⟩
        refine safe_served fun v₃ u v₄ hrely₂ hunlock => ?_
        obtain ⟨answer, hunlock⟩ := hunlock
        have hsteps := StoreState.advances_of_disk (disk_serve hunlock fun k hk => by cases hk)
          (cursors_serve hunlock)
        refine ⟨⟨fun k hk => (by cases hk),
          fun k _ => sameAt_serve hunlock (fun h => by cases h), hsteps⟩, rfl, ?_⟩
        intro state hok
        cases hok
        exact (hread.advance hrely₂.2.2.1).advance hsteps
  · exact ⟨rfl, fun state h => by cases h⟩

theorem guarded_of_projection_reads (p : π) : Guarded C I none none (projection C p) :=
  fun s => (projection_reads p (Nat.zero_le (s.persisted (.inl p)))).weaken fun _ _ h => h.1

theorem liveProjection_guarded (p : π) : Guarded C I none none (liveProjection C p) := by
  refine .await rfl fun isSome => ?_
  cases isSome with
  | false => exact guarded_of_projection_reads p
  | true =>
      simp only [if_true]
      split
      · exact .await rfl fun _ => .await rfl fun _ => .await rfl fun _ => .ready _
      · exact .ready _

theorem catchUpEach_guarded (ms : List μ) (allWork : List (Work μ)) :
    Guarded C I none none (catchUpEach (G := G) C ms allWork) := by
  induction ms generalizing allWork with
  | nil => exact .ready _
  | cons m rest ih =>
      refine .await rfl fun _ => (processManagerCatchUp_guarded m).mapLocals.bind
        fun result => ?_
      cases result with
      | error e => exact .await rfl fun _ => .ready _
      | ok envelopes => exact .await rfl fun _ => ih _

/-- Save, let go, and go on. -/
theorem guarded_of_save {α : Type} (r : π ⊕ μ)
    {rest : Except String Unit → RunnerFuture G α}
    (hrest : ∀ out, Guarded C I none none (rest out)) :
    Guarded C I none none (.await [] (.lock r) fun _ => (save r).bind fun out =>
      .await [] (.unlock r) fun _ => rest out) :=
  .await rfl fun _ => (save_guarded r).bind fun out => .await rfl fun _ => hrest out

theorem saveEach_guarded (ms : List μ) :
    Guarded C I none none (saveEach (G := G) ms) := by
  induction ms with
  | nil => exact .ready _
  | cons m rest ih =>
      refine guarded_of_save (.inr m) fun result => ?_
      cases result with
      | error e => exact .ready _
      | ok u => exact ih

theorem saveCheckpoints_guarded (rs : List (π ⊕ μ)) :
    Guarded C I none none (saveCheckpoints (G := G) rs) := by
  induction rs with
  | nil => exact .ready _
  | cons r rest ih => exact guarded_of_save r fun _ => ih

omit [DecidableEq π] [DecidableEq μ] in
theorem dispatchOne_untouched (work : Work μ) (rest : List (Work μ)) :
    (dispatchOne (G := G) work rest).Only fun op => op.touches? = none := by
  unfold dispatchOne
  split
  · refine ⟨rfl, fun out => ?_⟩
    cases out with
    | ok u => trivial
    | error e => exact ⟨rfl, fun _ => trivial⟩
  · exact ⟨rfl, fun _ => trivial⟩

theorem dispatchOne_guarded (work : Work μ) (rest : List (Work μ)) :
    Guarded C I none none (dispatchOne (G := G) work rest) :=
  guarded_of_untouched (locks_of_plain (dispatchOne_plain work rest))
    (dispatchOne_untouched work rest)

theorem dispatchEach_guarded (works : List (Work μ)) (report : ProcessManagerReport) :
    Guarded C I none none (dispatchEach (G := G) works report) := by
  induction works generalizing report with
  | nil => exact .ready _
  | cons work rest ih =>
      refine (dispatchOne_guarded work rest).bind fun disposal => ?_
      rcases disposal with _ | ⟨_ | _⟩
      · exact ih _
      · exact .ready _
      · exact ih _

theorem dispatchLive_guarded (works : List (Work μ)) :
    Guarded C I none none (dispatchLive (G := G) works) := by
  induction works with
  | nil => exact .ready _
  | cons work rest ih => exact (dispatchOne_guarded work rest).bind fun _ => ih

theorem runProcessManagers_guarded :
    Guarded C I none none (runProcessManagers (G := G) C) := by
  refine (catchUpEach_guarded _ []).bind fun collected => ?_
  cases collected with
  | error e => exact .ready _
  | ok allWork =>
      refine (dispatchEach_guarded allWork ⟨0, 0⟩).bind fun result => ?_
      cases result with
      | error e => exact .ready _
      | ok report =>
          refine (saveEach_guarded G.processManagers).bind fun saved => ?_
          cases saved <;> exact .ready _

theorem minPosition_guarded (rs : List (π ⊕ μ)) (minPos : Nat) :
    Guarded C I none none (minPosition (G := G) rs minPos) := by
  induction rs generalizing minPos with
  | nil => exact .ready _
  | cons r rest ih =>
      exact .await rfl fun _ => .await rfl fun _ => .await rfl fun _ => ih _

theorem connect_guarded : Guarded C I none none (connect (G := G)) :=
  ((minPosition_guarded _ _).bind fun _ => .ready _).bind
    fun _ => .await rfl fun _ => .ready _

theorem fanOutProjections_guarded (recorded : RecordedEvent) (ps : List π) :
    Guarded C I none none (fanOutProjections (G := G) recorded ps) := by
  induction ps with
  | nil => exact .ready _
  | cons p rest ih =>
      exact .await rfl fun _ => .event rfl fun _ => .await rfl fun _ => ih

theorem fanOutProcessManagers_guarded (recorded : RecordedEvent) (ms : List μ)
    (all : List (Work μ)) :
    Guarded C I none none (fanOutProcessManagers (G := G) recorded ms all) := by
  induction ms generalizing all with
  | nil => exact .ready _
  | cons m rest ih =>
      exact .await rfl fun _ => .event rfl fun _ => .await rfl fun _ => ih _

theorem processEvent_guarded (recorded : RecordedEvent) :
    Guarded C I none none (processEvent (G := G) recorded) := by
  refine (fanOutProjections_guarded recorded _).bind fun _ => ?_
  refine (fanOutProcessManagers_guarded recorded _ []).bind fun all => ?_
  exact (dispatchLive_guarded all).bind fun _ => .await rfl fun _ => .ready _

theorem processStreamWithDispatch_guarded (items : List Item) :
    Guarded C I none none (processStreamWithDispatch (G := G) C items) := by
  induction items with
  | nil => exact .await rfl fun _ => .ready _
  | cons item rest ih =>
      rcases item with status | recorded | _ | _
      · exact .await rfl fun _ => .ready _
      · exact .await rfl fun _ => (processEvent_guarded recorded).bind fun _ => ih
      · exact .await rfl fun _ => .await rfl fun _ => ih
      · exact .await rfl fun _ => ih

/-- Every task that is ever started keeps the terms. -/
theorem starts_guarded {w w' : LiveWorld G κ} {x : Waiter κ} {task : RunnerTask G}
    (hstarts : w.Starts C w' x task) : Guarded C I none none task := by
  cases hstarts with
  | saving _ => exact (saveCheckpoints_guarded _).bind fun _ => .ready _
  | connecting _ => exact connect_guarded.bind fun _ => .ready _
  | streaming _ => exact (processStreamWithDispatch_guarded _).bind fun _ => .ready _
  | calling k c =>
      cases c with
      | projection p => exact (guarded_of_projection_reads p).bind fun _ => .ready _
      | liveProjection p => exact (liveProjection_guarded p).bind fun _ => .ready _
      | runProcessManagers =>
          refine runProcessManagers_guarded.bind fun result => ?_
          rcases result with ⟨e, dropped⟩ | report <;> exact .ready _

end Functions

namespace LiveWorld

variable [DecidableEq κ] {cfg : LiveConfig}

variable (C I) in
/-- What every run keeps: the tasks are on the terms of the mutexes, and no runner is
behind its file.  `Q` is what tasks end in. -/
structure Exclusive
    (Q : Waiter κ → TaskResult G × List (Work μ) → StoreState G × Option (π ⊕ μ) → Prop)
    (w : LiveWorld G κ) : Prop where
  coherent : w.Coherent
  covers : w.store.Covers
  together : (runnerGuards I).Together RunnerOp.lockUse RunnerOp.Finds (answers C) Q w.mutexes
    w.tasks w.store

variable
  {Q : Waiter κ → TaskResult G × List (Work μ) → StoreState G × Option (π ⊕ μ) → Prop}

omit [DecidableEq π] [DecidableEq μ] [DecidableEq κ] in
theorem sameAt_of_sameRunners {s t : StoreState G} (hsame : s.SameRunners t) (r : π ⊕ μ) :
    s.SameAt r t :=
  ⟨congrFun hsame.memory r, congrFun hsame.tmp r, congrFun hsame.disk r⟩

omit [DecidableEq π] [DecidableEq μ] [DecidableEq κ] in
/-- A crash goes back to the files. -/
theorem advances_crashed (w : LiveWorld G κ) :
    w.store.Advances w.crashed.store ∧ w.crashed.store.Covers :=
  ⟨⟨fun _ => Nat.le_refl _, fun _ h => h, fun _ _ => Nat.le_refl _⟩, fun _ => Nat.le_refl _⟩

theorem exclusive_step {w w' : LiveWorld G κ} (hw : w.Exclusive C I Q)
    (hstable : (runnerGuards I).Stable RunnerOp.lockUse RunnerOp.Finds (answers C)
      (List (Work μ)) Q)
    {a : LiveAction π κ} (hI : I w.store) (hI' : I w'.store)
    (hstarts : ∀ x task, w.tasks x = none → w'.tasks x = some task → Starts C w w' x task →
      task.Safe (guardTerms C I) (Q x) (w'.store, none))
    (hstep : w.step C cfg a = some w') :
    w'.Exclusive C I Q ∧ w.store.Advances w'.store := by
  have hco := coherent_step hw.coherent hstep
  cases stepped_of_step hw.coherent hstep with
  | @polled x answer _ hpolled =>
      cases hpolled with
      | pending htask _ hpending hnext =>
          subst hnext
          exact ⟨⟨hco, hw.covers, hw.together.pending htask hpending⟩, .refl _⟩
      | served htask _ hgranted hserve hnext =>
          subst hnext
          obtain ⟨-, hadvances, -, htogether⟩ := hw.together.served hstable htask hgranted
            ⟨answer, hserve⟩ ⟨hw.covers, hI⟩ fun hadvances => ⟨hadvances.covers hw.covers, hI'⟩
          exact ⟨⟨hco, hadvances.covers hw.covers, htogether⟩, hadvances⟩
  | shifted hshifts =>
      have hsame := sameAt_of_sameRunners hshifts.store
      have hadvances : w.store.Advances w'.store :=
        StoreState.advances_of_disk hshifts.store.disk fun r =>
          Nat.le_of_eq (hsame r).cursor.symm
      have hcovers := hadvances.covers hw.covers
      refine ⟨⟨hco, hcovers, hw.together.moved hstable hsame hadvances ⟨hcovers, hI'⟩
        hshifts.mutexes fun x => ?_⟩, hadvances⟩
      cases hshifts.slot x with
      | same htasks => exact .same htasks
      | ended hready hgone => exact .ended hready hgone
      | started hnone htask hstarted =>
          exact .started hnone htask (starts_locks hstarted)
            (hstarts x _ hnone htask hstarted)
      | dropped hgone hmutexes => exact .dropped hgone hmutexes
  | crashed _ hcrashed =>
      subst hcrashed
      obtain ⟨hadvances, hcovers⟩ := advances_crashed w
      exact ⟨⟨hco, hcovers, Guards.together_free (fun _ => rfl) fun _ => rfl⟩, hadvances⟩

/-- A task that may end in anything. -/
abbrev Anything : Waiter κ → TaskResult G × List (Work μ) → StoreState G × Option (π ⊕ μ) →
    Prop :=
  fun _ _ _ => True

theorem guarded_safe {task : RunnerTask G} (htask : Guarded C I none none task)
    {P : TaskResult G × List (Work μ) → StoreState G × Option (π ⊕ μ) → Prop}
    (hP : ∀ out t, P out t) (s : StoreState G) : task.Safe (guardTerms C I) P (s, none) :=
  (htask s).weaken fun out t _ => hP out t

omit [DecidableEq κ] in
theorem Idle.exclusive {w : LiveWorld G κ} (hidle : w.Idle) (hcovers : w.store.Covers) :
    w.Exclusive C I Q :=
  ⟨hidle.coherent, hcovers, Guards.together_free hidle.mutexes hidle.tasks⟩

/-- Along a run on which `I` is known, the mutexes keep what they guard, and no file
goes back. -/
theorem exclusive_of_reaches {ok : LiveWorld G κ → LiveAction π κ → Prop}
    {w₀ w : LiveWorld G κ} (hw₀ : w₀.Exclusive C I Anything)
    (hI : ∀ v, Reaches (step C cfg) ok w₀ v → I v.store)
    (hreach : Reaches (step C cfg) ok w₀ w) :
    w.Exclusive C I Anything ∧ w₀.store.Advances w.store := by
  induction hreach with
  | start => exact ⟨hw₀, .refl _⟩
  | @next v w a hv hok hstep ih =>
      obtain ⟨hexclusive, hadvances⟩ := ih
      obtain ⟨hnext, hstepped⟩ := exclusive_step hexclusive (fun _ _ _ _ _ _ => trivial)
        (hI v hv) (hI w (.next hv hok hstep))
        (fun x task _ _ hstarts => guarded_safe (starts_guarded hstarts) (fun _ _ => trivial) _)
        hstep
      exact ⟨hnext, hadvances.trans hstepped⟩

/-- A temporary file that is about to be renamed is what is in memory. -/
theorem Exclusive.finds_rename {w : LiveWorld G κ} (hw : w.Exclusive C (fun _ => True) Anything)
    {x : Waiter κ} {r : π ⊕ μ} (hop : w.op? x = some (.rename r)) :
    w.store.tmp r = some (w.store.memory r) := by
  unfold op? at hop
  split at hop
  · rename_i l op resume htask
    cases hop
    -- an answer is always possible, so that the task tells what it asks for
    obtain ⟨hfinds, -⟩ := hw.together.served (r := .error "") (t := w.store)
      (fun _ _ _ _ _ _ => trivial) htask rfl ⟨.result (.error ""), rfl⟩
      ⟨hw.covers, trivial⟩ fun _ => ⟨hw.covers, trivial⟩
    exact hfinds r rfl
  · cases hop

/-- In every run, whatever interleaving, failing saves, cancelled calls and crashes: no
checkpoint file ever goes back or away, no runner in memory is behind its file, and a
temporary file that is about to be renamed is exactly what is in memory. -/
theorem checkpoint_files_never_go_back {w₀ w₁ w₂ : LiveWorld G κ} (hidle : w₀.Idle)
    (hcovers : w₀.store.Covers) (hreach₁ : Reaches (step C cfg) (fun _ _ => True) w₀ w₁)
    (hreach₂ : Reaches (step C cfg) (fun _ _ => True) w₁ w₂) (r : π ⊕ μ) :
    w₁.store.persisted r ≤ w₂.store.persisted r ∧
      ((w₁.store.disk r).isSome → (w₂.store.disk r).isSome) ∧
      w₂.store.persisted r ≤ w₂.store.cursor r ∧
      ∀ x, w₂.op? x = some (.rename r) → w₂.store.tmp r = some (w₂.store.memory r) := by
  obtain ⟨hexclusive₁, -⟩ := exclusive_of_reaches (I := fun _ => True) (hidle.exclusive hcovers)
    (fun _ _ => trivial) hreach₁
  obtain ⟨hexclusive, hadvances⟩ := exclusive_of_reaches hexclusive₁ (fun _ _ => trivial) hreach₂
  exact ⟨hadvances.persisted r, hadvances.kept r, hexclusive.covers r,
    fun _ hop => hexclusive.finds_rename hop⟩

end LiveWorld

namespace LiveExclusionWitness

open LiveWorld LiveWitness

theorem opened_covers (G : Registry Unit Manager) : (opened G).store.Covers :=
  fun _ => Nat.le_refl _

/-- A projection has been saved, and the process crashes. -/
theorem checkpoint_files_never_go_back_projecting :
    ∃ w₁ w₂, runActions (step crates delays) (opened (shop [()] [])) projecting.dropLast =
        some w₁ ∧ runActions (step crates delays) w₁ [.crash] = some w₂ ∧
      w₁.store.persisted (.inl ()) ≤ w₂.store.persisted (.inl ()) ∧
      w₂.store.persisted (.inl ()) ≤ w₂.store.cursor (.inl ()) := by
  obtain ⟨w₁, w₂, hrun₁, hrun₂⟩ : ∃ w₁ w₂, runActions (step crates delays)
      (opened (shop [()] [])) projecting.dropLast = some w₁ ∧
      runActions (step crates delays) w₁ [.crash] = some w₂ := ⟨_, _, rfl, rfl⟩
  obtain ⟨hpersisted, -, hcovers, -⟩ := checkpoint_files_never_go_back (opened_idle _)
    (opened_covers _) (.of_runActions _ hrun₁) (.of_runActions _ hrun₂) (.inl ())
  exact ⟨w₁, w₂, hrun₁, hrun₂, hpersisted, hcovers⟩

end LiveExclusionWitness

end EventfoldEs
