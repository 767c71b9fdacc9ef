/-
How many actors of one instance run at a time, and which of them the cache and the
handles returned by `get` mean.
-/
import EventfoldEs.Handles
import EventfoldEs.ActorRuns

namespace EventfoldEs

open Async

variable {C : Crates} {A : Aggregate} {instanceId : String}

/-- Between a failed check of the cache and the insert of the new handle; with the actor
that has been spawned by then. -/
def User.respawning : User A → Option (Option Nat)
  | .evicting _ | .loading _ | .spawning _ _ => some none
  | .inserting _ n => some (some n)
  | _ => none

namespace Instance

/-- No `get` goes on to spawn an actor while another one is about to. -/
def SpawnsAlone (w : Instance A) : InstanceAction A → Prop
  | .get _ _ => w.cachedAlive = none → ∀ v, (w.users v).respawning = none
  | _ => True

/-- A running actor is in the cache, or about to be inserted by the one user that has
spawned it; while that user is under way no other actor runs. -/
structure CacheSound (w : Instance A) : Prop where
  alone : ∀ u v x y, (w.users u).respawning = some x → (w.users v).respawning = some y →
    u = v
  sole : ∀ u x, (w.users u).respawning = some x → ∀ n, (w.actors n).isAlive = true →
    x = some n
  cached : ∀ n, (w.actors n).isAlive = true →
    w.cache = some n ∨ ∃ u, (w.users u).respawning = some (some n)

/-- What a step does to the handles: one that `get` returns is a handle of the running
actor, and the cached handle of a running actor stays. -/
structure HandlesKept (w w' : Instance A) : Prop where
  returned : ∀ u errand n, w.users u ≠ .holding errand n → w'.users u = .holding errand n →
    ∀ m, (w.actors m).isAlive = true → m = n
  kept : ∀ n, w.cache = some n → (w.actors n).isAlive = true →
    (w'.actors n).isAlive = true → w'.cache = some n

theorem Unused.cacheSound {w : Instance A} (hunused : w.Unused) : w.CacheSound where
  alone u v x y hu := by
    rw [hunused.idle u] at hu
    cases hu
  sole u x hu := by
    rw [hunused.idle u] at hu
    cases hu
  cached n hn := by
    rw [hunused.unborn n] at hn
    cases hn

/-- At most one actor runs. -/
theorem CacheSound.running_unique {w : Instance A} (hw : w.CacheSound) {m n : Nat}
    (hm : (w.actors m).isAlive = true) (hn : (w.actors n).isAlive = true) : m = n := by
  rcases hw.cached m hm with hcm | ⟨u, hu⟩
  · rcases hw.cached n hn with hcn | ⟨v, hv⟩
    · exact Option.some.inj (hcm.symm.trans hcn)
    · exact (Option.some.inj (hw.sole v _ hv m hm)).symm
  · exact Option.some.inj (hw.sole u _ hu n hn)

theorem cachedAlive_eq_some {w : Instance A} {n : Nat} (hcached : w.cachedAlive = some n) :
    w.cache = some n ∧ (w.actors n).isAlive = true := by
  simpa [cachedAlive, Option.filter_eq_some_iff] using hcached

theorem CacheSound.nobody_alive {w : Instance A} (hw : w.CacheSound)
    (hcached : w.cachedAlive = none) (hnobody : ∀ v, (w.users v).respawning = none)
    (n : Nat) : (w.actors n).isAlive = false := by
  rw [Bool.eq_false_iff]
  intro hn
  rcases hw.cached n hn with hcache | ⟨u, hu⟩
  · simp [cachedAlive, hcache, hn] at hcached
  · rw [hnobody u] at hu
    cases hu

/-- A step that starts no actor and leaves every `get` where it is, and the cache unless
no actor runs. -/
theorem CacheSound.still {w w' : Instance A} (hw : w.CacheSound)
    (hcache : ∀ n, (w'.actors n).isAlive = true → w'.cache = w.cache)
    (hrespawning : ∀ u, (w'.users u).respawning = (w.users u).respawning)
    (halive : ∀ n, (w'.actors n).isAlive = true → (w.actors n).isAlive = true) :
    w'.CacheSound where
  alone u v x y hu hv := hw.alone u v x y (hrespawning u ▸ hu) (hrespawning v ▸ hv)
  sole u x hu n hn := hw.sole u x (hrespawning u ▸ hu) n (halive n hn)
  cached n hn := by
    rw [hcache n hn]
    rcases hw.cached n (halive n hn) with hcached | ⟨u, hu⟩
    · exact Or.inl hcached
    · exact Or.inr ⟨u, (hrespawning u).trans hu⟩

/-- What a step that moves only one user does to its `get`. -/
theorem Passes.respawning {w : Instance A} {a : InstanceAction A} {u : Nat} {user : User A}
    (hpasses : Passes C instanceId w a u user) :
    user.respawning = (w.users u).respawning ∨
      user.respawning = none ∧ (w.users u).respawning = some none ∨
      user.respawning = some none ∧ (∃ errand, a = .get u errand) ∧
        w.cachedAlive = none := by
  cases hpasses with
  | hit huser hcached => exact Or.inl (by rw [huser]; rfl)
  | miss huser hcached => exact Or.inr (Or.inr ⟨rfl, ⟨_, rfl⟩, hcached⟩)
  | loaded huser => exact Or.inl (by rw [huser]; rfl)
  | unloadable huser => exact Or.inr (Or.inl ⟨rfl, by rw [huser]; rfl⟩)
  | readServed huser => exact Or.inl (by rw [huser]; rfl)
  | unspawnable huser => exact Or.inr (Or.inl ⟨rfl, by rw [huser]; rfl⟩)
  | called huser hspawned => exact Or.inl (by rw [huser]; rfl)
  | sentOff huser => exact Or.inl (by rw [huser]; rfl)
  | actorGone huser hgone => exact Or.inl (by rw [huser]; rfl)

theorem CacheSound.passed {w : Instance A} (hw : w.CacheSound) {a : InstanceAction A}
    (halone : w.SpawnsAlone a) {u : Nat} {user : User A}
    (hpasses : Passes C instanceId w a u user) : (w.setUser u user).CacheSound := by
  rcases hpasses.respawning with hsame | ⟨hleft, hbefore⟩ | ⟨hjoined, ⟨errand, rfl⟩, hnone⟩
  · refine hw.still (fun _ _ => rfl) (fun v => ?_) fun n hn => hn
    by_cases hv : v = u
    · subst hv
      rw [setUser_users_self, hsame]
    · rw [setUser_users_ne w hv]
  · have hothers : ∀ v x, ((w.setUser u user).users v).respawning = some x →
        v ≠ u ∧ (w.users v).respawning = some x := by
      intro v x hv
      by_cases heq : v = u
      · subst heq
        rw [setUser_users_self, hleft] at hv
        cases hv
      · exact ⟨heq, by rwa [setUser_users_ne w heq] at hv⟩
    refine ⟨fun v₁ v₂ x y h₁ h₂ => ?_, fun v x hv n hn => ?_, fun n hn => ?_⟩
    · exact hw.alone v₁ v₂ x y (hothers v₁ x h₁).2 (hothers v₂ y h₂).2
    · exact hw.sole v x (hothers v x hv).2 n hn
    · -- no actor can run while `u` is about to spawn one
      cases hw.sole u none hbefore n hn
  · have hnobody := halone hnone
    have hdead := hw.nobody_alive hnone hnobody
    have honly : ∀ v x, ((w.setUser u user).users v).respawning = some x → v = u := by
      intro v x hv
      by_contra hne
      rw [setUser_users_ne w hne, hnobody v] at hv
      cases hv
    refine ⟨fun v₁ v₂ x y h₁ h₂ => ?_, fun v x hv n hn => ?_, fun n hn => ?_⟩
    · exact (honly v₁ x h₁).trans (honly v₂ y h₂).symm
    · exact absurd hn (by simp [hdead n])
    · exact absurd hn (by simp [hdead n])

theorem hangUp_respawning (user : User A) : user.hangUp.respawning = user.respawning := by
  cases user <;> rfl

theorem accept_respawning (user : User A) (reply : Reply A) :
    (user.accept reply).respawning = user.respawning := by
  cases user <;> rfl

theorem drop_respawning (w : Instance A) (dropped : List Nat) (u : Nat) :
    ((w.drop dropped).users u).respawning = (w.users u).respawning := by
  rw [drop_users]
  split
  · exact hangUp_respawning _
  · rfl

/-- An actor whose place is taken by a task that runs only if it did. -/
theorem alive_of_setActor {w : Instance A} {n : Nat} {a : SpawnedActor A}
    (ha : a.isAlive = true → (w.actors n).isAlive = true) (m : Nat)
    (hm : ((w.setActor n a).actors m).isAlive = true) : (w.actors m).isAlive = true := by
  by_cases heq : m = n
  · subst heq
    rw [setActor_actors_self] at hm
    exact ha hm
  · rwa [setActor_actors_ne w heq] at hm

/-- A step of one actor alone. -/
theorem CacheSound.acted {w w' : Instance A} (hw : w.CacheSound) {n : Nat}
    {a : SpawnedActor A} (hcache : w'.cache = w.cache)
    (hactors : w'.actors = (w.setActor n a).actors)
    (hrespawning : ∀ u, (w'.users u).respawning = (w.users u).respawning)
    (halive : a.isAlive = true → (w.actors n).isAlive = true) : w'.CacheSound := by
  refine hw.still (fun _ _ => hcache) hrespawning fun m hm => ?_
  rw [hactors] at hm
  exact alive_of_setActor halive m hm

theorem setUser_respawning {w : Instance A} {u : Nat} {user : User A}
    (hsame : user.respawning = (w.users u).respawning) (v : Nat) :
    ((w.setUser u user).users v).respawning = (w.users v).respawning := by
  by_cases heq : v = u
  · subst heq
    rw [setUser_users_self, hsame]
  · rw [setUser_users_ne w heq]

/-- A new actor, spawned by a user while no other actor runs. -/
theorem CacheSound.spawned {w w' : Instance A} (hw : w.CacheSound) {u : Nat}
    {errand : Option (ActorMessage A)} {l : ActorLocals A}
    (hbefore : (w.users u).respawning = some none)
    (hactors : w'.actors = (w.setActor w.spawned ⟨.receiving l, []⟩).actors)
    (husers : w'.users = (w.setUser u (.inserting errand w.spawned)).users) :
    w'.CacheSound := by
  have honly : ∀ v x, (w'.users v).respawning = some x → v = u := by
    intro v x hv
    by_contra hne
    rw [husers, setUser_users_ne w hne] at hv
    exact hne (hw.alone v u x none hv hbefore)
  have hself : (w'.users u).respawning = some (some w.spawned) := by
    rw [husers, setUser_users_self]
    rfl
  have hnew : ∀ n, (w'.actors n).isAlive = true → n = w.spawned := by
    intro n hn
    by_contra hne
    rw [hactors, setActor_actors_ne w hne] at hn
    cases hw.sole u none hbefore n hn
  refine ⟨fun v₁ v₂ x y h₁ h₂ => ?_, fun v x hv n hn => ?_, fun n hn => ?_⟩
  · exact (honly v₁ x h₁).trans (honly v₂ y h₂).symm
  · obtain rfl := honly v x hv
    rw [hnew n hn]
    exact Option.some.inj (hv.symm.trans hself)
  · rw [hnew n hn]
    exact Or.inr ⟨u, hself⟩

/-- The new handle is inserted: its actor is the only one that may run. -/
theorem CacheSound.inserted {w w' : Instance A} (hw : w.CacheSound) {u n : Nat}
    {errand : Option (ActorMessage A)}
    (hbefore : (w.users u).respawning = some (some n)) (hactors : w'.actors = w.actors)
    (husers : w'.users = (w.setUser u (.holding errand n)).users)
    (hcache : w'.cache = some n) : w'.CacheSound := by
  have hnobody : ∀ v, (w'.users v).respawning = none := by
    intro v
    rw [husers]
    by_cases heq : v = u
    · subst heq
      rw [setUser_users_self]
      rfl
    · rw [setUser_users_ne w heq, Option.eq_none_iff_forall_ne_some]
      exact fun x hx => heq (hw.alone v u x _ hx hbefore)
  refine ⟨fun v₁ v₂ x y h₁ h₂ => ?_, fun v x hv m hm => ?_, fun m hm => ?_⟩
  · rw [hnobody v₁] at h₁
    cases h₁
  · rw [hnobody v] at hv
    cases hv
  · rw [hactors] at hm
    exact Or.inl (hcache.trans (hw.sole u _ hbefore m hm))

/-- Every step that keeps the spawns apart keeps the cache sound. -/
theorem CacheSound.step {w w' : Instance A} (hw : w.CacheSound) {a : InstanceAction A}
    (halone : w.SpawnsAlone a) (hstep : Stepped C instanceId w a w') : w'.CacheSound := by
  cases hstep with
  | passed hpasses => exact hw.passed halone hpasses
  | @evicted u errand huser =>
      have hbefore : (w.users u).respawning = some none := by rw [huser]; rfl
      refine hw.still (fun n hn => ?_) (setUser_respawning hbefore.symm) fun n hn => hn
      cases hw.sole u none hbefore n hn
  | spawned huser => exact hw.spawned (by rw [huser]; rfl) rfl rfl
  | inserted huser => exact hw.inserted (by rw [huser]; rfl) rfl rfl rfl
  | sent huser halive hroom =>
      exact hw.acted rfl rfl (setUser_respawning (by rw [huser]; rfl)) fun _ => halive
  | shutdownSent halive hroom => exact hw.acted rfl rfl (fun _ => rfl) fun _ => halive
  | received hactor => exact hw.acted rfl rfl (fun _ => rfl) fun _ => by rw [hactor]; rfl
  | shutdownReceived hactor =>
      exact hw.acted rfl rfl (fun _ => rfl) fun _ => by rw [hactor]; rfl
  | served hactor => exact hw.acted rfl rfl (fun _ => rfl) fun _ => by rw [hactor]; rfl
  | replied hactor =>
      exact hw.acted rfl rfl (setUser_respawning (accept_respawning _ _)) fun _ => by
        rw [hactor]; rfl
  | unwound hactor =>
      refine hw.acted rfl rfl (fun u => ?_) fun hgone => by cases hgone
      rw [drop_respawning, closeChannel, drop_respawning]
      rfl
  | quit hactor => exact hw.acted rfl rfl (fun _ => rfl) fun _ => by rw [hactor]; rfl
  | saved hactor => exact hw.acted rfl rfl (fun _ => rfl) fun _ => by rw [hactor]; rfl
  | closed hactor =>
      refine hw.acted rfl rfl (fun u => ?_) fun hgone => by cases hgone
      rw [closeChannel, drop_respawning]
      rfl

/-- A handle is returned from the cache, or by the user that has spawned its actor. -/
theorem Stepped.returned {w w' : Instance A} {a : InstanceAction A}
    (hstep : Stepped C instanceId w a w') {u n : Nat} {errand : Option (ActorMessage A)}
    (hnew : w.users u ≠ .holding errand n) (hholding : w'.users u = .holding errand n) :
    w.cachedAlive = some n ∨ (w.users u).respawning = some (some n) := by
  have huserStep := hstep.user u
  generalize w'.users u = user at huserStep hholding
  cases huserStep with
  | stays hother => exact absurd hholding hnew
  | passes hpasses =>
      subst hholding
      cases hpasses with
      | hit huser hcached => exact Or.inl hcached
  | evicted huser => cases hholding
  | spawned huser => cases hholding
  | inserted huser =>
      cases hholding
      exact Or.inr (by rw [huser]; rfl)
  | sent huser => cases hholding
  | replied hactor =>
      cases huser : w.users u <;> rw [huser] at hholding hnew <;> cases hholding
      exact absurd rfl hnew
  | hungUp hother =>
      cases huser : w.users u <;> rw [huser] at hholding hnew <;> cases hholding
      exact absurd rfl hnew

/-- The handles that a step of a sound cache returns and keeps. -/
theorem CacheSound.handlesKept {w w' : Instance A} (hw : w.CacheSound)
    {a : InstanceAction A} (hstep : Stepped C instanceId w a w') : w.HandlesKept w' where
  returned u errand n hnew hholding m hm := by
    rcases hstep.returned hnew hholding with hcached | hspawned
    · exact hw.running_unique hm (cachedAlive_eq_some hcached).2
    · exact (Option.some.inj (hw.sole u _ hspawned m hm)).symm
  kept n hcache hn hn' := by
    cases hstep with
    | evicted huser => cases hw.sole _ none (by rw [huser]; rfl) n hn
    | inserted huser =>
        exact (hw.sole _ (some _) (by rw [huser]; rfl) n hn)
    | _ => exact hcache

/-- One actor per instance, as long as no two calls of `get` are about to spawn one. -/
theorem one_actor_per_instance {κ : Type} [DecidableEq κ] {A : κ → Aggregate}
    {instanceId : κ → String} {w₀ w : ∀ k, Instance (A k)} (k : κ)
    (hunused : (w₀ k).Unused)
    (hreach : Reaches (familyStep fun k => Instance.step C (instanceId k))
      (fun w a => ∀ b, a = ⟨k, b⟩ → (w k).SpawnsAlone b) w₀ w) :
    (∀ m n, ((w k).actors m).isAlive = true → ((w k).actors n).isAlive = true → m = n) ∧
      ∀ b w', (w k).step C (instanceId k) b = some w' → (w k).HandlesKept w' := by
  have hrun : Reaches (Instance.step C (instanceId k)) SpawnsAlone (w₀ k) (w k) :=
    hreach.component fun w b hok => hok b rfl
  have hw : (w k).CacheSound :=
    hrun.invariant hunused.cacheSound fun w b w' hw hok hstep =>
      hw.step hok (stepped_of_step hstep)
  exact ⟨fun m n => hw.running_unique, fun b w' hstep =>
    hw.handlesKept (stepped_of_step hstep)⟩

end Instance

namespace ActorCacheWitness

open EventCodecWitness ActorRunsWitness

/-- Nobody has asked for the door yet. -/
def unusedDoor : Unit → Instance door := fun _ => {
  cache := none
  spawned := 0
  actors := fun _ => ⟨.unborn, []⟩
  users := fun _ => .idle
  disk := none
  received := []
  appends := [] }

theorem unusedDoor_unused (k : Unit) : (unusedDoor k).Unused :=
  ⟨rfl, fun _ => rfl, fun _ => rfl, rfl, rfl, rfl⟩

/-- An event store whose streams are empty, and that accepts every append. -/
def emptyStoreAnswers : (op : StoreOp) → Option op.Res
  | .append _ _ _ => some (.ok ⟨0, 0, 0, 0⟩)
  | .readStream _ _ _ => some (.ok [])
  | .panic => none

def doorStep := familyStep fun k : Unit => Instance.step (A := door) crates (firstId k)

/-- What `get` does once its check has failed. -/
def respawns (u : Nat) : List (Σ _ : Unit, InstanceAction door) :=
  [⟨(), .evict u⟩, ⟨(), .load u none⟩, ⟨(), .serveSpawn u emptyStoreAnswers⟩,
    ⟨(), .spawned u⟩, ⟨(), .insert u⟩]

def asks (u : Nat) : Σ _ : Unit, InstanceAction door := ⟨(), .get u none⟩

theorem one_actor_per_instance_door :
    ∃ w, runActions doorStep unusedDoor (asks 0 :: respawns 0) = some w ∧
      (∀ m n, ((w ()).actors m).isAlive = true → ((w ()).actors n).isAlive = true →
        m = n) ∧
      ∀ b w', (w ()).step crates "m-1" b = some w' → (w ()).HandlesKept w' := by
  have hrest : ∀ a ∈ respawns 0, ∀ (w : Unit → Instance door) b,
      a = ⟨(), b⟩ → (w ()).SpawnsAlone b := by
    intro a ha w b hb
    subst hb
    simp only [respawns, List.mem_cons, Sigma.mk.injEq, heq_eq_eq, true_and,
      List.not_mem_nil, or_false] at ha
    rcases ha with rfl | rfl | rfl | rfl | rfl <;> trivial
  refine ⟨_, rfl, @Instance.one_actor_per_instance crates Unit _ (fun _ => door) firstId
    unusedDoor _ () (unusedDoor_unused ()) (.run .start (asks 0 :: respawns 0) ?_ rfl)⟩
  refine allOk_cons ?_ rfl (allOk_of_mem hrest _)
  rintro _ ⟨⟩ -
  exact fun _ => rfl

/-- Two callers find the cache empty one after the other.  The second one evicts the
actor that the first one has spawned, and spawns another one beside it. -/
theorem overlapping_gets_spawn_two :
    ∃ w, runActions doorStep unusedDoor
        ([asks 0, asks 1] ++ respawns 0 ++ respawns 1) = some w ∧
      (w ()).users 0 = .holding none 0 ∧ (w ()).users 1 = .holding none 1 ∧
      (w ()).cache = some 1 ∧
      ¬ ∀ m n, ((w ()).actors m).isAlive = true → ((w ()).actors n).isAlive = true →
        m = n :=
  ⟨_, rfl, rfl, rfl, rfl, fun hone => absurd (hone 0 1 rfl rfl) (by decide)⟩

end ActorCacheWitness

end EventfoldEs
