/-
The functions of the live loop keep what they owe to those who listen: positions
are announced once every runner is past them and nothing is left to dispatch, and
being caught up once the stream has been read that far.
-/
import EventfoldEs.LiveHistory

namespace EventfoldEs

open Async OrderedLog LiveWorld

variable {C : Crates} {π μ κ : Type} {G : Registry π μ}
variable [DecidableEq π] [DecidableEq μ] {rising : Prop}

section Awaits

variable {α : Type} {Q : α → StoreState G × LiveHistory μ → Prop} {l : List (Work μ)}
  {op : RunnerOp π μ} {resume : op.Res G → RunnerFuture G α}
  {x : StoreState G × LiveHistory μ}

theorem live_await
    (hannounces : ∀ y, (liveTerms C rising).rely x y → op.Announces rising y.1 y.2)
    (hrest : ∀ y r z, (liveTerms C rising).rely x y → (liveTerms C rising).serves op y r z →
      (∀ j, y.1.cursor j ≤ z.1.cursor j) → (resume r).Safe (liveTerms C rising) Q z) :
    Future.Safe (liveTerms C rising) Q (.await l op resume) x := by
  refine ⟨trivial, fun y hxy r z hserves => ?_⟩
  obtain ⟨answer, hserve⟩ := hserves.2.1
  have hcursors := cursors_serve hserve
  exact ⟨⟨hcursors, hannounces y hxy⟩, hrest y r z hxy hserves hcursors⟩

/-- An operation that takes no event and is not noted. -/
theorem live_silent (hsilent : op.Silent)
    (hrest : ∀ t r, (∀ j, x.1.cursor j ≤ t.cursor j) →
      (resume r).Safe (liveTerms C rising) Q (t, x.2)) :
    Future.Safe (liveTerms C rising) Q (.await l op resume) x := by
  refine live_await (fun y _ => ?_) fun y r z hxy hserves hcursors => ?_
  · cases op <;> trivial
  · obtain ⟨present, hnote⟩ := hserves.2.2
    have hsame : z.2 = x.2 := by
      rw [← hxy.2, hnote]
      cases op <;> first | rfl | exact hsilent.elim
    rw [← Prod.eta z, hsame]
    exact hrest z.1 r fun j => Nat.le_trans (hxy.1 j) (hcursors j)

/-- Cursors do not go back while a function of the loop runs. -/
theorem live_cursors {fut : RunnerFuture G α} (hsafe : fut.Safe (liveTerms C rising) Q x) :
    fut.Safe (liveTerms C rising)
      (fun a y => Q a y ∧ ∀ r, x.1.cursor r ≤ y.1.cursor r) x :=
  hsafe.frame (T := liveTerms C rising)
    (F := fun y => ∀ r, x.1.cursor r ≤ y.1.cursor r)
    (fun _ _ hF hrely r => Nat.le_trans (hF r) (hrely.1 r))
    (fun _ _ _ _ hF hguar r => Nat.le_trans (hF r) (hguar.1 r)) fun _ => Nat.le_refl _

end Awaits

section Event

theorem fanOutProjections_live (recorded : RecordedEvent) (ps : List π) (s : StoreState G)
    (h : LiveHistory μ) :
    (fanOutProjections recorded ps).Safe (liveTerms C rising)
      (fun _ y => (∀ q ∈ ps, recorded.globalPosition < y.1.cursor (.inl q)) ∧ y.2 = h)
      (s, h) := by
  induction ps generalizing s with
  | nil => exact ⟨nofun, rfl⟩
  | cons q ps ih =>
      refine live_silent trivial fun t _ _ => ?_
      refine live_await (fun _ _ => trivial) fun y r z hty hserves _ => ?_
      obtain ⟨answer, hserve⟩ := hserves.2.1
      obtain ⟨present, hnote⟩ := hserves.2.2
      have hpast : recorded.globalPosition < z.1.cursor (.inl q) := by
        rw [(serve_takes rfl hserve).1]
        exact (cursors_event y.1 (.inl q) recorded).2
      have hsame : z.2 = h := hnote.trans hty.2
      refine live_silent trivial fun u _ hzu => ?_
      rw [hsame]
      refine (live_cursors (ih u)).weaken fun _ v ⟨⟨hall, hv⟩, huv⟩ => ⟨fun q' hq' => ?_, hv⟩
      rcases List.mem_cons.mp hq' with rfl | hq'
      · exact Nat.lt_of_lt_of_le hpast (Nat.le_trans (hzu _) (huv _))
      · exact hall q' hq'

theorem fanOutProcessManagers_live (recorded : RecordedEvent) (ms : List μ)
    (all : List (Work μ)) (s : StoreState G) {h : LiveHistory μ} (howes : h.Owes all) :
    (fanOutProcessManagers recorded ms all).Safe (liveTerms C rising)
      (fun all' y => (∀ m ∈ ms, recorded.globalPosition < y.1.cursor (.inr m)) ∧
        y.2.Owes all' ∧ h.SameStream y.2) (s, h) := by
  induction ms generalizing all s h with
  | nil => exact ⟨nofun, howes, .refl h⟩
  | cons m ms ih =>
      refine live_silent trivial fun t _ _ => ?_
      refine live_await (fun _ _ => trivial) fun y produced z hty hserves _ => ?_
      obtain ⟨answer, hserve⟩ := hserves.2.1
      obtain ⟨present, hnote⟩ := hserves.2.2
      have hpast : recorded.globalPosition < z.1.cursor (.inr m) := by
        rw [(serve_takes rfl hserve).1]
        exact (cursors_event y.1 (.inr m) recorded).2
      have hz : z.2 = { h with
          obtained := h.obtained ++ reactionWork m recorded produced } := by
        rw [hnote, hty.2]
        rfl
      have howes' : z.2.Owes (all ++ reactionWork m recorded produced) := by
        rw [hz]
        intro work hwork
        rcases List.mem_append.mp hwork with hold | hnew
        · exact (howes work hold).imp_right (List.mem_append_left _)
        · exact Or.inr (List.mem_append_right _ hnew)
      have hstream : h.SameStream z.2 := by
        rw [hz]
        exact ⟨rfl, rfl, rfl⟩
      refine live_silent trivial fun u _ hzu => ?_
      refine (live_cursors (ih _ u howes')).weaken
        fun all' v ⟨⟨hall, hv, hsame⟩, huv⟩ => ⟨fun m' hm' => ?_, hv, hstream.trans hsame⟩
      rcases List.mem_cons.mp hm' with rfl | hm'
      · exact Nat.lt_of_lt_of_le hpast (Nat.le_trans (hzu _) (huv _))
      · exact hall m' hm'

omit [DecidableEq μ] in
/-- An operation that disposes of the first envelope that is owed. -/
theorem owes_disposed {h : LiveHistory μ} {work : Work μ} {rest : List (Work μ)}
    (howes : h.Owes (work :: rest)) :
    LiveHistory.Owes { h with disposed := h.disposed ++ [work] } rest := by
  intro other hother
  rcases howes other hother with hdone | howed
  · exact Or.inl (List.mem_append_left _ hdone)
  · rcases List.mem_cons.mp howed with rfl | hrest
    · exact Or.inl (List.mem_append_right _ List.mem_cons_self)
    · exact Or.inr hrest

theorem deadLetter_live (work : Work μ) (error : String) (rest : List (Work μ))
    (s : StoreState G) {h : LiveHistory μ} (howes : h.Owes (work :: rest)) :
    (deadLetter work error rest).Safe (liveTerms C rising)
      (fun _ y => y.2.Owes rest ∧ h.SameStream y.2) (s, h) := by
  refine live_await (fun _ _ => trivial) fun y r z hty hserves _ => ?_
  obtain ⟨present, hnote⟩ := hserves.2.2
  have hz : z.2 = { h with disposed := h.disposed ++ [work] } := by
    rw [hnote, hty.2]
    rfl
  change z.2.Owes rest ∧ h.SameStream z.2
  rw [hz]
  exact ⟨owes_disposed howes, rfl, rfl, rfl⟩

theorem dispatchOne_live (work : Work μ) (rest : List (Work μ)) (s : StoreState G)
    {h : LiveHistory μ} (howes : h.Owes (work :: rest)) :
    (dispatchOne work rest).Safe (liveTerms C rising)
      (fun _ y => y.2.Owes rest ∧ h.SameStream y.2) (s, h) := by
  unfold dispatchOne
  split
  · refine live_await (fun _ _ => trivial) fun y r z hty hserves _ => ?_
    obtain ⟨present, hnote⟩ := hserves.2.2
    cases r with
    | ok u =>
        have hz : z.2 = { h with disposed := h.disposed ++ [work] } := by
          rw [hnote, hty.2]
          rfl
        change z.2.Owes rest ∧ h.SameStream z.2
        rw [hz]
        exact ⟨owes_disposed howes, rfl, rfl, rfl⟩
    | error e =>
        have hz : z.2 = h := by
          rw [hnote, hty.2]
          rfl
        rw [← Prod.eta z, hz]
        exact deadLetter_live work e rest z.1 howes
  · exact deadLetter_live work _ rest s howes

theorem dispatchLive_live (works : List (Work μ)) (s : StoreState G) {h : LiveHistory μ}
    (howes : h.Owes works) :
    (dispatchLive works).Safe (liveTerms C rising)
      (fun _ y => y.2.Owes [] ∧ h.SameStream y.2) (s, h) := by
  induction works generalizing s h with
  | nil => exact ⟨howes, .refl h⟩
  | cons work rest ih =>
      refine (dispatchOne_live work rest s howes).bind fun _ y ⟨howes', hsame⟩ => ?_
      exact (ih y.1 howes').weaken fun _ z ⟨hz, hstream⟩ => ⟨hz, hsame.trans hstream⟩

/-- An event is announced when everything about it is done. -/
theorem processEvent_live (recorded : RecordedEvent) (s : StoreState G)
    {h : LiveHistory μ} (howes : h.Owes [])
    (hnew : rising → ∀ m ∈ h.published, m < recorded.globalPosition) :
    (processEvent recorded).Safe (liveTerms C rising)
      (fun _ y => (∀ r ∈ G.runners, recorded.globalPosition < y.1.cursor r) ∧
        y.2.Owes [] ∧ y.2.fromPosition = h.fromPosition ∧ y.2.items = h.items ∧
        y.2.published = h.published ++ [recorded.globalPosition]) (s, h) := by
  refine (fanOutProjections_live recorded G.projections s h).bind fun _ y₁ ⟨hps, h₁⟩ => ?_
  have howes₁ : y₁.2.Owes [] := h₁ ▸ howes
  refine (live_cursors (fanOutProcessManagers_live recorded G.processManagers [] y₁.1
    howes₁)).bind fun all y₂ ⟨⟨hms, howes₂, hsame₂⟩, h₁₂⟩ => ?_
  refine (live_cursors (dispatchLive_live all y₂.1 howes₂)).bind
    fun _ y₃ ⟨⟨howes₃, hsame₃⟩, h₂₃⟩ => ?_
  have hsame : h.SameStream y₃.2 := h₁ ▸ hsame₂.trans hsame₃
  have hpast : ∀ r ∈ G.runners, recorded.globalPosition < y₃.1.cursor r := by
    intro r hr
    rcases List.mem_append.mp hr with hr | hr
    · obtain ⟨q, hq, rfl⟩ := List.mem_map.mp hr
      exact Nat.lt_of_lt_of_le (hps q hq) (Nat.le_trans (h₁₂ _) (h₂₃ _))
    · obtain ⟨m, hm, rfl⟩ := List.mem_map.mp hr
      exact Nat.lt_of_lt_of_le (hms m hm) (h₂₃ _)
  refine live_await (fun y h₃y => ⟨fun r hr => ?_, ?_, fun hrising => ?_⟩)
    fun y r z h₃y hserves hyz => ?_
  · exact Nat.lt_of_lt_of_le (hpast r hr) (h₃y.1 r)
  · exact h₃y.2 ▸ howes₃
  · rw [h₃y.2, hsame.published]
    exact hnew hrising
  · obtain ⟨present, hnote⟩ := hserves.2.2
    have hz : z.2 = { y₃.2 with
        published := y₃.2.published ++ [recorded.globalPosition] } := by
      rw [hnote, h₃y.2]
      rfl
    refine ⟨fun r hr => ?_, ?_⟩
    · exact Nat.lt_of_lt_of_le (hpast r hr) (Nat.le_trans (h₃y.1 r) (hyz r))
    · rw [hz]
      exact ⟨howes₃, hsame.fromPosition, hsame.items, by rw [hsame.published]⟩

end Event

section Stream

omit [DecidableEq π] [DecidableEq μ] in
/-- The sentinel comes after everything that has been read without an error. -/
theorem stop_of_read {before rest : List Item}
    (hclean : ∀ status : Status, Except.error status ∉ before) :
    streamStop (before ++ .ok .caughtUp :: rest) = .caughtUp ∧
      ∀ e ∈ (passRead (before ++ .ok .caughtUp :: rest)).1, e ∈ itemEvents before := by
  induction before with
  | nil => exact ⟨rfl, nofun⟩
  | cons item before ih =>
      obtain ⟨hstop, hread⟩ := ih fun status hmem =>
        hclean status (List.mem_cons_of_mem item hmem)
      rcases item with status | recorded | _ | _
      · exact absurd List.mem_cons_self (hclean status)
      · refine ⟨hstop, fun e he => ?_⟩
        rcases List.mem_cons.mp he with rfl | he
        · exact List.mem_cons_self
        · exact List.mem_cons_of_mem recorded (hread e he)
      · exact ⟨rfl, nofun⟩
      · exact ⟨hstop, hread⟩

variable (rising) in
/-- Where the live loop is in its stream: every registered runner is past what it
has read, and no envelope is left from that. -/
structure StreamAt (rest : List Item) (s : StoreState G) (h : LiveHistory μ) : Prop where
  read : ∃ before, h.items = before ++ rest ∧
    (∀ status : Status, Except.error status ∉ before) ∧
    ∀ e ∈ itemEvents before, ∀ r ∈ G.runners, e.globalPosition < s.cursor r
  behind : ∀ r ∈ G.runners, h.fromPosition ≤ s.cursor r
  owes : h.Owes []
  ahead : rising → Increasing RecordedEvent.globalPosition (itemEvents rest) ∧
    ∀ e ∈ itemEvents rest, ∀ m ∈ h.published, m < e.globalPosition

omit [DecidableEq π] [DecidableEq μ]

theorem StreamAt.mono {rest : List Item} {s t : StoreState G} {h : LiveHistory μ}
    (hat : StreamAt rising rest s h) (hst : ∀ r, s.cursor r ≤ t.cursor r) :
    StreamAt rising rest t h := by
  obtain ⟨before, hitems, hclean, hread⟩ := hat.read
  exact ⟨⟨before, hitems, hclean, fun e he r hr => Nat.lt_of_lt_of_le (hread e he r hr) (hst r)⟩,
    fun r hr => Nat.le_trans (hat.behind r hr) (hst r), hat.owes, hat.ahead⟩

/-- The next item of the stream is no event. -/
theorem StreamAt.skip {item : Item} {rest : List Item} {s : StoreState G}
    {h : LiveHistory μ} (hat : StreamAt rising (item :: rest) s h)
    (hclean : ∀ status : Status, Except.error status ≠ item)
    (hskip : itemEvents [item] = []) : StreamAt rising rest s h := by
  obtain ⟨before, hitems, hbefore, hread⟩ := hat.read
  have hevents : itemEvents (item :: rest) = itemEvents rest := by
    change itemEvents ([item] ++ rest) = _
    rw [itemEvents, List.filterMap_append]
    exact congrArg (· ++ itemEvents rest) hskip
  refine ⟨⟨before ++ [item], by simp [hitems], fun status hmem => ?_, fun e he => ?_⟩,
    hat.behind, hat.owes, fun hrising => hevents ▸ hat.ahead hrising⟩
  · rcases List.mem_append.mp hmem with hold | hnew
    · exact hbefore status hold
    · exact hclean status (List.mem_singleton.mp hnew)
  · have hsame : itemEvents (before ++ [item]) = itemEvents before := by
      rw [itemEvents, List.filterMap_append]
      exact (congrArg (itemEvents before ++ ·) hskip).trans (List.append_nil _)
    exact hread e (hsame ▸ he)

/-- The next item is an event, and has been announced. -/
theorem StreamAt.event {recorded : RecordedEvent} {rest : List Item} {s t : StoreState G}
    {h k : LiveHistory μ} (hat : StreamAt rising (.ok (.event recorded) :: rest) s h)
    (hst : ∀ r, s.cursor r ≤ t.cursor r)
    (hpast : ∀ r ∈ G.runners, recorded.globalPosition < t.cursor r) (howes : k.Owes [])
    (hfrom : k.fromPosition = h.fromPosition) (hitems : k.items = h.items)
    (hpublished : k.published = h.published ++ [recorded.globalPosition]) :
    StreamAt rising rest t k := by
  obtain ⟨before, hbefore, hclean, hread⟩ := hat.read
  refine ⟨⟨before ++ [.ok (.event recorded)], by simp [hitems, hbefore],
    fun status hmem => ?_, fun e he r hr => ?_⟩, fun r hr => ?_, howes, fun hrising => ?_⟩
  · rcases List.mem_append.mp hmem with hold | hnew
    · exact hclean status hold
    · cases List.mem_singleton.mp hnew
  · rw [itemEvents, List.filterMap_append] at he
    rcases List.mem_append.mp he with hold | hnew
    · exact Nat.lt_of_lt_of_le (hread e hold r hr) (hst r)
    · rw [List.mem_singleton.mp hnew]
      exact hpast r hr
  · rw [hfrom]
    exact Nat.le_trans (hat.behind r hr) (hst r)
  · obtain ⟨hincreasing, hahead⟩ := hat.ahead hrising
    obtain ⟨hfirst, hrest⟩ := List.pairwise_cons.mp hincreasing
    refine ⟨hrest, fun e he m hm => ?_⟩
    rw [hpublished] at hm
    rcases List.mem_append.mp hm with hold | hnew
    · exact hahead e (List.mem_cons_of_mem recorded he) m hold
    · rw [List.mem_singleton.mp hnew]
      exact hfirst e he

variable [DecidableEq π] [DecidableEq μ]

theorem processStreamWithDispatch_live (items : List Item) {s : StoreState G}
    {h : LiveHistory μ} (hat : StreamAt rising items s h) :
    (processStreamWithDispatch C items).Safe (liveTerms C rising)
      (fun _ y => y.2.Owes []) (s, h) := by
  induction items generalizing s h with
  | nil => exact live_silent trivial fun _ _ _ => hat.owes
  | cons item rest ih =>
      rcases item with status | recorded | _ | _
      · exact live_silent trivial fun _ _ _ => hat.owes
      · refine live_silent trivial fun t _ hst => ?_
        have hat := hat.mono hst
        refine (live_cursors (processEvent_live recorded t hat.owes fun hrising =>
          (hat.ahead hrising).2 recorded List.mem_cons_self)).bind ?_
        rintro _ y ⟨⟨hpast, howes, hfrom, hitems, hpublished⟩, hty⟩
        exact ih (hat.event hty hpast howes hfrom hitems hpublished)
      · refine live_silent trivial fun t _ hst => ?_
        have hat := hat.mono hst
        refine live_await (fun y hty => ?_) fun y r z hty hserves hyz => ?_
        · obtain ⟨before, hitems, hclean, hread⟩ := (hat.mono hty.1).read
          have hstop := @stop_of_read before rest hclean
          rw [RunnerOp.Announces, hty.2, hitems]
          exact ⟨hstop.1, fun r hr =>
            ⟨(hat.mono hty.1).behind r hr, fun e he => hread e (hstop.2 e he) r hr⟩⟩
        · obtain ⟨present, hnote⟩ := hserves.2.2
          have hsame : z.2 = h := hnote.trans hty.2
          rw [← Prod.eta z, hsame]
          exact ih ((hat.skip nofun rfl).mono fun j => Nat.le_trans (hty.1 j) (hyz j))
      · exact live_silent trivial fun t _ hst => ih ((hat.mono hst).skip nofun rfl)

end Stream

section Connect

/-- The least of the cursors that have been read, or the largest number. -/
structure Lowest (n : Nat) (readings : List Nat) : Prop where
  attained : n = u64Max ∨ n ∈ readings
  least : ∀ m ∈ readings, n ≤ m

theorem Lowest.read {n : Nat} {readings : List Nat} (hlow : Lowest n readings) (m : Nat) :
    Lowest (min n m) (readings ++ [m]) where
  attained := by
    rcases Nat.le_total n m with hle | hle
    · rw [Nat.min_eq_left hle]
      exact hlow.attained.imp_right (List.mem_append_left _)
    · rw [Nat.min_eq_right hle]
      exact Or.inr (List.mem_append_right _ List.mem_cons_self)
  least k hk := by
    rcases List.mem_append.mp hk with hold | hnew
    · exact Nat.le_trans (Nat.min_le_left n m) (hlow.least k hold)
    · rw [List.mem_singleton.mp hnew]
      exact Nat.min_le_right n m

theorem minPosition_live (rs : List (π ⊕ μ)) (hrs : ∀ r ∈ rs, r ∈ G.runners) (minPos : Nat)
    (s : StoreState G) {h : LiveHistory μ}
    (hpassed : ∀ m ∈ h.published, ∀ r ∈ G.runners, m < s.cursor r)
    (hlow : Lowest minPos h.readings) (hover : ∀ n ∈ h.readings, ∀ m ∈ h.published, m < n) :
    (minPosition rs minPos).Safe (liveTerms C rising)
      (fun n y => (n ≤ minPos ∧ ∀ r ∈ rs, n ≤ y.1.cursor r) ∧
        ∃ readings, y.2 = { h with readings } ∧ Lowest n readings ∧
          ∀ n ∈ readings, ∀ m ∈ h.published, m < n) (s, h) := by
  induction rs generalizing minPos s h with
  | nil => exact ⟨⟨Nat.le_refl _, nofun⟩, h.readings, rfl, hlow, hover⟩
  | cons r rs ih =>
      have hr : r ∈ G.runners := hrs r List.mem_cons_self
      refine live_silent trivial fun t _ hst => ?_
      refine live_await (fun _ _ => trivial) fun y n z hty hserves hyz => ?_
      obtain ⟨answer, hserve⟩ := hserves.2.1
      obtain ⟨present, hnote⟩ := hserves.2.2
      have hn : n = y.1.cursor r := (serve_quiet rfl hserve).2
      have hz : z.2 = { h with readings := h.readings ++ [n] } := by
        rw [hnote, hty.2]
        rfl
      have hsz : ∀ j, s.cursor j ≤ z.1.cursor j := fun j =>
        Nat.le_trans (hst j) (Nat.le_trans (hty.1 j) (hyz j))
      have hover' : ∀ k ∈ h.readings ++ [n], ∀ m ∈ h.published, m < k := by
        intro k hk m hm
        rcases List.mem_append.mp hk with hold | hnew
        · exact hover k hold m hm
        · rw [List.mem_singleton.mp hnew, hn]
          exact Nat.lt_of_lt_of_le (hpassed m hm r hr) (Nat.le_trans (hst r) (hty.1 r))
      refine live_silent trivial fun u _ hzu => ?_
      rw [hz]
      have hrest := ih (fun r' hr' => hrs r' (List.mem_cons_of_mem r hr')) (min minPos n) u
        (h := { h with readings := h.readings ++ [n] })
        (fun m hm r' hr' => Nat.lt_of_lt_of_le (hpassed m hm r' hr')
          (Nat.le_trans (hsz r') (hzu r'))) (hlow.read n) hover'
      refine (live_cursors hrest).weaken fun k v ⟨⟨⟨hmin, hall⟩, hread⟩, huv⟩ => ?_
      refine ⟨⟨Nat.le_trans hmin (Nat.min_le_left _ _), fun r' hr' => ?_⟩, hread⟩
      rcases List.mem_cons.mp hr' with rfl | hr'
      · have hbehind : n ≤ z.1.cursor r' := hn ▸ hyz r'
        exact Nat.le_trans hmin (Nat.le_trans (Nat.min_le_right _ _)
          (Nat.le_trans hbehind (Nat.le_trans (hzu r') (huv r'))))
      · exact hall r' hr'

/-- What the live loop is given when it has connected is a stream at its start. -/
theorem connect_live (s : StoreState G) {h : LiveHistory μ} (hempty : h.readings = [])
    (hpassed : ∀ m ∈ h.published, ∀ r ∈ G.runners, m < s.cursor r) (howes : h.Owes []) :
    connect.Safe (liveTerms C rising)
      (fun result y => y.2.Owes [] ∧ ∀ items, result = .ok items →
        StreamAt rising items y.1 y.2) (s, h) := by
  have hlow : Lowest u64Max h.readings := hempty ▸ ⟨Or.inl rfl, nofun⟩
  have hover : ∀ n ∈ h.readings, ∀ m ∈ h.published, m < n := by
    rw [hempty]
    exact nofun
  refine Future.Safe.bind (Q := fun p y => (∀ r ∈ G.runners, p ≤ y.1.cursor r) ∧
    ∃ readings, y.2 = { h with readings } ∧
      ∀ n ∈ readings, n < u64Max → ∀ m ∈ h.published, m < p) ?_ fun p y hy => ?_
  · refine (minPosition_live G.runners (fun _ h => h) u64Max s hpassed hlow hover).bind
      fun n y ⟨⟨_, hall⟩, readings, hy, hlow, hover⟩ => ?_
    by_cases hmax : n = u64Max
    · rw [if_pos hmax]
      refine ⟨fun r _ => Nat.zero_le _, readings, hy, fun m hm hlt => ?_⟩
      exact absurd (Nat.lt_of_le_of_lt (hlow.least m hm) hlt) (by omega)
    · rw [if_neg hmax]
      exact ⟨hall, readings, hy, fun _ _ _ => hover n (hlow.attained.resolve_left hmax)⟩
  · obtain ⟨hbehind, readings, hy, hlow⟩ := hy
    refine live_await (fun _ _ => trivial) fun y₁ result z hyy₁ hserves hy₁z => ?_
    obtain ⟨present, hnote⟩ := hserves.2.2
    rw [hyy₁.2, hy] at hnote
    cases result with
    | error status =>
        refine ⟨?_, nofun⟩
        rw [hnote]
        exact howes
    | ok items =>
        have hz : z.2 = { h with
            readings, fromPosition := p, items, opened := present } := hnote
        refine ⟨hz ▸ howes, fun items' hok => ?_⟩
        cases hok
        refine ⟨⟨[], by rw [hz]; rfl, nofun, nofun⟩, fun r hr => ?_, hz ▸ howes,
          fun hrising => ?_⟩
        · rw [hz]
          exact Nat.le_trans (hbehind r hr) (Nat.le_trans (hyy₁.1 r) (hy₁z r))
        · obtain ⟨⟨n, hn, hlt⟩, hfrom, hincreasing⟩ := hserves.1 hrising
          rw [hyy₁.2, hy] at hn
          rw [hz]
          exact ⟨hincreasing, fun e he m hm =>
            Nat.lt_of_lt_of_le (hlow n hn hlt m hm) (hfrom e he)⟩

end Connect

end EventfoldEs
