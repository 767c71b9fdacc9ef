/-
An asynchronous function as a tree of its awaits: at each await it names the
operation it waits for and shows the local variables that are alive there.
Rely/guarantee reasoning about one such function while others run.
-/
import Mathlib.Order.Basic

namespace Async

universe u v w x y z

/-- A future either has its value or is suspended at an operation, with the
locals alive at that point and what it does with the response. -/
inductive Future (L : Type u) (Op : Type v) (Res : Op → Type w) (α : Type x)
  | ready (a : α)
  | await (locals : L) (op : Op) (resume : Res op → Future L Op Res α)

namespace Future

variable {L : Type u} {L' : Type u} {Op : Type v} {Res : Op → Type w}
variable {α : Type x} {β : Type y}

def bind : Future L Op Res α → (α → Future L Op Res β) → Future L Op Res β
  | ready a, f => f a
  | await l op resume, f => await l op fun r => (resume r).bind f

/-- Run a sub-future inside a caller whose own locals stay alive. -/
def mapLocals (g : L → L') : Future L Op Res α → Future L' Op Res α
  | ready a => ready a
  | await l op resume => await (g l) op fun r => (resume r).mapLocals g

/-- The locals of a suspended future. -/
def locals? : Future L Op Res α → Option L
  | ready _ => none
  | await l _ _ => some l

/-- Every operation the future can ever perform meets `P`. -/
def Only (P : Op → Prop) : Future L Op Res α → Prop
  | ready _ => True
  | await _ op resume => P op ∧ ∀ r, (resume r).Only P

theorem Only.bind {P : Op → Prop} {fut : Future L Op Res α}
    {f : α → Future L Op Res β} (hfut : fut.Only P) (hf : ∀ a, (f a).Only P) :
    (fut.bind f).Only P := by
  induction fut with
  | ready a => exact hf a
  | await l op resume ih => exact ⟨hfut.1, fun r => ih r (hfut.2 r)⟩

theorem Only.mono {P P' : Op → Prop} (hP : ∀ op, P op → P' op)
    {fut : Future L Op Res α} (hfut : fut.Only P) : fut.Only P' := by
  induction fut with
  | ready a => trivial
  | await l op resume ih => exact ⟨hP op hfut.1, fun r => ih r (hfut.2 r)⟩

/-- The locals shown at this point: those alive at the await, or those that
`shown` finds in the result. -/
def now (shown : α → L) : Future L Op Res α → L
  | ready a => shown a
  | await l _ _ => l

/-- Wherever an operation is answered as `ok` allows, the locals move from the
await to the next point as `P` says. -/
def Moves (shown : α → L) (ok : (op : Op) → Res op → Prop)
    (P : (op : Op) → Res op → L → L → Prop) : Future L Op Res α → Prop
  | ready _ => True
  | await l op resume => ∀ r, ok op r →
      P op r l ((resume r).now shown) ∧ (resume r).Moves shown ok P

/-- Run the future alone, each operation answered at once by `serve`. -/
def runOn {σ : Type z} (serve : (op : Op) → σ → Option (Res op × σ)) :
    Future L Op Res α → σ → Option (α × σ)
  | ready a, s => some (a, s)
  | await _ op resume, s =>
      (serve op s).bind fun out => (resume out.1).runOn serve out.2

theorem runOn_bind {σ : Type z} (serve : (op : Op) → σ → Option (Res op × σ))
    (fut : Future L Op Res α) (f : α → Future L Op Res β) (s : σ) :
    (fut.bind f).runOn serve s =
      (fut.runOn serve s).bind fun out => (f out.1).runOn serve out.2 := by
  induction fut generalizing s with
  | ready a => rfl
  | await l op resume ih =>
      simp only [bind, runOn, ih, Option.bind_assoc]

theorem runOn_mapLocals {σ : Type z} (serve : (op : Op) → σ → Option (Res op × σ))
    (g : L → L') (fut : Future L Op Res α) (s : σ) :
    (fut.mapLocals g).runOn serve s = fut.runOn serve s := by
  induction fut generalizing s with
  | ready a => rfl
  | await l op resume ih => simp only [mapLocals, runOn, ih]

/-- Run the future among the steps of others, by a schedule that says who is next and
how its operation is answered; with what has happened, and where the future stands. -/
def runAmong {E A σ : Type z} (env : E → σ → σ)
    (serve : (op : Op) → A → σ → Option (Res op × σ)) :
    List (E ⊕ A) → Future L Op Res α → σ →
      Option (List (E ⊕ Σ op, Res op) × Future L Op Res α × σ)
  | [], fut, s => some ([], fut, s)
  | .inl e :: rest, fut, s =>
      (runAmong env serve rest fut (env e s)).map fun out => (.inl e :: out.1, out.2)
  | .inr _ :: _, ready _, _ => none
  | .inr a :: rest, await _ op resume, s =>
      (serve op a s).bind fun now =>
        (runAmong env serve rest (resume now.1) now.2).map fun out =>
          (.inr ⟨op, now.1⟩ :: out.1, out.2)

/-- Others take steps, and then the schedule ends or the operation is answered. -/
theorem runAmong_cases {E A σ : Type z} {env : E → σ → σ}
    {serve : (op : Op) → A → σ → Option (Res op × σ)} {schedule : List (E ⊕ A)}
    {fut fut' : Future L Op Res α} {s t : σ} {trace : List (E ⊕ Σ op, Res op)}
    (hrun : fut.runAmong env serve schedule s = some (trace, fut', t)) :
    ∃ others : List E,
      (trace = others.map .inl ∧ fut' = fut ∧ t = others.foldl (fun s e => env e s) s) ∨
      ∃ l op resume a r s' rest later, fut = await l op resume ∧
        serve op a (others.foldl (fun s e => env e s) s) = some (r, s') ∧
        (resume r).runAmong env serve rest s' = some (later, fut', t) ∧
        trace = others.map .inl ++ .inr ⟨op, r⟩ :: later := by
  induction schedule generalizing s trace with
  | nil =>
      cases hrun
      exact ⟨[], Or.inl ⟨rfl, rfl, rfl⟩⟩
  | cons turn rest ih =>
      cases turn with
      | inl e =>
          simp only [runAmong, Option.map_eq_some_iff, Prod.mk.injEq] at hrun
          obtain ⟨⟨later, out⟩, hrest, rfl, rfl⟩ := hrun
          obtain ⟨others, ⟨rfl, hfut, ht⟩ |
            ⟨l, op, resume, a, r, s', rest', later', hawait, hserve, hlater, rfl⟩⟩ := ih hrest
          · exact ⟨e :: others, Or.inl ⟨rfl, hfut, ht⟩⟩
          · exact ⟨e :: others, Or.inr ⟨l, op, resume, a, r, s', rest', later', hawait,
              hserve, hlater, rfl⟩⟩
      | inr a =>
          cases fut with
          | ready b => cases hrun
          | await l op resume =>
              simp only [runAmong, Option.bind_eq_some_iff, Option.map_eq_some_iff,
                Prod.mk.injEq] at hrun
              obtain ⟨⟨r, s'⟩, hserve, ⟨later, out⟩, hlater, rfl, rfl⟩ := hrun
              exact ⟨[], Or.inr ⟨l, op, resume, a, r, s', rest, later, rfl, hserve, hlater,
                rfl⟩⟩

/-- Answered along the trace, one operation after the other, the future comes to its
value. -/
inductive Runs : Future L Op Res α → List (Σ op, Res op) → α → Prop
  | ready (a : α) : Runs (ready a) [] a
  | await {l : L} {op : Op} {resume : Res op → Future L Op Res α} (r : Res op)
      {trace : List (Σ op, Res op)} {a : α} (hrest : Runs (resume r) trace a) :
      Runs (await l op resume) (⟨op, r⟩ :: trace) a

theorem Runs.of_bind {fut : Future L Op Res α} {f : α → Future L Op Res β}
    {trace : List (Σ op, Res op)} {b : β} (hruns : (fut.bind f).Runs trace b) :
    ∃ earlier a later, trace = earlier ++ later ∧ fut.Runs earlier a ∧ (f a).Runs later b := by
  induction fut generalizing trace with
  | ready a => exact ⟨[], a, trace, rfl, .ready a, hruns⟩
  | await l op resume ih =>
      cases hruns with
      | await r hrest =>
          obtain ⟨earlier, a, later, rfl, hfut, hf⟩ := ih r hrest
          exact ⟨⟨op, r⟩ :: earlier, a, later, rfl, .await r hfut, hf⟩

theorem Runs.of_mapLocals {g : L → L'} {fut : Future L Op Res α}
    {trace : List (Σ op, Res op)} {a : α} (hruns : (fut.mapLocals g).Runs trace a) :
    fut.Runs trace a := by
  induction fut generalizing trace with
  | ready b =>
      cases hruns
      exact .ready _
  | await l op resume ih =>
      cases hruns with
      | await r hrest => exact .await r (ih r hrest)

/-- The operations of a trace are operations of the future. -/
theorem Only.runs {P : Op → Prop} {fut : Future L Op Res α} (hfut : fut.Only P)
    {trace : List (Σ op, Res op)} {a : α} (hruns : fut.Runs trace a) :
    ∀ turn ∈ trace, P turn.1 := by
  induction hruns with
  | ready a => exact fun turn hturn => by cases hturn
  | await r hrest ih =>
      intro turn hturn
      rcases List.mem_cons.mp hturn with rfl | hturn
      · exact hfut.1
      · exact ih (hfut.2 r) turn hturn

/-- What the operations of a future keep, a run of it alone keeps. -/
theorem Only.runOn {σ : Type z} {serve : (op : Op) → σ → Option (Res op × σ)}
    {P : Op → Prop} {I : σ → Prop}
    (hkeep : ∀ op s r t, P op → I s → serve op s = some (r, t) → I t)
    {fut : Future L Op Res α} (hfut : fut.Only P) {s t : σ} {a : α} (hs : I s)
    (hrun : fut.runOn serve s = some (a, t)) : I t := by
  induction fut generalizing s with
  | ready b =>
      cases hrun
      exact hs
  | await l op resume ih =>
      simp only [Future.runOn, Option.bind_eq_some_iff] at hrun
      obtain ⟨out, hserve, hrest⟩ := hrun
      exact ih out.1 (hfut.2 out.1) (hkeep op s out.1 out.2 hfut.1 hs hserve) hrest

theorem now_bind (shown : β → L) (fut : Future L Op Res α)
    (f : α → Future L Op Res β) :
    (fut.bind f).now shown = fut.now fun a => (f a).now shown := by
  cases fut <;> rfl

theorem Moves.bind {shown : β → L} {ok : (op : Op) → Res op → Prop}
    {P : (op : Op) → Res op → L → L → Prop} {fut : Future L Op Res α}
    {f : α → Future L Op Res β}
    (hfut : fut.Moves (fun a => (f a).now shown) ok P)
    (hf : ∀ a, (f a).Moves shown ok P) : (fut.bind f).Moves shown ok P := by
  induction fut with
  | ready a => exact hf a
  | await l op resume ih =>
      intro r hr
      obtain ⟨hstep, hrest⟩ := hfut r hr
      refine ⟨?_, ih r hrest⟩
      rw [now_bind]
      exact hstep

/-- What a sub-future does with its locals, seen by a caller whose own locals stay
alive. -/
theorem Moves.mapLocals {shown : α → L} {ok : (op : Op) → Res op → Prop}
    {P : (op : Op) → Res op → L → L → Prop} {g : L → L}
    (hP : ∀ op r l l', P op r l l' → P op r (g l) (g l')) {fut : Future L Op Res α}
    (hfut : fut.Moves shown ok P) :
    (fut.mapLocals g).Moves (fun a => g (shown a)) ok P := by
  induction fut with
  | ready a => trivial
  | await l op resume ih =>
      intro r hr
      obtain ⟨hstep, hrest⟩ := hfut r hr
      refine ⟨?_, ih r hrest⟩
      have hnow : ((resume r).mapLocals g).now (fun a => g (shown a)) =
          g ((resume r).now shown) := by
        cases resume r <;> rfl
      rw [hnow]
      exact hP op r l _ hstep

/-- The points that a future can come to. -/
inductive Comes (fut : Future L Op Res α) : Future L Op Res α → Prop
  | here : Comes fut fut
  | on {l : L} {op : Op} {resume : Res op → Future L Op Res α}
      (hcomes : Comes fut (await l op resume)) (r : Res op) : Comes fut (resume r)

theorem Only.of_comes {P : Op → Prop} {fut fut' : Future L Op Res α} (hfut : fut.Only P)
    (hcomes : fut.Comes fut') : fut'.Only P := by
  induction hcomes with
  | here => exact hfut
  | on _ r ih => exact ih.2 r

/-- The next point after one answer. -/
inductive Resumes : Future L Op Res α → Future L Op Res α → Prop
  | mk (l : L) (op : Op) (resume : Res op → Future L Op Res α) (r : Res op) :
      Resumes (resume r) (await l op resume)

/-- However it is answered, a future comes to an end. -/
theorem resumes_wellFounded :
    WellFounded (@Resumes L Op Res α) := by
  refine ⟨fun fut => ?_⟩
  induction fut with
  | ready a => exact ⟨_, fun _ hnext => by cases hnext⟩
  | await l op resume ih =>
      refine ⟨_, fun next hnext => ?_⟩
      cases hnext with
      | mk _ _ _ r => exact ih r

/-- When every operation is answered as `ok` allows, the future ends in `Q`. -/
def Ends (ok : L → (op : Op) → Res op → Prop) (Q : α → Prop) :
    Future L Op Res α → Prop
  | ready a => Q a
  | await l op resume => ∀ r, ok l op r → (resume r).Ends ok Q

theorem Ends.of_forall {ok : L → (op : Op) → Res op → Prop} {Q : α → Prop}
    (hQ : ∀ a, Q a) (fut : Future L Op Res α) : fut.Ends ok Q := by
  induction fut with
  | ready a => exact hQ a
  | await l op resume ih => exact fun r _ => ih r

theorem Ends.bind {ok : L → (op : Op) → Res op → Prop} {Q : β → Prop}
    {fut : Future L Op Res α} {f : α → Future L Op Res β}
    (hfut : fut.Ends ok fun a => (f a).Ends ok Q) : (fut.bind f).Ends ok Q := by
  induction fut with
  | ready a => exact hfut
  | await l op resume ih => exact fun r hr => ih r (hfut r hr)

/-- What holds at the end, however it is reached, holds at the end that is reached. -/
theorem Ends.of_comes {Q : α → Prop} {fut fut' : Future L Op Res α}
    (hfut : fut.Ends (fun _ _ _ => True) Q) (hcomes : fut.Comes fut') :
    fut'.Ends (fun _ _ _ => True) Q := by
  induction hcomes with
  | here => exact hfut
  | on _ r ih => exact ih r trivial

theorem Ends.mapLocals {ok : L → (op : Op) → Res op → Prop} {Q : α → Prop} {g : L → L}
    {fut : Future L Op Res α} (hfut : fut.Ends (fun l => ok (g l)) Q) :
    (fut.mapLocals g).Ends ok Q := by
  induction fut with
  | ready a => exact hfut
  | await l op resume ih => exact fun r hr => ih r (hfut r hr)

theorem Ends.weaken {ok : L → (op : Op) → Res op → Prop} {Q Q' : α → Prop}
    (hQ : ∀ a, Q a → Q' a) {fut : Future L Op Res α} (hfut : fut.Ends ok Q) :
    fut.Ends ok Q' := by
  induction fut with
  | ready a => exact hQ a hfut
  | await l op resume ih => exact fun r hr => ih r (hfut r hr)

end Future

/-- The terms on which one future runs among others over a shared state: what
others may do between its operations, how an operation is answered, what its
own operations promise to others, and what holds of its locals while it is
suspended. -/
structure Terms (L : Type u) (Op : Type v) (Res : Op → Type w) (σ : Type z) where
  rely : σ → σ → Prop
  serves : (op : Op) → σ → Res op → σ → Prop
  guarantee : (op : Op) → Res op → σ → σ → Prop
  during : L → σ → Prop
  rely_trans : ∀ {s t v : σ}, rely s t → rely t v → rely s v
  during_stable : ∀ {l : L} {s t : σ}, during l s → rely s t → during l t

namespace Future

variable {L : Type u} {Op : Type v} {Res : Op → Type w} {σ : Type z}
variable {α : Type x} {β : Type y}

/-- From `s` the future keeps its terms at every await, for any interference
allowed by `rely`, and ends in `Q`. -/
def Safe (T : Terms L Op Res σ) (Q : α → σ → Prop) :
    Future L Op Res α → σ → Prop
  | ready a, s => Q a s
  | await l op resume, s =>
      T.during l s ∧ ∀ s₁, T.rely s s₁ → ∀ r s₂, T.serves op s₁ r s₂ →
        T.guarantee op r s₁ s₂ ∧ (resume r).Safe T Q s₂

variable {T : Terms L Op Res σ} {Q : α → σ → Prop}

/-- Interference between two operations does not disturb a safe future. -/
theorem Safe.stable (hQ : ∀ a s t, Q a s → T.rely s t → Q a t)
    {fut : Future L Op Res α} {s t : σ} (hsafe : fut.Safe T Q s)
    (hrely : T.rely s t) : fut.Safe T Q t := by
  cases fut with
  | ready a => exact hQ a s t hsafe hrely
  | await l op resume =>
      refine ⟨T.during_stable hsafe.1 hrely, fun s₁ h₁ => ?_⟩
      exact hsafe.2 s₁ (T.rely_trans hrely h₁)

/-- A safe future whose operation is answered stays safe. -/
theorem Safe.served {l : L} {op : Op} {resume : Res op → Future L Op Res α}
    {s s' : σ} {r : Res op} (hsafe : (await l op resume).Safe T Q s)
    (hrefl : T.rely s s) (hserve : T.serves op s r s') :
    T.guarantee op r s s' ∧ (resume r).Safe T Q s' :=
  hsafe.2 s hrefl r s' hserve

theorem Safe.bind {Q' : β → σ → Prop} {fut : Future L Op Res α}
    {f : α → Future L Op Res β} {s : σ} (hsafe : fut.Safe T Q s)
    (hf : ∀ a t, Q a t → (f a).Safe T Q' t) : (fut.bind f).Safe T Q' s := by
  induction fut generalizing s with
  | ready a => exact hf a s hsafe
  | await l op resume ih =>
      refine ⟨hsafe.1, fun s₁ h₁ r s₂ h₂ => ?_⟩
      obtain ⟨hguar, hrest⟩ := hsafe.2 s₁ h₁ r s₂ h₂
      exact ⟨hguar, ih r hrest⟩

theorem Safe.weaken {Q' : α → σ → Prop} (hQ : ∀ a s, Q a s → Q' a s)
    {fut : Future L Op Res α} {s : σ} (hsafe : fut.Safe T Q s) :
    fut.Safe T Q' s := by
  induction fut generalizing s with
  | ready a => exact hQ a s hsafe
  | await l op resume ih =>
      refine ⟨hsafe.1, fun s₁ h₁ r s₂ h₂ => ?_⟩
      obtain ⟨hguar, hrest⟩ := hsafe.2 s₁ h₁ r s₂ h₂
      exact ⟨hguar, ih r hrest⟩

theorem Safe.mapLocals {g : L → L} (hduring : ∀ l s, T.during l s → T.during (g l) s)
    {fut : Future L Op Res α} {s : σ} (hsafe : fut.Safe T Q s) :
    (fut.mapLocals g).Safe T Q s := by
  induction fut generalizing s with
  | ready a => exact hsafe
  | await l op resume ih =>
      refine ⟨hduring l s hsafe.1, fun s₁ h₁ r s₂ h₂ => ?_⟩
      obtain ⟨hguar, hrest⟩ := hsafe.2 s₁ h₁ r s₂ h₂
      exact ⟨hguar, ih r hrest⟩

/-- What neither others nor the operations of the future can undo holds to its
end. -/
theorem Safe.frame {F : σ → Prop} (hrely : ∀ s t, F s → T.rely s t → F t)
    (hguarantee : ∀ op r s t, F s → T.guarantee op r s t → F t)
    {fut : Future L Op Res α} {s : σ} (hsafe : fut.Safe T Q s) (hF : F s) :
    fut.Safe T (fun a t => Q a t ∧ F t) s := by
  induction fut generalizing s with
  | ready a => exact ⟨hsafe, hF⟩
  | await l op resume ih =>
      refine ⟨hsafe.1, fun s₁ h₁ r s₂ h₂ => ?_⟩
      obtain ⟨hguar, hrest⟩ := hsafe.2 s₁ h₁ r s₂ h₂
      exact ⟨hguar, ih r hrest (hguarantee op r s₁ s₂ (hrely s s₁ hF h₁) hguar)⟩

theorem Safe.during {fut : Future L Op Res α} {s : σ}
    (hsafe : fut.Safe T Q s) {l : L} (hl : fut.locals? = some l) :
    T.during l s := by
  cases fut with
  | ready a => simp [locals?] at hl
  | await l' op resume =>
      simp only [locals?, Option.some.injEq] at hl
      exact hl ▸ hsafe.1

end Future

end Async
