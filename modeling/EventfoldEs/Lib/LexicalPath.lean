/-
Path texts and the directories they name once `.`, `..` and repeated separators
are resolved.  A directory is the list of its names, innermost first; the root
is the empty list and its own parent.
-/
import Mathlib.Data.Set.Finite.Basic
import Mathlib.Data.List.Basic
import Mathlib.Data.Finset.Defs
import Mathlib.Data.Set.Finite.Range

namespace LexicalPath

abbrev Name := List Char

def dot : Name := ['.']

def dotDot : Name := ['.', '.']

def isAbsolute (p : List Char) : Bool :=
  p.head? == some '/'

/-- Joining an absolute path replaces the one before it. -/
def join (p c : List Char) : List Char :=
  if isAbsolute c then c
  else if p = [] ∨ p.getLast? = some '/' then p ++ c
  else p ++ '/' :: c

/-- One component, from the directory `at'`. -/
def enter (at' : List Name) (n : Name) : List Name :=
  if n = [] ∨ n = dot then at'
  else if n = dotDot then at'.tail
  else n :: at'

def walk (at' : List Name) (ns : List Name) : List Name :=
  ns.foldl enter at'

def resolve (cwd : List Name) (p : List Char) : List Name :=
  walk (if isAbsolute p then [] else cwd) (p.splitOn '/')

/-- The same walk below a directory that it may not leave. -/
def enterWithin (at' : List Name) (n : Name) : Option (List Name) :=
  if n = [] ∨ n = dot then some at'
  else if n = dotDot then
    match at' with
    | [] => none
    | _ :: up => some up
  else some (n :: at')

def walkWithin (at' : List Name) : List Name → Option (List Name)
  | [] => some at'
  | n :: ns => (enterWithin at' n).bind fun at'' => walkWithin at'' ns

@[simp] theorem walk_cons (at' : List Name) (n : Name) (ns : List Name) :
    walk at' (n :: ns) = walk (enter at' n) ns := rfl

theorem walk_append (at' : List Name) (ns ms : List Name) :
    walk at' (ns ++ ms) = walk (walk at' ns) ms := by
  simp [walk, List.foldl_append]

theorem splitOn_of_getLast {p : List Char} (hlast : p.getLast? = some '/') :
    ∃ q, p = q ++ ['/'] ∧ p.splitOn '/' = q.splitOn '/' ++ [[]] := by
  obtain ⟨q, rfl⟩ := List.getLast?_eq_some_iff.mp hlast
  exact ⟨q, rfl, by rw [List.splitOn_append_cons_self, List.splitOn_nil]⟩

/-- A relative component is walked from where the path before it leads. -/
theorem resolve_join {cwd : List Name} {p c : List Char}
    (hc : isAbsolute c = false) :
    resolve cwd (join p c) = walk (resolve cwd p) (c.splitOn '/') := by
  unfold join
  rw [hc]
  simp only [Bool.false_eq_true, ↓reduceIte]
  by_cases hempty : p = []
  · subst hempty
    have hempty : isAbsolute [] = false := rfl
    rw [if_pos (Or.inl rfl), List.nil_append, resolve, hc, resolve, hempty]
    rfl
  · have habs : ∀ q, isAbsolute (p ++ q) = isAbsolute p := by
      intro q
      cases p with
      | nil => exact absurd rfl hempty
      | cons a p => rfl
    by_cases hlast : p.getLast? = some '/'
    · obtain ⟨q, hq, hsplit⟩ := splitOn_of_getLast hlast
      rw [if_pos (Or.inr hlast), resolve, habs, resolve, hsplit, hq,
        List.append_assoc, List.singleton_append, List.splitOn_append_cons_self,
        walk_append, walk_append]
      rfl
    · rw [if_neg (by simp [hempty, hlast]), resolve, habs,
        List.splitOn_append_cons_self, walk_append]
      rfl

theorem resolve_join_absolute {cwd : List Name} {p c : List Char}
    (hc : isAbsolute c = true) :
    resolve cwd (join p c) = walk [] (c.splitOn '/') := by
  rw [join, hc, if_pos rfl, resolve, hc, if_pos rfl]

/-- A walk only ever shows names it started with or was given. -/
theorem mem_of_mem_walk {at' ns : List Name} {n : Name} (hn : n ∈ walk at' ns) :
    n ∈ at' ∨ n ∈ ns := by
  induction ns generalizing at' with
  | nil => exact Or.inl hn
  | cons m ns ih =>
      rcases ih hn with hmem | hmem
      · unfold enter at hmem
        split at hmem
        · exact Or.inl hmem
        · split at hmem
          · exact Or.inl (List.mem_of_mem_tail hmem)
          · rcases List.mem_cons.mp hmem with rfl | hmem
            · exact Or.inr List.mem_cons_self
            · exact Or.inl hmem
      · exact Or.inr (List.mem_cons_of_mem _ hmem)

/-- A walk that stays within a directory leads to the same place below it,
wherever that directory is. -/
theorem walk_of_walkWithin {at' at'' ns : List Name}
    (hwalk : walkWithin at' ns = some at'') (below : List Name) :
    walk (at' ++ below) ns = at'' ++ below := by
  induction ns generalizing at' with
  | nil =>
      cases hwalk
      rfl
  | cons n ns ih =>
      simp only [walkWithin, Option.bind_eq_some_iff] at hwalk
      obtain ⟨mid, henter, hrest⟩ := hwalk
      have hmid : enter (at' ++ below) n = mid ++ below := by
        unfold enterWithin at henter
        unfold enter
        split at henter
        · rename_i hskip
          cases henter
          rw [if_pos hskip]
        · rename_i hskip
          rw [if_neg hskip]
          split at henter
          · rename_i hup
            rw [if_pos hup]
            cases at' with
            | nil => cases henter
            | cons a up =>
                cases henter
                rfl
          · rename_i hup
            rw [if_neg hup]
            cases henter
            rfl
      rw [walk_cons, hmid]
      exact ih hrest

/-- A walk that leaves the directory never comes back to a name it is not
given. -/
theorem not_mem_walk_of_leaves {at' ns : List Name}
    (hleaves : walkWithin at' ns = none) {home : Name} (hat : home ∉ at')
    (hns : home ∉ ns) : home ∉ walk (at' ++ [home]) ns := by
  induction ns generalizing at' with
  | nil => cases hleaves
  | cons n ns ih =>
      have hns' : home ∉ ns := fun h => hns (List.mem_cons_of_mem _ h)
      have hn : home ≠ n := fun h => hns (h ▸ List.mem_cons_self)
      simp only [walkWithin, Option.bind_eq_none_iff] at hleaves
      unfold enterWithin at hleaves
      rw [walk_cons, enter]
      split at hleaves
      · rename_i hskip
        rw [if_pos hskip]
        exact ih (hleaves _ rfl) hat hns'
      · rename_i hskip
        rw [if_neg hskip]
        split at hleaves
        · rename_i hup
          rw [if_pos hup]
          cases at' with
          | nil =>
              intro hmem
              rcases mem_of_mem_walk hmem with hmem | hmem
              · cases hmem
              · exact hns' hmem
          | cons a up =>
              exact ih (hleaves _ rfl) (fun h => hat (List.mem_cons_of_mem _ h)) hns'
        · rename_i hup
          rw [if_neg hup]
          exact ih (hleaves _ rfl) (by simp [hn, hat]) hns'

/-- For any names there is a plain one that is not among them. -/
theorem exists_fresh_name (ns : List Name) :
    ∃ home : Name, home ∉ ns ∧ '/' ∉ home ∧ home ≠ [] ∧ home ≠ dot ∧ home ≠ dotDot := by
  have hinj : Function.Injective fun k : Nat => List.replicate (k + 1) 'x' := by
    intro k k' h
    simpa using congrArg List.length h
  obtain ⟨_, ⟨k, rfl⟩, hfresh⟩ :=
    (Set.infinite_range_of_injective hinj).exists_notMem_finset ns.toFinset
  refine ⟨_, by simpa using hfresh, ?_, ?_, ?_, ?_⟩
  · intro hmem
    exact absurd (List.eq_of_mem_replicate hmem) (by decide)
  · simp
  · intro h
    exact absurd (List.cons.inj h).1 (by decide)
  · intro h
    exact absurd (List.cons.inj h).1 (by decide)

end LexicalPath
