/-
Files with names, as writers with descriptors see them: a file that was opened stays
that file when its name is given to another one.
-/
import Mathlib.Data.List.Basic
import Mathlib.Logic.Function.Basic

universe u v

/-- Which file has which name, and what is in the files.  No file has two names. -/
structure NamedFiles (ν : Type u) (β : Type v) where
  entries : ν → Option Nat
  contents : Nat → List β
  made : Nat
  bounded : ∀ n i, entries n = some i → i < made
  apart : ∀ n m i, entries n = some i → entries m = some i → n = m

namespace NamedFiles

variable {ν : Type u} {β : Type v}

/-- What is written at the beginning of a file covers what was there. -/
def overwrite (bytes old : List β) : List β := bytes ++ old.drop bytes.length

/-- No names. -/
def empty : NamedFiles ν β where
  entries _ := none
  contents _ := []
  made := 0
  bounded _ _ h := by cases h
  apart _ _ _ h := by cases h

def read (d : NamedFiles ν β) (n : ν) : Option (List β) := (d.entries n).map d.contents

def setContent (d : NamedFiles ν β) (i : Nat) (content : List β) : NamedFiles ν β :=
  { d with contents := Function.update d.contents i content }

/-- One write through a descriptor that has just been opened. -/
def write (d : NamedFiles ν β) (i : Nat) (bytes : List β) : NamedFiles ν β :=
  d.setContent i (overwrite bytes (d.contents i))

variable {d : NamedFiles ν β} {n m : ν} {i : Nat}

theorem overwrite_nil (bytes : List β) : overwrite bytes [] = bytes := by
  rw [overwrite, List.drop_nil, List.append_nil]

theorem read_of_entry (h : d.entries n = some i) : d.read n = some (d.contents i) := by
  rw [read, h]
  rfl

theorem read_setContent_ne {content : List β} (h : d.entries n ≠ some i) :
    (d.setContent i content).read n = d.read n := by
  unfold read setContent
  cases hn : d.entries n with
  | none => rfl
  | some j =>
      have hji : j ≠ i := fun hji => h (hji ▸ hn)
      exact congrArg some (Function.update_of_ne hji _ _)

/-- Writing to the file of one name does not touch what is read under another. -/
theorem read_write_ne {bytes : List β} (hn : d.entries n = some i) (h : m ≠ n) :
    (d.write i bytes).read m = d.read m :=
  read_setContent_ne fun hm => h (d.apart m n i hm hn)

theorem write_content (bytes : List β) :
    (d.write i bytes).contents i = overwrite bytes (d.contents i) :=
  Function.update_self _ _ _

theorem write_other (bytes : List β) {j : Nat} (h : j ≠ i) :
    (d.write i bytes).contents j = d.contents j :=
  Function.update_of_ne h _ _

variable [DecidableEq ν]

/-- A new file under the name. -/
def link (d : NamedFiles ν β) (n : ν) : NamedFiles ν β where
  entries := Function.update d.entries n (some d.made)
  contents := d.contents
  made := d.made + 1
  bounded m i hm := by
    by_cases hmn : m = n
    · subst hmn
      rw [Function.update_self] at hm
      cases hm
      exact Nat.lt_succ_self _
    · rw [Function.update_of_ne hmn] at hm
      exact Nat.lt_succ_of_lt (d.bounded m i hm)
  apart m k i hm hk := by
    by_cases hmn : m = n
    · by_cases hkn : k = n
      · rw [hmn, hkn]
      · rw [hmn, Function.update_self] at hm
        rw [Function.update_of_ne hkn] at hk
        cases hm
        exact absurd (d.bounded k _ hk) (Nat.lt_irrefl _)
    · by_cases hkn : k = n
      · rw [hkn, Function.update_self] at hk
        rw [Function.update_of_ne hmn] at hm
        cases hk
        exact absurd (d.bounded m _ hm) (Nat.lt_irrefl _)
      · rw [Function.update_of_ne hmn] at hm
        rw [Function.update_of_ne hkn] at hk
        exact d.apart m k i hm hk

/-- The file named `n`, if any, is named `m` from now on. -/
def move (d : NamedFiles ν β) (n m : ν) : NamedFiles ν β where
  entries := Function.update (Function.update d.entries n none) m (d.entries n)
  contents := d.contents
  made := d.made
  bounded k i hk := by
    by_cases hkm : k = m
    · rw [hkm, Function.update_self] at hk
      exact d.bounded n i hk
    · rw [Function.update_of_ne hkm] at hk
      by_cases hkn : k = n
      · rw [hkn, Function.update_self] at hk
        cases hk
      · rw [Function.update_of_ne hkn] at hk
        exact d.bounded k i hk
  apart k l i hk hl := by
    have hother : ∀ a, a ≠ m → Function.update (Function.update d.entries n none) m
        (d.entries n) a = some i → a ≠ n ∧ d.entries a = some i := by
      intro a ham ha
      rw [Function.update_of_ne ham] at ha
      by_cases han : a = n
      · rw [han, Function.update_self] at ha
        cases ha
      · rw [Function.update_of_ne han] at ha
        exact ⟨han, ha⟩
    by_cases hkm : k = m
    · by_cases hlm : l = m
      · rw [hkm, hlm]
      · rw [hkm, Function.update_self] at hk
        obtain ⟨hln, hl'⟩ := hother l hlm hl
        exact absurd (d.apart l n i hl' hk) hln
    · obtain ⟨hkn, hk'⟩ := hother k hkm hk
      by_cases hlm : l = m
      · rw [hlm, Function.update_self] at hl
        exact absurd (d.apart k n i hk' hl) hkn
      · exact d.apart k l i hk' (hother l hlm hl).2

/-- Open for writing: the file is emptied, or made if there is none of that name. -/
def create (d : NamedFiles ν β) (n : ν) : Nat × NamedFiles ν β :=
  match d.entries n with
  | some i => (i, d.setContent i [])
  | none => (d.made, (d.link n).setContent d.made [])

def rename (d : NamedFiles ν β) (n m : ν) : Option (NamedFiles ν β) :=
  if (d.entries n).isSome then some (d.move n m) else none

/-- The name leads to the file that was opened. -/
theorem create_entry : (d.create n).2.entries n = some (d.create n).1 := by
  unfold create
  cases h : d.entries n with
  | none => exact Function.update_self n _ _
  | some i => exact h

theorem create_content : (d.create n).2.contents (d.create n).1 = [] := by
  unfold create
  cases d.entries n with
  | none => exact Function.update_self _ _ _
  | some i => exact Function.update_self _ _ _

/-- The other files stay as they are. -/
theorem create_other (h : i ≠ (d.create n).1) :
    (d.create n).2.contents i = d.contents i := by
  unfold create at h ⊢
  cases hn : d.entries n with
  | none =>
      rw [hn] at h
      exact Function.update_of_ne h _ _
  | some j =>
      rw [hn] at h
      exact Function.update_of_ne h _ _

/-- Opening one name does not touch what is read under another. -/
theorem read_create_ne (h : m ≠ n) : (d.create n).2.read m = d.read m := by
  unfold create
  cases hn : d.entries n with
  | some i => exact read_setContent_ne fun hm => h (d.apart m n i hm hn)
  | none =>
      have hentry : (d.link n).entries m = d.entries m := Function.update_of_ne h _ _
      have hfresh : (d.link n).entries m ≠ some d.made := by
        rw [hentry]
        exact fun hm => Nat.lt_irrefl _ (d.bounded m _ hm)
      refine (read_setContent_ne hfresh).trans ?_
      rw [read, hentry]
      rfl

/-- A file that is opened and written holds what was written, and the others are kept. -/
theorem read_written (bytes : List β) :
    ((d.create n).2.write (d.create n).1 bytes).read n = some bytes := by
  have hentry : ((d.create n).2.write (d.create n).1 bytes).entries n = some (d.create n).1 :=
    create_entry
  rw [read_of_entry hentry, write_content, create_content, overwrite_nil]

theorem read_written_ne (bytes : List β) (h : m ≠ n) :
    ((d.create n).2.write (d.create n).1 bytes).read m = d.read m :=
  (read_write_ne create_entry h).trans (read_create_ne h)

theorem rename_cases {d' : NamedFiles ν β} (h : d.rename n m = some d') :
    d' = d.move n m ∧ ∃ i, d.entries n = some i := by
  unfold rename at h
  split at h
  · rename_i hsome
    exact ⟨(Option.some.inj h).symm, Option.isSome_iff_exists.mp hsome⟩
  · cases h

theorem rename_of_entry (h : d.entries n = some i) : d.rename n m = some (d.move n m) := by
  rw [rename, h]
  rfl

/-- What had the first name is read under the second. -/
theorem read_move : (d.move n m).read m = d.read n :=
  congrArg (Option.map d.contents) (Function.update_self m _ _)

theorem read_moved_from (h : n ≠ m) : (d.move n m).read n = none := by
  have hentry : (d.move n m).entries n = none :=
    (Function.update_of_ne h _ _).trans (Function.update_self n _ _)
  rw [read, hentry]
  rfl

end NamedFiles
