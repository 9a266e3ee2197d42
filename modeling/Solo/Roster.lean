/-!
# Rosters

A roster numbers distinct entries by their arrival: the first entry is 0, the next new one 1, and
an entry that comes again keeps its number. Names are numbered this way.
-/

namespace Solo

/-- Distinct entries in order of arrival. -/
structure Roster (α : Type) where
  entries : Array α
  nodup : entries.toList.Nodup

namespace Roster

variable {α : Type}

def empty : Roster α := ⟨#[], by simp⟩

instance : Inhabited (Roster α) := ⟨empty⟩

def size (r : Roster α) : Nat := r.entries.size

def isEmpty (r : Roster α) : Bool := r.size == 0

def get? (r : Roster α) (i : Nat) : Option α := r.entries[i]?

instance : Membership α (Roster α) := ⟨fun r a => a ∈ r.entries⟩

theorem mem_def {a : α} {r : Roster α} : a ∈ r ↔ a ∈ r.entries := Iff.rfl

variable [DecidableEq α]

def index? (r : Roster α) (a : α) : Option Nat := r.entries.idxOf? a

/-- Adds an entry unless it is there. -/
def insert (r : Roster α) (a : α) : Roster α :=
  if h : a ∈ r.entries then r
  else
    ⟨r.entries.push a, by
      rw [Array.toList_push, List.nodup_append]
      refine ⟨r.nodup, by simp, ?_⟩
      intro x hx y hy
      obtain rfl := List.mem_singleton.mp hy
      rintro rfl
      exact h (Array.mem_toList_iff.mp hx)⟩

/-- The number an entry has, or gets when it is added now. -/
def number (r : Roster α) (a : α) : Nat := (r.index? a).getD r.size

/-- The number of an entry, which is added if it is not there. -/
def enter (r : Roster α) (a : α) : Nat × Roster α := (r.number a, r.insert a)

/-- The entries of a list, each at its first place. -/
def ofList (as : List α) : Roster α := as.foldl insert empty

theorem insert_of_mem {a : α} {r : Roster α} (h : a ∈ r) : r.insert a = r := by
  rw [insert, dif_pos (mem_def.mp h)]

theorem entries_insert_of_not_mem {a : α} {r : Roster α} (h : ¬a ∈ r) :
    (r.insert a).entries = r.entries.push a := by
  rw [insert, dif_neg (fun m => h (mem_def.mpr m))]

theorem mem_insert {a b : α} {r : Roster α} : b ∈ r.insert a ↔ b ∈ r ∨ b = a := by
  by_cases h : a ∈ r
  · rw [insert_of_mem h]
    constructor
    · exact Or.inl
    · rintro (m | rfl)
      · exact m
      · exact h
  · rw [mem_def, entries_insert_of_not_mem h, Array.mem_push, mem_def]

theorem index?_eq_none {a : α} {r : Roster α} : r.index? a = none ↔ ¬a ∈ r := by
  rw [index?, Array.idxOf?_eq_none_iff, mem_def]

end Roster

end Solo
