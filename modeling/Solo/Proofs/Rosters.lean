import Mathlib.Data.List.Nodup
import Solo.Checker

/-!
# Rosters that grow

A roster only grows at its end. So an entry keeps its number, a number keeps its entry, and two
entries have the same number only if they are the same.
-/

namespace Solo

theorem getElem?_of_prefix {α : Type} {xs ys : Array α} {i : Nat} {a : α}
    (grown : xs.toList <+: ys.toList) (entry : xs[i]? = some a) : ys[i]? = some a := by
  rw [← Array.getElem?_toList] at entry ⊢
  have inside := (List.getElem?_eq_some_iff.mp entry).1
  rw [List.prefix_iff_getElem?.mp grown i inside]
  rwa [List.getElem?_eq_getElem inside] at entry

theorem nodup_of_getElem?_inj {α : Type} {xs : Array α}
    (inj : ∀ (i j : Nat) a, xs[i]? = some a → xs[j]? = some a → i = j) : xs.toList.Nodup := by
  refine List.nodup_iff_getElem?_ne_getElem?.mpr fun i j less inside same => ?_
  rw [Array.getElem?_toList, Array.getElem?_toList] at same
  rw [Array.length_toList] at inside
  have entry := Array.getElem?_eq_getElem inside
  exact Nat.ne_of_lt less (inj i j _ (same.trans entry) entry)

namespace Roster

variable {α : Type} {r r' r'' : Roster α} {a b : α} {i : Nat}

/-- What is entered stays at its place, and more may follow. -/
def Extends (r r' : Roster α) : Prop := r.entries.toList <+: r'.entries.toList

theorem Extends.refl (r : Roster α) : r.Extends r := List.prefix_rfl

theorem Extends.trans (first : r.Extends r') (second : r'.Extends r'') : r.Extends r'' :=
  List.IsPrefix.trans first second

theorem Extends.mem (grown : r.Extends r') (member : a ∈ r) : a ∈ r' :=
  Array.mem_toList_iff.mp (grown.subset (Array.mem_toList_iff.mpr member))

/-- A number leads to the same entry for ever. -/
theorem Extends.get? (grown : r.Extends r') (entry : r.get? i = some a) : r'.get? i = some a :=
  getElem?_of_prefix grown entry

/-- The numbers in use are those below the size. -/
theorem get?_isSome_iff : (r.get? i).isSome = true ↔ i < r.size := by
  rw [get?, size, isSome_getElem?]

theorem mem_iff_get? : a ∈ r ↔ ∃ i, r.get? i = some a := Array.mem_iff_getElem?

theorem get?_inj (first : r.get? i = some a) {j : Nat} (second : r.get? j = some a) : i = j := by
  rw [get?, ← Array.getElem?_toList] at first second
  obtain ⟨inside, rfl⟩ := List.getElem?_eq_some_iff.mp first
  obtain ⟨inside', same⟩ := List.getElem?_eq_some_iff.mp second
  exact ((List.Nodup.getElem_inj_iff r.nodup).mp same).symm

/-- Two numbers are the same if and only if their entries are. -/
theorem get?_eq_iff (first : r.get? i = some a) {j : Nat} (second : r.get? j = some b) :
    i = j ↔ a = b := by
  constructor
  · rintro rfl
    exact Option.some.inj (first.symm.trans second)
  · rintro rfl
    exact get?_inj first second

variable [DecidableEq α]

theorem extends_insert (r : Roster α) (a : α) : r.Extends (r.insert a) := by
  by_cases member : a ∈ r
  · rw [insert_of_mem member]
    exact .refl r
  · rw [Extends, entries_insert_of_not_mem member, Array.toList_push]
    exact List.prefix_append _ _

theorem mem_insert_self (r : Roster α) (a : α) : a ∈ r.insert a := mem_insert.mpr (.inr rfl)

theorem index?_eq_some : r.index? a = some i ↔ r.get? i = some a := by
  have leads : ∀ {j}, r.index? a = some j → r.get? j = some a := by
    intro j found
    rw [index?, Array.idxOf?_eq_map_finIdxOf?_val] at found
    obtain ⟨k, first, rfl⟩ := Option.map_eq_some_iff.mp found
    rw [get?, Array.getElem?_eq_getElem k.isLt]
    exact congrArg some (Array.finIdxOf?_eq_some_iff.mp first).1
  refine ⟨leads, fun entry => ?_⟩
  cases found : r.index? a with
  | none => exact absurd (mem_iff_get?.mpr ⟨i, entry⟩) (index?_eq_none.mp found)
  | some j => rw [get?_inj entry (leads found)]

/-! ### Entering -/

theorem enter_of_some (known : r.index? a = some i) : r.enter a = (i, r) := by
  rw [enter, number, known, insert_of_mem (mem_iff_get?.mpr ⟨i, index?_eq_some.mp known⟩)]
  rfl

theorem enter_of_none (new : r.index? a = none) : r.enter a = (r.size, r.insert a) := by
  rw [enter, number, new]
  rfl

/-- The number that an entry is given leads to it. -/
theorem enter_get? (r : Roster α) (a : α) : (r.enter a).2.get? (r.enter a).1 = some a := by
  cases known : r.index? a with
  | some i =>
    rw [enter_of_some known]
    exact index?_eq_some.mp known
  | none =>
    rw [enter_of_none known, get?, entries_insert_of_not_mem (index?_eq_none.mp known)]
    exact Array.getElem?_push_size

end Roster

end Solo
