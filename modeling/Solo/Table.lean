/-!
# Tables

A table maps keys to values. Its entries stand in the order in which their keys first came, and a
key that comes again changes its value in place.
-/

namespace Solo

/-- A finite map, in order of first insertion. -/
structure Table (κ ν : Type) where
  entries : List (κ × ν) := []

namespace Table

variable {κ ν : Type}

instance : Inhabited (Table κ ν) := ⟨{}⟩

def empty : Table κ ν := {}

def size (t : Table κ ν) : Nat := t.entries.length

def keys (t : Table κ ν) : List κ := t.entries.map Prod.fst

/-- Adds an entry for a key that has none. -/
def push (t : Table κ ν) (k : κ) (v : ν) : Table κ ν := ⟨t.entries ++ [(k, v)]⟩

variable [DecidableEq κ]

/-- Sets the value of a key in a list of entries. -/
def put (k : κ) (v : ν) : List (κ × ν) → List (κ × ν)
  | [] => [(k, v)]
  | (k', v') :: rest => if k' = k then (k, v) :: rest else (k', v') :: put k v rest

/-- The value of a key in a list of entries. -/
def look (k : κ) : List (κ × ν) → Option ν
  | [] => none
  | (k', v) :: rest => if k' = k then some v else look k rest

def find? (t : Table κ ν) (k : κ) : Option ν := look k t.entries

def contains (t : Table κ ν) (k : κ) : Bool := (t.find? k).isSome

def insert (t : Table κ ν) (k : κ) (v : ν) : Table κ ν := ⟨put k v t.entries⟩

/-- Sets the value of a key that has none. -/
def insertNew (t : Table κ ν) (k : κ) (v : ν) : Table κ ν :=
  if t.contains k then t else t.insert k v

theorem look_put_self (k : κ) (v : ν) (es : List (κ × ν)) : look k (put k v es) = some v := by
  induction es with
  | nil => simp [put, look]
  | cons e rest ih =>
    obtain ⟨k', v'⟩ := e
    by_cases h : k' = k <;> simp [put, look, h, ih]

theorem look_put_other {k l : κ} (v : ν) (es : List (κ × ν)) (h : l ≠ k) :
    look l (put k v es) = look l es := by
  induction es with
  | nil => simp [put, look, h.symm]
  | cons e rest ih =>
    obtain ⟨k', v'⟩ := e
    by_cases hk : k' = k
    · subst hk
      simp [put, look, h.symm]
    · rw [put, if_neg hk, look, look, ih]

@[simp] theorem find?_empty (k : κ) : (empty : Table κ ν).find? k = none := rfl

@[simp] theorem find?_insert_self (t : Table κ ν) (k : κ) (v : ν) :
    (t.insert k v).find? k = some v :=
  look_put_self k v t.entries

theorem find?_insert_other (t : Table κ ν) {k l : κ} (v : ν) (h : l ≠ k) :
    (t.insert k v).find? l = t.find? l :=
  look_put_other v t.entries h

theorem find?_insert (t : Table κ ν) (k l : κ) (v : ν) :
    (t.insert k v).find? l = if l = k then some v else t.find? l := by
  split
  · next h => rw [h, find?_insert_self]
  · next h => exact find?_insert_other t v h

theorem look_append (l : κ) (es fs : List (κ × ν)) :
    look l (es ++ fs) = (look l es).or (look l fs) := by
  induction es with
  | nil => simp [look]
  | cons e rest ih =>
    obtain ⟨k, v⟩ := e
    by_cases h : k = l <;> simp [look, h, ih]

theorem find?_push (t : Table κ ν) (k l : κ) (v : ν) :
    (t.push k v).find? l = (t.find? l).or (if k = l then some v else none) := by
  rw [find?, push, look_append]
  rfl

theorem find?_push_of_some {t : Table κ ν} {k l : κ} {v w : ν} (h : t.find? l = some w) :
    (t.push k v).find? l = some w := by
  rw [find?_push, h, Option.some_or]

theorem find?_push_self {t : Table κ ν} {k : κ} {v : ν} (h : t.find? k = none) :
    (t.push k v).find? k = some v := by
  rw [find?_push, h, if_pos rfl, Option.none_or]

theorem find?_push_other {t : Table κ ν} {k l : κ} {v : ν} (h : l ≠ k) :
    (t.push k v).find? l = t.find? l := by
  rw [find?_push, if_neg (Ne.symm h), Option.or_none]

theorem look_eq_none {k : κ} {es : List (κ × ν)} : look k es = none ↔ k ∉ es.map Prod.fst := by
  induction es with
  | nil => simp [look]
  | cons e rest ih =>
    obtain ⟨k', v⟩ := e
    by_cases h : k' = k
    · simp [look, h]
    · simp [look, h, ih, Ne.symm h]

theorem nodup_keys_push {t : Table κ ν} {k : κ} {v : ν} (distinct : t.keys.Nodup)
    (new : t.find? k = none) : (t.push k v).keys.Nodup := by
  rw [keys, push, List.map_append, List.nodup_append]
  refine ⟨distinct, by simp, ?_⟩
  intro l member l' own same
  obtain rfl := List.mem_singleton.mp own
  exact look_eq_none.mp new (same ▸ member)

theorem put_of_notMem {k : κ} {v : ν} {es : List (κ × ν)} (new : k ∉ es.map Prod.fst) :
    put k v es = es ++ [(k, v)] := by
  induction es with
  | nil => rfl
  | cons e rest ih =>
    obtain ⟨k', v'⟩ := e
    rw [List.map_cons, List.mem_cons, not_or] at new
    rw [put, if_neg (Ne.symm new.1), ih new.2, List.cons_append]

/-- A key that has no value gets an entry at the end. -/
theorem insert_eq_push {t : Table κ ν} {k : κ} {v : ν} (new : t.find? k = none) :
    t.insert k v = t.push k v := by
  rw [insert, push, put_of_notMem (look_eq_none.mp new)]

omit [DecidableEq κ] in
theorem size_push (t : Table κ ν) (k : κ) (v : ν) : (t.push k v).size = t.size + 1 :=
  List.length_append

theorem contains_eq_false {t : Table κ ν} {k : κ} : t.contains k = false ↔ t.find? k = none := by
  rw [contains, Option.isSome_eq_false_iff, Option.isNone_iff_eq_none]

theorem find?_insertNew_self {t : Table κ ν} {k : κ} {v : ν} (h : t.find? k = none) :
    (t.insertNew k v).find? k = some v := by
  rw [insertNew, contains_eq_false.mpr h]
  exact find?_insert_self t k v

theorem find?_insertNew_other {t : Table κ ν} {k l : κ} {v : ν} (h : l ≠ k) :
    (t.insertNew k v).find? l = t.find? l := by
  rw [insertNew]
  split
  · rfl
  · exact find?_insert_other t v h

theorem find?_insertNew_of_some {t : Table κ ν} {k l : κ} {v w : ν} (h : t.find? l = some w) :
    (t.insertNew k v).find? l = some w := by
  rw [insertNew]
  split
  · exact h
  · next hk =>
    rw [find?_insert_other t v, h]
    rintro rfl
    simp [contains, h] at hk

/-- Only a key that has no value gets one. -/
theorem find?_insertNew_or (t : Table κ ν) (k l : κ) (v : ν) :
    (t.insertNew k v).find? l = t.find? l ∨ t.find? l = none ∧ k = l := by
  by_cases same : l = k
  · cases found : t.find? l with
    | some w => exact .inl (find?_insertNew_of_some found)
    | none => exact .inr ⟨rfl, same.symm⟩
  · exact .inl (find?_insertNew_other same)

theorem contains_insert {t : Table κ ν} {k l : κ} {v : ν} :
    (t.insert k v).contains l = true ↔ t.contains l = true ∨ l = k := by
  rw [contains, contains, find?_insert]
  split <;> simp_all

theorem contains_insertNew {t : Table κ ν} {k l : κ} {v : ν} :
    (t.insertNew k v).contains l = true ↔ t.contains l = true ∨ l = k := by
  rw [insertNew]
  split
  · next present =>
    refine ⟨.inl, fun known => known.elim id ?_⟩
    rintro rfl
    exact present
  · exact contains_insert

/-- An entry is an old one or the new one. -/
theorem find?_insertNew_entry {t : Table κ ν} {k l : κ} {v w : ν}
    (found : (t.insertNew k v).find? l = some w) : t.find? l = some w ∨ l = k ∧ w = v := by
  rw [insertNew] at found
  split at found
  · exact .inl found
  · rw [find?_insert] at found
    split at found
    · next same => exact .inr ⟨same, (Option.some.inj found).symm⟩
    · exact .inl found

theorem find?_insertNew_cases {t : Table κ ν} {k l : κ} {v w : ν}
    (found : (t.insertNew k v).find? l = some w) : t.find? l = some w ∨ w = v :=
  (find?_insertNew_entry found).imp_right And.right

end Table

end Solo
