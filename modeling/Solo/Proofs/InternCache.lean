import Solo.InternCache
import Solo.Proofs.Rosters

/-!
# Tables of literals and types that agree

An `InternCache` has two arrays and three tables. In a `Consistent` one the tables find exactly what
the arrays hold, so no literal and no type is entered twice and every entry is numbered by its
place. Each operation keeps the cache consistent and only adds to it; what it gives is the number
that a roster gives to the same entry.
-/

namespace Solo

theorem Kind.mem_all (k : Kind) : k ∈ Kind.all := by cases k <;> decide

namespace InternCache

/-- The tables find what the arrays hold, and nothing else. -/
structure Consistent (c : InternCache) : Prop where
  /-- Types are numbered by their places. -/
  number : ∀ i (e : TypeEntry), c.types[i]? = some e → e.id = i
  /-- The types of kinds come first, each once. -/
  kind : ∀ k, ⟨Kind.all.idxOf k, .intrinsic k⟩ ∈ c.types
  kinds : ∀ e ∈ c.types, ∀ k, e.form = .intrinsic k → e.id = Kind.all.idxOf k
  /-- A singleton holds the number of its literal. -/
  literals : ∀ e ∈ c.types, ∀ i v, e.form = .literal i v → c.literals[i]? = some v
  literalIds : ∀ v i, c.literalIds.find? v = some i ↔ c.literals[i]? = some v
  literalTypes : ∀ i e,
    c.literalTypes.find? i = some e ↔ e ∈ c.types ∧ ∃ v, e.form = .literal i v
  pathTypes : ∀ x e, c.pathTypes.find? x = some e ↔ e ∈ c.types ∧ e.form = .path x

/-- What is entered stays at its place, and more may follow. -/
structure Extends (c c' : InternCache) : Prop where
  literals : c.literals.toList <+: c'.literals.toList
  types : c.types.toList <+: c'.types.toList

variable {c c' c'' : InternCache} {e e' : TypeEntry} {i j : Nat} {v w : Literal} {x : SymbolId}
  {t : Ty}

/-! ### Entries that stay -/

namespace Extends

theorem refl (c : InternCache) : c.Extends c := ⟨List.prefix_rfl, List.prefix_rfl⟩

theorem trans (first : c.Extends c') (second : c'.Extends c'') : c.Extends c'' :=
  ⟨first.literals.trans second.literals, first.types.trans second.types⟩

theorem literal (grown : c.Extends c') (entry : c.literals[i]? = some v) :
    c'.literals[i]? = some v :=
  getElem?_of_prefix grown.literals entry

theorem type (grown : c.Extends c') (entry : c.types[i]? = some e) : c'.types[i]? = some e :=
  getElem?_of_prefix grown.types entry

theorem mem (grown : c.Extends c') (member : e ∈ c.types) : e ∈ c'.types :=
  Array.mem_toList_iff.mp (grown.types.subset (Array.mem_toList_iff.mpr member))

end Extends

/-! ### What consistency tells -/

namespace Consistent

variable (ok : c.Consistent)
include ok

theorem at_id (member : e ∈ c.types) : c.types[e.id]? = some e := by
  obtain ⟨i, entry⟩ := Array.mem_iff_getElem?.mp member
  rwa [ok.number i e entry]

theorem id_inj (first : e ∈ c.types) (second : e' ∈ c.types) (same : e.id = e'.id) : e = e' := by
  have entry := ok.at_id first
  rw [same, ok.at_id second] at entry
  exact (Option.some.inj entry).symm

/-- Literals with one number are the same, and a literal has one number. -/
theorem literal_eq_iff (first : c.literals[i]? = some v) (second : c.literals[j]? = some w) :
    i = j ↔ v = w := by
  constructor
  · rintro rfl
    exact Option.some.inj (first.symm.trans second)
  · rintro rfl
    rw [← ok.literalIds] at first second
    exact Option.some.inj (first.symm.trans second)

/-- What an entry is made of is found again by the tables. -/
theorem entry?_ty (member : e ∈ c.types) : c.entry? e.ty = some e := by
  obtain ⟨id, form⟩ := e
  cases form with
  | intrinsic k =>
    obtain rfl : id = Kind.all.idxOf k := ok.kinds _ member k rfl
    exact ok.at_id member
  | literal i v =>
    have known := (ok.literalIds v i).mpr (ok.literals _ member i v rfl)
    simp only [TypeEntry.ty, entry?, known, Option.bind_some]
    exact (ok.literalTypes i _).mpr ⟨member, v, rfl⟩
  | path x => exact (ok.pathTypes x _).mpr ⟨member, rfl⟩

theorem ty_inj (first : e ∈ c.types) (second : e' ∈ c.types) (same : e.ty = e'.ty) : e = e' := by
  have found := ok.entry?_ty first
  rw [same, ok.entry?_ty second] at found
  exact (Option.some.inj found).symm

theorem ty_eq_iff (first : e ∈ c.types) (second : e' ∈ c.types) : e.ty = e'.ty ↔ e.id = e'.id :=
  ⟨fun same => congrArg TypeEntry.id (ok.ty_inj first second same),
    fun same => congrArg TypeEntry.ty (ok.id_inj first second same)⟩

/-- The entry of a type is one of this type. -/
theorem entry?_spec (found : c.entry? t = some e) : e ∈ c.types ∧ e.ty = t := by
  obtain ⟨id, form⟩ := e
  cases t with
  | intrinsic k =>
    cases found.symm.trans (ok.at_id (ok.kind k))
    exact ⟨ok.kind k, rfl⟩
  | literal v =>
    obtain ⟨i, known, type⟩ := Option.bind_eq_some_iff.mp found
    obtain ⟨member, w, rfl⟩ := (ok.literalTypes i _).mp type
    cases ((ok.literalIds v i).mp known).symm.trans (ok.literals _ member i w rfl)
    exact ⟨member, rfl⟩
  | path x =>
    obtain ⟨member, rfl⟩ := (ok.pathTypes x _).mp found
    exact ⟨member, rfl⟩

/-- Entries are compared by what they are made of, which comes to comparing their numbers. -/
theorem equal_iff (first : e ∈ c.types) (second : e' ∈ c.types) :
    e.equal e' = true ↔ e.id = e'.id := by
  constructor
  · intro same
    obtain ⟨id, form⟩ := e
    obtain ⟨id', form'⟩ := e'
    cases form <;> cases form' <;>
      simp only [TypeEntry.equal, beq_iff_eq, Bool.false_eq_true] at same
    case intrinsic.intrinsic => exact same
    case literal.literal i v j w =>
      subst same
      have found := (ok.literalTypes i _).mpr ⟨second, w, rfl⟩
      rw [(ok.literalTypes i _).mpr ⟨first, v, rfl⟩] at found
      exact congrArg TypeEntry.id (Option.some.inj found)
    case path.path x y =>
      subst same
      have found := (ok.pathTypes x _).mpr ⟨second, rfl⟩
      rw [(ok.pathTypes x _).mpr ⟨first, rfl⟩] at found
      exact congrArg TypeEntry.id (Option.some.inj found)
  · intro same
    obtain rfl := ok.id_inj first second same
    obtain ⟨id, form⟩ := e
    cases form <;> simp [TypeEntry.equal]

end Consistent

/-! ### Entering -/

theorem mem_newType {form : TypeForm} :
    e ∈ (c.newType form).2.types ↔ e ∈ c.types ∨ e = ⟨c.types.size, form⟩ :=
  Array.mem_push

theorem prefix_push {α : Type} (xs : Array α) (a : α) : xs.toList <+: (xs.push a).toList := by
  rw [Array.toList_push]
  exact List.prefix_append _ _

/-- A literal has its number, or is entered as the last one. -/
theorem internLiteral_cases (c : InternCache) (v : Literal) :
    (∃ i, c.literalIds.find? v = some i ∧ c.internLiteral v = (i, c)) ∨
      c.literalIds.find? v = none ∧ c.internLiteral v = (c.literals.size,
        { c with
          literals := c.literals.push v
          literalIds := c.literalIds.insert v c.literals.size }) := by
  cases known : c.literalIds.find? v with
  | some i => exact .inl ⟨i, rfl, by rw [internLiteral, known]⟩
  | none => exact .inr ⟨rfl, by rw [internLiteral, known]⟩

theorem internLiteral_extends (c : InternCache) (v : Literal) :
    c.Extends (c.internLiteral v).2 := by
  rcases c.internLiteral_cases v with ⟨i, _, same⟩ | ⟨_, same⟩ <;> rw [same]
  · exact .refl c
  · exact ⟨prefix_push _ _, List.prefix_rfl⟩

@[simp] theorem internLiteral_types (c : InternCache) (v : Literal) :
    (c.internLiteral v).2.types = c.types := by
  rcases c.internLiteral_cases v with ⟨i, _, same⟩ | ⟨_, same⟩ <;> rw [same]

namespace Consistent

variable (ok : c.Consistent)
include ok

theorem internLiteral_entry (v : Literal) :
    (c.internLiteral v).2.literals[(c.internLiteral v).1]? = some v := by
  rcases c.internLiteral_cases v with ⟨i, known, same⟩ | ⟨_, same⟩ <;> rw [same]
  · exact (ok.literalIds v i).mp known
  · exact Array.getElem?_push_size

theorem internLiteral (v : Literal) : (c.internLiteral v).2.Consistent := by
  have grown := c.internLiteral_extends v
  rcases c.internLiteral_cases v with ⟨i, _, same⟩ | ⟨new, same⟩ <;> rw [same] at grown ⊢
  · exact ok
  exact { ok with
    literals := fun e member i w form => grown.literal (ok.literals e member i w form)
    literalIds := fun w i => by
      have place := ok.literalIds w i
      rw [Table.find?_insert, Array.getElem?_push]
      by_cases last : i = c.literals.size
      · subst last
        by_cases own : w = v
        · simp [own]
        · have outside : c.literals[c.literals.size]? = none := Array.getElem?_size
          rw [outside] at place
          simp [own, Ne.symm own, place]
      · by_cases own : w = v
        · subst own
          rw [new] at place
          simp [last, Ne.symm last, ← place]
        · simp [own, last, place] }

theorem newType {form : TypeForm} (plain : ∀ k, form ≠ .intrinsic k)
    (entered : ∀ i v, form = .literal i v → c.literals[i]? = some v)
    (literalTypes : Table LiteralId TypeEntry) (pathTypes : Table SymbolId TypeEntry)
    (ofLiteral : ∀ i e, literalTypes.find? i = some e ↔
      c.literalTypes.find? i = some e ∨ e = ⟨c.types.size, form⟩ ∧ ∃ v, form = .literal i v)
    (ofPath : ∀ x e, pathTypes.find? x = some e ↔
      c.pathTypes.find? x = some e ∨ e = ⟨c.types.size, form⟩ ∧ form = .path x) :
    Consistent { (c.newType form).2 with literalTypes, pathTypes } where
  number i e entry := by
    change (c.types.push ⟨c.types.size, form⟩)[i]? = some e at entry
    rw [Array.getElem?_push] at entry
    split at entry
    · next last =>
      cases entry
      exact last.symm
    · exact ok.number i e entry
  kind k := mem_newType.mpr (.inl (ok.kind k))
  kinds e member k kind := by
    rcases mem_newType.mp member with old | rfl
    · exact ok.kinds e old k kind
    · exact absurd kind (plain k)
  literals e member i v literal := by
    rcases mem_newType.mp member with old | rfl
    · exact ok.literals e old i v literal
    · exact entered i v literal
  literalIds := ok.literalIds
  literalTypes i e := by
    rw [ofLiteral, ok.literalTypes, mem_newType, or_and_right]
    refine or_congr_right (and_congr_right ?_)
    rintro rfl
    rfl
  pathTypes x e := by
    rw [ofPath, ok.pathTypes, mem_newType, or_and_right]
    refine or_congr_right (and_congr_right ?_)
    rintro rfl
    rfl

end Consistent

/-- The singleton of a literal is there, or is entered as the last type. -/
theorem literalType_cases (c : InternCache) (v : Literal) :
    (∃ e, (c.internLiteral v).2.literalTypes.find? (c.internLiteral v).1 = some e ∧
        c.literalType v = (e, (c.internLiteral v).2)) ∨
      (c.internLiteral v).2.literalTypes.find? (c.internLiteral v).1 = none ∧
        c.literalType v = (⟨c.types.size, .literal (c.internLiteral v).1 v⟩,
          { ((c.internLiteral v).2.newType (.literal (c.internLiteral v).1 v)).2 with
            literalTypes := (c.internLiteral v).2.literalTypes.insert (c.internLiteral v).1
              ⟨c.types.size, .literal (c.internLiteral v).1 v⟩ }) := by
  cases found : (c.internLiteral v).2.literalTypes.find? (c.internLiteral v).1 with
  | some e => exact .inl ⟨e, rfl, by simp only [literalType, found]⟩
  | none => exact .inr ⟨rfl, by simp only [literalType, found, newType, internLiteral_types]⟩

theorem pathType_cases (c : InternCache) (x : SymbolId) :
    (∃ e, c.pathTypes.find? x = some e ∧ c.pathType x = (e, c)) ∨
      c.pathTypes.find? x = none ∧ c.pathType x = (⟨c.types.size, .path x⟩,
        { (c.newType (.path x)).2 with
          pathTypes := c.pathTypes.insert x ⟨c.types.size, .path x⟩ }) := by
  cases found : c.pathTypes.find? x with
  | some e => exact .inl ⟨e, rfl, by simp only [pathType, found]⟩
  | none => exact .inr ⟨rfl, by simp only [pathType, found, newType]⟩

theorem literalType_extends (c : InternCache) (v : Literal) : c.Extends (c.literalType v).2 := by
  have grown := c.internLiteral_extends v
  rcases c.literalType_cases v with ⟨e, _, same⟩ | ⟨_, same⟩ <;> rw [same]
  · exact grown
  · exact grown.trans ⟨List.prefix_rfl, prefix_push _ _⟩

theorem pathType_extends (c : InternCache) (x : SymbolId) : c.Extends (c.pathType x).2 := by
  rcases c.pathType_cases x with ⟨e, _, same⟩ | ⟨_, same⟩ <;> rw [same]
  · exact .refl c
  · exact ⟨List.prefix_rfl, prefix_push _ _⟩

/-- No literal is entered but the one that a singleton is asked for. -/
theorem literalType_literals (c : InternCache) (v : Literal) :
    (c.literalType v).2.literals = (c.internLiteral v).2.literals := by
  rcases c.literalType_cases v with ⟨e, _, same⟩ | ⟨_, same⟩
  · rw [same]
  · rw [same]
    rfl

@[simp] theorem pathType_literals (c : InternCache) (x : SymbolId) :
    (c.pathType x).2.literals = c.literals := by
  rcases c.pathType_cases x with ⟨e, _, same⟩ | ⟨_, same⟩
  · rw [same]
  · rw [same]
    rfl

/-- Only the singleton that is asked for is entered. -/
theorem literalType_types (c : InternCache) (v : Literal) :
    (c.literalType v).2.types = c.types ∨
      (c.literalType v).2.types = c.types.push (c.literalType v).1 := by
  rcases c.literalType_cases v with ⟨e, _, same⟩ | ⟨_, same⟩
  · rw [same]
    exact .inl (c.internLiteral_types v)
  · rw [same, ← c.internLiteral_types v]
    exact .inr rfl

theorem pathType_types (c : InternCache) (x : SymbolId) :
    (c.pathType x).2.types = c.types ∨
      (c.pathType x).2.types = c.types.push (c.pathType x).1 := by
  rcases c.pathType_cases x with ⟨e, _, same⟩ | ⟨_, same⟩
  · rw [same]
    exact .inl rfl
  · rw [same]
    exact .inr rfl

theorem mem_literalType (member : e ∈ (c.literalType v).2.types) :
    e ∈ c.types ∨ e.ty = .literal v := by
  rcases c.literalType_cases v with ⟨e', _, same⟩ | ⟨_, same⟩ <;> rw [same] at member
  · exact .inl (c.internLiteral_types v ▸ member)
  · rcases mem_newType.mp member with old | rfl
    · exact .inl (c.internLiteral_types v ▸ old)
    · exact .inr rfl

theorem mem_pathType (member : e ∈ (c.pathType x).2.types) : e ∈ c.types ∨ e.ty = .path x := by
  rcases c.pathType_cases x with ⟨e', _, same⟩ | ⟨_, same⟩ <;> rw [same] at member
  · exact .inl member
  · rcases mem_newType.mp member with old | rfl
    · exact .inl old
    · exact .inr rfl

theorem mem_literals_internLiteral :
    w ∈ (c.internLiteral v).2.literals → w ∈ c.literals ∨ w = v := by
  rcases c.internLiteral_cases v with ⟨i, _, same⟩ | ⟨_, same⟩ <;> rw [same]
  · exact .inl
  · exact Array.mem_push.mp

namespace Consistent

variable (ok : c.Consistent)
include ok

theorem literalType (v : Literal) : (c.literalType v).2.Consistent := by
  have entered := ok.internLiteral v
  have entry := ok.internLiteral_entry v
  rcases c.literalType_cases v with ⟨e, _, same⟩ | ⟨new, same⟩ <;> rw [same]
  · exact entered
  · refine entered.newType (by rintro k ⟨⟩) (fun i w literal => ?_) _ _ (fun i e => ?_) fun x e => ?_
    · cases literal
      exact entry
    · rw [Table.find?_insert, internLiteral_types]
      by_cases own : i = (c.internLiteral v).1
      · subst own
        simp [new, eq_comm]
      · simp [own, Ne.symm own]
    · refine ⟨.inl, ?_⟩
      rintro (found | ⟨_, ⟨⟩⟩)
      exact found

theorem pathType (x : SymbolId) : (c.pathType x).2.Consistent := by
  rcases c.pathType_cases x with ⟨e, _, same⟩ | ⟨new, same⟩ <;> rw [same]
  · exact ok
  · refine ok.newType (by rintro k ⟨⟩) (by rintro i v ⟨⟩) _ _ (fun i e => ?_) fun y e => ?_
    · refine ⟨.inl, ?_⟩
      rintro (found | ⟨_, _, ⟨⟩⟩)
      exact found
    · rw [Table.find?_insert]
      by_cases own : y = x
      · subst own
        simp [new, eq_comm]
      · simp [own, Ne.symm own]

/-- The entry that a literal's singleton gets is one of this singleton. -/
theorem literalType_entry (v : Literal) :
    (c.literalType v).1 ∈ (c.literalType v).2.types ∧ (c.literalType v).1.ty = .literal v := by
  have entry := ok.internLiteral_entry v
  rcases c.literalType_cases v with ⟨e, found, same⟩ | ⟨_, same⟩ <;> rw [same]
  · obtain ⟨member, w, form⟩ := ((ok.internLiteral v).literalTypes _ _).mp found
    cases ((ok.internLiteral v).literals e member _ w form).symm.trans entry
    exact ⟨member, by rw [TypeEntry.ty, form]⟩
  · exact ⟨mem_newType.mpr (.inr (by rw [internLiteral_types])), rfl⟩

theorem pathType_entry (x : SymbolId) :
    (c.pathType x).1 ∈ (c.pathType x).2.types ∧ (c.pathType x).1.ty = .path x := by
  rcases c.pathType_cases x with ⟨e, found, same⟩ | ⟨_, same⟩ <;> rw [same]
  · obtain ⟨member, form⟩ := (ok.pathTypes x e).mp found
    exact ⟨member, by rw [TypeEntry.ty, form]⟩
  · exact ⟨mem_newType.mpr (.inr rfl), rfl⟩

end Consistent

theorem mem_start : e ∈ start.types ↔ ∃ k, e = ⟨Kind.all.idxOf k, .intrinsic k⟩ := by
  have types : start.types = (Kind.all.map fun k => ⟨Kind.all.idxOf k, .intrinsic k⟩).toArray := by
    decide
  rw [types, List.mem_toArray, List.mem_map]
  exact ⟨fun ⟨k, _, same⟩ => ⟨k, same.symm⟩, fun ⟨k, same⟩ => ⟨k, k.mem_all, same.symm⟩⟩

theorem start_consistent : start.Consistent where
  number i e entry := by
    have places : ∀ i : Fin start.types.size, start.types[i].id = i := by decide
    obtain ⟨inside, rfl⟩ := Array.getElem?_eq_some_iff.mp entry
    exact places ⟨i, inside⟩
  kind k := mem_start.mpr ⟨k, rfl⟩
  kinds e member k kind := by
    obtain ⟨k', rfl⟩ := mem_start.mp member
    cases kind
    rfl
  literals e member i v literal := by
    obtain ⟨k, rfl⟩ := mem_start.mp member
    cases literal
  literalIds v i := ⟨nofun, nofun⟩
  literalTypes i e := by
    refine ⟨nofun, ?_⟩
    rintro ⟨member, v, literal⟩
    obtain ⟨k, rfl⟩ := mem_start.mp member
    cases literal
  pathTypes x e := by
    refine ⟨nofun, ?_⟩
    rintro ⟨member, path⟩
    obtain ⟨k, rfl⟩ := mem_start.mp member
    cases path

/-! ### Rosters of literals and types -/

/-- The arrays of a cache as rosters. -/
structure Abstracts (c : InternCache) (ls : Roster Literal) (ts : Roster Ty) : Prop where
  literals : ls.entries = c.literals
  types : ts.entries = c.types.map (·.ty)

theorem getElem?_map_ty {types : Array TypeEntry} :
    (types.map (·.ty))[i]? = some t ↔ ∃ e, types[i]? = some e ∧ e.ty = t := by
  rw [Array.getElem?_map, Option.map_eq_some_iff]

theorem Consistent.exists_rosters (ok : c.Consistent) : ∃ ls ts, c.Abstracts ls ts := by
  have literals : c.literals.toList.Nodup :=
    nodup_of_getElem?_inj fun i j v first second => (ok.literal_eq_iff first second).mpr rfl
  have types : (c.types.map (·.ty)).toList.Nodup := by
    refine nodup_of_getElem?_inj fun i j t first second => ?_
    obtain ⟨e, entry, same⟩ := getElem?_map_ty.mp first
    obtain ⟨e', entry', rfl⟩ := getElem?_map_ty.mp second
    have one := ok.ty_inj (Array.mem_of_getElem? entry) (Array.mem_of_getElem? entry') same
    rw [← ok.number i e entry, ← ok.number j e' entry', one]
  exact ⟨⟨_, literals⟩, ⟨_, types⟩, rfl, rfl⟩

namespace Abstracts

variable {ls : Roster Literal} {ts : Roster Ty}

theorem index?_literal (abs : c.Abstracts ls ts) (ok : c.Consistent) (v : Literal) :
    ls.index? v = c.literalIds.find? v := by
  refine Option.ext fun i => ?_
  rw [Roster.index?_eq_some, Roster.get?, abs.literals, ok.literalIds]

theorem index?_type (abs : c.Abstracts ls ts) (ok : c.Consistent) (t : Ty) :
    ts.index? t = (c.entry? t).map (·.id) := by
  refine Option.ext fun i => ?_
  rw [Roster.index?_eq_some, Roster.get?, abs.types, getElem?_map_ty, Option.map_eq_some_iff]
  constructor
  · rintro ⟨e, entry, rfl⟩
    exact ⟨e, ok.entry?_ty (Array.mem_of_getElem? entry), ok.number i e entry⟩
  · rintro ⟨e, found, rfl⟩
    obtain ⟨member, rfl⟩ := ok.entry?_spec found
    exact ⟨e, ok.at_id member, rfl⟩

theorem internLiteral (abs : c.Abstracts ls ts) (ok : c.Consistent) (v : Literal) :
    (c.internLiteral v).1 = (ls.enter v).1 ∧
      (c.internLiteral v).2.Abstracts (ls.enter v).2 ts := by
  have index := abs.index?_literal ok v
  rcases c.internLiteral_cases v with ⟨i, known, same⟩ | ⟨new, same⟩ <;> rw [same]
  · rw [known] at index
    rw [Roster.enter_of_some index]
    exact ⟨rfl, abs⟩
  · rw [new] at index
    rw [Roster.enter_of_none index]
    refine ⟨by rw [Roster.size, abs.literals], ⟨?_, abs.types⟩⟩
    rw [Roster.entries_insert_of_not_mem (Roster.index?_eq_none.mp index), abs.literals]

/-- A type is entered as in a roster, whether it is there or comes last. -/
theorem enter (abs : c.Abstracts ls ts) (ok : c.Consistent) (ok' : c'.Consistent)
    (member : e ∈ c'.types) (step : c'.types = c.types ∨ c'.types = c.types.push e) :
    e.id = (ts.enter e.ty).1 ∧ (ts.enter e.ty).2.entries = c'.types.map (·.ty) := by
  have index := abs.index?_type ok e.ty
  rcases step with same | last
  · rw [same] at member ⊢
    rw [ok.entry?_ty member] at index
    rw [Roster.enter_of_some index]
    exact ⟨rfl, abs.types⟩
  · have place : c'.types[c.types.size]? = some e := by
      rw [last]
      exact Array.getElem?_push_size
    have new : c.entry? e.ty = none := by
      by_contra known
      obtain ⟨e', found⟩ := Option.ne_none_iff_exists'.mp known
      obtain ⟨old, same⟩ := ok.entry?_spec found
      have inside := (Array.getElem?_eq_some_iff.mp (ok.at_id old)).1
      obtain rfl := ok'.ty_inj (last ▸ Array.mem_push_of_mem e old) member same
      exact Nat.lt_irrefl _ (ok'.number _ _ place ▸ inside)
    rw [new] at index
    rw [Roster.enter_of_none index, last]
    refine ⟨?_, ?_⟩
    · rw [ok'.number _ e place, Roster.size, abs.types, Array.size_map]
    · rw [Roster.entries_insert_of_not_mem (Roster.index?_eq_none.mp index), abs.types,
        Array.map_push]

theorem literalType (abs : c.Abstracts ls ts) (ok : c.Consistent) (v : Literal) :
    (c.literalType v).1.id = (ts.enter (.literal v)).1 ∧
      (c.literalType v).2.Abstracts (ls.enter v).2 (ts.enter (.literal v)).2 := by
  obtain ⟨member, own⟩ := ok.literalType_entry v
  obtain ⟨id, entries⟩ := abs.enter ok (ok.literalType v) member (c.literalType_types v)
  rw [own] at id entries
  refine ⟨id, ⟨?_, entries⟩⟩
  rw [literalType_literals, (abs.internLiteral ok v).2.literals]

theorem pathType (abs : c.Abstracts ls ts) (ok : c.Consistent) (x : SymbolId) :
    (c.pathType x).1.id = (ts.enter (.path x)).1 ∧
      (c.pathType x).2.Abstracts ls (ts.enter (.path x)).2 := by
  obtain ⟨member, own⟩ := ok.pathType_entry x
  obtain ⟨id, entries⟩ := abs.enter ok (ok.pathType x) member (c.pathType_types x)
  rw [own] at id entries
  exact ⟨id, ⟨by rw [pathType_literals, abs.literals], entries⟩⟩

end Abstracts

end InternCache

end Solo
