import Mathlib.Data.List.Induction
import Solo.Proofs.Additions
import Solo.Proofs.Partition

/-!
# Scopes with functions added

What names stand for in a program with functions added. A scope declares the names that it declared
before, but the first function of a name may be an added one. So referents `Match` if they are the
first declarations of one name, in a scope and in its counterpart.
-/

namespace Solo

/-! ### Declarations of one scope -/

namespace Decl

variable {ds : List Decl} {d k : Decl} {space : Namespace} {name : String}

/-- Only functions share a name. -/
def Unambiguous (ds : List Decl) : Prop :=
  ∀ d ∈ ds, ∃ k, first? ds d.space d.name.name = some k ∧
    (k = d ∨ k.fn?.isSome = true ∧ d.fn?.isSome = true)

/-- What opens a name is its first declaration. -/
theorem Unambiguous.opener (unambiguous : Unambiguous ds) (member : d ∈ ds) :
    first? ds d.space d.name.name = some (d.opener ds) := by
  obtain ⟨k, first, same⟩ := unambiguous d member
  rw [Decl.opener, first, Option.filter_some]
  split
  · rfl
  · next apart =>
    rcases same with rfl | ⟨isFn, isFn'⟩
    · rfl
    · exact absurd (by rw [isFn, isFn']; rfl) apart

/-- The first declaration of a function's name is a function. -/
theorem Unambiguous.function (unambiguous : Unambiguous ds) (member : d ∈ ds)
    (isFn : d.fn?.isSome = true) (first : first? ds d.space d.name.name = some k) :
    k.fn?.isSome = true := by
  obtain ⟨_, found, same⟩ := unambiguous d member
  cases first.symm.trans found
  rcases same with rfl | ⟨isFn, _⟩
  · exact isFn
  · exact isFn

/-- A report stands at the name of a declaration. -/
theorem mem_clashes {earlier : List Decl} {e : Diagnostic} (clash : e ∈ clashes earlier ds) :
    ∃ d ∈ ds, e.span = d.name.mark.span := by
  induction ds generalizing earlier with
  | nil => cases clash
  | cons d ds ih =>
    rcases List.mem_append.mp clash with own | later
    · rw [clash?, Option.mem_toList] at own
      split at own
      · split at own
        · cases own
        · cases own
          exact ⟨d, List.mem_cons_self, rfl⟩
      · cases own
    · obtain ⟨k, inside, same⟩ := ih later
      exact ⟨k, List.mem_cons_of_mem _ inside, same⟩

theorem unambiguous_of_clashes (silent : clashes [] ds = []) : Unambiguous ds := by
  induction ds using List.reverseRecOn with
  | nil => nofun
  | append_singleton ds d ih =>
    rw [clashes_snoc, List.append_eq_nil_iff, List.nil_append] at silent
    intro c member
    rcases List.mem_append.mp member with earlier | last
    · obtain ⟨k, first, same⟩ := ih silent.1 c earlier
      exact ⟨k, by rw [first?_snoc, first, Option.some_or], same⟩
    · obtain rfl := List.mem_singleton.mp last
      cases known : first? ds c.space c.name.name with
      | none => exact ⟨c, by rw [first?_snoc, known, if_pos ⟨rfl, rfl⟩, Option.none_or], .inl rfl⟩
      | some k =>
        refine ⟨k, by rw [first?_snoc, known, Option.some_or], .inr ?_⟩
        have joins := silent.2
        rw [clash?, known] at joins
        dsimp only at joins
        split at joins
        · next both => exact Bool.and_eq_true _ _ ▸ both
        · cases joins

theorem Unambiguous.clashes (unambiguous : Unambiguous ds) (distinct : ds.Nodup) :
    clashes [] ds = [] := by
  suffices ∀ later earlier, ds = earlier ++ later → Decl.clashes earlier later = [] from
    this ds [] rfl
  intro later
  induction later with
  | nil => exact fun _ _ => rfl
  | cons d later ih =>
    rintro earlier rfl
    refine List.append_eq_nil_iff.mpr ⟨?_, ih (earlier ++ [d]) (by simp)⟩
    cases known : first? earlier d.space d.name.name with
    | none => rw [clash?, known, Option.toList_none]
    | some first =>
      obtain ⟨k, found, same⟩ := unambiguous d (List.mem_append_right _ List.mem_cons_self)
      have before := (first?_some known).1
      rw [first?, List.find?_append] at found
      rw [first?] at known
      rw [known, Option.some_or] at found
      cases found
      have apart : first ≠ d := by
        rintro rfl
        exact (List.nodup_append.mp distinct).2.2 _ before _ List.mem_cons_self rfl
      obtain ⟨isFn, isFn'⟩ := same.resolve_left apart
      rw [clash?, first?, known]
      dsimp only
      rw [isFn, isFn']
      rfl

end Decl

section
variable {ν : NodeId → NodeId}

namespace Decl

variable {ds ds' : List Decl} {d d' : Decl}

/-- An added function with a name that `ds` declare as functions. -/
def Adds (ν : NodeId → NodeId) (ds : List Decl) (d : Decl) : Prop :=
  ∃ j k, .fn j ∈ ds ∧ d = .fn k ∧ k.name.name = j.name.name ∧ d.node.Fresh ν

namespace Gains

theorem id (gains : d.Gains ν d') : d'.mark.id = ν d.mark.id := by
  rw [← d.node_mark, ← d'.node_mark]
  exact Node.Gains.id gains

theorem fn?_isSome (gains : d.Gains ν d') : d'.fn?.isSome = d.fn?.isSome := by
  have related := gains.fn?
  generalize d.fn? = k at related ⊢
  generalize d'.fn? = k' at related ⊢
  cases related <;> rfl

theorem space_role (gains : d.Gains ν d') : d'.space = d.space ∧ d'.role = d.role := by
  cases d with
  | param q =>
    obtain ⟨_, rfl, _⟩ := gains.param
    exact ⟨rfl, rfl⟩
  | val d =>
    obtain ⟨_, rfl, own⟩ := gains.val
    obtain ⟨m, kind, x, ty, e⟩ := d
    obtain ⟨_, _, _, _, same, _⟩ := own
    cases same
    exact ⟨rfl, rfl⟩
  | typeAlias d =>
    obtain ⟨_, rfl, _⟩ := gains.typeAlias
    exact ⟨rfl, rfl⟩
  | fn d =>
    obtain ⟨_, rfl, _⟩ := gains.fn
    exact ⟨rfl, rfl⟩

theorem space (gains : d.Gains ν d') : d'.space = d.space := gains.space_role.1

theorem role (gains : d.Gains ν d') : d'.role = d.role := gains.space_role.2

end Gains

/-- The declarations of a scope and of its counterpart. -/
abbrev Joining (ν : NodeId → NodeId) (ds ds' : List Decl) : Prop :=
  Joins (Decl.Gains ν) (Decl.Adds ν ds) ds ds'

namespace Joining

variable {space : Namespace} {name : String} (joining : Joining ν ds ds')
include joining

theorem known (member : d' ∈ ds') : ∃ d ∈ ds, d.space = d'.space ∧ d.name.name = d'.name.name ∧
    d.fn?.isSome = d'.fn?.isSome := by
  rcases joining.mem_right member with ⟨j, k, inside, rfl, same, _⟩ | ⟨d, inside, gains⟩
  · exact ⟨.fn j, inside, rfl, same.symm, rfl⟩
  · exact ⟨d, inside, gains.space.symm, gains.name.2.symm, gains.fn?_isSome.symm⟩

theorem first?_eq_none (free : first? ds space name = none) : first? ds' space name = none := by
  refine List.find?_eq_none.mpr fun d' member fits => ?_
  obtain ⟨d, inside, sameSpace, sameName, _⟩ := joining.known member
  refine List.find?_eq_none.mp free d inside ?_
  rwa [sameSpace, sameName]

theorem first?_isSome (taken : (first? ds space name).isSome = true) :
    (first? ds' space name).isSome = true := by
  obtain ⟨d, first⟩ := Option.isSome_iff_exists.mp taken
  obtain ⟨inside, rfl, rfl⟩ := first?_some first
  obtain ⟨d', member, gains⟩ := joining.mem_left inside
  rw [← gains.space, ← gains.name.2]
  exact Decl.first?_isSome member

/-- The first declaration of a name is that of its counterpart, unless both are functions. -/
theorem first?_gains {k' : Decl} (first' : first? ds' space name = some k') :
    (∃ k, first? ds space name = some k ∧ k.Gains ν k') ∨
      k'.fn?.isSome = true ∧ ∃ j ∈ ds, j.fn?.isSome = true ∧ j.space = space ∧ j.name.name = name := by
  suffices ∀ {as bs}, Joins (Decl.Gains ν) (Decl.Adds ν ds) as bs → first? bs space name = some k' →
      (∃ k, first? as space name = some k ∧ k.Gains ν k') ∨ k'.fn?.isSome = true ∧
        ∃ j ∈ ds, j.fn?.isSome = true ∧ j.space = space ∧ j.name.name = name from
    this joining first'
  intro as bs joins found
  induction joins with
  | nil => cases found
  | both head rest ih =>
    rw [first?, List.find?_cons, head.space, head.name.2] at found
    rw [first?, List.find?_cons]
    split at found
    · cases found
      exact .inl ⟨_, rfl, head⟩
    · exact ih found
  | more head rest ih =>
    rw [first?, List.find?_cons] at found
    split at found
    · next fits =>
      cases found
      obtain ⟨j, k, inside, rfl, same, _⟩ := head
      rw [decide_eq_true_eq] at fits
      exact .inr ⟨rfl, .fn j, inside, rfl, fits.1, same.symm.trans fits.2⟩
    · exact ih found

theorem unambiguous (unambiguous : Unambiguous ds) (distinct : (ds'.map (·.mark.id)).Nodup) :
    Unambiguous ds' := by
  intro d' member
  obtain ⟨k', first'⟩ := Option.isSome_iff_exists.mp (Decl.first?_isSome member)
  refine ⟨k', first', ?_⟩
  rcases joining.first?_gains first' with
    ⟨k, first, gains⟩ | ⟨isFn, j, inside, isFn', sameSpace, sameName⟩
  · rcases joining.mem_right member with ⟨j, c, inside, rfl, same, _⟩ | ⟨d, inside, own⟩
    · refine .inr ⟨gains.fn?_isSome.trans ?_, rfl⟩
      exact unambiguous.function inside rfl (same ▸ first)
    · rw [own.space, own.name.2] at first
      obtain ⟨_, found, same⟩ := unambiguous d inside
      cases first.symm.trans found
      rcases same with rfl | ⟨isFn, isFn'⟩
      · exact .inl (List.inj_on_of_nodup_map distinct (first?_some first').1 member
          (gains.id.trans own.id.symm))
      · exact .inr ⟨gains.fn?_isSome.trans isFn, own.fn?_isSome.trans isFn'⟩
  · refine .inr ⟨isFn, ?_⟩
    obtain ⟨d, member', sameSpace', sameName', sameKind⟩ := joining.known member
    obtain ⟨k, first, same⟩ := unambiguous d member'
    rw [sameSpace', sameName', ← sameSpace, ← sameName] at first
    have isFn := unambiguous.function inside isFn' first
    rw [← sameKind]
    rcases same with rfl | ⟨_, isFn⟩ <;> exact isFn

end Joining

end Decl

/-! ### Scopes of trees -/

theorem Stmt.Gains.decl? {s s' : Stmt Mark} (gains : s.Gains ν s') :
    Option.Rel (Decl.Gains ν) s.decl? s'.decl? := by
  rcases s with ⟨m, k, x, t, e⟩ | ⟨m, x, t⟩ | ⟨m, x, qs, t, e⟩ | ⟨m, e⟩
  · have own := gains
    obtain ⟨_, _, _, _, rfl, _⟩ := own
    exact .some ⟨_, rfl, gains⟩
  · have own := gains
    obtain ⟨_, _, _, rfl, _⟩ := own
    exact .some ⟨_, rfl, gains⟩
  · have own := gains
    obtain ⟨_, _, _, _, _, rfl, _⟩ := own
    exact .some ⟨_, rfl, gains⟩
  · obtain ⟨_, _, rfl, _⟩ := gains
    exact .none

theorem Node.Gains.of_decl {n : Node Mark} {d' : Decl} (gains : n.Gains ν d'.node) :
    ∃ d : Decl, n = d.node ∧ d.Gains ν d' := by
  have related : Option.Rel (Decl.Gains ν) n.decl? d'.node.decl? := by
    generalize d'.node = n' at gains
    cases n with
    | stmt s =>
      obtain ⟨_, rfl, gains⟩ := gains
      exact gains.decl?
    | param q =>
      have own := gains
      obtain ⟨_, rfl, _⟩ := own
      exact .some gains
    | _ =>
      obtain ⟨_, rfl, _⟩ := gains
      exact .none
  rw [decl?_node] at related
  cases declares : n.decl? with
  | none =>
    rw [declares] at related
    cases related
  | some d =>
    rw [declares] at related
    cases related with
    | some own => exact ⟨d, (node_of_decl? declares).symm, own⟩

theorem Node.Gains.of_assign {n : Node Mark} {m' : Mark} {y' : Ident Mark} {e' : Expr Mark}
    (gains : n.Gains ν (.expr (.assign m' y' e'))) :
    ∃ m y e, n = .expr (.assign m y e) ∧ y.Moves ν y' := by
  cases n with
  | expr e =>
    obtain ⟨_, same, gains⟩ := gains
    cases same
    cases e with
    | assign m y e =>
      obtain ⟨_, _, _, same, _, moves, _⟩ := gains
      cases same
      exact ⟨m, y, e, rfl, moves⟩
    | lit | name | host =>
      obtain ⟨_, same, _⟩ := gains
      cases same
    | paren | unary | inhabitant =>
      obtain ⟨_, _, same, _⟩ := gains
      cases same
    | _ =>
      obtain ⟨_, _, _, same, _⟩ := gains
      cases same
  | _ =>
    obtain ⟨_, same, _⟩ := gains
    cases same

theorem stmtsGain.joins : ∀ {ss : List (Stmt Mark)} {S : List String} {ss' : List (Stmt Mark)},
    stmtsGain ν ss S ss' → Joins (Stmt.Gains ν) (Stmt.Added ν S) ss ss'
  | [], _, _, added => .added added
  | _ :: _, _, _, ⟨_, _, _, rfl, added, head, rest⟩ =>
    .append (.added added) (.both head rest.joins)

theorem stmtsGain.decls {ss ss' : List (Stmt Mark)} (gain : stmtsGain ν ss (fnNames ss) ss') :
    Decl.Joining ν (ss.filterMap Stmt.decl?) (ss'.filterMap Stmt.decl?) := by
  refine gain.joins.filterMap (fun _ _ gains => gains.decl?) ?_
  rintro s ⟨d, rfl, _, named, new⟩ _ ⟨⟩
  obtain ⟨t, member, same⟩ := List.mem_filterMap.mp named
  cases t with
  | fn j =>
    refine ⟨j, d, List.mem_filterMap.mpr ⟨_, member, rfl⟩, rfl, (Option.some.inj same).symm, ?_⟩
    exact fun n inside => new n inside
  | _ => cases same

theorem paramsGain.decls : ∀ {qs qs' : List (Param Mark)}, paramsGain ν qs qs' →
    List.Forall₂ (Decl.Gains ν) (qs.map .param) (qs'.map .param)
  | [], _, rfl => .nil
  | ⟨_, _, _⟩ :: _, _, ⟨_, _, _, _, rfl, same, name, ty, rest⟩ =>
    .cons ⟨_, rfl, same, name, ty⟩ rest.decls

theorem Expr.Gains.opens : ∀ {e e' : Expr Mark}, e.Gains ν e' →
    (Node.expr e').opens = (Node.expr e).opens
  | .lit _, _, ⟨_, rfl, _⟩ => rfl
  | .name _, _, ⟨_, rfl, _⟩ => rfl
  | .paren _ _, _, ⟨_, _, rfl, _⟩ => rfl
  | .unary _ _ _, _, ⟨_, _, rfl, _⟩ => rfl
  | .bin _ _ _ _, _, ⟨_, _, _, rfl, _⟩ => rfl
  | .call _ _ _, _, ⟨_, _, _, rfl, _⟩ => rfl
  | .block _ _ _, _, ⟨_, _, _, rfl, _⟩ => rfl
  | .assign _ _ _, _, ⟨_, _, _, rfl, _⟩ => rfl
  | .cases _ _ _, _, ⟨_, _, _, rfl, _⟩ => rfl
  | .inhabitant _ _, _, ⟨_, _, rfl, _⟩ => rfl
  | .host _ _, _, ⟨_, rfl, _⟩ => rfl

theorem Stmt.Gains.opens : ∀ {s s' : Stmt Mark}, s.Gains ν s' →
    (Node.stmt s').opens = (Node.stmt s).opens
  | .val ⟨_, _, _, _, _⟩, _, ⟨_, _, _, _, rfl, _⟩ => rfl
  | .typeAlias ⟨_, _, _⟩, _, ⟨_, _, _, rfl, _⟩ => rfl
  | .fn ⟨_, _, _, _, _⟩, _, ⟨_, _, _, _, _, rfl, _⟩ => rfl
  | .expr _ _, _, ⟨_, _, rfl, _⟩ => rfl

theorem Node.Gains.opens {n n' : Node Mark} (gains : n.Gains ν n') : n'.opens = n.opens := by
  cases n with
  | expr e =>
    obtain ⟨_, rfl, gains⟩ := gains
    exact gains.opens
  | stmt s =>
    obtain ⟨_, rfl, gains⟩ := gains
    exact gains.opens
  | _ =>
    obtain ⟨_, rfl, _⟩ := gains
    rfl

/-- A scope has its counterpart's declarations and those of added functions. -/
theorem Node.Gains.locals {n n' : Node Mark} (gains : n.Gains ν n') :
    Decl.Joining ν n.locals n'.locals := by
  cases opens : n.opens with
  | false =>
    rw [locals_of_plain opens, locals_of_plain (gains.opens.trans opens)]
    exact .nil
  | true =>
    cases n with
    | expr e =>
      cases e with
      | block m ss tail =>
        obtain ⟨_, rfl, _, _, _, rfl, _, gain, _⟩ := gains
        rw [locals_block, locals_block]
        exact gain.decls
      | _ => cases opens
    | stmt s =>
      cases s with
      | fn d =>
        obtain ⟨m, x, qs, t, e⟩ := d
        obtain ⟨_, rfl, _, _, _, _, _, rfl, _, _, gain, _⟩ := gains
        rw [locals_fn, locals_fn]
        exact .of_forall₂ gain.decls
      | _ => cases opens
    | program q =>
      obtain ⟨_, rfl, gains⟩ := gains
      rw [locals_program, locals_program]
      exact gains.2.decls
    | _ => cases opens

end

/-! ### Scopes of programs -/

theorem Decl.node_injective : Decl.node.Injective := by
  intro c d same
  have nodes := congrArg Node.decl? same
  rw [Node.decl?_node, Node.decl?_node] at nodes
  exact Option.some.inj nodes

theorem Node.below_of_locals {n k : Node Mark} {d : Decl} (member : d ∈ n.locals)
    (inside : k ∈ d.node.below) : k ∈ n.below := by
  obtain ⟨c, child, declares⟩ := List.mem_filterMap.mp member
  rw [node_of_decl? declares] at inside
  rw [n.below_eq]
  exact List.mem_append_left _ (List.mem_flatMap.mpr ⟨c, child, inside⟩)

theorem Program.mem_locals {p : Program Mark} {n : Node Mark} {d : Decl} (node : n ∈ p.nodes)
    (member : d ∈ n.locals) : d.node ∈ p.nodes := by
  have listed : d ∈ p.declarations :=
    p.locals_perm.mem_iff.mp (List.mem_flatMap.mpr ⟨n, node, member⟩)
  obtain ⟨k, inside, declares⟩ := List.mem_filterMap.mp listed
  rwa [Node.node_of_decl? declares]

namespace BoundProgram.Grounded

variable {p : BoundProgram} {n k : Node Mark} {c d : Decl} (ground : p.Grounded)
include ground

theorem decl_unique (first : c.node ∈ p.program.nodes) (second : d.node ∈ p.program.nodes)
    (same : c.mark.id = d.mark.id) : c = d :=
  Decl.node_injective (ground.node_unique first second (by rw [c.node_mark, d.node_mark, same]))

/-- A declaration stands in one scope. -/
theorem scope_unique (node : n ∈ p.program.nodes) (node' : k ∈ p.program.nodes)
    (member : d ∈ n.locals) (member' : d ∈ k.locals) : n = k := by
  by_contra apart
  have unique := (p.program.locals_perm.nodup_iff).mpr ground.declarations_nodup
  have disjoint := (List.nodup_flatMap.mp unique).2
  have : Std.Symm (Function.onFun List.Disjoint Node.locals) :=
    ⟨fun _ _ apart _ left right => apart right left⟩
  exact disjoint.forall node node' apart member member'

theorem locals_distinct (node : n ∈ p.program.nodes) : (n.locals.map (·.mark.id)).Nodup := by
  have unique := (p.program.locals_perm.nodup_iff).mpr ground.declarations_nodup
  refine ((List.nodup_flatMap.mp unique).1 n node).map_on fun c member d member' same => ?_
  exact ground.decl_unique (Program.mem_locals node member) (Program.mem_locals node member') same

end BoundProgram.Grounded

/-! ### Where references are made -/

/-- References that are made at nodes of `N`. -/
def MadeAt (N : List (Node Mark)) (rs : List Reference) : Prop := ∀ r ∈ rs, ∃ n ∈ N, n.mark = r.mark

namespace MadeAt

variable {N K : List (Node Mark)} {rs ks : List Reference} {env : Environment}

theorem nil (N : List (Node Mark)) : MadeAt N [] := nofun

theorem append (first : MadeAt N rs) (second : MadeAt K ks) : MadeAt (N ++ K) (rs ++ ks) := by
  intro r member
  rcases List.mem_append.mp member with inside | inside
  · obtain ⟨n, inside, same⟩ := first r inside
    exact ⟨n, List.mem_append_left _ inside, same⟩
  · obtain ⟨n, inside, same⟩ := second r inside
    exact ⟨n, List.mem_append_right _ inside, same⟩

theorem mono (made : MadeAt N rs) (more : N ⊆ K) : MadeAt K rs := fun r member =>
  let ⟨n, inside, same⟩ := made r member
  ⟨n, more inside, same⟩

theorem snoc (made : MadeAt N rs) (n : Node Mark) : MadeAt (N ++ [n]) rs :=
  made.mono (List.subset_append_left _ _)

theorem cons (made : MadeAt N rs) (n : Node Mark) : MadeAt (n :: N) rs :=
  made.mono (List.subset_cons_self _ _)

theorem value {n : Node Mark} {x : Ident Mark} (same : n.mark = x.mark) :
    MadeAt [n] [env.value x] := fun _ member =>
  ⟨n, List.mem_cons_self, List.mem_singleton.mp member ▸ same⟩

theorem type {n : Node Mark} {x : Ident Mark} (same : n.mark = x.mark) :
    MadeAt [n] (env.type x) := by
  rw [Environment.type]
  split
  · exact fun _ member => ⟨n, List.mem_cons_self, List.mem_singleton.mp member ▸ same⟩
  · split
    · exact nil _
    · exact value same

theorem scope {ds : List Decl} {inner : Environment → List Reference}
    (nodes : ∀ d ∈ ds, d.node ∈ N) (rest : ∀ env, MadeAt N (inner env)) :
    MadeAt N (env.scope ds inner) := by
  intro r member
  rcases List.mem_append.mp member with own | inside
  · obtain ⟨d, inside, rfl⟩ := List.mem_map.mp own
    exact ⟨d.node, nodes d inside, d.node_mark⟩
  · exact rest _ r inside

end MadeAt

theorem stmts_decl_node {ss : List (Stmt Mark)} {d : Decl} (member : d ∈ ss.filterMap Stmt.decl?) :
    d.node ∈ stmtsNodes ss :=
  (declarations_subperm ss).subset (List.mem_append_left _ (List.mem_map_of_mem member))

theorem params_decl_node {qs : List (Param Mark)} {d : Decl} (member : d ∈ qs.map Decl.param) :
    d.node ∈ paramsNodes qs :=
  (parameters_subperm qs).subset (List.mem_append_left _ (List.mem_map_of_mem member))

mutual
theorem Expr.madeAt : ∀ (e : Expr Mark) (env : Environment), MadeAt e.nodes (e.references env)
  | .lit _, _ => .nil _
  | .host _ _, _ => .nil _
  | .name _, _ => .value rfl
  | .paren _ e, env => (e.madeAt env).snoc _
  | .unary _ _ e, env => (e.madeAt env).snoc _
  | .bin _ _ l r, env => ((l.madeAt env).append (r.madeAt env)).snoc _
  | .call _ f args, env => .append (N := [.ident f]) (.value rfl) ((exprs_madeAt args env).snoc _)
  | .block _ ss tail, _ =>
    (MadeAt.scope (fun _ member => List.mem_append_left _ (stmts_decl_node member)) fun env =>
      (stmts_madeAt ss env).append (tail_madeAt tail env)).snoc _
  | .assign _ x e, env => .append (N := [.ident x]) (.value rfl) ((e.madeAt env).snoc _)
  | .cases _ e arms, env => ((e.madeAt env).append (arms_madeAt arms env)).snoc _
  | .inhabitant _ t, env => (t.madeAt env).snoc _

theorem exprs_madeAt : ∀ (es : List (Expr Mark)) (env : Environment),
    MadeAt (exprsNodes es) (exprsReferences es env)
  | [], _ => .nil _
  | e :: es, env => (e.madeAt env).append (exprs_madeAt es env)

theorem tail_madeAt : ∀ (tail : Option (Expr Mark)) (env : Environment),
    MadeAt (tailNodes tail) (tailReferences tail env)
  | none, _ => .nil _
  | some e, env => e.madeAt env

theorem arms_madeAt : ∀ (arms : List (Arm Mark)) (env : Environment),
    MadeAt (armsNodes arms) (armsReferences arms env)
  | [], _ => .nil _
  | ⟨_, q, e⟩ :: arms, env => by
    rw [armsReferences, ← List.append_assoc]
    exact (((q.madeAt env).append (e.madeAt env)).snoc _).append (arms_madeAt arms env)

theorem Pat.madeAt : ∀ (q : Pat Mark) (env : Environment), MadeAt q.nodes (q.references env)
  | .wildcard _, _ => .nil _
  | .lit _ _, _ => .nil _
  | .typed _ t, env => (t.madeAt env).snoc _

theorem TyNode.madeAt : ∀ (t : TyNode Mark) (env : Environment), MadeAt t.nodes (t.references env)
  | .refer _ x, _ => .snoc (N := [.ident x]) (.type rfl) _
  | .singleton _ e, env => (e.madeAt env).snoc _
  | .lit _ _ _, _ => .nil _
  | .paren _ t, env => (t.madeAt env).snoc _

theorem ty?_madeAt : ∀ (t : Option (TyNode Mark)) (env : Environment),
    MadeAt (tyNodes? t) (tyReferences? t env)
  | none, _ => .nil _
  | some t, env => t.madeAt env

theorem params_madeAt : ∀ (qs : List (Param Mark)) (env : Environment),
    MadeAt (paramsNodes qs) (paramsReferences qs env)
  | [], _ => .nil _
  | ⟨_, _, t⟩ :: qs, env => (((t.madeAt env).snoc _).cons _).append (params_madeAt qs env)

theorem Stmt.madeAt : ∀ (s : Stmt Mark) (env : Environment), MadeAt s.nodes (s.references env)
  | .val ⟨_, _, _, t, e⟩, env => (((ty?_madeAt t env).append (e.madeAt env)).snoc _).cons _
  | .typeAlias ⟨_, _, t⟩, env => ((t.madeAt env).snoc _).cons _
  | .fn ⟨_, _, qs, t, e⟩, env => by
    have inside : ∀ d ∈ qs.map Decl.param, d.node ∈ paramsNodes qs ++ tyNodes? t ++ e.nodes :=
      fun _ member => by
        rw [List.append_assoc]
        exact List.mem_append_left _ (params_decl_node member)
    have made : MadeAt _ (env.scope _ _) := MadeAt.scope inside fun env => by
      have parts := ((params_madeAt qs env).append (ty?_madeAt t env)).append (e.madeAt env)
      rwa [List.append_assoc (paramsReferences qs env)] at parts
    exact (made.snoc _).cons _
  | .expr _ e, env => (e.madeAt env).snoc _

theorem stmts_madeAt : ∀ (ss : List (Stmt Mark)) (env : Environment),
    MadeAt (stmtsNodes ss) (stmtsReferences ss env)
  | [], _ => .nil _
  | s :: ss, env => (s.madeAt env).append (stmts_madeAt ss env)
end

/-! ### Referents and their counterparts -/

section
variable (ν : NodeId → NodeId) (p p' : Program Mark)

/-- The first declarations of one name, in a scope and in its counterpart. -/
def Decl.Openers (k k' : Decl) : Prop :=
  ∃ n ∈ p.nodes, ∃ n' ∈ p'.nodes, n.Gains ν n' ∧ ∃ space name,
    Decl.first? n.locals space name = some k ∧ Decl.first? n'.locals space name = some k'

/-- What a name stands for before and after functions are added. -/
inductive Referent.Matches : Referent → Referent → Prop
  | unknown : Matches .unknown .unknown
  | builtin : Matches .builtin .builtin
  | decl {k k' : Decl} (openers : k.Openers ν p p' k') :
    Matches (.decl k.mark.id) (.decl k'.mark.id)

/-- The same names are visible. -/
def Environment.Matches (env env' : Environment) : Prop :=
  ∀ space name, Option.Rel (Referent.Matches ν p p') (env space name) (env' space name)

def Reference.Matches (r r' : Reference) : Prop :=
  r'.mark.id = ν r.mark.id ∧ r.referent.Matches ν p p' r'.referent

/-- A reference at a node of an added function. -/
def Reference.Adds (r : Reference) : Prop :=
  r.mark.id ∉ Set.range ν ∧ ∃ n ∈ p'.nodes, n.mark = r.mark

/-- References and their counterparts, with those of added functions. -/
abbrev ReferencesJoin : List Reference → List Reference → Prop :=
  Joins (Reference.Matches ν p p') (Reference.Adds ν p')

end

section
variable {ν : NodeId → NodeId} {p p' : Program Mark} {env env' : Environment} {n n' : Node Mark}
  {x x' : Ident Mark}

theorem MadeAt.adds {N : List (Node Mark)} {rs : List Reference} (made : MadeAt N rs)
    (new : ∀ n ∈ N, n.mark.id ∉ Set.range ν) (nodes : N ⊆ p'.nodes) : ReferencesJoin ν p p' [] rs :=
  .added fun r member =>
    let ⟨n, inside, same⟩ := made r member
    ⟨same ▸ new n inside, n, nodes inside, same⟩

theorem ReferencesJoin.look {rs rs' : List Reference} (joins : ReferencesJoin ν p p' rs rs')
    (injective : ν.Injective) (i : NodeId) : Option.Rel (Referent.Matches ν p p')
      (Table.look i (rs.map fun r => (r.mark.id, r.referent)))
      (Table.look (ν i) (rs'.map fun r => (r.mark.id, r.referent))) := by
  induction joins with
  | nil => exact .none
  | @both r r' _ _ head rest ih =>
    rw [List.map_cons, List.map_cons, Table.look, Table.look, head.1]
    by_cases same : r.mark.id = i
    · rw [if_pos same, if_pos (congrArg ν same)]
      exact .some head.2
    · rw [if_neg same, if_neg fun moved => same (injective moved)]
      exact ih
  | more head rest ih =>
    rw [List.map_cons, Table.look, if_neg fun same => head.1 ⟨i, same.symm⟩]
    exact ih

namespace Environment.Matches

theorem outermost : Matches ν p p' .outermost .outermost := by
  intro space name
  rw [Environment.outermost]
  split
  · exact .some .builtin
  · exact .none

theorem inside (matching : Matches ν p p' env env') (node : n ∈ p.nodes) (node' : n' ∈ p'.nodes)
    (gains : n.Gains ν n') : Matches ν p p' (env.inside n.locals) (env'.inside n'.locals) := by
  intro space name
  rw [Environment.inside, Environment.inside]
  cases first : Decl.first? n.locals space name with
  | none =>
    rw [gains.locals.first?_eq_none first]
    exact matching space name
  | some k =>
    obtain ⟨k', first'⟩ := Option.isSome_iff_exists.mp
      (gains.locals.first?_isSome (Option.isSome_iff_exists.mpr ⟨k, first⟩))
    rw [first']
    exact .some (.decl ⟨n, node, n', node', gains, space, name, first, first'⟩)

theorem value (matching : Matches ν p p' env env') (moves : x.Moves ν x') :
    ReferencesJoin ν p p' [env.value x] [env'.value x'] := by
  refine .single ⟨moves.1, ?_⟩
  have related := matching .value x.name
  rw [Environment.value, Environment.value, moves.2]
  generalize env .value x.name = r at related
  generalize env' .value x.name = r' at related
  cases related with
  | some related => exact related
  | none => exact .unknown

theorem type (matching : Matches ν p p' env env') (moves : x.Moves ν x') :
    ReferencesJoin ν p p' (env.type x) (env'.type x') := by
  have related := matching .type x.name
  rw [Environment.type, Environment.type, moves.2]
  generalize env .type x.name = r at related
  generalize env' .type x.name = r' at related
  cases related with
  | some related => exact .single ⟨moves.1, related⟩
  | none =>
    dsimp only
    split
    · exact .nil
    · exact matching.value moves

end Environment.Matches

/-- Nodes of a program in whose scopes only functions share a name, and nodes of the program with
functions added. -/
structure Among (p p' : Program Mark) (ns ns' : List (Node Mark)) : Prop where
  before : ∀ n ∈ ns, n ∈ p.nodes ∧ Decl.Unambiguous n.locals
  after : ∀ n ∈ ns', n ∈ p'.nodes ∧ (n.locals.map (·.mark.id)).Nodup

namespace Among

variable {ns ns' ks ks' : List (Node Mark)}

theorem fewer (among : Among p p' ks ks') (sub : ns ⊆ ks) (sub' : ns' ⊆ ks') : Among p p' ns ns' where
  before n member := among.before n (sub member)
  after n member := among.after n (sub' member)

theorem left (among : Among p p' (ns ++ ks) (ns' ++ ks')) : Among p p' ns ns' :=
  among.fewer (List.subset_append_left _ _) (List.subset_append_left _ _)

theorem right (among : Among p p' (ns ++ ks) (ns' ++ ks')) : Among p p' ks ks' :=
  among.fewer (List.subset_append_right _ _) (List.subset_append_right _ _)

theorem tail (among : Among p p' (n :: ns) (n' :: ns')) : Among p p' ns ns' :=
  among.fewer (List.subset_cons_self _ _) (List.subset_cons_self _ _)

theorem scope (among : Among p p' (ns ++ [n]) (ns' ++ [n'])) (gains : n.Gains ν n')
    (matching : env.Matches ν p p' env') {inner inner' : Environment → List Reference}
    (rest : ∀ env env', env.Matches ν p p' env' → ReferencesJoin ν p p' (inner env) (inner' env')) :
    ReferencesJoin ν p p' (env.scope n.locals inner) (env'.scope n'.locals inner') := by
  obtain ⟨node, unambiguous⟩ := among.before n (List.mem_append_right _ List.mem_cons_self)
  obtain ⟨node', distinct⟩ := among.after n' (List.mem_append_right _ List.mem_cons_self)
  refine .append ?_ (rest _ _ (matching.inside node node' gains))
  have unambiguous' := gains.locals.unambiguous unambiguous distinct
  refine gains.locals.map (fun d member d' member' own => ⟨own.id, ?_⟩) fun d' member' added => ?_
  · have first' := unambiguous'.opener member'
    rw [own.space, own.name.2] at first'
    exact .decl ⟨n, node, n', node', gains, _, _, unambiguous.opener member, first'⟩
  · obtain ⟨j, k, _, rfl, _, new⟩ := added
    have root := new (.stmt (.fn k)) ((Node.below_suffix _).subset List.mem_cons_self)
    exact ⟨root, .stmt (.fn k), Program.mem_locals node' member', rfl⟩

end Among

/-- The references of added functions are all new. -/
theorem references_added {S : List String} {ss : List (Stmt Mark)}
    (added : ∀ s ∈ ss, s.Added ν S) (inside : stmtsNodes ss ⊆ p'.nodes) (env : Environment) :
    ReferencesJoin ν p p' [] (stmtsReferences ss env) :=
  (stmts_madeAt ss env).adds (fun n member =>
    nodes_added added n member n ((Node.below_suffix n).subset List.mem_cons_self)) inside

theorem stmtsReferences_append (ss ts : List (Stmt Mark)) (env : Environment) :
    stmtsReferences (ss ++ ts) env = stmtsReferences ss env ++ stmtsReferences ts env := by
  induction ss with
  | nil => rfl
  | cons s ss ih => rw [List.cons_append, stmtsReferences, stmtsReferences, ih, List.append_assoc]

mutual
theorem Expr.Gains.references : ∀ {e e' : Expr Mark} {env env' : Environment}, e.Gains ν e' →
    Among p p' e.nodes e'.nodes → env.Matches ν p p' env' →
      ReferencesJoin ν p p' (e.references env) (e'.references env')
  | .lit _, _, _, _, ⟨_, rfl, _⟩, _, _ => .nil
  | .name _, _, _, _, ⟨_, rfl, moves⟩, _, matching => matching.value moves
  | .paren _ _, _, _, _, ⟨_, _, rfl, _, inner⟩, among, matching =>
    inner.references among.left matching
  | .unary _ _ _, _, _, _, ⟨_, _, rfl, _, inner⟩, among, matching =>
    inner.references among.left matching
  | .bin _ _ _ _, _, _, _, ⟨_, _, _, rfl, _, left, right⟩, among, matching =>
    .append (left.references among.left.left matching) (right.references among.left.right matching)
  | .call _ _ _, _, _, _, ⟨_, _, _, rfl, _, callee, rest⟩, among, matching =>
    .append (matching.value callee) (exprs_references rest among.tail.left matching)
  | .block m ss tail, _, env, env', ⟨m', ss', tail', rfl, same, stmts, last⟩, among, matching => by
    have gains : Node.Gains ν (.expr (.block m ss tail)) (.expr (.block m' ss' tail')) :=
      ⟨_, rfl, m', ss', tail', rfl, same, stmts, last⟩
    rw [Expr.references, Expr.references, ← Node.locals_block m ss tail,
      ← Node.locals_block m' ss' tail']
    refine among.scope gains matching fun env env' matching => ?_
    exact .append (stmts_references stmts among.left.left matching)
      (tail_references last among.left.right matching)
  | .assign _ _ _, _, _, _, ⟨_, _, _, rfl, _, target, inner⟩, among, matching =>
    .append (matching.value target) (inner.references among.tail.left matching)
  | .cases _ _ _, _, _, _, ⟨_, _, _, rfl, _, inner, rest⟩, among, matching =>
    .append (inner.references among.left.left matching)
      (arms_references rest among.left.right matching)
  | .inhabitant _ _, _, _, _, ⟨_, _, rfl, _, inner⟩, among, matching =>
    inner.references among.left matching
  | .host _ _, _, _, _, ⟨_, rfl, _⟩, _, _ => .nil
termination_by structural e => e

theorem exprs_references : ∀ {es es' : List (Expr Mark)} {env env' : Environment},
    exprsGain ν es es' → Among p p' (exprsNodes es) (exprsNodes es') → env.Matches ν p p' env' →
      ReferencesJoin ν p p' (exprsReferences es env) (exprsReferences es' env')
  | [], _, _, _, rfl, _, _ => .nil
  | _ :: _, _, _, _, ⟨_, _, rfl, head, rest⟩, among, matching =>
    .append (head.references among.left matching) (exprs_references rest among.right matching)
termination_by structural es => es

theorem tail_references : ∀ {tail tail' : Option (Expr Mark)} {env env' : Environment},
    tailGains ν tail tail' → Among p p' (tailNodes tail) (tailNodes tail') →
      env.Matches ν p p' env' →
        ReferencesJoin ν p p' (tailReferences tail env) (tailReferences tail' env')
  | none, _, _, _, rfl, _, _ => .nil
  | some _, _, _, _, ⟨_, rfl, gains⟩, among, matching => gains.references among matching
termination_by structural tail => tail

theorem arms_references : ∀ {arms arms' : List (Arm Mark)} {env env' : Environment},
    armsGain ν arms arms' → Among p p' (armsNodes arms) (armsNodes arms') →
      env.Matches ν p p' env' →
        ReferencesJoin ν p p' (armsReferences arms env) (armsReferences arms' env')
  | [], _, _, _, rfl, _, _ => .nil
  | ⟨_, _, _⟩ :: _, _, _, _, ⟨_, _, _, _, rfl, _, pat, body, rest⟩, among, matching =>
    .append (pat.references among.left.left.left matching)
      (.append (body.references among.left.left.right matching)
        (arms_references rest among.right matching))
termination_by structural arms => arms

theorem Pat.Gains.references : ∀ {q q' : Pat Mark} {env env' : Environment}, q.Gains ν q' →
    Among p p' q.nodes q'.nodes → env.Matches ν p p' env' →
      ReferencesJoin ν p p' (q.references env) (q'.references env')
  | .wildcard _, _, _, _, ⟨_, rfl, _⟩, _, _ => .nil
  | .lit _ _, _, _, _, ⟨_, _, rfl, _⟩, _, _ => .nil
  | .typed _ _, _, _, _, ⟨_, _, rfl, _, inner⟩, among, matching =>
    inner.references among.left matching
termination_by structural q => q

theorem TyNode.Gains.references : ∀ {t t' : TyNode Mark} {env env' : Environment}, t.Gains ν t' →
    Among p p' t.nodes t'.nodes → env.Matches ν p p' env' →
      ReferencesJoin ν p p' (t.references env) (t'.references env')
  | .refer _ _, _, _, _, ⟨_, _, rfl, _, moves⟩, _, matching => matching.type moves
  | .singleton _ _, _, _, _, ⟨_, _, rfl, _, inner⟩, among, matching =>
    inner.references among.left matching
  | .lit _ _ _, _, _, _, ⟨_, _, rfl, _⟩, _, _ => .nil
  | .paren _ _, _, _, _, ⟨_, _, rfl, _, inner⟩, among, matching =>
    inner.references among.left matching
termination_by structural t => t

theorem ty?_references : ∀ {t t' : Option (TyNode Mark)} {env env' : Environment},
    tyGains? ν t t' → Among p p' (tyNodes? t) (tyNodes? t') → env.Matches ν p p' env' →
      ReferencesJoin ν p p' (tyReferences? t env) (tyReferences? t' env')
  | none, _, _, _, rfl, _, _ => .nil
  | some _, _, _, _, ⟨_, rfl, gains⟩, among, matching => gains.references among matching
termination_by structural t => t

theorem params_references : ∀ {qs qs' : List (Param Mark)} {env env' : Environment},
    paramsGain ν qs qs' → Among p p' (paramsNodes qs) (paramsNodes qs') →
      env.Matches ν p p' env' →
        ReferencesJoin ν p p' (paramsReferences qs env) (paramsReferences qs' env')
  | [], _, _, _, rfl, _, _ => .nil
  | ⟨_, _, _⟩ :: _, _, _, _, ⟨_, _, _, _, rfl, _, _, ty, rest⟩, among, matching =>
    .append (ty.references among.left.tail.left matching)
      (params_references rest among.right matching)
termination_by structural qs => qs

theorem Stmt.Gains.references : ∀ {s s' : Stmt Mark} {env env' : Environment}, s.Gains ν s' →
    Among p p' s.nodes s'.nodes → env.Matches ν p p' env' →
      ReferencesJoin ν p p' (s.references env) (s'.references env')
  | .val ⟨_, _, _, _, _⟩, _, _, _, ⟨_, _, _, _, rfl, _, _, ty, init⟩, among, matching =>
    .append (ty?_references ty among.tail.left.left matching)
      (init.references among.tail.left.right matching)
  | .typeAlias ⟨_, _, _⟩, _, _, _, ⟨_, _, _, rfl, _, _, ty⟩, among, matching =>
    ty.references among.tail.left matching
  | .fn ⟨m, x, qs, t, e⟩, _, env, env', ⟨m', x', qs', t', e', rfl, same, name, params, ty, body⟩,
      among, matching => by
    have gains : Node.Gains ν (.stmt (.fn ⟨m, x, qs, t, e⟩)) (.stmt (.fn ⟨m', x', qs', t', e'⟩)) :=
      ⟨_, rfl, m', x', qs', t', e', rfl, same, name, params, ty, body⟩
    rw [Stmt.references, Stmt.references, ← Node.locals_fn m x qs t e,
      ← Node.locals_fn m' x' qs' t' e']
    refine among.tail.scope gains matching fun env env' matching => ?_
    exact .append (params_references params among.tail.left.left.left matching)
      (.append (ty?_references ty among.tail.left.left.right matching)
        (body.references among.tail.left.right matching))
  | .expr _ _, _, _, _, ⟨_, _, rfl, _, inner⟩, among, matching =>
    inner.references among.left matching
termination_by structural s => s

theorem stmts_references : ∀ {ss : List (Stmt Mark)} {S : List String} {ss' : List (Stmt Mark)}
    {env env' : Environment}, stmtsGain ν ss S ss' →
      Among p p' (stmtsNodes ss) (stmtsNodes ss') → env.Matches ν p p' env' →
        ReferencesJoin ν p p' (stmtsReferences ss env) (stmtsReferences ss' env')
  | [], _, _, _, env', added, among, _ =>
    references_added added (fun n member => (among.after n member).1) env'
  | s :: ss, S, _, env, env', ⟨new, s', rest, rfl, added, head, later⟩, among, matching => by
    have nodes : stmtsNodes (new ++ s' :: rest) =
        stmtsNodes new ++ (s'.nodes ++ stmtsNodes rest) := by
      rw [stmtsNodes_eq, List.flatMap_append, List.flatMap_cons, ← stmtsNodes_eq, ← stmtsNodes_eq]
    rw [nodes] at among
    have others := among.fewer (List.Subset.refl _) (List.subset_append_right _ _)
    have early : ReferencesJoin ν p p' [] (stmtsReferences new env') :=
      references_added added (fun n member =>
        (among.after n (List.mem_append_left _ member)).1) env'
    rw [stmtsReferences_append]
    exact early.append ((head.references others.left matching).append
      (stmts_references later others.right matching))
termination_by structural ss => ss
end

/-- The references of a program have their counterparts with functions added. -/
theorem Program.Gains.references (gains : p.Gains ν p')
    (unambiguous : ∀ n ∈ p.nodes, Decl.Unambiguous n.locals)
    (distinct : ∀ n ∈ p'.nodes, (n.locals.map (·.mark.id)).Nodup) :
    ReferencesJoin ν p p' p.references p'.references := by
  have among : Among p p' p.nodes p'.nodes :=
    ⟨fun n member => ⟨member, unambiguous n member⟩, fun n member => ⟨member, distinct n member⟩⟩
  have nodes : Node.Gains ν (.program p) (.program p') := ⟨p', rfl, gains⟩
  rw [Program.references, Program.references, ← Node.locals_program, ← Node.locals_program]
  exact among.scope nodes .outermost fun env env' matching =>
    stmts_references gains.2 among.left matching

end

end Solo
