import Solo.Proofs.Folding

/-!
# What folding counts

Folding goes through a whole program, except for the arguments of the calls that it folds. Outside
of these every inhabitant expression has its value afterwards, and every call whose result type has
one value was counted, as folded or as retained. Each value was counted once.
-/

namespace Solo

/-! ### Nodes outside of folded calls -/

/-- Whether a node is a call to an overload with a result type of one value. -/
def Checker.singleCall (F : Checker) : Node Mark → Bool
  | .expr (.call m _ _) => (F.signatures.find? m.id).any (·.result.isSingleton)
  | _ => false

/-- Whether a node lies in the arguments of a call among `ns` that has a value. -/
def Table.omits (values : Table NodeId Literal) (ns : List (Node Mark)) (n : Node Mark) : Bool :=
  ns.any fun
    | .expr (.call m _ args) =>
      values.contains m.id && (exprsNodes args).any (·.mark.id == n.mark.id)
    | _ => false

/-- How many calls among `ns` with a result type of one value do not lie in the arguments of a call
that has a value. -/
def Checker.tally (F : Checker) (values : Table NodeId Literal) (ns : List (Node Mark)) : Nat :=
  ns.countP fun n => F.singleCall n && !values.omits ns n

/-- A node that folding passes over: neither a call nor an inhabitant expression. -/
def Node.inert : Node Mark → Bool
  | .expr (.call _ _ _) | .expr (.inhabitant _ _) => false
  | _ => true

def Inert (ns : List (Node Mark)) : Prop := ∀ n ∈ ns, n.inert = true

/-- With a call, the nodes of its arguments are there. -/
def Whole (ns : List (Node Mark)) : Prop :=
  ∀ m f args, .expr (.call m f args) ∈ ns → exprsNodes args ⊆ ns

/-- No number comes twice. -/
def Distinct (ns : List (Node Mark)) : Prop := (ns.map (·.mark.id)).Nodup

section
variable {ns ks : List (Node Mark)}

namespace Inert

theorem nil : Inert [] := nofun

theorem cons {n : Node Mark} (root : n.inert = true) (rest : Inert ns) : Inert (n :: ns) :=
  List.forall_mem_cons.mpr ⟨root, rest⟩

theorem append (first : Inert ns) (second : Inert ks) : Inert (ns ++ ks) :=
  List.forall_mem_append.mpr ⟨first, second⟩

theorem snoc {n : Node Mark} (parts : Inert ns) (root : n.inert = true) : Inert (ns ++ [n]) :=
  parts.append (cons root nil)

theorem whole (inert : Inert ns) : Whole ns := fun _ _ _ member => nomatch inert _ member

theorem singleCall (inert : Inert ns) {F : Checker} {n : Node Mark} (member : n ∈ ns) :
    F.singleCall n = false := by
  have root := inert n member
  unfold Node.inert at root
  split at root
  · cases root
  · cases root
  · unfold Checker.singleCall
    split
    · next call _ => exact absurd rfl (call _ _ _)
    · rfl

end Inert

theorem Closed.whole (closed : Closed ns) : Whole ns := by
  intro m f args member
  exact List.Subset.trans (List.subset_append_of_subset_left _ (List.subset_cons_self _ _))
    (closed _ member).subset

theorem Whole.append (first : Whole ns) (second : Whole ks) : Whole (ns ++ ks) := by
  intro m f args member
  rcases List.mem_append.mp member with here | there
  · exact List.subset_append_of_subset_left _ (first m f args here)
  · exact List.subset_append_of_subset_right _ (second m f args there)

namespace Distinct

theorem split (distinct : Distinct (ns ++ ks)) :
    Distinct ns ∧ Distinct ks ∧ ∀ n ∈ ns, ∀ k ∈ ks, n.mark.id ≠ k.mark.id := by
  rw [Distinct, List.map_append, List.nodup_append] at distinct
  exact ⟨distinct.1, distinct.2.1, fun n first k second =>
    distinct.2.2 _ (List.mem_map_of_mem first) _ (List.mem_map_of_mem second)⟩

theorem left (distinct : Distinct (ns ++ ks)) : Distinct ns := distinct.split.1

theorem right (distinct : Distinct (ns ++ ks)) : Distinct ks := distinct.split.2.1

end Distinct

end

/-! ### Counting -/

section
variable {F : Checker} {values values' : Table NodeId Literal} {ns ks : List (Node Mark)}
  {n : Node Mark}

theorem Table.omits_iff : values.omits ns n = true ↔ ∃ m f args, .expr (.call m f args) ∈ ns ∧
    values.contains m.id = true ∧ ∃ k ∈ exprsNodes args, k.mark.id = n.mark.id := by
  simp only [omits, List.any_eq_true]
  constructor
  · rintro ⟨k, member, holds⟩
    split at holds
    · next m f args =>
      simp only [Bool.and_eq_true, List.any_eq_true, beq_iff_eq] at holds
      exact ⟨m, f, args, member, holds⟩
    · cases holds
  · rintro ⟨m, f, args, member, known, k, inside, same⟩
    refine ⟨_, member, ?_⟩
    simp only [Bool.and_eq_true, List.any_eq_true, beq_iff_eq]
    exact ⟨known, k, inside, same⟩

theorem Table.omits_append :
    values.omits (ns ++ ks) n = (values.omits ns n || values.omits ks n) :=
  List.any_append

theorem Table.omits_argument {m : Mark} {g : Ident Mark} {args : List (Expr Mark)}
    (known : values.contains m.id = true) (argument : n ∈ exprsNodes args) :
    values.omits (ns ++ [.expr (.call m g args)]) n = true :=
  omits_iff.mpr ⟨m, g, args, List.mem_append_right _ List.mem_cons_self, known, n, argument, rfl⟩

/-- What comes with its arguments leaves nothing else out. -/
theorem Whole.omits (whole : Whole ns) (apart : ∀ k ∈ ns, k.mark.id ≠ n.mark.id) :
    values.omits ns n = false := by
  rw [← Bool.not_eq_true, Table.omits_iff]
  rintro ⟨m, f, args, member, -, k, inside, same⟩
  exact apart k (whole m f args member inside) same

theorem Table.omits_congr (same : ∀ k ∈ ns, values'.find? k.mark.id = values.find? k.mark.id) :
    values'.omits ns n = values.omits ns n := by
  have known : ∀ m f args, .expr (.call m f args) ∈ ns →
      values'.contains m.id = values.contains m.id := fun m f args member =>
    congrArg Option.isSome (same _ member)
  rw [Bool.eq_iff_iff, omits_iff, omits_iff]
  constructor
  · rintro ⟨m, f, args, member, holds, rest⟩
    exact ⟨m, f, args, member, known m f args member ▸ holds, rest⟩
  · rintro ⟨m, f, args, member, holds, rest⟩
    exact ⟨m, f, args, member, known m f args member ▸ holds, rest⟩

theorem Checker.tally_congr (same : ∀ k ∈ ns, values'.find? k.mark.id = values.find? k.mark.id) :
    F.tally values' ns = F.tally values ns := by
  refine List.countP_congr fun n _ => ?_
  rw [Table.omits_congr same]

theorem Checker.tally_append (distinct : Distinct (ns ++ ks)) (first : Whole ns)
    (second : Whole ks) : F.tally values (ns ++ ks) = F.tally values ns + F.tally values ks := by
  have apart := distinct.split.2.2
  rw [tally, List.countP_append]
  congr 1
  · refine List.countP_congr fun n member => ?_
    rw [Table.omits_append, second.omits fun k other => (apart n member k other).symm,
      Bool.or_false]
  · refine List.countP_congr fun n member => ?_
    rw [Table.omits_append, first.omits fun k other => apart k other n member, Bool.false_or]

theorem Checker.tally_inert (inert : Inert ns) : F.tally values ns = 0 := by
  refine List.countP_eq_zero.mpr fun n member => ?_
  simp [inert.singleCall member]

theorem Checker.tally_kept {m : Mark} {g : Ident Mark} {args : List (Expr Mark)}
    (distinct : Distinct (ns ++ [.expr (.call m g args)])) (whole : Whole ns)
    (missing : values.find? m.id = none) :
    F.tally values (ns ++ [.expr (.call m g args)]) =
      F.tally values ns + if F.singleCall (.expr (.call m g args)) then 1 else 0 := by
  have apart := distinct.split.2.2
  have none : ∀ n, values.omits (ns ++ [.expr (.call m g args)]) n = values.omits ns n := by
    intro n
    simp [Table.omits, Table.contains, missing]
  rw [tally, List.countP_append]
  congr 1
  · exact List.countP_congr fun n _ => by rw [none]
  · have outside : values.omits ns (.expr (.call m g args)) = false :=
      whole.omits fun k other => apart k other _ (List.mem_singleton.mpr rfl)
    rw [List.countP_singleton, none, outside, Bool.not_false, Bool.and_true]

/-- A call that has one, and of which all but the name are arguments. -/
theorem Checker.tally_folded {m : Mark} {g : Ident Mark} {args : List (Expr Mark)}
    (distinct : Distinct (.ident g :: exprsNodes args ++ [.expr (.call m g args)]))
    (known : values.contains m.id = true) (single : F.singleCall (.expr (.call m g args)) = true) :
    F.tally values (.ident g :: exprsNodes args ++ [.expr (.call m g args)]) = 1 := by
  have whole : Whole (.ident g :: exprsNodes args) :=
    ((Closed.leaf (n := .ident g) rfl).append (exprs_closed args)).whole
  have apart := distinct.split.2.2
  -- the call is not among its own arguments
  have outside : values.omits (.ident g :: exprsNodes args ++ [.expr (.call m g args)])
      (.expr (.call m g args)) = false := by
    rw [Table.omits_append, whole.omits fun k other => apart k other _ (List.mem_singleton.mpr rfl),
      Bool.false_or, ← Bool.not_eq_true, Table.omits_iff]
    rintro ⟨_, _, _, member, -, k, inside, same⟩
    cases List.mem_singleton.mp member
    exact apart k (List.mem_cons_of_mem _ inside) _ (List.mem_singleton.mpr rfl) same
  rw [tally, List.countP_append, List.countP_eq_zero.mpr, List.countP_singleton, outside, single]
  · rfl
  · intro n member
    rcases List.mem_cons.mp member with rfl | argument
    · exact Bool.false_ne_true
    · rw [Table.omits_argument known argument, Bool.not_true, Bool.and_false]
      exact Bool.false_ne_true

end

/-- What folding does with a part of a program. -/
structure Tallied (F : Checker) (ns : List (Node Mark)) (f f' : Folding) : Prop where
  kept : ∀ i, (∀ n ∈ ns, n.mark.id ≠ i) → f'.values.find? i = f.values.find? i
  keys : f.values.keys.Nodup → f'.values.keys.Nodup
  size : f'.values.size + (f.stats.inhabitants + f.stats.calls) =
    f.values.size + (f'.stats.inhabitants + f'.stats.calls)
  calls : f'.stats.calls + f'.stats.retained =
    f.stats.calls + f.stats.retained + F.tally f'.values ns
  found : ∀ m ty w, .expr (.inhabitant m ty) ∈ ns → F.witnesses.find? m.id = some w →
    f'.values.omits ns (.expr (.inhabitant m ty)) = false → f'.values.find? m.id = some w.value

namespace Tallied

variable {F : Checker} {ns ks : List (Node Mark)} {f f₁ f₂ : Folding}

theorem inert (inert : Inert ns) : Tallied F ns f f where
  kept _ _ := rfl
  keys := id
  size := rfl
  calls := by rw [Checker.tally_inert inert]; rfl
  found _ _ _ member := nomatch inert _ member

theorem append (distinct : Distinct (ns ++ ks)) (wholeNs : Whole ns) (wholeKs : Whole ks)
    (first : Tallied F ns f f₁) (second : Tallied F ks f₁ f₂) : Tallied F (ns ++ ks) f f₂ := by
  have apart := distinct.split.2.2
  have same : ∀ n ∈ ns, f₂.values.find? n.mark.id = f₁.values.find? n.mark.id := fun n member =>
    second.kept _ fun k other => (apart n member k other).symm
  refine ⟨?_, second.keys ∘ first.keys, ?_, ?_, ?_⟩
  · intro i outside
    obtain ⟨left, right⟩ := List.forall_mem_append.mp outside
    exact (second.kept i right).trans (first.kept i left)
  · have sizes := first.size
    have sizes' := second.size
    omega
  · have calls := first.calls
    have calls' := second.calls
    rw [Checker.tally_append distinct wholeNs wholeKs, Checker.tally_congr same]
    omega
  · intro m ty w member witness outside
    rw [Table.omits_append, Bool.or_eq_false_iff] at outside
    rcases List.mem_append.mp member with here | there
    · rw [Table.omits_congr same] at outside
      exact (same _ here).trans (first.found m ty w here witness outside.1)
    · exact second.found m ty w there witness outside.2

theorem inhabitant {m : Mark} {ty : TyNode Mark} {w : Witness} (inert : Inert ns)
    (distinct : Distinct (ns ++ [.expr (.inhabitant m ty)])) (missing : f.values.find? m.id = none)
    (witness : F.witnesses.find? m.id = some w) :
    Tallied F (ns ++ [.expr (.inhabitant m ty)]) f
      { values := f.values.insert m.id w.value
        stats := { f.stats with inhabitants := f.stats.inhabitants + 1 } } := by
  have root : Whole [Node.expr (.inhabitant m ty)] := by
    intro _ _ _ member
    cases List.mem_singleton.mp member
  refine append distinct inert.whole root (.inert inert) ⟨?_, ?_, ?_, ?_, ?_⟩
  · intro i outside
    exact Table.find?_insert_other _ _ (outside _ List.mem_cons_self).symm
  · intro nodup
    rw [Table.insert_eq_push missing]
    exact Table.nodup_keys_push nodup missing
  · rw [Table.insert_eq_push missing, Table.size_push]
    dsimp only
    omega
  · rfl
  · intro m' ty' w' member witness' _
    cases List.mem_singleton.mp member
    cases witness.symm.trans witness'
    exact Table.find?_insert_self ..

section
variable {m : Mark} {g : Ident Mark} {args : List (Expr Mark)}

/-- A call gets a value, and its arguments are passed over. -/
theorem folded {v : Literal}
    (distinct : Distinct (.ident g :: exprsNodes args ++ [.expr (.call m g args)]))
    (missing : f.values.find? m.id = none) (single : F.singleCall (.expr (.call m g args)) = true) :
    Tallied F (.ident g :: exprsNodes args ++ [.expr (.call m g args)]) f
      { values := f.values.insert m.id v
        stats := { f.stats with calls := f.stats.calls + 1 } } := by
  have known : (f.values.insert m.id v).contains m.id = true :=
    Table.contains_insert.mpr (.inr rfl)
  refine ⟨?_, ?_, ?_, ?_, ?_⟩
  · intro i outside
    exact Table.find?_insert_other _ _
      (outside _ (List.mem_append_right _ List.mem_cons_self)).symm
  · intro nodup
    rw [Table.insert_eq_push missing]
    exact Table.nodup_keys_push nodup missing
  · rw [Table.insert_eq_push missing, Table.size_push]
    dsimp only
    omega
  · rw [Checker.tally_folded distinct known single]
    dsimp only
    omega
  · intro m' ty w member _ outside
    have argument : .expr (.inhabitant m' ty) ∈ exprsNodes args := by
      simpa using member
    exact nomatch outside.symm.trans (Table.omits_argument known argument)

/-- A call gets no value, and folding goes on to its arguments. -/
theorem retained {f' : Folding} (rest : Tallied F ns f₁ f')
    (distinct : Distinct (ns ++ [.expr (.call m g args)])) (whole : Whole ns)
    (missing : f.values.find? m.id = none) (values : f₁.values = f.values)
    (inhabitants : f₁.stats.inhabitants = f.stats.inhabitants)
    (calls : f₁.stats.calls = f.stats.calls)
    (counted : f₁.stats.retained =
      f.stats.retained + if F.singleCall (.expr (.call m g args)) then 1 else 0) :
    Tallied F (ns ++ [.expr (.call m g args)]) f f' := by
  have apart := distinct.split.2.2
  have missing' : f'.values.find? m.id = none := by
    rw [rest.kept m.id fun n member => apart n member _ (List.mem_singleton.mpr rfl), values,
      missing]
  refine ⟨?_, ?_, ?_, ?_, ?_⟩
  · intro i outside
    rw [rest.kept i (List.forall_mem_append.mp outside).1, values]
  · exact values ▸ rest.keys
  · have size := rest.size
    rw [values] at size
    omega
  · have counts := rest.calls
    rw [Checker.tally_kept distinct whole missing']
    omega
  · intro m' ty w member witness outside
    rw [Table.omits_append, Bool.or_eq_false_iff] at outside
    have here : .expr (.inhabitant m' ty) ∈ ns := by
      simpa using member
    exact rest.found m' ty w here witness outside.1

end

end Tallied

/-- Folding a part of a program of which nothing has a value before. -/
structure Fold.Tallies (F : Checker) (ns : List (Node Mark)) {α : Type} (a : Fold α) : Prop where
  whole : Whole ns
  run : ∀ f c, F.Like c → (∀ n ∈ ns, f.values.find? n.mark.id = none) →
    ∃ x f' c', a f c = .ok ((x, f'), c') ∧ F.Like c' ∧ Tallied F ns f f'

namespace Fold.Tallies

variable {F : Checker} {ns ks : List (Node Mark)} {α β : Type} {a : Fold α}

theorem pure (inert : Inert ns) (x : α) : Tallies F ns (Pure.pure x : Fold α) :=
  ⟨inert.whole, fun f c like _ => ⟨x, f, c, rfl, like, .inert inert⟩⟩

theorem bind {g : α → Fold β} (first : Tallies F ns a) (rest : ∀ x, Tallies F ks (g x))
    (distinct : Distinct (ns ++ ks)) [inhabited : Nonempty α] : Tallies F (ns ++ ks) (a >>= g) := by
  have whole := (rest inhabited.some).whole
  refine ⟨first.whole.append whole, fun f c like fresh => ?_⟩
  obtain ⟨freshNs, freshKs⟩ := List.forall_mem_append.mp fresh
  obtain ⟨x, f₁, c₁, run₁, like₁, tallied₁⟩ := first.run f c like freshNs
  have fresh₁ : ∀ k ∈ ks, f₁.values.find? k.mark.id = none := fun k member =>
    (tallied₁.kept _ fun n other => distinct.split.2.2 n other k member).trans (freshKs k member)
  obtain ⟨y, f₂, c₂, run₂, like₂, tallied₂⟩ := (rest x).run f₁ c₁ like₁ fresh₁
  exact ⟨y, f₂, c₂, (Fold.bind_eq run₁).trans run₂, like₂,
    tallied₁.append distinct first.whole whole tallied₂⟩

/-- Nodes that folding passes over, before what it goes through. -/
theorem after (tallies : Tallies F ks a) (inert : Inert ns) (distinct : Distinct (ns ++ ks)) :
    Tallies F (ns ++ ks) a := by
  refine ⟨inert.whole.append tallies.whole, fun f c like fresh => ?_⟩
  obtain ⟨x, f', c', run, like', tallied⟩ :=
    tallies.run f c like (List.forall_mem_append.mp fresh).2
  exact ⟨x, f', c', run, like',
    (Tallied.inert inert).append distinct inert.whole tallies.whole tallied⟩

theorem before (tallies : Tallies F ns a) (inert : Inert ks) (distinct : Distinct (ns ++ ks)) :
    Tallies F (ns ++ ks) a := by
  refine ⟨tallies.whole.append inert.whole, fun f c like fresh => ?_⟩
  obtain ⟨x, f', c', run, like', tallied⟩ :=
    tallies.run f c like (List.forall_mem_append.mp fresh).1
  exact ⟨x, f', c', run, like', tallied.append distinct tallies.whole inert.whole (.inert inert)⟩

/-- A node that folding passes over, on top of what it goes through. -/
theorem snoc {n : Node Mark} (tallies : Tallies F ns a) (root : n.inert = true)
    (distinct : Distinct (ns ++ [n])) : Tallies F (ns ++ [n]) a :=
  tallies.before (.cons root .nil) distinct

end Fold.Tallies

/-! ### Typed trees -/

section
variable {cx : Context} {F : Checker}

/-- Folding passes over the types in a program. -/
theorem Denotes.inert {p : BoundProgram} {node : TyNode Mark} {t : Ty}
    (denotes : Denotes p node t) : Inert node.nodes := by
  induction denotes with
  | kind | typeAlias | literal | path | lit => exact .cons rfl (.cons rfl .nil)
  | paren _ ih => exact ih.snoc rfl

theorem inert_ty? {p : BoundProgram} {ty : Option (TyNode Mark)}
    (denotes : ∀ node, ty = some node → ∃ t, Denotes p node t) : Inert (tyNodes? ty) := by
  cases ty with
  | none => exact .nil
  | some node =>
    obtain ⟨t, denotes⟩ := denotes node rfl
    exact denotes.inert

theorem inert_params {p : BoundProgram} {qs : List (Param Mark)} {ts : List Ty}
    (typed : List.Forall₂ (ParamTyped p F) qs ts) : Inert (paramsNodes qs) := by
  induction typed with
  | nil => exact .nil
  | @cons q t qs ts head _ ih =>
    obtain ⟨m, x, node⟩ := q
    exact .append (.snoc (.cons (n := .ident x) rfl head.1.inert) rfl) ih

theorem Pat.Typed.inert {p : BoundProgram} {q : Pat Mark} (typed : q.Typed p F) :
    Inert q.nodes := by
  cases q with
  | wildcard m => exact .cons rfl .nil
  | lit m l => exact .cons rfl (.cons rfl .nil)
  | typed m node =>
    have ⟨t, _, denotes⟩ := typed
    exact .snoc denotes.inert rfl

variable (cert : Certified cx.toBoundProgram F) (sized : cx.program.nodes.length ≤ cx.nodeCount)
include cert sized

/-- A call is folded, or it is counted if its result has one value and left to be gone through. -/
theorem foldCall_cases (owner : Option (FnDecl Mark)) {m : Mark} {g : Ident Mark}
    {args : List (Expr Mark)} (inside : (Expr.call m g args).nodes ⊆ cx.program.nodes)
    (f : Folding) {c : Checker} (like : F.Like c) :
    ∃ folded f' c', cx.resolver.foldCall owner m g args f c = .ok ((folded, f'), c') ∧ F.Like c' ∧
      ((folded = true ∧ F.singleCall (.expr (.call m g args)) = true ∧
          ∃ v, f' = ⟨f.values.insert m.id v, { f.stats with calls := f.stats.calls + 1 }⟩) ∨
        folded = false ∧ f' = ⟨f.values, { f.stats with
          retained :=
            f.stats.retained + if F.singleCall (.expr (.call m g args)) then 1 else 0 }⟩) := by
  rw [Resolver.foldCall, Check.getThe_bind, like.signatures]
  have counted : F.singleCall (.expr (.call m g args)) =
      (F.signatures.find? m.id).any (·.result.isSingleton) := rfl
  rw [counted]
  cases found : F.signatures.find? m.id with
  | none => exact ⟨false, f, c, rfl, like, .inr ⟨rfl, rfl⟩⟩
  | some sig =>
    dsimp only [Option.any_some]
    split
    · next several =>
      rw [Bool.not_eq_true', ← Bool.not_eq_true] at several
      refine ⟨false, f, c, rfl, like, .inr ⟨rfl, ?_⟩⟩
      rw [if_neg several]
      rfl
    · next single =>
      rw [Bool.not_eq_true', Bool.not_eq_false] at single
      obtain ⟨result, c₁, value, judged, _⟩ :=
        callValue_settling cert sized owner inside found c like
      have lifted := Fold.lift_eq f value
      cases result with
      | error e =>
        exact ⟨false, _, c₁, Fold.bind_eq lifted, judged.like, .inr ⟨rfl, by rw [if_pos single]⟩⟩
      | ok v => exact ⟨true, _, c₁, Fold.bind_eq lifted, judged.like, .inl ⟨rfl, single, v, rfl⟩⟩

set_option linter.unusedSectionVars false

mutual
theorem foldExpr_tallies (owner : Option (FnDecl Mark)) : ∀ (e : Expr Mark) {t : Ty},
    e.Typed cx.toBoundProgram F t → e.nodes ⊆ cx.program.nodes → Distinct e.nodes →
      Fold.Tallies F e.nodes (cx.resolver.foldExpr owner e)
  | .lit _, _, _, _, _ => .pure (.cons rfl .nil) ()
  | .name _, _, _, _, _ => .pure (.cons rfl .nil) ()
  | .host _ _, _, _, _, _ => .pure (.cons rfl .nil) ()
  | .paren _ e, _, ⟨_, inner⟩, inside, distinct =>
    (foldExpr_tallies owner e inner (Answers.below_left inside) distinct.left).snoc rfl distinct
  | .unary _ _ e, _, ⟨_, _, _, _, inner, _⟩, inside, distinct =>
    (foldExpr_tallies owner e inner (Answers.below_left inside) distinct.left).snoc rfl distinct
  | .bin _ _ a b, _, ⟨_, _, _, _, _, _, left, right, _⟩, inside, distinct =>
    have inside := Answers.below_left inside
    have first := foldExpr_tallies owner a left (Answers.below_left inside) distinct.left.left
    have second := foldExpr_tallies owner b right (Answers.below_right inside) distinct.left.right
    (first.bind (fun _ => second) distinct.left).snoc rfl distinct
  | .block _ ss tail, _, ⟨_, stmts, last⟩, inside, distinct =>
    have inside := Answers.below_left inside
    have first := foldStmts_tallies owner ss stmts (Answers.below_left inside) distinct.left.left
    have second := foldTail_tallies owner tail last (Answers.below_right inside) distinct.left.right
    (first.bind (fun _ => second) distinct.left).snoc rfl distinct
  | .assign _ x e, _, ⟨_, _, _, _, _, _, _, _, inner, _⟩, inside, distinct =>
    have inside := (List.cons_subset.mp (Answers.below_left inside)).2
    have parts : Distinct ([.ident x] ++ e.nodes) := distinct.left
    ((foldExpr_tallies owner e inner inside parts.right).after (.cons rfl .nil) parts).snoc rfl
      distinct
  | .cases _ e arms, _, ⟨_, ⟨_, inner⟩, rest⟩, inside, distinct =>
    have inside := Answers.below_left inside
    have first := foldExpr_tallies owner e inner (Answers.below_left inside) distinct.left.left
    have second := foldArms_tallies owner arms rest (Answers.below_right inside) distinct.left.right
    (first.bind (fun _ => second) distinct.left).snoc rfl distinct
  | .inhabitant m node, _, ⟨_, denotes, w, witness, _⟩, _, distinct => by
    refine ⟨(TyNode.closed node).whole.append ?_, fun f c like fresh => ?_⟩
    · intro _ _ _ member
      cases List.mem_singleton.mp member
    · have run : cx.resolver.foldExpr owner (.inhabitant m node) f c =
          (match c.witnesses.find? m.id with
            | some w => Fold.inhabitant m.id w.value
            | none => return : Fold Unit) f c := rfl
      rw [run, like.witnesses, witness]
      exact ⟨(), _, c, rfl, like, .inhabitant denotes.inert distinct
        (fresh _ (List.mem_append_right _ List.mem_cons_self)) witness⟩
  | .call m g args, _, ⟨_, _, types, _, typed, _⟩, inside, distinct => by
    have parts : Distinct ([.ident g] ++ exprsNodes args) := distinct.left
    have rest := (foldExprs_tallies owner args typed
      (List.cons_subset.mp (Answers.below_left inside)).2 parts.right).after (.cons rfl .nil) parts
    refine ⟨(Expr.closed (.call m g args)).whole, fun f c like fresh => ?_⟩
    have missing : f.values.find? m.id = none :=
      fresh (.expr (.call m g args)) (List.mem_append_right _ List.mem_cons_self)
    obtain ⟨folded, f₁, c₁, run, like₁, ⟨rfl, single, v, rfl⟩ | ⟨rfl, state⟩⟩ :=
      foldCall_cases cert sized owner inside f like
    · exact ⟨(), _, c₁, Fold.bind_eq run, like₁, .folded distinct missing single⟩
    · obtain ⟨_, f₂, c₂, run₂, like₂, tallied⟩ := rest.run f₁ c₁ like₁ fun n member => by
        rw [state]
        exact fresh n (List.mem_append_left _ member)
      subst state
      exact ⟨(), f₂, c₂, (Fold.bind_eq run).trans run₂, like₂,
        .retained tallied distinct rest.whole missing rfl rfl rfl rfl⟩

theorem foldExprs_tallies (owner : Option (FnDecl Mark)) : ∀ (es : List (Expr Mark)) {ts : List Ty},
    exprsTyped cx.toBoundProgram F es ts → exprsNodes es ⊆ cx.program.nodes →
      Distinct (exprsNodes es) → Fold.Tallies F (exprsNodes es) (cx.resolver.foldExprs owner es)
  | [], _, _, _, _ => .pure .nil ()
  | e :: es, _, ⟨_, _, _, typed, rest⟩, inside, distinct =>
    have first := foldExpr_tallies owner e typed (Answers.below_left inside) distinct.left
    have second := foldExprs_tallies owner es rest (Answers.below_right inside) distinct.right
    first.bind (fun _ => second) distinct

theorem foldTail_tallies (owner : Option (FnDecl Mark)) : ∀ (tail : Option (Expr Mark)) {t : Ty},
    tailTyped cx.toBoundProgram F tail t → tailNodes tail ⊆ cx.program.nodes →
      Distinct (tailNodes tail) → Fold.Tallies F (tailNodes tail) (cx.resolver.foldTail owner tail)
  | none, _, _, _, _ => .pure .nil ()
  | some e, _, typed, inside, distinct => foldExpr_tallies owner e typed inside distinct

theorem foldArms_tallies (owner : Option (FnDecl Mark)) : ∀ (arms : List (Arm Mark)) {t : Ty},
    armsTyped cx.toBoundProgram F arms t → armsNodes arms ⊆ cx.program.nodes →
      Distinct (armsNodes arms) → Fold.Tallies F (armsNodes arms) (cx.resolver.foldArms owner arms)
  | [], _, _, _, _ => .pure .nil ()
  | ⟨_, _, e⟩ :: arms, _, ⟨pat, ⟨_, body, _⟩, rest⟩, inside, distinct =>
    have arm := distinct.left
    have inner := Answers.below_right (Answers.below_left (Answers.below_left inside))
    have body := (foldExpr_tallies owner e body inner arm.left.right).after pat.inert arm.left
    have first := body.snoc rfl arm
    have second := foldArms_tallies owner arms rest (Answers.below_right inside) distinct.right
    first.bind (fun _ => second) distinct

theorem foldStmt_tallies (owner : Option (FnDecl Mark)) : ∀ s : Stmt Mark,
    s.Typed cx.toBoundProgram F → s.nodes ⊆ cx.program.nodes → Distinct s.nodes →
      Fold.Tallies F s.nodes (cx.resolver.foldStmt owner s)
  | .val ⟨_, _, _, _, e⟩, ⟨annotated, _, _, _, _, _, inner, _⟩, inside, distinct =>
    have inside := Answers.below_right (Answers.below_left inside)
    have head : Inert _ := .cons rfl (inert_ty? annotated)
    ((foldExpr_tallies owner e inner inside distinct.left.right).after head distinct.left).snoc rfl
      distinct
  | .fn ⟨_, _, _, _, e⟩, ⟨declared, _, _, _, _, params, inner, _⟩, inside, distinct =>
    have inside := Answers.below_right (Answers.below_left inside)
    have head : Inert _ := .append (.cons rfl (inert_params params)) (inert_ty? declared)
    ((foldExpr_tallies _ e inner inside distinct.left.right).after head distinct.left).snoc rfl
      distinct
  | .expr _ e, ⟨_, inner⟩, inside, distinct =>
    (foldExpr_tallies owner e inner (Answers.below_left inside) distinct.left).snoc rfl distinct
  | .typeAlias ⟨_, _, _⟩, ⟨_, denotes⟩, _, _ => .pure (.snoc (.cons rfl denotes.inert) rfl) ()

theorem foldStmts_tallies (owner : Option (FnDecl Mark)) : ∀ ss : List (Stmt Mark),
    stmtsTyped cx.toBoundProgram F ss → stmtsNodes ss ⊆ cx.program.nodes →
      Distinct (stmtsNodes ss) → Fold.Tallies F (stmtsNodes ss) (cx.resolver.foldStmts owner ss)
  | [], _, _, _ => .pure .nil ()
  | s :: ss, ⟨typed, rest⟩, inside, distinct =>
    have first := foldStmt_tallies owner s typed (Answers.below_left inside) distinct.left
    have second := foldStmts_tallies owner ss rest (Answers.below_right inside) distinct.right
    first.bind (fun _ => second) distinct
end

theorem Context.fold_tallied :
    ∃ folding c, cx.fold.run F = .ok (folding, c) ∧ F.Like c ∧
      Tallied F cx.program.nodes {} folding := by
  have distinct : Distinct cx.program.nodes := cert.bound.distinct
  have tallies := (foldStmts_tallies cert sized none cx.program.stmts cert.stmts
    (List.subset_append_left _ _) distinct.left).snoc (n := .program cx.program) rfl distinct
  obtain ⟨_, folding, c, run, like, tallied⟩ := tallies.run {} F (.refl F) fun _ _ => rfl
  exact ⟨folding, c, Check.bind_eq run, like, tallied⟩

end

end Solo
