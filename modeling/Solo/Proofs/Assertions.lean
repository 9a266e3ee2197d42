import Solo.Proofs.Courses

/-!
# Answers without a look

The type of a binding, the target of an alias and the signature of a function are written after a
look whether they are there. `checkOnce` is the check without that look: it takes it for granted
that they are not, and fails if one is. It does what the check does, unless it fails so.
-/

namespace Solo

namespace Context

variable (cx : Context)

def nodeOf : Goal → NodeId
  | .resultOf i => i
  | .typeOf x | .targetOf x => ((cx.symbol x).decls.head?.map (·.mark.id)).getD 0

def assertUnsettled (g : Goal) : Check Unit := do
  if (← get).isSettled g then throw (.rewritten (cx.nodeOf g))

/-- What is looked for after the parameters of a function. -/
def signatureAfterOnce (d : FnDecl Mark) (params : List Ty) (o : Oracle) : Check Signature :=
  let x := (cx.targets.find? d.mark.id).getD Symbol.unresolvedId
  match d.result with
  | some node => do
    let t ← (cx.asking o).typeOfNode node
    cx.assertUnsettled (.resultOf d.mark.id)
    Resolver.signatureOf.keep ⟨d, x, params, t⟩
  | none =>
    search (.resultOf d.mark.id) ((cx.asking o).typeOfExpr d.body none) ⟨d, x, params, .error⟩
      fun body looped => do
        cx.assertUnsettled (.resultOf d.mark.id)
        Check.settleResult d x params body looped

/-- How a demand is met if its answer is written without a look whether there is one. -/
def meetOnce : (q : Demand) → Oracle → Check q.Answer
  | .typeOf x, o => do
    match (← get).symbolTypes.find? x, (cx.symbol x).role.isBinding, (cx.symbol x).decls.head? with
    | some t, _, _ => return t
    | none, true, some d =>
      search (.typeOf x) ((cx.asking o).typeOfDecl d) .error fun found looped => do
        cx.assertUnsettled (.typeOf x)
        Check.settleType x d.name.mark.span (cx.symbol x).name found looped
    | none, _, _ => return .error
  | .aliasTarget x span, o => do
    match (← get).aliasTargets.find? x with
    | some t => return t
    | none =>
      search (.targetOf x) ((cx.asking o).typeOfTarget (cx.symbol x).decls.head?) .error
        fun found looped => do
          cx.assertUnsettled (.targetOf x)
          Check.settleTarget x span (cx.symbol x).name found looped
  | .signature d, o => do
    match (← get).signatures.find? d.mark.id with
    | some sig => return sig
    | none =>
      let params ← d.params.mapM (cx.asking o).typeOfParam
      cx.signatureAfterOnce d params o

/-- Meets demands to a depth of `n` demands inside each other. -/
def oracleOnce : Nat → Oracle
  | 0, _ => throw .endless
  | n + 1, q => cx.meetOnce q (oracleOnce n)

/-- Types everything in the program, and writes every answer without a look whether there is
one. -/
def checkOnce : Check Unit :=
  (cx.asking (cx.oracleOnce cx.questionBound)).checkStmts cx.program.stmts

end Context

/-- One action does what another does, unless it comes upon an entry that is there. -/
def Asserts {α : Type} (a b : Check α) : Prop := ∀ c, a c = b c ∨ ∃ i, a c = .error (.rewritten i)

namespace Asserts

variable {cx : Context} {α β : Type} {a b : Check α}

theorem refl (a : Check α) : Asserts a a := fun _ => .inl rfl

theorem bind {f g : α → Check β} (first : Asserts a b) (rest : ∀ x, Asserts (f x) (g x)) :
    Asserts (a >>= f) (b >>= g) := by
  intro c
  rw [Check.bind_apply, Check.bind_apply]
  rcases first c with same | ⟨i, fault⟩
  · rw [same]
    cases b c with
    | error e => exact .inl rfl
    | ok r => exact rest r.1 r.2
  · exact .inr ⟨i, by rw [fault]; rfl⟩

theorem spares (asserts : Asserts a b) (spares : Spares b) : Spares a := by
  intro c x c' run
  rcases asserts c with same | ⟨i, fault⟩
  · exact spares c x c' (same ▸ run)
  · rw [fault] at run
    cases run

theorem assertUnsettled (g : Goal) : Asserts (do cx.assertUnsettled g; a) a := by
  intro c
  by_cases settled : c.isSettled g = true
  · refine .inr ⟨cx.nodeOf g, ?_⟩
    change (if c.isSettled g = true then _ else _ : Check Unit) c >>= _ = _
    rw [if_pos settled]
    rfl
  · refine .inl ?_
    change (if c.isSettled g = true then _ else _ : Check Unit) c >>= _ = _
    rw [if_neg settled]
    rfl

/-- A goal is asserted to be open when it is settled. -/
theorem search {g : Goal} {body body' : Check α} (bodies : Asserts body body') (blocked : β)
    (finish : α → Bool → Check β) :
    Asserts (Solo.search g body blocked fun x looped => do cx.assertUnsettled g; finish x looped)
      (Solo.search g body' blocked finish) := by
  refine (refl (Check.pursue g)).bind fun begun => ?_
  cases begun with
  | false => exact refl _
  | true =>
    refine bodies.bind fun x => (refl Check.conclude).bind fun looped => ?_
    exact assertUnsettled g

/-- All of checking does the same with an oracle that does the same. -/
theorem thorough {o o' : Oracle} (oracles : ∀ q, cx.Poses q → Asserts (o q) (o' q)) :
    Thorough cx fun act => Asserts (act o) (act o') :=
  have comp : Compositional cx fun act => Asserts (act o) (act o') :=
    { still := fun _ => refl _
      bind := fun first rest => first.bind rest
      ask := oracles }
  { comp with
    isSubtype := comp.isSubtype (refl _)
    lub := comp.lub (refl _) }

end Asserts

/-! ### Demands without a look -/

namespace Context

section
variable (cx : Context) (o : Oracle) {c : Checker} {x : SymbolId}

theorem meetOnce_type_known {t : Ty} (found : c.symbolTypes.find? x = some t) :
    cx.meetOnce (.typeOf x) o c = .ok (t, c) := by
  rw [meetOnce, Check.get_bind, found]
  rfl

theorem meetOnce_type_search {d : Decl} (new : c.symbolTypes.find? x = none)
    (binding : (cx.symbol x).role.isBinding = true) (head : (cx.symbol x).decls.head? = some d) :
    cx.meetOnce (.typeOf x) o c = search (.typeOf x) ((cx.asking o).typeOfDecl d) Ty.error
      (fun found looped => do
        cx.assertUnsettled (.typeOf x)
        Check.settleType x d.name.mark.span (cx.symbol x).name found looped) c := by
  rw [meetOnce, Check.get_bind, new, binding, head]
  rfl

theorem meetOnce_type_untypable (new : c.symbolTypes.find? x = none) (untyped : ¬cx.Typable x) :
    cx.meetOnce (.typeOf x) o c = .ok (.error, c) := by
  rw [meetOnce, Check.get_bind, new]
  cases binding : (cx.symbol x).role.isBinding with
  | false => rfl
  | true =>
    cases decls : (cx.symbol x).decls with
    | nil => rfl
    | cons d ds => exact absurd ⟨binding, by simp [decls]⟩ untyped

theorem meetOnce_target_known {t : Ty} {span : Span} (found : c.aliasTargets.find? x = some t) :
    cx.meetOnce (.aliasTarget x span) o c = .ok (t, c) := by
  rw [meetOnce, Check.get_bind, found]
  rfl

theorem meetOnce_target_search {span : Span} (new : c.aliasTargets.find? x = none) :
    cx.meetOnce (.aliasTarget x span) o c =
      search (.targetOf x) ((cx.asking o).typeOfTarget (cx.symbol x).decls.head?) Ty.error
        (fun found looped => do
          cx.assertUnsettled (.targetOf x)
          Check.settleTarget x span (cx.symbol x).name found looped) c := by
  rw [meetOnce, Check.get_bind, new]
  rfl

variable {d : FnDecl Mark}

theorem meetOnce_signature_known {sig : Signature}
    (found : c.signatures.find? d.mark.id = some sig) :
    cx.meetOnce (.signature d) o c = .ok (sig, c) := by
  rw [meetOnce, Check.get_bind, found]
  rfl

theorem meetOnce_signature_new (new : c.signatures.find? d.mark.id = none) :
    cx.meetOnce (.signature d) o c = (do
      let params ← d.params.mapM (cx.asking o).typeOfParam
      cx.signatureAfterOnce d params o) c := by
  rw [meetOnce, Check.get_bind, new]

end

variable {cx : Context} {o o' : Oracle}

/-- A demand is met as ever, unless its answer is there. -/
theorem meetOnce_asserts (ground : cx.Grounded)
    (oracles : ∀ q, cx.Poses q → Asserts (o q) (o' q)) (q : Demand) (posed : cx.Poses q) :
    Asserts (cx.meetOnce q o) (cx.meet q o') := by
  have thorough := Asserts.thorough oracles
  intro c
  cases q with
  | typeOf x =>
    cases found : c.symbolTypes.find? x with
    | some t =>
      exact .inl ((cx.meetOnce_type_known o found).trans
        ((cx.asking o').typeOfSymbol_known found).symm)
    | none =>
      by_cases typable : cx.Typable x
      · obtain ⟨binding, declared⟩ := typable
        obtain ⟨d, ds, decls⟩ := List.exists_cons_of_ne_nil declared
        have head : (cx.symbol x).decls.head? = some d := by rw [decls]; rfl
        have bodies : Asserts ((cx.asking o).typeOfDecl d) ((cx.asking o').typeOfDecl d) := by
          cases d with
          | param q => exact thorough.typeOfNode q.ty
          | val v =>
            exact thorough.typeOfVal ground v (ground.decl x (.val v) (List.mem_of_mem_head? head))
          | _ => exact .refl _
        rw [cx.meetOnce_type_search o found binding head, meet,
          (cx.asking o').typeOfSymbol_search found binding head]
        exact bodies.search _ _ c
      · exact .inl ((cx.meetOnce_type_untypable o found typable).trans
          ((cx.asking o').typeOfSymbol_untypable found typable).symm)
  | aliasTarget x span =>
    cases found : c.aliasTargets.find? x with
    | some t =>
      exact .inl ((cx.meetOnce_target_known o found).trans
        ((cx.asking o').targetOfAlias_known found).symm)
    | none =>
      have bodies : ∀ d : Option Decl,
          Asserts ((cx.asking o).typeOfTarget d) ((cx.asking o').typeOfTarget d) := by
        rintro (_ | _ | _ | d | _)
        case some.typeAlias => exact thorough.typeOfNode d.ty
        all_goals exact .refl _
      rw [cx.meetOnce_target_search o found, meet, (cx.asking o').targetOfAlias_search found]
      exact (bodies _).search _ _ c
  | signature d =>
    cases found : c.signatures.find? d.mark.id with
    | some sig =>
      exact .inl ((cx.meetOnce_signature_known o found).trans
        ((cx.asking o').signatureOf_known found).symm)
    | none =>
      rw [cx.meetOnce_signature_new o found, meet, (cx.asking o').signatureOf_new found]
      have params : Asserts (d.params.mapM (cx.asking o).typeOfParam)
          (d.params.mapM (cx.asking o').typeOfParam) :=
        thorough.composed.mapM (f := fun q o => (cx.asking o).typeOfParam q)
          fun q _ => thorough.typeOfParam q
      refine params.bind (fun ts => ?_) c
      simp only [Resolver.signatureAfter, signatureAfterOnce, cx.asking_toContext]
      cases d.result with
      | some node =>
        exact Asserts.bind (thorough.typeOfNode node) fun t => .assertUnsettled _
      | none =>
        exact Asserts.search (thorough.typeOfExpr ground d.body none (Program.body_of_fn posed)) _ _

theorem oracleOnce_asserts (ground : cx.Grounded) (n : Nat) (q : Demand) (posed : cx.Poses q) :
    Asserts (cx.oracleOnce n q) (cx.oracle n q) := by
  induction n generalizing q with
  | zero => exact .refl _
  | succ n ih => exact meetOnce_asserts ground ih q posed

theorem checkOnce_asserts (ground : cx.Grounded) : Asserts cx.checkOnce cx.check := by
  rw [checkOnce, check, resolver, Resolver.ofDepth_eq]
  exact (Asserts.thorough (oracleOnce_asserts ground cx.questionBound)).check ground

theorem sparesTypes_oracleOnce (ground : cx.Grounded) (n : Nat) :
    SparesTypes (cx.asking (cx.oracleOnce n)) := by
  have spares := SparesTypes.ofDepth cx n
  rw [Resolver.ofDepth_eq] at spares
  refine ⟨fun x span => ?_, fun x q head => ?_⟩
  · exact (oracleOnce_asserts ground n (.aliasTarget x span) trivial).spares
      (spares.aliasTarget x span)
  · exact (oracleOnce_asserts ground n (.typeOf x) trivial).spares (spares.typeOf x q head)

end Context

end Solo
