import Solo.Proofs.WellTyped

/-!
# Declarations of checked programs

The types of bindings, the targets of aliases and the signatures of functions are right, to any
depth of questions inside each other. So a program that is checked without an error is `Typed`.
-/

namespace Solo

section
variable {p : BoundProgram} {c : Checker}

theorem paramsTyped.unique {qs : List (Param Mark)} {ts us : List Ty}
    (first : List.Forall₂ (ParamTyped p c) qs ts) (second : List.Forall₂ (ParamTyped p c) qs us) :
    ts = us := by
  induction first generalizing us with
  | nil =>
    cases second
    rfl
  | cons head _ ih =>
    cases second with
    | cons head' rest' => rw [head.1.unique head'.1, ih rest']

/-- A function that declares its result has one signature. -/
theorem Signed.unique {F : Checker} {d : FnDecl Mark} {sig sig' : Signature} {node : TyNode Mark}
    (result : d.result = some node) (first : Signed p F d sig) (second : Signed p F d sig') :
    sig = sig' := by
  obtain ⟨decl, symbol, params, t⟩ := sig
  obtain ⟨decl', symbol', params', t'⟩ := sig'
  obtain rfl : decl = d := first.decl
  obtain rfl : decl' = decl := second.decl
  obtain rfl : symbol = symbol' := first.symbol.trans second.symbol.symm
  obtain rfl : params = params' := paramsTyped.unique first.params second.params
  obtain rfl : t = t' := (first.declared node result).unique (second.declared node result)
  rfl

end

theorem Resolver.toContext_ofDepth (cx : Context) (n : Nat) :
    (Resolver.ofDepth cx n).toContext = cx := by
  cases n <;> rfl

/-! ### What type nodes leave alone -/

/-- An action that finds no signature. -/
def Spares {α : Type} (a : Check α) : Prop :=
  ∀ c x c', a c = .ok (x, c') → c'.signatures = c.signatures

namespace Spares

variable {α β : Type} {a : Check α}

theorem pure (x : α) : Spares (Pure.pure x) := by
  intro c y c' run
  cases run
  rfl

theorem throw (e : Fault) : Spares (MonadExcept.throw e : Check α) := by
  intro c y c' run
  cases run

theorem bind {f : α → Check β} (first : Spares a) (rest : ∀ x, Spares (f x)) :
    Spares (a >>= f) := by
  intro c y c' run
  obtain ⟨x, c₁, run₁, run₂⟩ := Check.bind_ok run
  exact (rest x c₁ y c' run₂).trans (first c x c₁ run₁)

theorem get : Spares MonadState.get := by
  intro c y c' run
  cases run
  rfl

theorem modify {f : Checker → Checker} (same : ∀ c, (f c).signatures = c.signatures) :
    Spares (modify f) := by
  intro c y c' run
  cases run
  exact same c

theorem report (span : Span) (problem : Problem) : Spares (Check.report span problem) :=
  modify fun _ => rfl

theorem intern {α : Type} (enter : InternCache → α × InternCache) : Spares (Check.intern enter) := by
  intro c y c' run
  cases run
  rfl

theorem enterType (t : Ty) : Spares (Check.enterType t) := by
  cases t with
  | intrinsic k => exact pure (Ty.intrinsic k)
  | _ => exact bind (intern _) fun _ => pure _

theorem once (node : NodeId) {find : Check Ty} (finds : Spares find) :
    Spares (Check.once node find) := by
  refine bind get fun c => ?_
  split
  · exact pure _
  · exact bind finds fun t => bind (modify fun _ => rfl) fun _ => pure t

theorem pursue (goal : Goal) : Spares (Check.pursue goal) := by
  intro c x c' run
  rw [Check.pursue_apply] at run
  split at run <;> cases run <;> rfl

theorem conclude : Spares Check.conclude := by
  intro c x c' run
  rw [Check.conclude_apply] at run
  split at run <;> cases run <;> rfl

theorem mapM {f : α → Check β} : ∀ {xs : List α}, (∀ x ∈ xs, Spares (f x)) → Spares (xs.mapM f)
  | [], _ => by
    rw [List.mapM_nil]
    exact pure []
  | x :: xs, each => by
    rw [List.mapM_cons]
    exact bind (each x List.mem_cons_self) fun y =>
      bind (mapM fun x member => each x (List.mem_cons_of_mem _ member)) fun ys => pure (y :: ys)

end Spares

/-- The answers that type nodes ask for find no signature. -/
structure SparesTypes (r : Resolver) : Prop where
  aliasTarget : ∀ x span, Spares (r.aliasTarget x span)
  typeOf : ∀ x q, (r.symbol x).decls.head? = some (.param q) → Spares (r.typeOf x)

namespace SparesTypes

variable {r : Resolver}

theorem typeOfNode (spares : SparesTypes r) (node : TyNode Mark) : Spares (r.typeOfNode node) := by
  cases node with
  | refer m x =>
    refine .once m.id ?_
    rw [Resolver.typeOfReference]
    split
    · exact .pure _
    · split
      · exact .pure _
      · split
        · exact spares.aliasTarget _ _
        · exact .bind (.report _ _) fun _ => .pure _
  | singleton m e =>
    refine .once m.id ?_
    cases e with
    | lit l => exact .enterType (.literal l.value)
    | name x =>
      rw [Resolver.typeOfOperand, Resolver.typeOfPath]
      split
      · exact .pure _
      · refine .bind (.bind .get fun _ => .pure _) fun _ => ?_
        split
        · exact .bind (.report _ _) fun _ => .pure _
        · split
          · exact .enterType _
          · exact .bind (.report _ _) fun _ => .pure _
    | _ => exact .bind (.report _ _) fun _ => .pure _
  | lit m l dot =>
    refine .once m.id ?_
    rw [Resolver.typeOfLiteral]
    split
    · exact .bind (.report _ _) fun _ => .enterType _
    · exact .enterType _
  | paren m t => exact .once m.id (spares.typeOfNode t)

theorem targetOfAlias (spares : SparesTypes r) (x : SymbolId) (span : Span) :
    Spares (r.targetOfAlias x span) := by
  refine .bind .get fun c => ?_
  split
  · exact .pure _
  · refine .bind (.pursue _) fun started => ?_
    split
    · exact .pure _
    · have rest : ∀ found : Ty, Spares (do
          let looped ← Check.conclude
          if looped then Check.report span (.circularAlias (r.symbol x).name)
          let t := if looped then .error else found
          modify fun c => { c with aliasTargets := c.aliasTargets.insertNew x t }
          return t) := by
        intro found
        refine .bind .conclude fun looped => ?_
        dsimp only
        split
        · exact .bind (.report _ _) fun _ => .bind (.modify fun _ => rfl) fun _ => .pure _
        · exact .bind (.modify fun _ => rfl) fun _ => .pure _
      dsimp only
      split
      · exact .bind (spares.typeOfNode _) rest
      · exact rest .error

theorem typeOfSymbol (spares : SparesTypes r) (x : SymbolId) (q : Param Mark)
    (head : (r.symbol x).decls.head? = some (.param q)) : Spares (r.typeOfSymbol x) := by
  refine .bind .get fun c => ?_
  split
  · exact .pure _
  · dsimp only
    rw [head]
    cases (r.symbol x).role.isBinding with
    | false => exact .pure _
    | true =>
      refine .bind (.pursue _) fun started => ?_
      split
      · exact .pure _
      · refine .bind (spares.typeOfNode _) fun found => .bind .conclude fun looped => ?_
        split
        · exact .bind (.report _ _) fun _ => .bind (.modify fun _ => rfl) fun _ => .pure _
        · exact .bind (.modify fun _ => rfl) fun _ => .pure _

theorem typeOfParam (spares : SparesTypes r) {q : Param Mark}
    (declares : ∃ x, r.Declares (.param q) x) : Spares (r.typeOfParam q) := by
  unfold Resolver.typeOfParam
  split
  · next x found =>
    obtain ⟨x', own⟩ := declares
    have same := own.target
    simp only [Decl.mark, BoundProgram.symbolAt?, found, Option.filter_eq_some_iff] at same
    cases same.1
    exact spares.typeOf x q (own.head nofun)
  · exact spares.typeOfNode _

theorem ofDepth (cx : Context) (n : Nat) : SparesTypes (.ofDepth cx n) := by
  induction n with
  | zero => exact ⟨fun _ _ => .throw _, fun _ _ _ => .throw _⟩
  | succ n ih =>
    refine ⟨ih.targetOfAlias, fun x q head => ih.typeOfSymbol x q ?_⟩
    rw [Resolver.toContext_ofDepth] at head ⊢
    exact head

end SparesTypes

namespace Answers

variable {F : Checker} {r : Resolver}

/-! ### Goals -/

/-- The search for the type of a binding, if what is found on the way is right. -/
theorem seekType {p : BoundProgram} {P : Prop} {x : SymbolId} {body : Check Ty} {span : Span}
    {name : String} (finds : Keeps p F P body fun t => Declared p F x t) :
    Seeks p F (.typeOf x) P (do
      if !(← Check.pursue (.typeOf x)) then return .error
      let found ← body
      let looped ← Check.conclude
      if looped then Check.report span (.circularInitializer name)
      let t := if looped then .error else found
      modify fun c => { c with symbolTypes := c.symbolTypes.insertNew x t }
      return t) fun t => F.symbolTypes.find? x = some t ∧ Declared p F x t := by
  refine Keeps.pursue (fun _ => nofun) finds ?_ ?_
  · intro u
    refine .report rfl fun c y c' run => ?_
    cases run
    exact { Checker.Grows.refl c with symbolTypes := .insertNew _ x _ }
  · intro u c y c' run
    cases run
    refine ⟨{ Checker.Grows.refl c with symbolTypes := .insertNew _ x u }, ?_⟩
    intro given _ within sound alone unsettled
    refine ⟨sound.settleSymbol given.2 alone unsettled, ?_, given.2⟩
    exact within.symbolTypes _ _ (Table.find?_insertNew_self (Table.contains_eq_false.mp unsettled))

theorem seekTarget {p : BoundProgram} {P : Prop} {x : SymbolId} {body : Check Ty} {span : Span}
    {name : String} {head : Option Decl} (own : (p.symbol x).decls.head? = head)
    (finds : Keeps p F P body fun t => ∀ d, head = some (.typeAlias d) → Denotes p d.ty t) :
    Seeks p F (.targetOf x) P (do
      if !(← Check.pursue (.targetOf x)) then return .error
      let found ← body
      let looped ← Check.conclude
      if looped then Check.report span (.circularAlias name)
      let t := if looped then .error else found
      modify fun c => { c with aliasTargets := c.aliasTargets.insertNew x t }
      return t) fun t => ∀ d, head = some (.typeAlias d) → Denotes p d.ty t := by
  subst own
  refine Keeps.pursue (fun _ => nofun) finds ?_ ?_
  · intro u
    refine .report rfl fun c y c' run => ?_
    cases run
    exact { Checker.Grows.refl c with aliasTargets := .insertNew _ x _ }
  · intro u c y c' run
    cases run
    refine ⟨{ Checker.Grows.refl c with aliasTargets := .insertNew _ x u }, ?_⟩
    intro given _ _ sound alone unsettled
    exact ⟨sound.settleAlias given.2 alone unsettled, given.2⟩

/-- While the parameters of a function are typed its result is not found. -/
theorem seekAfter {p : BoundProgram} {α β : Type} {P : Prop} {i : NodeId} {a : Check α} {f : α → Check β}
    {Q : α → Prop} {R : β → Prop} (spares : P → Spares a) (first : Keeps p F P a Q)
    (rest : ∀ x, Seeks p F (.resultOf i) (P ∧ Q x) (f x) R) :
    Seeks p F (.resultOf i) P (a >>= f) R := by
  intro c y c' run
  obtain ⟨x, c₁, run₁, run₂⟩ := Check.bind_ok run
  obtain ⟨grows₁, keeps₁⟩ := first c x c₁ run₁
  obtain ⟨grows₂, keeps₂⟩ := rest x c₁ y c' run₂
  refine ⟨grows₁.trans grows₂, fun given quiet within sound unsettled => ?_⟩
  obtain ⟨sound₁, found⟩ := keeps₁ given (grows₂.quiet quiet) (grows₂.toWithin.trans within) sound
  refine keeps₂ ⟨given, found⟩ quiet within sound₁ ?_
  rw [Checker.isSettled, spares given c x c₁ run₁]
  exact unsettled

section
variable (answers : Answers F r) (bound : r.WellBound)
include answers bound

/-! ### Bindings, aliases and functions -/

theorem typeOfVal {P : Prop} {d : ValDecl Mark} {x : SymbolId}
    (member : P → .stmt (.val d) ∈ r.program.nodes)
    (head : P → (r.symbol x).decls.head? = some (.val d)) :
    Keeps r.toBoundProgram F P (r.typeOfVal d) fun t => Declared r.toBoundProgram F x t := by
  obtain ⟨m, kind, name, ty, e⟩ := d
  have inside : P → Stmt.nodes (.val ⟨m, kind, name, ty, e⟩) ⊆ r.program.nodes :=
    fun given n below => Program.mem_below (member given) below
  unfold Resolver.typeOfVal
  cases ty with
  | some node =>
    refine (answers.typeOfNode bound fun given => ?_).weaken id fun t given denotes => ?_
    · exact (List.cons_subset.mp (below_left (below_left (inside given)))).2 node.mem_nodes
    · exact .ofAnnotated (head given) rfl denotes
  | none =>
    refine Keeps.bind (answers.typeOfExpr bound e none fun given =>
      below_right (below_left (inside given))) fun t => ?_
    split
    · exact .pure fun given => .ofInferred (head given.1) rfl given.2.2 given.2.1 (.refl t)
    · exact .pure fun given =>
        .ofInferred (head given.1) rfl given.2.2.widenLiteral given.2.1 (.widenLiteral t)

theorem typeOfSymbol (x : SymbolId) :
    Keeps r.toBoundProgram F ((r.symbol x).role.isBinding = true) (r.typeOfSymbol x) fun t =>
      F.symbolTypes.find? x = some t ∧ Declared r.toBoundProgram F x t := by
  refine Keeps.seek (.typeOf x) (·.symbolTypes.find? x)
    (fun c => Table.contains_eq_false.mpr) (fun c t known => ⟨?_, fun _ within sound => ?_⟩)
    fun c new => ?_
  · rw [known]
  · exact ⟨within.symbolTypes x t known, sound.symbolTypes x t known⟩
  rw [new]
  dsimp only
  cases binding : (r.symbol x).role.isBinding with
  | false => exact (Keeps.pure nofun).seeks
  | true =>
    obtain ⟨d, only, declares, node⟩ := bound.binding_decl binding
    have head : (r.symbol x).decls.head? = some d := by rw [only]; rfl
    rw [head]
    cases d with
    | param q =>
      refine seekType ((answers.typeOfNode bound fun _ => ?_).weaken id
        fun t _ denotes => .ofParam head denotes)
      exact Program.mem_below node q.mem_nodes_ty
    | val v => exact seekType (answers.typeOfVal bound (fun _ => node) fun _ => head)
    | _ =>
      rw [← Role.isBinding_thaw, declares.role] at binding
      cases binding

theorem targetOfAlias (x : SymbolId) (span : Span) :
    Keeps r.toBoundProgram F ((r.symbol x).role.isType = true) (r.targetOfAlias x span) fun t =>
      ∀ d, (r.symbol x).decls.head? = some (.typeAlias d) → Denotes r.toBoundProgram d.ty t := by
  refine Keeps.seek (.targetOf x) (·.aliasTargets.find? x)
    (fun c => Table.contains_eq_false.mpr) (fun c t known => ⟨?_, fun _ _ sound => ?_⟩)
    fun c new => ?_
  · rw [known]
  · exact sound.aliasTargets x t known
  rw [new]
  dsimp only
  cases head : (r.symbol x).decls.head? with
  | none => exact seekTarget head (.pure fun _ _ same => by cases same)
  | some d =>
    cases d with
    | typeAlias d =>
      refine seekTarget head ((answers.typeOfNode bound fun isType => ?_).weaken id
        fun t _ denotes d' same => ?_)
      · obtain ⟨d', only, node⟩ := bound.alias_decl isType
        rw [only] at head
        cases head
        obtain ⟨m, name, ty⟩ := d
        exact Program.mem_below node (by simp [Node.below, Stmt.nodes, ty.mem_nodes])
      · cases same
        exact denotes
    | _ => exact seekTarget head (.pure fun _ _ same => by cases same)

theorem typeOfParam {q : Param Mark} {P : Prop} (member : P → .param q ∈ r.program.nodes) :
    Keeps r.toBoundProgram F P (r.typeOfParam q) fun t => ParamTyped r.toBoundProgram F q t := by
  unfold Resolver.typeOfParam
  split
  · next x found =>
    have own : P → r.Declares (.param q) x := by
      intro given
      obtain ⟨x', own⟩ := bound.named _ (member given)
      have same := own.target
      simp only [Decl.mark, BoundProgram.symbolAt?, found, Option.filter_eq_some_iff] at same
      cases same.1
      exact own
    refine (answers.typeOf x).weaken (fun given => (own given).isBinding rfl) ?_
    exact fun t given ⟨known, declared⟩ =>
      ⟨declared.param q ((own given).head nofun), x, (own given).target, known⟩
  · next missing =>
    refine (answers.typeOfNode bound fun given => ?_).weaken id fun t given _ => ?_
    · exact Program.mem_below (member given) q.mem_nodes_ty
    · obtain ⟨x, own⟩ := bound.named _ (member given)
      have target := own.target
      simp [BoundProgram.symbolAt?, Decl.mark, missing] at target

omit answers in
theorem keepDeclared {P : Prop} {d : FnDecl Mark} {sig : Signature} {node : TyNode Mark}
    (member : P → .stmt (.fn d) ∈ r.program.nodes) (result : d.result = some node)
    (right : P → Signed r.toBoundProgram F d sig) (decl : sig.decl = d) :
    Keeps r.toBoundProgram F P (Resolver.signatureOf.keep sig) fun sig =>
      Signed r.toBoundProgram F d sig ∧ F.signatures.find? d.mark.id = some sig := by
  subst decl
  intro c x c' run
  cases run
  refine ⟨{ Checker.Grows.refl c with signatures := .insertNew _ _ _ }, ?_⟩
  intro given _ within sound
  have right := right given
  have same : ∀ d', .stmt (.fn d') ∈ r.program.nodes → d'.mark.id = sig.decl.mark.id →
      d' = sig.decl := by
    intro d' node' own
    cases bound.node_unique node' (member given) own
    rfl
  have apart : ∀ m f args, .expr (.call m f args) ∈ r.program.nodes → m.id ≠ sig.decl.mark.id := by
    intro m f args call own
    cases bound.node_unique call (member given) own
  have entry : ∀ sig', (c.signatures.insertNew sig.decl.mark.id sig).find? sig.decl.mark.id =
      some sig' → sig' = sig := by
    intro sig' found
    cases old : c.signatures.find? sig.decl.mark.id with
    | none =>
      rw [Table.find?_insertNew_self old] at found
      exact (Option.some.inj found).symm
    | some sig₀ =>
      rw [Table.find?_insertNew_of_some old] at found
      cases found
      exact (sound.signatures _ (member given) _ old).unique result right
  refine ⟨{ sound with unsettled := ?_, signatures := ?_, calls := ?_ }, right, ?_⟩
  · intro q inside
    have before := sound.unsettled q inside
    cases goal : q.goal with
    | resultOf i =>
      obtain ⟨d', node', rfl, inferred⟩ := sound.inferring q inside i goal
      have apart : d'.mark.id ≠ sig.decl.mark.id := by
        intro own
        rw [same d' node' own, result] at inferred
        cases inferred
      rw [goal] at before
      simpa [Checker.isSettled, Table.contains, Table.find?_insertNew_other apart] using before
    | _ =>
      rw [goal] at before
      exact before
  · intro d' node' sig' found
    by_cases own : d'.mark.id = sig.decl.mark.id
    · obtain rfl := same d' node' own
      rw [entry sig' found]
      exact right
    · rw [Table.find?_insertNew_other own] at found
      exact sound.signatures d' node' sig' found
  · intro m f args call sig' found
    rw [Table.find?_insertNew_other (apart m f args call)] at found
    exact sound.calls m f args call sig' found
  · cases old : c.signatures.find? sig.decl.mark.id with
    | none => exact within.signatures _ _ (Table.find?_insertNew_self old)
    | some sig₀ =>
      have kept : (c.signatures.insertNew sig.decl.mark.id sig).find? sig.decl.mark.id =
        some sig₀ := Table.find?_insertNew_of_some old
      rw [entry sig₀ kept] at kept
      exact within.signatures _ _ kept

theorem signatureOf (spares : SparesTypes r) (d : FnDecl Mark) :
    Keeps r.toBoundProgram F (.stmt (.fn d) ∈ r.program.nodes) (r.signatureOf d) fun sig =>
      Signed r.toBoundProgram F d sig ∧ F.signatures.find? d.mark.id = some sig := by
  obtain ⟨m, name, params, result, e⟩ := d
  have inside : ∀ {P : Prop}, (P → .stmt (.fn ⟨m, name, params, result, e⟩) ∈ r.program.nodes) →
      P → Stmt.nodes (.fn ⟨m, name, params, result, e⟩) ⊆ r.program.nodes :=
    fun member given n below => Program.mem_below (member given) below
  have param : ∀ q ∈ params, .stmt (.fn ⟨m, name, params, result, e⟩) ∈ r.program.nodes →
      .param q ∈ r.program.nodes :=
    fun q member node => (List.cons_subset.mp (below_left (below_left (below_left (inside id node))))).2
      (mem_paramsNodes member)
  refine Keeps.seek (.resultOf m.id) (·.signatures.find? m.id)
    (fun c => Table.contains_eq_false.mpr) (fun c sig known => ⟨?_, fun node within sound => ?_⟩)
    fun c new => ?_
  · rw [known]
  · exact ⟨sound.signatures _ node sig known, within.signatures _ _ known⟩
  rw [new]
  dsimp only
  refine seekAfter (fun node => .mapM fun q member => spares.typeOfParam (bound.named _ (param q member node)))
    (mapM fun q member {P'} weaker => answers.typeOfParam bound fun given => param q member (weaker given)) fun ts => ?_
  cases result with
  | some node =>
    refine Keeps.seeks (Keeps.bind (answers.typeOfNode bound fun given => ?_) fun t => ?_)
    · exact below_right (below_left (below_left (inside id given.1))) node.mem_nodes
    · refine keepDeclared bound (fun given => given.1.1) rfl (fun given => ?_) rfl
      refine ⟨rfl, rfl, given.1.2, given.2.sane, fun node' same => ?_, nofun⟩
      cases same
      exact given.2
  | none =>
    refine Keeps.pursue (fun given i same => ?_) (answers.typeOfExpr bound e none fun given => ?_) ?_ ?_
    · cases same
      exact ⟨_, given.1, rfl, rfl⟩
    · exact below_right (below_left (inside id given.1))
    · intro t
      refine .report rfl fun c y c' run => ?_
      cases run
      exact { Checker.Grows.refl c with signatures := .insertNew _ _ _ }
    · intro t c y c' run
      cases run
      refine ⟨{ Checker.Grows.refl c with signatures := .insertNew _ _ _ }, ?_⟩
      intro ⟨⟨node, typed⟩, body, sane⟩ _ within sound alone unsettled
      have right : Signed r.toBoundProgram F ⟨m, name, params, none, e⟩
          ⟨⟨m, name, params, none, e⟩, _, ts, t.widenLiteral⟩ :=
        ⟨rfl, rfl, typed, sane.widenLiteral, nofun, fun _ => ⟨t, body, .widenLiteral t⟩⟩
      refine ⟨sound.settleSignature (d := ⟨m, name, params, none, e⟩)
        (fun m' f args call own => ?_) (fun d' node' own => ?_) alone unsettled, right, ?_⟩
      · cases bound.node_unique call node own
      · cases bound.node_unique node' node own
        exact right
      · exact within.signatures _ _ (Table.find?_insertNew_self (Table.contains_eq_false.mp unsettled))

end

theorem ofDepth {cx : Context} (bound : cx.WellBound) (F : Checker) (n : Nat) :
    Answers F (.ofDepth cx n) := by
  induction n with
  | zero => exact ⟨fun _ => .throw _, fun _ _ => .throw _, fun _ => .throw _⟩
  | succ n ih =>
    have same := Resolver.toContext_ofDepth cx n
    have bound' : (Resolver.ofDepth cx n).WellBound := by rw [same]; exact bound
    have spares := SparesTypes.ofDepth cx n
    refine ⟨fun x => ?_, fun x span => ?_, fun d => ?_⟩
    · have keeps := ih.typeOfSymbol bound' x
      rw [same] at keeps
      exact keeps
    · have keeps := ih.targetOfAlias bound' x span
      rw [same] at keeps
      exact keeps
    · have keeps := ih.signatureOf bound' spares d
      rw [same] at keeps
      exact keeps

end Answers

end Solo
