import Solo.Proofs.Typing

/-!
# Checked programs are well typed

A program that is checked without an error is `Typed`: so is every expression and statement of it,
with the types that the checker recorded.
-/

namespace Solo

section
variable {p : BoundProgram} {c : Checker}

theorem exprsTyped.length {es : List (Expr Mark)} {ts : List Ty} (typed : exprsTyped p c es ts) :
    ts.length = es.length := by
  induction es generalizing ts with
  | nil =>
    cases typed
    rfl
  | cons e es ih =>
    obtain ⟨t, rest, rfl, _, typed⟩ := typed
    simp [ih typed]

theorem Sane.widenLiteral {t : Ty} (sane : Sane p t) : Sane p t.widenLiteral := by
  cases t with
  | literal v => exact ⟨by cases v <;> nofun, nofun⟩
  | _ => exact sane

theorem Signed.params_sane {F : Checker} {d : FnDecl Mark} {sig : Signature}
    (signed : Signed p F d sig) : ∀ t ∈ sig.params, Sane p t := by
  intro t member
  obtain ⟨q, denotes, _⟩ := Answers.exists_of_forall₂ signed.params member
  exact denotes.sane

end

namespace Answers

variable {F : Checker} {r : Resolver}

theorem below_left {ns ks N : List (Node Mark)} (inside : ns ++ ks ⊆ N) : ns ⊆ N :=
  (List.append_subset.mp inside).1

theorem below_right {ns ks N : List (Node Mark)} (inside : ns ++ ks ⊆ N) : ks ⊆ N :=
  (List.append_subset.mp inside).2

section
variable (answers : Answers F r) (bound : r.WellBound)
include answers bound

/-- The call of a function, whose arguments have types. -/
theorem typeOfCall {P : Prop} {m : Mark} {f : Ident Mark} {args : List (Expr Mark)}
    (member : P → .expr (.call m f args) ∈ r.program.nodes)
    (typeOfArgs : ∀ expected {P' : Prop}, (P' → P) →
      Keeps r.toBoundProgram F P' (r.typeOfArgs args expected) fun ts =>
        exprsTyped r.toBoundProgram F args ts ∧ ∀ t ∈ ts, Sane r.toBoundProgram t) :
    Keeps r.toBoundProgram F P (r.typeOfExpr (.call m f args) none) fun t =>
      Expr.Typed r.toBoundProgram F (.call m f args) t ∧ Sane r.toBoundProgram t := by
  refine Keeps.onceExpr bound (e := .call m f args) ?_ member
  have named : P → r.IsValue f := fun given => bound.named _ (member given)
  split
  · next missing =>
    refine Keeps.bind (typeOfArgs [] id) fun _ => .pure fun given => ?_
    obtain ⟨x, target, _⟩ := named given.1
    rw [missing] at target
    cases target
  · next x target =>
    dsimp only
    split
    · next builtin =>
      refine Keeps.bind (typeOfArgs [] id) fun types => ?_
      split
      · exact Keeps.bind (Keeps.fail rfl) fun _ => .pure fun given => given.2.elim
      · next arity =>
        have sane : Sane r.toBoundProgram (.intrinsic .unit) := by simp [Sane]
        refine .pure fun given => ⟨fun noted => ⟨noted, x, types, target, given.2.1, .inl ?_⟩, sane⟩
        exact ⟨builtin, not_not.mp arity, rfl⟩
    · next isFunction =>
      refine Keeps.bind (answers.signaturesOf bound fun _ => isFunction) fun sigs => ?_
      refine Keeps.bind (typeOfArgs _ fun given => given.1) fun types => ?_
      refine Keeps.bind (answers.selectOverload (fun given => given.2.2)
        (fun given sig known => (given.1.2 sig known).2.params_sane)
        fun given => by rw [given.2.1.length, List.length_map]) fun found => ?_
      split
      · next sig =>
        refine Keeps.bind (Keeps.recordSignature bound (fun given => member given.1.1.1)
          fun given => ?_) fun _ => ?_
        · obtain ⟨⟨⟨_, signed⟩, _⟩, sig', known, same, _⟩ := given
          cases same
          obtain ⟨offers, right⟩ := signed sig known
          exact ⟨x, target, isFunction, offers, right⟩
        refine .pure fun given => ?_
        obtain ⟨⟨⟨⟨_, signed⟩, typed, _⟩, sig', known, same, accepted⟩, recorded⟩ := given
        cases same
        obtain ⟨offers, right⟩ := signed sig known
        exact ⟨fun noted => ⟨noted, x, types, target, typed,
          .inr ⟨isFunction, sig, recorded, offers, accepted, rfl⟩⟩, right.sane⟩
      · refine .pure fun given => ?_
        obtain ⟨_, _, impossible, _⟩ := given.2
        cases impossible
    · refine Keeps.bind (typeOfArgs [] id) fun _ => ?_
      exact Keeps.bind (Keeps.fail rfl) fun _ => .pure fun given => given.2.elim

set_option linter.unusedSectionVars false

mutual
theorem typeOfExpr : ∀ (e : Expr Mark) (expected : Option Ty) {P : Prop},
    (P → e.nodes ⊆ r.program.nodes) →
      Keeps r.toBoundProgram F P (r.typeOfExpr e expected) fun t =>
        e.Typed r.toBoundProgram F t ∧ Sane r.toBoundProgram t
  | .lit l, _, P, inside => by
    refine Keeps.onceExpr bound (e := .lit l) ?_ fun given => inside given (Expr.mem_nodes _)
    refine (Keeps.enterType _).weaken id ?_
    rintro t _ rfl
    exact ⟨fun noted => ⟨noted, rfl⟩, nofun, nofun⟩
  | .name x, expected, P, inside =>
    Keeps.onceExpr bound (e := .name x)
      (answers.typeOfName bound fun given => inside given (Expr.mem_nodes _))
      fun given => inside given (Expr.mem_nodes _)
  | .paren m e, expected, P, inside => by
    refine Keeps.onceExpr bound (e := .paren m e) ?_ fun given => inside given (Expr.mem_nodes _)
    refine (typeOfExpr e expected fun given => below_left (inside given)).weaken id ?_
    exact fun t _ ⟨typed, sane⟩ => ⟨fun noted => ⟨noted, typed⟩, sane⟩
  | .unary m op e, _, P, inside => by
    refine Keeps.onceExpr bound (e := .unary m op e) ?_ fun given => inside given (Expr.mem_nodes _)
    refine Keeps.bind (typeOfExpr e none fun given => below_left (inside given)) fun s => ?_
    refine (answers.typeOfUnary fun given => given.2.2).weaken id ?_
    exact fun t given ⟨sane, k, j, found⟩ => ⟨fun noted => ⟨noted, s, k, j, given.2.1, found⟩, sane⟩
  | .bin m op a b, _, P, inside => by
    refine Keeps.onceExpr bound (e := .bin m op a b) ?_ fun given => inside given (Expr.mem_nodes _)
    refine Keeps.bind (typeOfExpr a none fun given => below_left (below_left (inside given)))
      fun s₁ => ?_
    refine Keeps.bind (typeOfExpr b none fun given => below_right (below_left (inside given.1)))
      fun s₂ => ?_
    refine (answers.typeOfBinary (fun given => given.1.2.2) fun given => given.2.2).weaken id ?_
    exact fun t given ⟨sane, k₁, k₂, j, found⟩ =>
      ⟨fun noted => ⟨noted, s₁, s₂, k₁, k₂, j, given.1.2.1, given.2.1, found⟩, sane⟩
  | .call m f args, _, P, inside =>
    answers.typeOfCall bound (fun given => inside given (Expr.mem_nodes _))
      fun expected {P'} weaker => typeOfArgs args expected fun given =>
        (List.cons_subset.mp (below_left (inside (weaker given)))).2
  | .block m ss tail, expected, P, inside => by
    refine Keeps.onceExpr bound (e := .block m ss tail) ?_ fun given => inside given (Expr.mem_nodes _)
    refine Keeps.bind (checkStmts ss fun given => below_left (below_left (inside given))) fun _ => ?_
    refine (typeOfTail tail expected fun given => below_right (below_left (inside given.1))).weaken
      id ?_
    exact fun t given ⟨typed, sane⟩ => ⟨fun noted => ⟨noted, given.2, typed⟩, sane⟩
  | .assign m x e, _, P, inside => by
    have member : P → .expr (.assign m x e) ∈ r.program.nodes :=
      fun given => inside given (Expr.mem_nodes _)
    have inner : P → e.nodes ⊆ r.program.nodes :=
      fun given => (List.cons_subset.mp (below_left (inside given))).2
    refine Keeps.onceExpr bound (e := .assign m x e) ?_ member
    have named : P → r.IsValue x := fun given => (bound.named _ (member given)).1
    split
    · next missing =>
      refine Keeps.bind (typeOfExpr e none inner) fun _ => .pure fun given => ?_
      obtain ⟨s, target, _⟩ := named given.1
      rw [missing] at target
      cases target
    · next s target =>
      split
      · next isVar =>
        have binding : (r.symbol s).role.isBinding = true := by
          revert isVar
          cases (r.symbol s).role <;> simp [Role.isVar, Role.isBinding]
        refine Keeps.bind ((answers.typeOf s).weaken (fun _ => binding) fun _ _ found => found)
          fun u => ?_
        refine Keeps.bind (typeOfExpr e (some u) fun given => inner given.1) fun t => ?_
        refine Keeps.bind (answers.checkAssignable _ (fun given => given.2.2)
          fun given => given.1.2.2.sane) fun _ => .pure fun given => ?_
        exact ⟨fun noted => ⟨noted, rfl, s, u, t, target, isVar, given.1.1.2.1, given.1.2.1, given.2⟩,
          nofun, nofun⟩
      · refine Keeps.bind (Keeps.fail rfl) fun _ => ?_
        exact Keeps.bind (typeOfExpr e none fun given => inner given.1) fun _ =>
          .pure fun given => given.1.2.elim
  | .cases m e arms, expected, P, inside => by
    refine Keeps.onceExpr bound (e := .cases m e arms) ?_ fun given => inside given (Expr.mem_nodes _)
    refine Keeps.bind (typeOfExpr e none fun given => below_left (below_left (inside given)))
      fun s => ?_
    refine (typeOfArms arms s.widenLiteral expected false none
      (fun given => below_right (below_left (inside given.1)))
      (fun given => given.2.2.widenLiteral) fun _ => nofun).weaken id ?_
    exact fun t given ⟨typed, sane, _⟩ => ⟨fun noted => ⟨noted, ⟨s, given.2.1⟩, typed⟩, sane⟩
  | .inhabitant m node, _, P, inside => by
    refine Keeps.onceExpr bound (e := .inhabitant m node) ?_
      fun given => inside given (Expr.mem_nodes _)
    refine (answers.typeOfInhabitant bound fun given => inside given (Expr.mem_nodes _)).weaken id ?_
    exact fun t _ ⟨denotes, found⟩ => ⟨fun noted => ⟨noted, denotes, found⟩, denotes.sane⟩
  | .host m desc, _, P, inside =>
    Keeps.onceExpr bound (e := .host m desc)
      (.pure fun _ => ⟨fun noted => ⟨noted, rfl⟩, nofun, nofun⟩)
      fun given => inside given (Expr.mem_nodes _)

theorem typeOfArgs : ∀ (es : List (Expr Mark)) (expected : List Ty) {P : Prop},
    (P → exprsNodes es ⊆ r.program.nodes) →
      Keeps r.toBoundProgram F P (r.typeOfArgs es expected) fun ts =>
        exprsTyped r.toBoundProgram F es ts ∧ ∀ t ∈ ts, Sane r.toBoundProgram t
  | [], _, _, _ => .pure fun _ => ⟨rfl, by simp⟩
  | e :: es, expected, P, inside => by
    refine Keeps.bind (typeOfExpr e expected.head? fun given => below_left (inside given)) fun t => ?_
    refine Keeps.bind (typeOfArgs es expected.tail fun given => below_right (inside given.1))
      fun ts => .pure fun ⟨⟨_, typed, sane⟩, rest, restSane⟩ => ⟨⟨t, ts, rfl, typed, rest⟩, ?_⟩
    intro u member
    rcases List.mem_cons.mp member with rfl | later
    · exact sane
    · exact restSane u later

theorem typeOfTail : ∀ (tail : Option (Expr Mark)) (expected : Option Ty) {P : Prop},
    (P → tailNodes tail ⊆ r.program.nodes) →
      Keeps r.toBoundProgram F P (r.typeOfTail tail expected) fun t =>
        tailTyped r.toBoundProgram F tail t ∧ Sane r.toBoundProgram t
  | none, _, _, _ => .pure fun _ => ⟨rfl, nofun, nofun⟩
  | some e, expected, _, inside => typeOfExpr e expected inside

theorem typeOfArms : ∀ (arms : List (Arm Mark)) (scrutinee : Ty) (expected : Option Ty)
    (closed : Bool) (above : Option Ty) {P : Prop}, (P → armsNodes arms ⊆ r.program.nodes) →
      (P → Sane r.toBoundProgram scrutinee) →
      (P → ∀ a, above = some a → Sane r.toBoundProgram a) →
      Keeps r.toBoundProgram F P (r.typeOfArms scrutinee expected closed above arms) fun t =>
        armsTyped r.toBoundProgram F arms t ∧ Sane r.toBoundProgram t ∧
          ∀ a, above = some a → Below r.toBoundProgram F a t
  | [], _, _, _, none, _, _, _, _ => .pure fun _ => ⟨trivial, ⟨nofun, nofun⟩, nofun⟩
  | [], _, _, _, some a, _, _, _, sane =>
    .pure fun given => ⟨trivial, sane given a rfl, fun b same => by cases same; exact .refl a⟩
  | ⟨m, q, e⟩ :: arms, scrutinee, expected, closed, above, P, inside, plain, sane => by
    have arm : P → q.nodes ++ e.nodes ⊆ r.program.nodes :=
      fun given => below_left (below_left (inside given))
    have rest : ∀ (u t : Ty) (P' : Prop), (P' → P) → (P' → Sane r.toBoundProgram u) →
        (P' → q.Typed r.toBoundProgram F) → (P' → e.Typed r.toBoundProgram F t) →
        (P' → Below r.toBoundProgram F t u) →
        (P' → ∀ a, above = some a → Below r.toBoundProgram F a u) →
        Keeps r.toBoundProgram F P'
          (r.typeOfArms scrutinee expected (closed || q.isWildcard) (some u) arms) fun w =>
            armsTyped r.toBoundProgram F (⟨m, q, e⟩ :: arms) w ∧ Sane r.toBoundProgram w ∧
              ∀ a, above = some a → Below r.toBoundProgram F a w := by
      intro u t P' weaker saneU pat body under wider
      refine (typeOfArms arms scrutinee expected _ (some u)
        (fun given => below_right (inside (weaker given))) (fun given => plain (weaker given))
        fun given a same => by cases same; exact saneU given).weaken id ?_
      intro w given ⟨typed, saneW, up⟩
      have up := up u rfl
      exact ⟨⟨pat given, ⟨t, body given, (under given).trans up⟩, typed⟩, saneW,
        fun a same => (wider given a same).trans up⟩
    have body : ∀ {P' : Prop}, (P' → P) → Keeps r.toBoundProgram F P'
        (do
          r.checkPat scrutinee q
          let t ← r.typeOfExpr e expected
          let above ← match above with
            | some prev => r.lub prev t
            | none => pure t
          r.typeOfArms scrutinee expected (closed || q.isWildcard) (some above) arms) fun t =>
            armsTyped r.toBoundProgram F (⟨m, q, e⟩ :: arms) t ∧ Sane r.toBoundProgram t ∧
              ∀ a, above = some a → Below r.toBoundProgram F a t := by
      intro P' weaker
      refine Keeps.bind (answers.checkPat bound (fun given => plain (weaker given))
        fun given => below_left (arm (weaker given)) q.mem_nodes) fun _ => ?_
      refine Keeps.bind (typeOfExpr e expected fun given => below_right (arm (weaker given.1)))
        fun t => ?_
      cases above with
      | none =>
        refine Keeps.bind (Keeps.pure (Q := fun u => u = t) fun _ => rfl) fun u => ?_
        exact rest u t _ (fun given => weaker given.1.1.1) (fun given => given.2 ▸ given.1.2.2)
          (fun given => given.1.1.2) (fun given => given.1.2.1) (fun given => given.2 ▸ .refl u)
          fun _ => nofun
      | some prev =>
        refine Keeps.bind (answers.lub (fun given => sane (weaker given.1.1) prev rfl)
          fun given => given.2.2) fun u => ?_
        exact rest u t _ (fun given => weaker given.1.1.1) (fun given => given.2.1)
          (fun given => given.1.1.2) (fun given => given.1.2.1) (fun given => given.2.2.2)
          fun given a same => by cases same; exact given.2.2.1
    rw [Resolver.typeOfArms]
    cases closed with
    | true => exact Keeps.bind (Keeps.report _ _) fun _ => body fun given => given.1
    | false => exact body id

theorem checkStmt : ∀ (s : Stmt Mark) {P : Prop}, (P → s.nodes ⊆ r.program.nodes) →
    Keeps r.toBoundProgram F P (r.checkStmt s) fun _ => s.Typed r.toBoundProgram F
  | .val ⟨m, kind, x, ty, e⟩, P, inside => by
    have member : P → .stmt (.val ⟨m, kind, x, ty, e⟩) ∈ r.program.nodes :=
      fun given => inside given (Stmt.mem_nodes _)
    have inner : P → e.nodes ⊆ r.program.nodes := fun given => below_right (below_left (inside given))
    have declares : P → ∃ s, r.Declares (.val ⟨m, kind, x, ty, e⟩) s :=
      fun given => bound.named _ (member given) _ rfl
    rw [Resolver.checkStmt]
    split
    · next missing =>
      refine .pure fun given => ?_
      obtain ⟨s, own⟩ := declares given
      cases own.target.symm.trans missing
    · next s target =>
      have own : P → r.Declares (.val ⟨m, kind, x, ty, e⟩) s := by
        intro given
        obtain ⟨s', own⟩ := declares given
        cases own.target.symm.trans target
        exact own
      have head : P → (r.symbol s).decls.head? = some (.val ⟨m, kind, x, ty, e⟩) :=
        fun given => (own given).head nofun
      refine Keeps.bind ((answers.typeOf s).weaken (fun given => (own given).isBinding (Decl.val_isBinding _))
        fun _ _ found => found) fun u => ?_
      have annotated : ∀ {P' : Prop}, (P' → P ∧ Declared r.toBoundProgram F s u) → P' →
          ∀ node, ty = some node → ∃ t, Denotes r.toBoundProgram node t := by
        intro P' weaker given node same
        obtain ⟨given, declared⟩ := weaker given
        exact ⟨u, declared.annotated _ node (head given) same⟩
      cases ty with
      | some node =>
        refine Keeps.bind (typeOfExpr e (some u) fun given => inner given.1) fun t => ?_
        refine (answers.checkAssignable _ (fun given => given.2.2)
          fun given => given.1.2.2.sane).weaken id fun _ given below => ?_
        exact ⟨annotated (fun given => ⟨given.1.1, given.1.2.2⟩) given, s, u, t, target,
          given.1.2.1, given.2.1, below⟩
      | none =>
        refine Keeps.bind (typeOfExpr e none fun given => inner given.1) fun _ => ?_
        refine .pure fun given => ⟨nofun, ?_⟩
        obtain ⟨t, typed, below⟩ := given.1.2.2.inferred _ (head given.1.1) rfl
        exact ⟨s, u, t, target, given.1.2.1, typed, below⟩
  | .typeAlias ⟨m, x, node⟩, P, inside => by
    have declares : P → ∃ s, r.Declares (.typeAlias ⟨m, x, node⟩) s :=
      fun given => bound.named _ (inside given (Stmt.mem_nodes _)) _ rfl
    rw [Resolver.checkStmt]
    split
    · next missing =>
      refine .pure fun given => ?_
      obtain ⟨s, own⟩ := declares given
      cases own.target.symm.trans missing
    · next s target =>
      have own : P → r.Declares (.typeAlias ⟨m, x, node⟩) s := by
        intro given
        obtain ⟨s', own⟩ := declares given
        cases own.target.symm.trans target
        exact own
      refine Keeps.bind ((answers.aliasTarget s _).weaken (fun given => ?_)
        fun _ _ found => found) fun t => ?_
      · rw [← Role.isType_thaw, (own given).role]
        rfl
      · exact .pure fun given => ⟨t, given.2 _ ((own given.1).head nofun)⟩
  | .fn ⟨m, x, params, result, e⟩, P, inside => by
    have inner : P → e.nodes ⊆ r.program.nodes := fun given => below_right (below_left (inside given))
    rw [Resolver.checkStmt]
    refine Keeps.bind ((answers.signature _).weaken
      (fun given => inside given (Stmt.mem_nodes _)) fun _ _ found => found) fun sig => ?_
    cases result with
    | some node =>
      refine Keeps.bind (typeOfExpr e (some sig.result) fun given => inner given.1) fun t => ?_
      refine (answers.checkAssignable _ (fun given => given.2.2)
        fun given => given.1.2.1.sane).weaken id fun _ given below => ?_
      obtain ⟨⟨_, signed, known⟩, typed, _⟩ := given
      exact ⟨fun node same => ⟨_, signed.declared node same⟩, sig, t, known, signed.decl,
        signed.params, typed, below⟩
    | none =>
      refine Keeps.bind (typeOfExpr e none fun given => inner given.1) fun _ => ?_
      refine .pure fun given => ⟨nofun, ?_⟩
      obtain ⟨⟨_, signed, known⟩, _⟩ := given
      obtain ⟨t, typed, below⟩ := signed.inferred rfl
      exact ⟨sig, t, known, signed.decl, signed.params, typed, below⟩
  | .expr m e, P, inside =>
    Keeps.bind (typeOfExpr e none fun given => below_left (inside given)) fun t =>
      .pure fun given => ⟨t, given.2.1⟩

theorem checkStmts : ∀ (ss : List (Stmt Mark)) {P : Prop},
    (P → stmtsNodes ss ⊆ r.program.nodes) →
      Keeps r.toBoundProgram F P (r.checkStmts ss) fun _ => stmtsTyped r.toBoundProgram F ss
  | [], _, _ => .pure fun _ => trivial
  | s :: ss, _, inside =>
    Keeps.bind (checkStmt s fun given => below_left (inside given)) fun _ =>
      (checkStmts ss fun given => below_right (inside given.1)).weaken id
        fun _ given rest => ⟨given.2, rest⟩
end

end

end Answers

end Solo
