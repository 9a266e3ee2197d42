import Solo.Proofs.Overloads
import Solo.Proofs.Pairs

/-!
# Steps side by side

Single steps of the two checks, and what they ask about types, operators and overloads. The second
check is given an oracle that `Guided` describes: it meets the demands for what stands in the first
program with the counterparts of what the tables have, and it may meet others in any way, as long as
nothing of the first program comes out otherwise.
-/

namespace Solo

/-! ### Aliases -/

section
variable (p : BoundProgram)

/-- A type node refers to an alias, directly or through the targets of others. -/
inductive BoundProgram.Mentions : TyNode Mark → SymbolId → Prop
  | here {m : Mark} {x : Ident Mark} {s : SymbolId} (target : p.symbolAt? x.mark.id = some s) :
    Mentions (.refer m x) s
  | through {m : Mark} {x : Ident Mark} {s y : SymbolId} {d : AliasDecl Mark}
    (target : p.symbolAt? x.mark.id = some s)
    (decl : (p.symbol s).decls.head? = some (.typeAlias d)) (rest : Mentions d.ty y) :
    Mentions (.refer m x) y
  | paren {m : Mark} {node : TyNode Mark} {s : SymbolId} (inner : Mentions node s) :
    Mentions (.paren m node) s

/-- An alias and all those that its target refers to. -/
def BoundProgram.chain (x : SymbolId) : Set SymbolId :=
  {y | y = x ∨ ∃ d, (p.symbol x).decls.head? = some (.typeAlias d) ∧ p.Mentions d.ty y}

variable {p}

/-- No alias is needed to find what it stands for. -/
theorem Denotes.acyclic {node : TyNode Mark} {t : Ty} (denotes : Denotes p node t) {s : SymbolId}
    {d : AliasDecl Mark} (mentions : p.Mentions node s)
    (decl : (p.symbol s).decls.head? = some (.typeAlias d)) : ¬p.Mentions d.ty s := by
  induction denotes with
  | @kind m x k plain _ =>
    have none : ∀ s, p.symbolAt? x.mark.id = some s → False := by
      intro s target
      rw [BoundProgram.symbolAt?, plain] at target
      cases target
    cases mentions with
    | here target => exact (none _ target).elim
    | through target => exact (none _ target).elim
  | typeAlias target head _ ih =>
    cases mentions with
    | here target' =>
      cases target.symm.trans target'
      cases head.symm.trans decl
      exact fun loops => ih loops loops
    | through target' head' rest =>
      cases target.symm.trans target'
      cases head.symm.trans head'
      exact ih rest
  | paren _ ih =>
    cases mentions with
    | paren inner => exact ih inner
  | _ => cases mentions

end

/-- An operator that accepts what has the error kind accepts every kind instead. -/
theorem BinOp.resultKind_lenient (op : BinOp) {j j' k k' : Kind} (left : j = .error ∨ j' = j)
    (right : k = .error ∨ k' = k) :
    op.resultKind j k = none ∨ op.resultKind j' k' = op.resultKind j k := by
  have first (k : Kind) : Kind.join? .error k = none := rfl
  have second (k : Kind) : k.join? .error = none := by cases k <;> rfl
  rcases left with rfl | rfl <;> rcases right with rfl | rfl
  · cases op <;> simp [resultKind, first]
  · cases op with
    | arith o => by_cases o = .add <;> by_cases k' = .string <;> simp_all [resultKind]
    | _ => simp [resultKind, first]
  · cases op with
    | arith o => by_cases o = .add <;> by_cases j' = .string <;> simp_all [resultKind]
    | _ => simp [resultKind, second]
  · exact .inr rfl

namespace Graft

section
variable {g : Graft} {c c₁ : Checker} {A : Set SymbolId} {skip : Option NodeId} {P : Prop}
  {α β : Type} {a : Check α} {b : Check β} {R : α → β → Prop}

/-! ### Single steps -/

theorem Tends.still (still : StillAt g.cx' g.Extra b) : g.Tends A b fun _ => True := by
  refine .striding (.still g.ground (still.mono fun _ _ => trivial))
    fun c _ agrees y c₁ run _ => ⟨?_, trivial⟩
  have frame := still.frame c y c₁ run
  have touches := still.touches c y c₁ run
  have extra : ∀ i, ¬∃ m, g.Extra m ∧ m.id = g.ν i := fun i ⟨_, extra, same⟩ =>
    extra.1 ⟨i, same.symm⟩
  exact agrees.step (fun _ _ _ _ => (touches.nodeTypes _).resolve_right fun new => extra _ new.2)
    (fun d _ => (touches.signatures _).resolve_right fun new => extra _ new.2)
    (fun x => by rw [frame.symbolTypes]) (fun x => by rw [frame.aliasTargets])
    (fun x => by rw [Checker.Loops, Checker.Loops, frame.pursuits]; exact id)
    fun d member => (touches.told d member).imp_right .inr

theorem Tends.enters {y : β} (enters : Check.Enters b y) (still : StillAt g.cx' g.Extra b) :
    g.Tends A b (· = y) :=
  (Tends.still still).with_end fun c _ y' c₁ run _ _ => by
    obtain ⟨_, _, entered⟩ := enters c
    cases entered.symm.trans run
    rfl

theorem Ahead.not_circle (ahead : g.Ahead c) {n : Node Mark} (node : n ∈ g.cx'.program.nodes)
    (old : n.mark.id ∈ Set.range g.ν) {problem : Problem} (circle : problem.isCircle = true) :
    ⟨n.mark.span, problem⟩ ∉ c.diagnostics := fun member => by
  have calm := g.calm n node old _ (ahead.told _ member) rfl
  cases circle.symm.trans calm

/-- Nothing of the first program needs itself. -/
theorem Tends.circle {n : Node Mark} (node : n ∈ g.cx'.program.nodes)
    (old : n.mark.id ∈ Set.range g.ν) {problem : Problem} (circle : problem.isCircle = true) {y : β}
    {Q : β → Prop} : g.Tends A (do Check.report n.mark.span problem; return y) Q := by
  have still : StillAt g.cx' (fun _ => True) (do Check.report n.mark.span problem; return y) :=
    .bind (.report (Mark.exists_span _) problem) fun _ => .pure y
  refine .striding (.still g.ground still) fun c _ _ y c₁ run ahead => ?_
  cases run
  exact absurd (Array.mem_push.mpr (.inr rfl)) (ahead.not_circle node old circle)

namespace Pair

theorem stuck (a : Check α) (own : StillAt g.cx (fun _ => True) a)
    (still : StillAt g.cx' (fun _ => True) b) (nothing : P → ∀ x, ¬g.cx.Yields g.F skip a x) :
    g.Pair skip P a b R :=
  .never (g.recalled.located.still own) (.still g.ground still) nothing

theorem report {span span' : Span} {problem problem' : Problem} (error : problem.severity = .error)
    {R : Unit → Unit → Prop} :
    g.Pair skip P (Check.report span problem) (Check.report span' problem') R :=
  .stuck _ (.report (Mark.exists_span _) problem) (.report (Mark.exists_span _) problem')
    fun _ _ yields => yields.not_report error

theorem reject {span span' : Span} {problem problem' : Problem} (error : problem.severity = .error)
    {x : α} {y : β} : g.Pair skip P (do Check.report span problem; return x)
      (do Check.report span' problem'; return y) R := by
  exact .stuck _ (.bind (.report (Mark.exists_span _) problem) fun _ => .pure x)
    (.bind (.report (Mark.exists_span _) problem') fun _ => .pure y)
    fun _ _ yields => yields.not_reject error

theorem warn (span span' : Span) {problem problem' : Problem}
    (mild : problem'.severity ≠ .error) :
    g.Pair skip P (Check.report span problem) (Check.report span' problem') fun _ _ => True where
  own := g.recalled.located.report (Mark.exists_span _) problem
  progress := .still g.ground (.report (Mark.exists_span _) problem')
  leads _ _ _ := by
    refine .striding (.still g.ground (.report (Mark.exists_span _) problem'))
      fun c _ agrees y c₁ run _ => ⟨?_, trivial⟩
    cases run
    refine agrees.step (fun _ _ _ _ => rfl) (fun _ _ => rfl) (fun _ => rfl) (fun _ => rfl)
      (fun _ => id) fun d member => (Array.mem_push.mp member).imp_right ?_
    rintro rfl
    exact .inl (by simpa [Diagnostic.isError] using mild)

theorem enters {x : α} {y : β} (enters : Check.Enters a x) (enters' : Check.Enters b y)
    (still : StillAt g.cx (fun _ => True) a) (still' : StillAt g.cx' g.Extra b) :
    g.Pair skip P a b fun x' y' => x' = x ∧ y' = y where
  own := g.recalled.located.still still
  progress := .still g.ground (still'.mono fun _ _ => trivial)
  leads _ _ yields := (Tends.enters enters' still').imp fun _ same => ⟨yields.enters enters, same⟩

theorem ofKind {j j' : Option Kind} {f f' : Kind → Check Ty} {R : Ty → Ty → Prop}
    {span span' : Span} {problem problem' : Problem} (error : problem.severity = .error)
    (same : P → j = none ∨ j' = j) (each : ∀ k, g.Pair skip P (f k) (f' k) R) :
    g.Pair skip P
      (match j with
        | none => do Check.report span problem; return .error
        | some k => f k)
      (match j' with
        | none => do Check.report span' problem'; return .error
        | some k => f' k) R := by
  have refused : g.Pair skip P (do Check.report span problem; return Ty.error)
    (do Check.report span' problem'; return Ty.error) R := .reject error
  cases j with
  | none =>
    cases j' with
    | none => exact refused
    | some k =>
      exact .never refused.own (each k).progress fun _ _ yields => yields.not_reject error
  | some k =>
    cases j' with
    | none => exact .given (each k).own refused.progress fun given => by cases same given <;> contradiction
    | some k' =>
      refine .given (each k).own (each k').progress fun given => ?_
      obtain rfl : k' = k := by simpa using same given
      exact (each k').weaken (fun _ => given) fun _ _ _ related => related

end Pair

end

/-! ### Demands -/

/-- Both calls are resolved, and what they are resolved to are counterparts. -/
def Selects (g : Graft) (found found' : Option Signature) : Prop :=
  ∃ sig sig', found = some sig ∧ found' = some sig' ∧ sig.Moves g.ν g.ρ sig'

/-- The signature of an overload that is added. -/
def Adds (g : Graft) (x : SymbolId) (sig : Signature) : Prop :=
  ∃ k, .fn k ∈ (g.cx'.symbol (g.ρ x)).decls ∧ k.mark.id ∉ Set.range g.ν ∧
    g.F'.signatures.find? k.mark.id = some sig

/-- An oracle for the second check that meets old demands as the tables of the first do. -/
structure Guided (g : Graft) (o : Oracle) : Prop where
  steadfast : g.cx'.Steadfast o
  asks : ∀ q, g.cx'.Poses q → q.At g.Extra → g.Tends .univ (o q) fun _ => True
  typeOf : ∀ x, g.Tends .univ (o (.typeOf (g.ρ x))) (· = g.move (g.F.bindingType x))
  aliasTarget : ∀ x d, (g.cx.symbol x).decls.head? = some (.typeAlias d) → ∀ span t,
    g.F.aliasTargets.find? x = some t →
      g.Tends (g.cx.chain x) (o (.aliasTarget (g.ρ x) span)) (· = g.move t)
  signature : ∀ d d', .stmt (.fn d) ∈ g.cx.program.nodes → .stmt (.fn d') ∈ g.cx'.program.nodes →
    Stmt.Gains g.ν (.fn d) (.fn d') → g.Tends .univ (o (.signature d')) fun sig' =>
      ∃ sig, g.F.signatures.find? d.mark.id = some sig ∧ sig.Moves g.ν g.ρ sig'

namespace Guided

variable {g : Graft} {o : Oracle} {c : Checker} {skip : Option NodeId} {P : Prop}
  (guided : g.Guided o)
include guided

/-- Where checking leads if demands are met so, as long as nothing needs itself. -/
theorem judges : g.cx'.Judges (g.cx'.asking o) (g.Tracks .univ) g.cx'.Strides id where
  refl _ tracks := .refl tracks.upright.orderly
  trans _ _ _ := .trans
  follows _ _ strides := strides.follows
  compared _ tracks := tracks.upright.compared
  widen c tracks s u c₁ run := by
    have rises := guided.steadfast.rises tracks.upright.orderly run
    cases s with
    | path x =>
      obtain ⟨tracks', strides, _⟩ := guided.asks (.typeOf x) trivial trivial c tracks u c₁ run
      exact ⟨tracks', strides, rises⟩
    | _ =>
      cases run
      exact ⟨tracks, .refl tracks.upright.orderly, rises⟩
  keep c tracks s t b compares := by
    obtain ⟨upright, strides⟩ := tracks.upright.keep g.ground compares
    refine ⟨tracks.later upright (fun ahead => ?_) strides.marks, strides⟩
    exact (tracks.agrees (ahead.before strides)).step (fun _ _ _ _ => rfl) (fun _ _ => rfl)
      (fun _ => rfl) (fun _ => rfl) (fun _ => id) fun _ => .inl

theorem extra : Located g.cx' g.Extra fun act =>
    Check.Proceeds (g.Tracks .univ) g.cx'.Strides (act o) :=
  guided.judges.located (fun still c tracks y c₁ run => by
      obtain ⟨tracks', strides, _⟩ := Tends.still still c tracks y c₁ run
      exact ⟨tracks', strides⟩)
    fun q posed own c tracks y c₁ run => by
      obtain ⟨tracks', strides, _⟩ := guided.asks q posed own c tracks y c₁ run
      exact ⟨tracks', strides⟩

/-- All of checking leads on. -/
theorem strides : Located g.cx' (fun _ => True) fun act => g.cx'.Striding (act o) :=
  guided.steadfast.located g.ground

/-! ### Types -/

theorem ofSymbol (x : SymbolId) :
    g.Pair skip P ((g.cx.asking g.F.recall).typeOf x) ((g.cx'.asking o).typeOf (g.ρ x))
      fun t u => t = g.F.bindingType x ∧ u = g.move t where
  own := g.recalled.located.typeOf x
  progress := guided.strides.typeOf (g.ρ x)
  leads _ t yields := by
    obtain ⟨_, _, _, run, _⟩ := yields
    cases run
    exact (guided.typeOf x).imp fun u same => ⟨rfl, same⟩

theorem ofAlias {x : SymbolId} {d : AliasDecl Mark} (span span' : Span)
    (head : (g.cx.symbol x).decls.head? = some (.typeAlias d)) :
    g.Pair skip P ((g.cx.asking g.F.recall).aliasTarget x span)
      ((g.cx'.asking o).aliasTarget (g.ρ x) span') fun t u => u = g.move t where
  own := g.recalled.located.ask (.aliasTarget x span) trivial (Mark.exists_span span)
  progress := guided.strides.ask (.aliasTarget (g.ρ x) span') trivial (Mark.exists_span span')
  leads _ t yields := by
    obtain ⟨_, _, _, run, _⟩ := yields
    exact (guided.aliasTarget x d head span' t (Check.entry_ok run).1).mono fun _ _ => trivial

theorem widen (t : Ty) :
    g.Pair skip P ((g.cx.asking g.F.recall).widen t) ((g.cx'.asking o).widen (g.move t))
      fun u u' => u' = g.move u := by
  cases t with
  | path x => exact (guided.ofSymbol x).weaken (P := P) id fun _ _ _ same => same.2
  | _ => exact .pure fun _ => rfl

theorem isSubtype (s t : Ty) :
    g.Pair skip P ((g.cx.asking g.F.recall).isSubtype s t)
      ((g.cx'.asking o).isSubtype (g.move s) (g.move t))
      fun b b' => g.cx.Compares g.F s t b ∧ b' = b where
  own := g.recalled.located.isSubtype s t
  progress := guided.strides.isSubtype _ _
  leads _ b yields := by
    have compares := g.recalled.yields_isSubtype yields
    refine .striding (guided.strides.isSubtype _ _) fun c tracks _ b' c₁ run ahead => ?_
    obtain ⟨tracks', _, compares'⟩ := guided.judges.isSubtypeWithin tracks run
    have agrees := tracks'.agrees ahead
    exact ⟨agrees, compares,
      (agrees.compares ahead compares').unique g.recalled.orderly compares⟩

/-- With more steps, widening ends with the same type if it ends with a type. -/
theorem baseWithin {n n' : Nat} (more : n ≤ n') (t : Ty) :
    g.Pair skip P ((g.cx.asking g.F.recall).baseWithin n t)
      ((g.cx'.asking o).baseWithin n' (g.move t)) fun u u' => u = .error ∨ u' = g.move u := by
  induction n generalizing n' t P with
  | zero =>
    refine ⟨g.recalled.located.baseWithin 0 t, guided.strides.baseWithin _ _,
      fun _ u yields => ?_⟩
    have tends := Tends.of_proceeds (guided.extra.baseWithin n' (g.move t))
    by_cases single : t.isSingleton = true
    · simp only [Resolver.baseWithin, if_pos single] at yields
      obtain ⟨_, _, rest⟩ := yields.bind (g.recalled.located.widen t) fun _ =>
        g.recalled.located.pure Ty.error
      exact tends.imp fun _ _ => .inl rest.pure
    · simp only [Resolver.baseWithin, if_neg single] at yields
      have plain : (g.cx'.asking o).baseWithin n' (g.move t) = Pure.pure (g.move t) := by
        cases n' <;> simp [Resolver.baseWithin, single]
      rw [plain, yields.pure]
      exact .pure (.inr rfl)
  | succ n ih =>
    obtain ⟨m, rfl⟩ := Nat.exists_eq_add_one_of_ne_zero (Nat.ne_zero_of_lt more)
    simp only [Resolver.baseWithin]
    refine .branch (fun _ => by simp) ?_ (.pure fun _ => .inr rfl)
    refine (guided.widen t).bind fun u u' => .branch (fun given => ?_) (.pure fun _ => .inl rfl) ?_
    · rw [given.2, Ty.move_inj g.apart]
    · refine .given (g.recalled.located.baseWithin n u) (guided.strides.baseWithin m u') ?_
      rintro ⟨⟨_, rfl⟩, _⟩
      exact ih (Nat.le_of_succ_le_succ more) u

theorem baseKind (t : Ty) :
    g.Pair skip P ((g.cx.asking g.F.recall).baseKind t) ((g.cx'.asking o).baseKind (g.move t))
      fun k k' => k = .error ∨ k' = k := by
  refine (guided.baseWithin (Nat.succ_le_succ g.size) t).bind fun u u' => .pure ?_
  rintro ⟨_, rfl | rfl⟩
  · exact .inl rfl
  · cases u <;> simp [Ty.move, Ty.kind?]

theorem lub (s t : Ty) :
    g.Pair skip P ((g.cx.asking g.F.recall).lub s t) ((g.cx'.asking o).lub (g.move s) (g.move t))
      fun u u' => u' = g.move u := by
  have own (n : Nat) (s t : Ty) : g.cx.Abides g.F ((g.cx.asking g.F.recall).lubWithin n s t) :=
    fun _ => g.recalled.judges.lubWithin n s t
  have strides (n : Nat) (s t : Ty) : g.cx'.Striding ((g.cx'.asking o).lubWithin n s t) :=
    (guided.steadfast.judges g.ground).lubWithin n s t
  have within : ∀ (n n' : Nat), n ≤ n' → ∀ (s t : Ty) (P : Prop),
      g.Pair skip P ((g.cx.asking g.F.recall).lubWithin n s t)
        ((g.cx'.asking o).lubWithin n' (g.move s) (g.move t)) fun u u' => u' = g.move u := by
    intro n
    induction n with
    | zero => exact fun n' _ s t P => .never (own 0 s t) (strides n' _ _) fun _ _ ⟨_, _, _, run, _⟩ => nomatch run
    | succ n ih =>
      intro n' more s t P
      obtain ⟨m, rfl⟩ := Nat.exists_eq_add_one_of_ne_zero (Nat.ne_zero_of_lt more)
      simp only [Resolver.lubWithin]
      refine (guided.isSubtype s t).bind fun b b' => .branch (fun given => by rw [given.2.2])
        (.pure fun _ => rfl) ?_
      refine (guided.isSubtype t s).bind fun b b' => .branch (fun given => by rw [given.2.2])
        (.pure fun _ => rfl) ?_
      refine (guided.widen s).bind fun s₁ s₁' => (guided.widen t).bind fun t₁ t₁' => ?_
      refine .branch (fun given => ?_) (.pure fun _ => rfl) ?_
      · rw [given.1.2, given.2, Ty.move_inj g.apart, Ty.move_inj g.apart]
      · refine .given (own n s₁ t₁) (strides m s₁' t₁') ?_
        rintro ⟨⟨⟨_, rfl⟩, rfl⟩, _⟩
        exact ih m (Nat.le_of_succ_le_succ more) s₁ t₁ _
  exact within _ _ (Nat.succ_le_succ (Nat.add_le_add_right g.size 2)) s t P

theorem checkAssignable {s s' t t' : Ty} (same : P → s' = g.move s ∧ t' = g.move t)
    (span span' : Span) : g.Pair skip P ((g.cx.asking g.F.recall).checkAssignable s t span)
      ((g.cx'.asking o).checkAssignable s' t' span') fun _ _ => True := by
  refine .given (g.recalled.located.checkAssignable s t (Mark.exists_span span))
    (guided.strides.checkAssignable s' t' (Mark.exists_span span')) fun given => ?_
  obtain ⟨rfl, rfl⟩ := same given
  refine (guided.isSubtype s t).bind fun b b' => ?_
  exact .branch (fun given => by rw [given.2.2]) (.pure fun _ => trivial) (.report rfl)

/-! ### Overloads -/

theorem allSubtypes : ∀ (ss ts : List Ty) (P : Prop),
    g.Pair skip P ((g.cx.asking g.F.recall).allSubtypes ss ts)
      ((g.cx'.asking o).allSubtypes (ss.map g.move) (ts.map g.move)) fun b b' => b' = b
  | s :: ss, t :: ts, P => by
    simp only [List.map_cons, Resolver.allSubtypes]
    refine (guided.isSubtype s t).bind fun b b' => ?_
    exact .branch (fun given => by rw [given.2.2]) (allSubtypes ss ts _) (.pure fun _ => rfl)
  | [], _, _ => .pure fun _ => rfl
  | _ :: _, [], _ => .pure fun _ => rfl

theorem isMostSpecific {sig sig' : Signature} {others others' : List Signature}
    (moves : sig.Moves g.ν g.ρ sig') (pairs : List.Forall₂ (Signature.Moves g.ν g.ρ) others others') :
    g.Pair skip P ((g.cx.asking g.F.recall).isMostSpecific sig others)
      ((g.cx'.asking o).isMostSpecific sig' others') fun b b' => b' = b := by
  refine .allM pairs fun other other' moves' => .branch (fun _ => ?_) (.pure fun _ => rfl) ?_
  · rw [moves.id, moves'.id, g.injective.eq_iff]
  · rw [moves.params, moves'.params]
    exact guided.allSubtypes sig.params other.params _

theorem selectBest (call call' : Call) {sigs sigs' : List Signature}
    (pairs : List.Forall₂ (Signature.Moves g.ν g.ρ) sigs sigs') :
    g.Pair skip P ((g.cx.asking g.F.recall).selectBest call sigs)
      ((g.cx'.asking o).selectBest call' sigs') g.Selects := by
  have each : ∀ sig ∈ sigs, ∀ sig' ∈ sigs', sig.Moves g.ν g.ρ sig' →
      g.Pair skip P ((g.cx.asking g.F.recall).isMostSpecific sig sigs)
        ((g.cx'.asking o).isMostSpecific sig' sigs') fun b b' => b' = b :=
    fun sig _ sig' _ moves => guided.isMostSpecific moves pairs
  have best := Pair.filterM (E := fun _ => False) (.of_forall₂ pairs) each
    (fun sig' _ => guided.strides.isMostSpecific sig' sigs') fun _ _ => False.elim
  refine best.bind fun xs ys => .given ?_ ?_ fun ⟨_, pairs⟩ => ?_
  · rcases xs with _ | ⟨x, _ | _⟩
    · exact g.recalled.located.reject (Mark.exists_span _) _ none
    · exact g.recalled.located.pure (some x)
    · exact g.recalled.located.reject (Mark.exists_span _) _ none
  · rcases ys with _ | ⟨y, _ | _⟩
    · exact guided.strides.reject (Mark.exists_span _) _ none
    · exact guided.strides.pure (some y)
    · exact guided.strides.reject (Mark.exists_span _) _ none
  · cases pairs with
    | nil => exact .reject rfl
    | cons head rest =>
      cases rest with
      | nil => exact .pure fun _ => ⟨_, _, rfl, rfl, head⟩
      | cons _ _ => exact .reject rfl

theorem selectAmong {call call' : Call} {sigs sigs' applicable applicable' : List Signature}
    {args args' : List Ty} (nothing : applicable = [] →
      ¬g.cx.Yields g.F skip ((g.cx.asking g.F.recall).reportNoMatch call sigs args) ())
    (pairs : List.Forall₂ (Signature.Moves g.ν g.ρ) applicable applicable') :
    g.Pair skip P ((g.cx.asking g.F.recall).selectAmong call sigs args applicable)
      ((g.cx'.asking o).selectAmong call' sigs' args' applicable')
      g.Selects := by
  cases pairs with
  | nil =>
    have own := g.recalled.located.reportNoMatch (Mark.exists_span call.span)
      (fun span _ => Mark.exists_span span) sigs args
    have progress := guided.strides.reportNoMatch (Mark.exists_span call'.span)
      (fun span _ => Mark.exists_span span) sigs' args'
    refine Pair.bind (R := fun _ _ => False) (.never own progress fun _ _ => nothing rfl)
      fun _ _ => .pure fun impossible => impossible.2.elim
  | cons head rest =>
    cases rest with
    | nil => exact .pure fun _ => ⟨_, _, rfl, rfl, head⟩
    | cons next rest => exact guided.selectBest call call' (.cons head (.cons next rest))

/-- A question whose answer is that of the closed form also in the end. -/
theorem settlesSubtype (s t : Ty) : g.Tends .univ ((g.cx'.asking o).isSubtype s t) fun b =>
    ∀ c, g.cx'.Follows g.F' c → g.cx'.Compares c s t b :=
  (Tends.of_proceeds (guided.extra.isSubtype s t)).with_end
    fun _ tracks _ _ run _ ahead _ follows =>
      ((guided.judges.isSubtypeWithin tracks run).2.2.kept ahead.follows).kept follows

/-- An overload that does not accept one of the arguments does not apply. -/
theorem refuses {i : ℕ} {s t : Ty} (follows : g.cx'.Follows g.F' c)
    (no : g.cx'.Compares c s t false) : ∀ {ss ts : List Ty}, ss[i]? = some s → ts[i]? = some t →
      g.Tends .univ ((g.cx'.asking o).allSubtypes ss ts) (· = false) := by
  have rest (ss ts : List Ty) (b : Bool) : g.cx'.Striding
      (if b = true then (g.cx'.asking o).allSubtypes ss ts else Pure.pure false) := by
    split
    · exact guided.strides.allSubtypes ss ts
    · exact guided.strides.pure false
  induction i with
  | zero =>
    rintro (_ | ⟨s', ss⟩) (_ | ⟨t', ts⟩) arg param
    · cases arg
    · cases arg
    · cases param
    · cases arg
      cases param
      refine (guided.settlesSubtype s t).bind (rest ss ts) fun b holds => ?_
      obtain rfl := (holds c follows).unique follows.orderly no
      exact .pure rfl
  | succ i ih =>
    rintro (_ | ⟨s', ss⟩) (_ | ⟨t', ts⟩) arg param
    · cases arg
    · cases arg
    · cases param
    · refine (guided.settlesSubtype s' t').bind (rest ss ts) fun b _ => ?_
      cases b with
      | true => exact ih arg param
      | false => exact .pure rfl

theorem selectOverload {call call' : Call} {sigs sigs' : List Signature} {args : List Ty}
    {E : Signature → Prop} (sane : P → args.any Ty.isError = false)
    (fits : P → args.length = call.args.length) (count : call'.args.length = call.args.length)
    (joins : P → Joins (Signature.Moves g.ν g.ρ) E sigs sigs')
    (refused : P → ∀ sig', E sig' → sig'.params.length = call.args.length →
      ∃ (i : ℕ) (t p : Ty) (c : Checker), args[i]? = some t ∧ sig'.params[i]? = some p ∧
        g.cx'.Follows g.F' c ∧ g.cx'.Compares c (g.move t) p false) :
    g.Pair skip P ((g.cx.asking g.F.recall).selectOverload call sigs args)
      ((g.cx'.asking o).selectOverload call' sigs' (args.map g.move))
      g.Selects := by
  have spans (ss : List Span) : ∀ span ∈ ss, ∃ m : Mark, True ∧ m.span = span :=
    fun span _ => Mark.exists_span span
  refine .given (g.recalled.located.selectOverload (Mark.exists_span _) (spans _) sigs args)
    (guided.strides.selectOverload (Mark.exists_span _) (spans _) sigs' _) fun given => ?_
  have right : .error ∉ args := fun inside =>
    absurd (sane given) (by simpa using ⟨_, inside, rfl⟩)
  have right' : .error ∉ args.map g.move := fun inside => by
    obtain ⟨t, member, same⟩ := List.mem_map.mp inside
    cases Ty.move_eq_intrinsic.mp same
    exact right member
  rw [Resolver.selectOverload_eq _ right, Resolver.selectOverload_eq _ right', count]
  have arity (sig sig' : Signature) (moves : sig.Moves g.ν g.ρ sig') :
      (sig'.params.length == call.args.length) = (sig.params.length == call.args.length) := by
    rw [moves.params, List.length_map]
  have each (sig sig' : Signature) (moves : sig.Moves g.ν g.ρ sig') :
      g.Pair skip True ((g.cx.asking g.F.recall).allSubtypes args sig.params)
        ((g.cx'.asking o).allSubtypes (args.map g.move) sig'.params) fun b b' => b' = b :=
    moves.params ▸ guided.allSubtypes args sig.params True
  have apply := Pair.filterM ((joins given).filter arity) (fun sig _ sig' _ => each sig sig')
    (fun sig' _ => guided.strides.allSubtypes _ sig'.params) fun sig' _ own _ => by
      obtain ⟨i, t, p, c, arg, param, follows, no⟩ := refused given sig' own.1 (eq_of_beq own.2)
      exact guided.refuses follows no (by rw [List.getElem?_map, arg]; rfl) param
  refine apply.yielding.bind fun xs ys => .given
    (g.recalled.located.selectAmong (Mark.exists_span _) (spans _) sigs args xs)
    (guided.strides.selectAmong (Mark.exists_span _) (spans _) sigs' _ ys) ?_
  rintro ⟨_, yields, pairs⟩
  exact guided.selectAmong
    (fun none => g.recalled.not_yields_noMatch (fits given) (none ▸ yields)) pairs

theorem ofFunction {d d' : FnDecl Mark} (node : .stmt (.fn d) ∈ g.cx.program.nodes)
    (node' : .stmt (.fn d') ∈ g.cx'.program.nodes) (gains : Stmt.Gains g.ν (.fn d) (.fn d')) :
    g.Pair skip P ((g.cx.asking g.F.recall).signature d) ((g.cx'.asking o).signature d')
      fun sig sig' => g.F.signatures.find? d.mark.id = some sig ∧ sig.Moves g.ν g.ρ sig' where
  own := g.recalled.located.ask (.signature d) node trivial
  progress := guided.strides.ask (.signature d') node' trivial
  leads _ sig yields := by
    obtain ⟨_, _, _, run, _⟩ := yields
    refine (guided.signature d d' node node' gains).imp ?_
    rintro sig' ⟨sig₁, found, moves⟩
    cases found.symm.trans (Check.entry_ok run).1
    exact ⟨found, moves⟩

/-- The overloads of a function are those that it had and those that are added. -/
theorem signaturesOf (x : SymbolId) :
    g.Pair skip P ((g.cx.asking g.F.recall).signaturesOf x) ((g.cx'.asking o).signaturesOf (g.ρ x))
      fun sigs sigs' => sigs = g.cx.overloads g.F x ∧
        Joins (Signature.Moves g.ν g.ρ) (g.Adds x) sigs sigs' := by
  have node (d : FnDecl Mark) (member : d ∈ (g.cx.symbol x).decls.filterMap Decl.fn?) :=
    g.recalled.proper.nested.decl _ _ (Decl.mem_fns.mp member)
  have node' (d : FnDecl Mark) (member : d ∈ (g.cx'.symbol (g.ρ x)).decls.filterMap Decl.fn?) :=
    g.ground.decl _ _ (Decl.mem_fns.mp member)
  have joins := (g.decls x).filterMap (D := fun k => k.mark.id ∉ Set.range g.ν)
    (fun _ _ => Decl.Gains.fn?) fun d' added k' isFn => by
      obtain ⟨k, rfl, new⟩ := added
      cases isFn
      exact new
  have signatures : g.Pair skip P (((g.cx.symbol x).decls.filterMap Decl.fn?).mapM
        (g.cx.asking g.F.recall).signature)
      (((g.cx'.symbol (g.ρ x)).decls.filterMap Decl.fn?).mapM (g.cx'.asking o).signature)
      (Joins (Signature.Moves g.ν g.ρ) (g.Adds x)) := by
    refine Pair.mapM joins (fun d member d' member' gains => ?_)
      (fun d' member => guided.strides.ask (.signature d') (node' d' member) trivial)
      fun d' member new _ => ?_
    · exact (guided.ofFunction (node d member) (node' d' member') gains).weaken id
        fun _ _ _ found => found.2
    · have posed := node' d' member
      refine (guided.asks (.signature d') posed trivial).with_end
        fun c tracks sig c₁ run _ ahead => ?_
      obtain ⟨_, _, promised⟩ :=
        guided.steadfast.faithful.meets (.signature d') posed c tracks.upright.orderly sig c₁ run
      refine ⟨d', Decl.mem_fns.mp member, new, ?_⟩
      rcases ahead.follows.kept (.signature d') posed sig promised with found | awaited
      · exact found
      · have loops := awaited.loops
        rw [Checker.Loops, g.idle] at loops
        cases loops
  exact signatures.yielding.weaken id fun sigs sigs' _ both =>
    ⟨Context.Recalled.yields_signaturesOf both.1, both.2⟩

/-! ### Single expressions -/

theorem typeOfName {x x' : Ident Mark} (moves : x.Moves g.ν x') (expected : Option Ty) :
    g.Pair skip P ((g.cx.asking g.F.recall).typeOfName x expected)
      ((g.cx'.asking o).typeOfName x' (expected.map g.move)) fun t t' => t' = g.move t := by
  simp only [Resolver.typeOfName, Context.asking_toContext, moves.1, g.symbolAt?]
  cases g.cx.symbolAt? x.mark.id with
  | none => exact .pure fun _ => rfl
  | some s =>
    simp only [Option.map_some, g.role]
    refine .branch (fun _ => Iff.rfl) (.reject rfl) ?_
    refine (guided.ofSymbol s).bind fun t t' => .branch (fun _ => ?_) (.pure fun _ => rfl)
      (.pure fun given => given.1.2.2)
    refine and_congr_left fun _ => ?_
    cases expected with
    | none => simp
    | some u =>
      rw [Option.map_some, Option.some_inj, Option.some_inj]
      exact (Ty.move_inj g.apart (t := .path s)).symm

omit guided in
theorem typeOfResult (folded : Option (Except OpError Literal)) (k : Kind) :
    g.Pair skip P (Resolver.typeOfResult folded k) (Resolver.typeOfResult folded k)
      fun t t' => t' = g.move t := by
  rcases folded with _ | _ | v
  · exact .pure fun _ => rfl
  · exact .pure fun _ => rfl
  · refine Pair.bind (.enters (Check.enterText_enters v) (Check.enterText_enters v) (.enterText v)
      (.enterText v)) fun _ _ => ?_
    refine (Pair.enters (Check.enterType_enters (.literal v)) (Check.enterType_enters (.literal v))
      (.enterType _) (.enterType _)).weaken (P := P) And.left ?_
    rintro _ _ _ ⟨rfl, rfl⟩
    rfl

theorem typeOfUnary (span span' : Span) (op : UnaryOp) (t : Ty) :
    g.Pair skip P ((g.cx.asking g.F.recall).typeOfUnary span op t)
      ((g.cx'.asking o).typeOfUnary span' op (g.move t)) fun t t' => t' = g.move t := by
  refine .branch (fun _ => by simp) (.pure fun _ => rfl) ?_
  refine (guided.baseKind t).bind fun k k' => .ofKind rfl (fun given => ?_) fun j => ?_
  · rcases given.2 with rfl | rfl
    · exact .inl (by cases op <;> rfl)
    · exact .inr rfl
  · rw [Ty.literal?_move]
    exact typeOfResult _ j

theorem typeOfBinary (span span' : Span) (op : BinOp) (s t : Ty) :
    g.Pair skip P ((g.cx.asking g.F.recall).typeOfBinary span op s t)
      ((g.cx'.asking o).typeOfBinary span' op (g.move s) (g.move t)) fun t t' => t' = g.move t := by
  refine .branch (fun _ => by simp) (.pure fun _ => rfl) ?_
  refine (guided.baseKind s).bind fun j j' => (guided.baseKind t).bind fun k k' =>
    .ofKind rfl (fun given => op.resultKind_lenient given.1.2 given.2) fun i => ?_
  cases s with
  | literal v =>
    cases t with
    | literal w => exact typeOfResult _ i
    | _ => exact .pure fun _ => rfl
  | _ => exact .pure fun _ => rfl

end Guided

end Graft

end Solo
