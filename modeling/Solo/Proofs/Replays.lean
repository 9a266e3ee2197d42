import Solo.Proofs.Depths
import Solo.Proofs.Underway

/-!
# Actions again

The tables `F` of a check list what it found, one finding after the other. Given an oracle that
meets the demands for a list of findings, an action `Replays` an answer if it gives that answer from
every state that concurs with `F` and has come to none of the findings. There is one way for it to
go astray: a singleton `x.type` is looked at while the type of `x` is looked for.
-/

namespace Solo

/-- What is found once: the answer to a goal, or the type of an expression or a type node. -/
inductive Finding where
  | goal (g : Goal)
  | node (n : Node Mark)

def Node.entries : Node Mark → List Entry
  | .expr e => e.entries
  | _ => []

/-- Expressions and type nodes have types that are found once. -/
def Node.isTyped : Node Mark → Bool
  | .expr _ | .ty _ => true
  | _ => false

/-- An answer stands in the tables. -/
def Demand.Kept (F : Checker) : (q : Demand) → q.Answer → Prop
  | .typeOf x, t => F.symbolTypes.find? x = some t
  | .aliasTarget x _, t => F.aliasTargets.find? x = some t
  | .signature d, sig => F.signatures.find? d.mark.id = some sig

theorem Demand.Kept.unique {F : Checker} {q : Demand} {a b : q.Answer} (first : q.Kept F a)
    (second : q.Kept F b) : a = b := by
  cases q <;> exact Option.some.inj (first.symm.trans second)

/-! ### Subtypes by the tables -/

/-- Whether one of two kinds is below the other. A singleton is below no singleton, and whether it
is below a kind is not seen from its form. -/
def Ty.formVerdict? : Ty → Ty → Option Bool
  | .intrinsic j, .intrinsic k => some (j.isSubkind k)
  | .intrinsic _, _ => some false
  | _, .intrinsic _ => none
  | _, _ => some false

/-- Whether `s` is below `t`, if that is seen without a step up. -/
def Ty.verdict? (s t : Ty) : Option Bool :=
  if s = t || (s.isError || t.isError || s.isNothing || t.isAny) then some true
  else s.formVerdict? t

section
variable (cx : Context) (F : Checker) (gs : List Finding)

/-- What a type widens to by the findings. -/
inductive Context.Climbs : Ty → Ty → Prop
  | literal (v : Literal) : Climbs (.literal v) (.intrinsic v.kind)
  | path {x : SymbolId} {t : Ty} (found : F.symbolTypes.find? x = some t)
    (listed : .goal (.typeOf x) ∈ gs) : Climbs (.path x) t
  | untyped {x : SymbolId} (untyped : ¬cx.Typable x) (none : F.symbolTypes.find? x = none) :
    Climbs (.path x) .error

/-- The findings tell, in `n` steps up, whether `s` is below another type. -/
inductive Context.Compared : Nat → Ty → Ty → Bool → Prop
  | seen {s t : Ty} {b : Bool} (verdict : s.verdict? t = some b) : Compared 0 s t b
  | stuck {s t : Ty} (open' : s.verdict? t = none) (stands : cx.Climbs F gs s s) :
    Compared 0 s t false
  | climb {n : Nat} {s t u : Ty} {b : Bool} (open' : s.verdict? t = none)
    (step : cx.Climbs F gs s u) (other : u ≠ s) (rest : Compared n u t b) : Compared (n + 1) s t b

mutual
/-- The findings tell the constant of a binding. -/
inductive Context.Rests : SymbolId → Prop
  | literal {x : SymbolId} {v : Literal} (found : F.symbolTypes.find? x = some (.literal v))
    (listed : .goal (.typeOf x) ∈ gs) : Rests x
  | path {x y : SymbolId} (found : F.symbolTypes.find? x = some (.path y))
    (listed : .goal (.typeOf x) ∈ gs) (next : Rests y) : Rests x
  | init {x : SymbolId} {k : Kind} {d : ValDecl Mark}
    (found : F.symbolTypes.find? x = some (.intrinsic k)) (listed : .goal (.typeOf x) ∈ gs)
    (decl : (cx.symbol x).decls.head? = some (.val d)) (init : RestsExpr d.init) : Rests x

/-- The findings tell the constant of an expression. -/
inductive Context.RestsExpr : Expr Mark → Prop
  | lit (l : Lit Mark) : RestsExpr (.lit l)
  | paren {m : Mark} {e : Expr Mark} (inner : RestsExpr e) : RestsExpr (.paren m e)
  | name {x : Ident Mark} {s : SymbolId} (target : cx.symbolAt? x.mark.id = some s)
    (inner : Rests s) : RestsExpr (.name x)
  | unary {m : Mark} {op : UnaryOp} {e : Expr Mark} (inner : RestsExpr e) :
    RestsExpr (.unary m op e)
  | bin {m : Mark} {op : BinOp} {a b : Expr Mark} (left : RestsExpr a) (right : RestsExpr b) :
    RestsExpr (.bin m op a b)
end

end

section
variable {cx : Context} {F : Checker} {gs hs : List Finding} {s t u : Ty} {b b' : Bool}
  {n m : Nat}

namespace Context

theorem Climbs.mono (step : cx.Climbs F gs s t) (wider : gs ⊆ hs) : cx.Climbs F hs s t := by
  cases step with
  | literal v => exact .literal v
  | path found listed => exact .path found (wider listed)
  | untyped untyped none => exact .untyped untyped none

theorem Climbs.unique (first : cx.Climbs F gs s t) (second : cx.Climbs F hs s u) : t = u := by
  cases first with
  | literal v =>
    cases second
    rfl
  | path found =>
    cases second with
    | path found' => exact Option.some.inj (found.symm.trans found')
    | untyped _ none => cases found.symm.trans none
  | untyped _ none =>
    cases second with
    | path found => cases found.symm.trans none
    | untyped => rfl

theorem Compared.mono (compared : cx.Compared F gs n s t b) (wider : gs ⊆ hs) :
    cx.Compared F hs n s t b := by
  induction compared with
  | seen verdict => exact .seen verdict
  | stuck open' stands => exact .stuck open' (stands.mono wider)
  | climb open' step other _ ih => exact .climb open' (step.mono wider) other ih

/-- There is one answer, and one way up to it. -/
theorem Compared.unique (first : cx.Compared F gs n s t b) (second : cx.Compared F hs m s t b') :
    n = m ∧ b = b' := by
  induction first generalizing m with
  | seen verdict =>
    cases second with
    | seen verdict' => exact ⟨rfl, Option.some.inj (verdict.symm.trans verdict')⟩
    | stuck open' => cases verdict.symm.trans open'
    | climb open' => cases verdict.symm.trans open'
  | stuck open' stands =>
    cases second with
    | seen verdict => cases verdict.symm.trans open'
    | stuck => exact ⟨rfl, rfl⟩
    | climb _ step other => exact absurd (step.unique stands) other
  | climb open' step other _ ih =>
    cases second with
    | seen verdict => cases verdict.symm.trans open'
    | stuck _ stands => exact absurd (step.unique stands) other
    | climb _ step' _ rest =>
      cases step.unique step'
      obtain ⟨rfl, rfl⟩ := ih rest
      exact ⟨rfl, rfl⟩

/-- No binding is passed twice on the way up. -/
theorem Compared.passed (typed : ∀ x u, F.symbolTypes.find? x = some u → cx.Typable x)
    (compared : cx.Compared F gs n s t b) :
    ∃ xs : List SymbolId, n ≤ xs.length + 1 ∧ xs.Nodup ∧
      ∀ x ∈ xs, x < cx.symbols.size ∧ ∃ m ≤ n, cx.Compared F gs m (.path x) t b := by
  induction compared with
  | seen | stuck => exact ⟨[], Nat.zero_le _, .nil, nofun⟩
  | @climb n s t u b open' step other rest ih =>
    obtain ⟨xs, few, distinct, below⟩ := ih
    cases step with
    | literal v =>
      -- A kind leads no further.
      cases rest with
      | seen => exact ⟨[], Nat.le_refl 1, .nil, nofun⟩
      | stuck _ stands => cases stands
      | climb _ step => cases step
    | untyped _ _ =>
      cases rest with
      | seen => exact ⟨[], Nat.le_refl 1, .nil, nofun⟩
      | stuck _ stands => cases stands
      | climb _ step => cases step
    | @path x _ found listed =>
      refine ⟨x :: xs, Nat.succ_le_succ few, List.nodup_cons.mpr ⟨fun member => ?_, distinct⟩, ?_⟩
      · obtain ⟨_, m, low, again⟩ := below x member
        have whole : cx.Compared F gs (n + 1) (.path x) t b :=
          .climb open' (.path found listed) other rest
        have same := (whole.unique again).1
        omega
      · rintro y member
        rcases List.mem_cons.mp member with rfl | later
        · exact ⟨typable_lt (typed y u found), n + 1, Nat.le_refl _,
            .climb open' (.path found listed) other rest⟩
        · obtain ⟨small, m, low, again⟩ := below y later
          exact ⟨small, m, Nat.le_succ_of_le low, again⟩

theorem Compared.few (typed : ∀ x u, F.symbolTypes.find? x = some u → cx.Typable x)
    (compared : cx.Compared F gs n s t b) : n ≤ cx.symbols.size + 1 := by
  obtain ⟨xs, few, distinct, below⟩ := compared.passed typed
  have inside : xs ⊆ List.range cx.symbols.size :=
    fun x member => List.mem_range.mpr (below x member).1
  have fits := distinct.length_le_of_subset inside
  rw [List.length_range] at fits
  omega

mutual
theorem Rests.mono {x : SymbolId} (wider : gs ⊆ hs) : cx.Rests F gs x → cx.Rests F hs x
  | .literal found listed => .literal found (wider listed)
  | .path found listed next => .path found (wider listed) (next.mono wider)
  | .init found listed decl init => .init found (wider listed) decl (init.mono wider)

theorem RestsExpr.mono {e : Expr Mark} (wider : gs ⊆ hs) :
    cx.RestsExpr F gs e → cx.RestsExpr F hs e
  | .lit l => .lit l
  | .paren inner => .paren (inner.mono wider)
  | .name target inner => .name target (inner.mono wider)
  | .unary inner => .unary (inner.mono wider)
  | .bin left right => .bin (left.mono wider) (right.mono wider)
end

theorem Rests.listed {x : SymbolId} (rests : cx.Rests F gs x) : .goal (.typeOf x) ∈ gs := by
  cases rests <;> assumption

end Context

end

/-! ### Laws of actions -/

/-- All properties hold of an action that hold of demands, of steps without demands and of what is
endless. -/
def Lawful (cx : Context) {α : Type} (act : Oracle → Check α) : Prop :=
  ∀ C : {α : Type} → (Oracle → Check α) → Prop, Compositional cx C →
    (∀ {α : Type}, C fun _ => (throw .endless : Check α)) → C act

/-- An action that takes no report back. -/
def Check.Loud {α : Type} (a : Check α) : Prop :=
  ∀ c x c', a c = .ok (x, c') → ∀ d ∈ c.diagnostics, d ∈ c'.diagnostics

def Check.noting (i : NodeId) (t : Ty) : Check Ty := do
  modify fun c => Checker.note c i t
  return t

theorem Check.noting_loud (i : NodeId) (t : Ty) : (Check.noting i t).Loud := by
  intro c u c' run
  cases run
  exact fun _ => id

/-- An oracle that takes no report back. -/
def Loud (o : Oracle) : Prop := ∀ q, (o q).Loud

section
variable {cx : Context} {o : Oracle} {α β : Type} {act : Oracle → Check α}

theorem Loud.compositional (loud : Loud o) :
    Compositional cx fun {α} (act : Oracle → Check α) => (act o).Loud where
  still still := still.reports
  bind first rest c y c' run d member := by
    obtain ⟨x, c₁, run₁, run₂⟩ := Check.bind_ok run
    exact rest x c₁ y c' run₂ d (first c x c₁ run₁ d member)
  ask q _ := loud q

namespace Lawful

theorem candid (lawful : Lawful cx act) (o : Oracle) : Candid o act :=
  lawful (Candid o) (Candid.compositional cx o) fun _ _ _ asks => asks.not_still.elim

theorem loud (lawful : Lawful cx act) (loud : Loud o) : (act o).Loud :=
  lawful _ loud.compositional fun _ _ _ => nofun

theorem still {a : Check α} (still : Still cx a) : Lawful cx fun _ => a :=
  fun _ comp _ => comp.still still

theorem pure (x : α) : Lawful cx fun _ => Pure.pure x := still (.pure x)

theorem bind {f : α → Oracle → Check β} (first : Lawful cx act) (rest : ∀ x, Lawful cx (f x)) :
    Lawful cx fun o => act o >>= fun x => f x o :=
  fun C comp endless => comp.bind (first C comp endless) fun x => rest x C comp endless

theorem endless : Lawful cx fun _ => (throw .endless : Check α) := fun _ _ endless => endless

theorem thorough (cx : Context) : Thorough cx (Lawful cx) :=
  have comp : Compositional cx (Lawful cx) :=
    ⟨still, bind, fun q posed _ comp _ => comp.ask q posed⟩
  { comp with
    isSubtype := comp.isSubtype endless
    lub := comp.lub endless }

end Lawful

end

/-! ### States and oracles -/

section
variable (cx : Context)

/-- `x.type` is written among some nodes. -/
def Context.Writes (N : List (Node Mark)) (x : SymbolId) : Prop :=
  ∃ m i, .ty (.singleton m (.name i)) ∈ N ∧ cx.symbolAt? i.mark.id = some x

/-- It is reported of a singleton `x.type` in the program that the binding `x` needs itself. -/
def Context.Tripped (x : SymbolId) (c : Checker) : Prop :=
  ∃ m i, .ty (.singleton m (.name i)) ∈ cx.program.nodes ∧ cx.symbolAt? i.mark.id = some x ∧
    ⟨m.span, .circularInitializer (cx.nameOf x)⟩ ∈ c.diagnostics

variable (F : Checker)

/-- A state with answers and reports of `F` only. The entries `D` are those of expressions under
way, of which `W` are still to be written. -/
structure Context.Concurs (D W : List Entry) (c : Checker) : Prop where
  symbolTypes : c.symbolTypes.Within F.symbolTypes
  aliasTargets : c.aliasTargets.Within F.aliasTargets
  nodeTypes : c.nodeTypes.Within F.nodeTypes
  signatures : c.signatures.Within F.signatures
  told : ∀ d ∈ c.diagnostics, d ∈ F.diagnostics
  compared : ∀ s t b, c.subtypes.find? (s, t) = some b → ∃ gs n, cx.Compared F gs n s t b
  distinct : W.Nodup
  awaited : ∀ w ∈ W, c.has w = false
  owned : W ⊆ D
  placed : ∀ w ∈ D, ∃ L e, cx.At L (.expr e) ∧ w ∈ e.entries
  written : ∀ L e, cx.At L (.expr e) → ∀ w ∈ e.entries, c.has w = true →
    c.noted e.id = true ∨ w ∈ D

/-- Nothing is under way that the findings `gs` are needed for or that is one of them or of
`new`. -/
structure Context.Unreached (gs new : List Finding) (D : List Entry) (c : Checker) : Prop where
  goals : ∀ p ∈ c.pursuits, .goal p.goal ∉ gs ++ new
  under : ∀ w ∈ D, ∀ n, .node n ∈ gs ++ new → w ∉ n.entries
  evaluating : ∀ x ∈ c.evaluating, ¬cx.Rests F gs x

/-- An outcome with the answer `x` in a state that concurs. -/
def Context.Arrives (D W : List Entry) (c : Checker) {α : Type}
    (outcome : Except Fault (α × Checker)) (x : α) : Prop :=
  ∃ c', outcome = .ok (x, c') ∧ cx.Concurs F D W c' ∧ c'.pursuits = c.pursuits ∧
    c'.evaluating = c.evaluating

/-- An oracle meets the demands for findings, or gets into the trouble `T` with a binding. -/
structure Context.Supplies (gs : List Finding) (o : Oracle)
    (T : SymbolId → Demand → Checker → Prop) : Prop where
  loud : Loud o
  trips : ∀ x q c, T x q c → ∀ a c', o q c = .ok (a, c') → cx.Tripped x c'
  untyped : ∀ x, ¬cx.Typable x → ∀ c, c.symbolTypes.find? x = none →
    o (.typeOf x) c = .ok (.error, c)
  meets : ∀ ks g, ks ++ [.goal g] <+: gs → ∀ q, cx.Poses q → q.goal = g → ∀ a, q.Kept F a →
    ∀ D W c, cx.Concurs F D W c → cx.Unreached F ks [.goal g] D c →
      cx.Arrives F D W c (o q c) a ∨ ∃ x, T x q c

end

/-- An action comes to a singleton `x.type` while the type of `x` is looked for, by itself or in a
demand that gets into trouble. That is reported if it ends. -/
structure Context.Detours (cx : Context) (o : Oracle) (T : SymbolId → Demand → Checker → Prop)
    (new : List Finding) (N : List (Node Mark)) {α : Type} (act : Oracle → Check α) (c : Checker)
    (x : SymbolId) : Prop where
  cause : (cx.Writes N x ∧ (.typeOf x ∈ c.pursuits.map (·.goal) ∨ .goal (.typeOf x) ∈ new)) ∨
    ∃ q s, Heeds act o c q s ∧ T x q s
  effect : ∀ y c', act o c = .ok (y, c') → cx.Tripped x c'

section
variable (cx : Context) (F : Checker)

/-- From a state, an action gives the answer `x` or makes a detour. -/
def Context.Retraces (o : Oracle) (T : SymbolId → Demand → Checker → Prop) (new : List Finding)
    (N : List (Node Mark)) (D W : List Entry) {α : Type} (act : Oracle → Check α) (c : Checker)
    (x : α) : Prop :=
  cx.Arrives F D W c (act o c) x ∨ ∃ y, cx.Detours o T new N act c y

/-- Wherever the findings `gs` are supplied and none of them and of `new` is under way, an action
gives the answer `x` and writes the entries `X`, unless it makes a detour. It looks at the type
nodes in `N`. -/
def Context.Replays (gs new : List Finding) (N : List (Node Mark)) (X : List Entry) {α : Type}
    (act : Oracle → Check α) (x : α) : Prop :=
  ∀ o T, cx.Supplies F gs o T → ∀ D W c, cx.Concurs F D (X ++ W) c → cx.Unreached F gs new D c →
    cx.Retraces F o T new N D W act c x

end

section
variable {cx : Context} {F c c₁ : Checker} {e : Expr Mark} {D E V W X Y : List Entry}
  {gs hs new : List Finding} {N M : List (Node Mark)} {o : Oracle}
  {T : SymbolId → Demand → Checker → Prop} {α β : Type}
  {act : Oracle → Check α} {f : α → Oracle → Check β} {x : α} {y : β}

namespace Context

theorem Tripped.mono {s : SymbolId} (tripped : cx.Tripped s c)
    (loud : ∀ d ∈ c.diagnostics, d ∈ c₁.diagnostics) : cx.Tripped s c₁ := by
  obtain ⟨m, i, node, target, reported⟩ := tripped
  exact ⟨m, i, node, target, loud _ reported⟩

theorem Writes.mono {x : SymbolId} (written : cx.Writes N x) (wider : N ⊆ M) : cx.Writes M x := by
  obtain ⟨m, i, node, target⟩ := written
  exact ⟨m, i, wider node, target⟩

/-- A prefix of the findings is reached by less. -/
theorem Unreached.mono {ks js : List Finding} (unreached : cx.Unreached F gs new D c)
    (wider : ks ++ js ⊆ gs ++ new) (needed : ks ⊆ gs) : cx.Unreached F ks js D c where
  goals p member inside := unreached.goals p member (wider inside)
  under w member n inside := unreached.under w member n (wider inside)
  evaluating x member rests := unreached.evaluating x member (rests.mono needed)

theorem Unreached.moved (unreached : cx.Unreached F gs new D c) (goals : c₁.pursuits = c.pursuits)
    (evaluating : c₁.evaluating = c.evaluating) : cx.Unreached F gs new D c₁ where
  goals := goals ▸ unreached.goals
  under := unreached.under
  evaluating := evaluating ▸ unreached.evaluating

theorem Supplies.mono (supplies : cx.Supplies F gs o T) (shorter : hs <+: gs) :
    cx.Supplies F hs o T :=
  { supplies with
    meets := fun ks g inside => supplies.meets ks g (inside.trans shorter) }

/-- Steps to another state, and steps from there on. -/
theorem Detours.around {s : SymbolId} {new' : List Finding} {whole : Oracle → Check β}
    {finish : α × Checker → Except Fault (β × Checker)} (detours : cx.Detours o T new N act c₁ s)
    (same : ∀ o', whole o' c = (act o' c₁).bind finish)
    (loud : ∀ z, Check.Loud fun c => finish (z, c))
    (goals : ∀ g, g ∈ c₁.pursuits.map (·.goal) ∨ .goal g ∈ new →
      g ∈ c.pursuits.map (·.goal) ∨ .goal g ∈ new') : cx.Detours o T new' N whole c s where
  cause := by
    rcases detours.cause with ⟨written, pursued⟩ | ⟨q, s, heeds, trouble⟩
    · exact .inl ⟨written, goals _ pursued⟩
    · exact .inr ⟨q, s, heeds.around same, trouble⟩
  effect y c' run := by
    rw [same] at run
    cases found : act o c₁ with
    | error e =>
      rw [found] at run
      cases run
    | ok r =>
      rw [found] at run
      exact (detours.effect r.1 r.2 found).mono (loud r.1 r.2 y c' run)

/-- A demand for a finding where nothing is under way that the findings before it need. -/
theorem Supplies.demand {ks : List Finding} {q : Demand} {a : q.Answer}
    (supplies : cx.Supplies F gs o T) (before : ks ++ [.goal q.goal] <+: gs) (posed : cx.Poses q)
    (kept : q.Kept F a) (concurs : cx.Concurs F D W c)
    (unreached : cx.Unreached F ks [.goal q.goal] D c) :
    cx.Retraces F o T new N D W (fun o => o q) c a := by
  rcases supplies.meets ks q.goal before q posed rfl a kept D W c concurs unreached with
    arrives | ⟨x, trouble⟩
  · exact .inl arrives
  · exact .inr ⟨x, .inr ⟨q, c, .self o q c, trouble⟩, supplies.trips x q c trouble⟩

/-! ### Actions in turn -/

namespace Retraces

theorem pure (concurs : cx.Concurs F D W c) :
    cx.Retraces F o T new N D W (fun _ => Pure.pure x) c x :=
  .inl ⟨c, rfl, concurs, rfl, rfl⟩

theorem congr {act' : Oracle → Check α} (retraces : cx.Retraces F o T new N D W act c x)
    (same : ∀ o', act' o' c = act o' c) : cx.Retraces F o T new N D W act' c x := by
  rcases retraces with arrives | ⟨s, detours⟩
  · exact .inl (by rwa [same])
  · refine .inr ⟨s, detours.cause.imp_right ?_, fun y c' run => detours.effect y c' (same o ▸ run)⟩
    rintro ⟨q, s, heeds, trouble⟩
    exact ⟨q, s, heeds.congr same, trouble⟩

theorem bind (candid : Candid o act) (loud : ∀ x, (f x o).Loud)
    (first : cx.Retraces F o T new N E V act c x)
    (rest : ∀ c₁, cx.Concurs F E V c₁ → c₁.pursuits = c.pursuits → c₁.evaluating = c.evaluating →
      cx.Retraces F o T new N D W (f x) c₁ y) :
    cx.Retraces F o T new N D W (fun o => act o >>= fun x => f x o) c y := by
  rcases first with ⟨c₁, run, concurs, goals, evaluating⟩ | ⟨s, detours⟩
  · have both : (act o >>= fun x => f x o) c = f x o c₁ := by
      rw [Check.bind_apply, run]
      rfl
    rcases rest c₁ concurs goals evaluating with
      ⟨c', run', concurs', goals', evaluating'⟩ | ⟨s, detours⟩
    · exact .inl ⟨c', both.trans run', concurs', goals'.trans goals, evaluating'.trans evaluating⟩
    · refine .inr ⟨s, ?_, fun z c' run' => detours.effect z c' (both.symm.trans run')⟩
      rcases detours.cause with ⟨written, pursued⟩ | ⟨q, s, heeds, trouble⟩
      · exact .inl ⟨written, goals ▸ pursued⟩
      · exact .inr ⟨q, s, heeds.next candid run, trouble⟩
  · refine .inr ⟨s, detours.cause.imp_right ?_, fun z c' run => ?_⟩
    · rintro ⟨q, s, heeds, trouble⟩
      exact ⟨q, s, heeds.first, trouble⟩
    · obtain ⟨x', c₁, run₁, run₂⟩ := Check.bind_ok run
      exact (detours.effect x' c₁ run₁).mono (loud x' c₁ z c' run₂)

/-- More nodes may be looked at, and more goals be in progress. -/
theorem mono {new' : List Finding} (retraces : cx.Retraces F o T new N D W act c x) (wider : N ⊆ M)
    (more : new ⊆ new') : cx.Retraces F o T new' M D W act c x := by
  refine retraces.imp_right fun ⟨s, detours⟩ => ⟨s, detours.cause.imp_left ?_, detours.effect⟩
  rintro ⟨written, pursued⟩
  exact ⟨written.mono wider, pursued.imp_right fun inside => more inside⟩

/-- The type of a node is found once, and is that of the tables. -/
theorem once {i : NodeId} {find : Oracle → Check Ty} {t : Ty} (candid : Candid o find)
    (kept : F.nodeTypes.find? i = some t) (concurs : cx.Concurs F D W c)
    (finds : c.nodeTypes.find? i = none → cx.Retraces F o T [] N E V find c t)
    (ends : ∀ c₁, cx.Concurs F E V c₁ → cx.Concurs F D W (c₁.note i t)) :
    cx.Retraces F o T new N D W (fun o => Check.once i (find o)) c t := by
  cases found : c.nodeTypes.find? i with
  | some u =>
    cases (concurs.nodeTypes _ _ found).symm.trans kept
    refine (pure concurs).congr fun o' => ?_
    rw [Check.once, Check.get_bind, found]
  | none =>
    have first := (finds found).mono (List.Subset.refl N) (List.nil_subset new)
    refine (bind (f := fun t _ => Check.noting i t) candid (Check.noting_loud i) first
      fun c₁ concurs₁ _ _ => ?_).congr fun o' => ?_
    · exact .inl ⟨_, rfl, ends c₁ concurs₁, rfl, rfl⟩
    · rw [Check.once, Check.get_bind, found]
      rfl

end Retraces

namespace Replays

theorem pure (x : α) : cx.Replays F gs new N [] (fun _ => Pure.pure x) x :=
  fun _ _ _ _ _ _ concurs _ => .pure concurs

theorem bind (lawful : Lawful cx act) (lawful' : ∀ x, Lawful cx (f x))
    (first : cx.Replays F gs new N X act x) (rest : cx.Replays F gs new N Y (f x) y) :
    cx.Replays F gs new N (X ++ Y) (fun o => act o >>= fun x => f x o) y := by
  intro o T supplies D W c concurs unreached
  rw [List.append_assoc] at concurs
  refine (first o T supplies D (Y ++ W) c concurs unreached).bind (lawful.candid o)
    (fun x => (lawful' x).loud supplies.loud) fun c₁ concurs₁ goals evaluating => ?_
  exact rest o T supplies D W c₁ concurs₁ (unreached.moved goals evaluating)

/-- What is replayed stays so when more is found and looked at. -/
theorem mono {ks js : List Finding} (replays : cx.Replays F ks js N X act x)
    (shorter : ks ++ js <+: gs) (plain : ∀ g, .goal g ∉ js) (wider : N ⊆ M) :
    cx.Replays F gs new M X act x := by
  intro o T supplies D W c concurs unreached
  have before : ks <+: gs := (List.prefix_append ks js).trans shorter
  have reached : cx.Unreached F ks js D c :=
    unreached.mono (List.Subset.trans shorter.subset (List.subset_append_left _ _)) before.subset
  have retraces := replays o T (supplies.mono before) D W c concurs reached
  rcases retraces.mono wider (List.Subset.refl js) with arrives | ⟨s, detours⟩
  · exact .inl arrives
  · refine .inr ⟨s, detours.cause.imp_left ?_, detours.effect⟩
    rintro ⟨written, pursued | wrong⟩
    · exact ⟨written, .inl pursued⟩
    · exact absurd wrong (plain _)

end Replays

end Context

/-! ### The tables as an oracle -/

/-- An entry that has to be there. -/
def Check.entry {α : Type} : Option α → Check α
  | some x => pure x
  | none => throw .endless

/-- Meets demands from the tables. -/
def Checker.recall (F : Checker) : Oracle
  | .typeOf x => pure (f := Check) ((F.symbolTypes.find? x).getD Ty.error)
  | .aliasTarget x _ => Check.entry (F.aliasTargets.find? x)
  | .signature d => Check.entry (F.signatures.find? d.mark.id)

theorem Check.entry_ok {entry : Option α} (run : Check.entry entry c = .ok (x, c₁)) :
    entry = some x ∧ c₁ = c := by
  cases entry <;> cases run
  exact ⟨rfl, rfl⟩

theorem Checker.recall_still {q : Demand} {a : q.Answer} (run : F.recall q c = .ok (a, c₁)) :
    c₁ = c := by
  cases q with
  | typeOf x =>
    cases run
    rfl
  | _ => exact (Check.entry_ok run).2

namespace Context

theorem Supplies.recall (typed : ∀ x u, F.symbolTypes.find? x = some u → cx.Typable x) :
    cx.Supplies F gs F.recall fun _ _ _ => False where
  loud q c a c' run d member := Checker.recall_still run ▸ member
  trips _ _ _ := False.elim
  untyped x untyped c _ := by
    cases found : F.symbolTypes.find? x with
    | some u => exact absurd (typed x u found) untyped
    | none =>
      rw [Checker.recall, found]
      rfl
  meets ks g _ q _ _ a kept D W c concurs _ := by
    refine .inl ⟨c, ?_, concurs, rfl, rfl⟩
    cases q with
    | _ =>
      rw [Demand.Kept] at kept
      rw [Checker.recall, kept]
      rfl

theorem Concurs.start (names : Roster String) : cx.Concurs F [] [] (.start names) where
  symbolTypes := nofun
  aliasTargets := nofun
  nodeTypes := nofun
  signatures := nofun
  told _ member := absurd member (Array.not_mem_empty _)
  compared := nofun
  distinct := .nil
  awaited := nofun
  owned := nofun
  placed := nofun
  written _ _ _ w _ present := by cases w <;> cases present

theorem Unreached.start (names : Roster String) : cx.Unreached F gs new [] (.start names) :=
  ⟨nofun, nofun, nofun⟩

/-- The tables supply the findings without a detour. -/
theorem Replays.recalled (typed : ∀ x u, F.symbolTypes.find? x = some u → cx.Typable x)
    (replays : cx.Replays F gs [] N [] act x) (concurs : cx.Concurs F [] [] c)
    (pursuits : c.pursuits = []) (evaluating : c.evaluating = []) :
    ∃ c', act F.recall c = .ok (x, c') ∧ cx.Concurs F [] [] c' := by
  have unreached : cx.Unreached F gs [] [] c :=
    ⟨by rw [pursuits]; nofun, nofun, by rw [evaluating]; nofun⟩
  rcases replays _ _ (.recall typed) [] [] c concurs unreached with
    ⟨c', run, concurs', _⟩ | ⟨_, ⟨_, pursued | wrong⟩ | ⟨_, _, _, impossible⟩, _⟩
  · exact ⟨c', run, concurs'⟩
  · rw [pursuits] at pursued
    cases pursued
  · cases wrong
  · exact impossible.elim

theorem Replays.unique (typed : ∀ x u, F.symbolTypes.find? x = some u → cx.Typable x) {y : α}
    (first : cx.Replays F gs [] N [] act x) (second : cx.Replays F hs [] M [] act y) : x = y := by
  obtain ⟨_, run, _⟩ := first.recalled typed (.start cx.names) rfl rfl
  obtain ⟨_, run', _⟩ := second.recalled typed (.start cx.names) rfl rfl
  cases run.symm.trans run'
  rfl

/-! ### Steps that concur -/

/-- A step that writes no entry but awaited ones, and answers of `F` only. -/
theorem Concurs.step (concurs : cx.Concurs F D V c)
    (symbolTypes : c₁.symbolTypes.Within F.symbolTypes)
    (aliasTargets : c₁.aliasTargets.Within F.aliasTargets)
    (nodeTypes : c₁.nodeTypes.Within F.nodeTypes) (signatures : c₁.signatures.Within F.signatures)
    (silent : c₁.diagnostics = c.diagnostics)
    (compared : ∀ s t b, c₁.subtypes.find? (s, t) = some b → ∃ gs n, cx.Compared F gs n s t b)
    (rest : W.Sublist V) (noted : ∀ i, c.noted i = true → c₁.noted i = true)
    (free : ∀ w ∈ W, c₁.has w = c.has w)
    (written : ∀ L e, cx.At L (.expr e) → ∀ w ∈ e.entries, c₁.has w = true →
      c.has w = true ∨ w ∈ D) : cx.Concurs F D W c₁ where
  symbolTypes := symbolTypes
  aliasTargets := aliasTargets
  nodeTypes := nodeTypes
  signatures := signatures
  told := silent ▸ concurs.told
  compared := compared
  distinct := concurs.distinct.sublist rest
  awaited w member := (free w member).trans (concurs.awaited w (rest.subset member))
  owned := List.Subset.trans rest.subset concurs.owned
  placed := concurs.placed
  written L e place w entry present := by
    rcases written L e place w entry present with before | own
    · exact (concurs.written L e place w entry before).imp_left (noted e.id)
    · exact .inr own

theorem Concurs.drop (concurs : cx.Concurs F D V c) (rest : W.Sublist V) : cx.Concurs F D W c :=
  { concurs with
    distinct := concurs.distinct.sublist rest
    awaited := fun w member => concurs.awaited w (rest.subset member)
    owned := List.Subset.trans rest.subset concurs.owned }

theorem Replays.spare (replays : cx.Replays F gs new N X act x) (rest : X.Sublist Y) :
    cx.Replays F gs new N Y act x :=
  fun o T supplies D W c concurs =>
    replays o T supplies D W c (concurs.drop (rest.append (.refl W)))

/-- Rosters, goals in progress and constants in progress are no answers. -/
theorem Concurs.alike (concurs : cx.Concurs F D W c) (names : Roster String)
    (interns : InternCache) (pursuits : List Pursuit) (evaluating : List SymbolId) :
    cx.Concurs F D W { c with names, interns, pursuits, evaluating } :=
  concurs.step concurs.symbolTypes concurs.aliasTargets concurs.nodeTypes concurs.signatures rfl
    concurs.compared (.refl W) (fun _ => id) (fun w _ => by cases w <;> rfl)
    fun _ _ _ w _ present => .inl (by cases w <;> exact present)

/-- A report of the tables is none of the answers. -/
theorem Concurs.reported (concurs : cx.Concurs F D W c) {d : Diagnostic}
    (known : d ∈ F.diagnostics) :
    cx.Concurs F D W { c with diagnostics := c.diagnostics.push d } :=
  { concurs.alike c.names c.interns c.pursuits c.evaluating with
    told := fun d' member => (Array.mem_push.mp member).elim (concurs.told d') (· ▸ known)
    awaited := fun w member => (by cases w <;> exact concurs.awaited _ member)
    written := fun L e place w entry present =>
      concurs.written L e place w entry (by cases w <;> exact present) }

theorem Concurs.keep (concurs : cx.Concurs F D W c) {s t : Ty} {b : Bool} {n : Nat}
    (compared : cx.Compared F gs n s t b) :
    cx.Concurs F D W { c with subtypes := c.subtypes.insert (s, t) b } := by
  refine concurs.step concurs.symbolTypes concurs.aliasTargets concurs.nodeTypes concurs.signatures
    rfl (fun s' t' b' found => ?_) (.refl W) (fun _ => id) (fun w _ => by cases w <;> rfl)
    fun _ _ _ w _ present => .inl (by cases w <;> exact present)
  rw [Table.find?_insert] at found
  split at found
  · next same =>
    cases same
    cases found
    exact ⟨gs, n, compared⟩
  · exact concurs.compared s' t' b' found

/-- The type of a node that is no pattern is no entry. -/
theorem pattern_free (ground : cx.Grounded) {n : Node Mark} (node : n ∈ cx.program.nodes)
    (other : ∀ q, n ≠ .pat q) {L : List (Node Mark)} {e : Expr Mark} (place : cx.At L (.expr e)) :
    .pattern n.mark.id ∉ e.entries := by
  intro entry
  obtain ⟨q, same, place'⟩ := place.pattern_entry entry
  exact other q (ground.node_unique node place'.node same.symm)

/-- A node that is no pattern gets its type. -/
theorem Concurs.note (concurs : cx.Concurs F D W c) (ground : cx.Grounded) {n : Node Mark} {t : Ty}
    (node : n ∈ cx.program.nodes) (other : ∀ q, n ≠ .pat q)
    (kept : F.nodeTypes.find? n.mark.id = some t) : cx.Concurs F D W (c.note n.mark.id t) := by
  have free : ∀ {L e w}, cx.At L (.expr e) → w ∈ e.entries →
      (c.note n.mark.id t).has w = c.has w := by
    intro L e w place entry
    refine Checker.has_note ?_
    rintro rfl
    exact pattern_free ground node other place entry
  refine concurs.step concurs.symbolTypes concurs.aliasTargets (fun i u found => ?_)
    concurs.signatures rfl concurs.compared (.refl W) (fun _ => Checker.noted_note)
    (fun w member => ?_) fun L e place w entry present => .inl (free place entry ▸ present)
  · by_cases same : i = n.mark.id
    · subst same
      rcases Table.find?_insertNew_cases found with before | rfl
      · exact concurs.nodeTypes _ _ before
      · exact kept
    · exact concurs.nodeTypes i u (Table.find?_insertNew_other same ▸ found)
  · obtain ⟨L, e, place, entry⟩ := concurs.placed w (concurs.owned member)
    exact free place entry

theorem Node.exists_expr {n : Node Mark} {w : Entry} (entry : w ∈ n.entries) :
    ∃ e, n = .expr e ∧ w ∈ e.entries := by
  cases n with
  | expr e => exact ⟨e, rfl, entry⟩
  | _ => cases entry

theorem owner_unique (ground : cx.Grounded) {n k : Node Mark} {L K : List (Node Mark)}
    (first : cx.At L n) (second : cx.At K k) {w : Entry} (entry : w ∈ n.entries)
    (entry' : w ∈ k.entries) : n = k := by
  obtain ⟨e, rfl, entry⟩ := Node.exists_expr entry
  obtain ⟨f, rfl, entry'⟩ := Node.exists_expr entry'
  rw [ground.entry_unique first second entry entry']

theorem Concurs.enter (concurs : cx.Concurs F D W c) (ground : cx.Grounded) {n : Node Mark}
    {L : List (Node Mark)} (place : cx.At L n) (new : ∀ w ∈ D, w ∉ n.entries)
    (unnoted : c.noted n.mark.id = false) : cx.Concurs F (n.entries ++ D) (n.entries ++ W) c :=
  { concurs with
    distinct := List.nodup_append.mpr ⟨by
        cases n with
        | expr e => exact ground.entries_nodup place
        | _ => exact .nil, concurs.distinct,
      fun w own w' outer same => new w' (concurs.owned outer) (same ▸ own)⟩
    awaited := by
      intro w member
      rcases List.mem_append.mp member with own | outer
      · obtain ⟨e, rfl, entry⟩ := Node.exists_expr own
        by_contra present
        rcases concurs.written L e place w entry (Bool.of_not_eq_false present) with noted | under
        · cases noted.symm.trans unnoted
        · exact new w under own
      · exact concurs.awaited w outer
    owned := List.append_subset.mpr ⟨List.subset_append_left _ _,
      List.Subset.trans concurs.owned (List.subset_append_right _ _)⟩
    placed := by
      intro w member
      rcases List.mem_append.mp member with own | outer
      · obtain ⟨e, rfl, entry⟩ := Node.exists_expr own
        exact ⟨L, e, place, entry⟩
      · exact concurs.placed w outer
    written := fun K f place' w entry present =>
      (concurs.written K f place' w entry present).imp_right (List.mem_append_right _) }

/-- It is ended, and the node has its type. -/
theorem Concurs.leave {n : Node Mark} (concurs : cx.Concurs F (n.entries ++ D) W c)
    (ground : cx.Grounded) {L : List (Node Mark)} (place : cx.At L n) (typed : n.isTyped = true)
    (outer : W ⊆ D) {t : Ty} (kept : F.nodeTypes.find? n.mark.id = some t) :
    cx.Concurs F D W (c.note n.mark.id t) := by
  have noted := concurs.note ground place.node (by rintro q rfl; cases typed) kept
  refine { noted with
    owned := outer
    placed := fun w member => noted.placed w (List.mem_append_right _ member)
    written := fun K f place' w entry present => ?_ }
  rcases noted.written K f place' w entry present with noted | under
  · exact .inl noted
  rcases List.mem_append.mp under with own | under
  · cases owner_unique ground place place' own entry
    exact .inl Checker.noted_note_self
  · exact .inr under

theorem Concurs.write {w : Entry} (concurs : cx.Concurs F D (w :: W) c)
    (symbolTypes : c₁.symbolTypes = c.symbolTypes) (aliasTargets : c₁.aliasTargets = c.aliasTargets)
    (nodeTypes : c₁.nodeTypes.Within F.nodeTypes) (signatures : c₁.signatures.Within F.signatures)
    (silent : c₁.diagnostics = c.diagnostics) (subtypes : c₁.subtypes = c.subtypes)
    (noted : ∀ i, c.noted i = true → c₁.noted i = true) (others : ∀ v, v ≠ w → c₁.has v = c.has v) :
    cx.Concurs F D W c₁ := by
  obtain ⟨single, _⟩ := List.nodup_cons.mp concurs.distinct
  refine concurs.step (symbolTypes ▸ concurs.symbolTypes) (aliasTargets ▸ concurs.aliasTargets)
    nodeTypes signatures silent (subtypes ▸ concurs.compared) (List.sublist_cons_self w W) noted
    (fun v member => ?_) fun L e _ v _ present => ?_
  · refine others v ?_
    rintro rfl
    exact single member
  · by_cases same : v = w
    · exact .inr (same ▸ concurs.owned List.mem_cons_self)
    · exact .inl (others v same ▸ present)

/-! ### Single steps again -/

end Context

/-- An action that only enters names, literals and types. -/
def Check.Enters {α : Type} (a : Check α) (x : α) : Prop :=
  ∀ c : Checker, ∃ names interns, a c = .ok (x, { c with names, interns })

theorem Check.enterText_enters (v : Literal) : Check.Enters (Check.enterText v) () := by
  cases v <;> exact fun _ => ⟨_, _, rfl⟩

theorem Check.enterType_enters (t : Ty) : Check.Enters (Check.enterType t) t := by
  cases t <;> exact fun _ => ⟨_, _, rfl⟩

namespace Context

theorem Retraces.enters {a : Check α} (enters : Check.Enters a x) (concurs : cx.Concurs F D W c) :
    cx.Retraces F o T new N D W (fun _ => a) c x := by
  obtain ⟨names, interns, run⟩ := enters c
  exact .inl ⟨_, run, concurs.alike names interns c.pursuits c.evaluating, rfl, rfl⟩

namespace Replays

theorem enters {a : Check α} (enters : Check.Enters a x) :
    cx.Replays F gs new N [] (fun _ => a) x :=
  fun _ _ _ _ _ _ concurs _ => .enters enters concurs

theorem ask {q : Demand} {a : q.Answer} (posed : cx.Poses q) (listed : .goal q.goal ∈ gs)
    (kept : q.Kept F a) : cx.Replays F gs [] N [] (fun o => o q) a := by
  intro o T supplies D W c concurs unreached
  obtain ⟨ks, rest, rfl⟩ := List.append_of_mem listed
  have before : ks ++ [Finding.goal q.goal] <+: ks ++ .goal q.goal :: rest := ⟨rest, by simp⟩
  exact supplies.demand before posed kept concurs
    (unreached.mono (List.Subset.trans before.subset (List.subset_append_left _ _))
      (List.subset_append_left _ _))

theorem untyped {x : SymbolId} (untyped : ¬cx.Typable x) (none : F.symbolTypes.find? x = none) :
    cx.Replays F gs [] N [] (fun o => o (.typeOf x)) Ty.error := by
  intro o T supplies D W c concurs _
  refine .inl ⟨c, supplies.untyped x untyped c ?_, concurs, rfl, rfl⟩
  by_contra some
  obtain ⟨u, found⟩ := Option.ne_none_iff_exists'.mp some
  cases (concurs.symbolTypes x u found).symm.trans none

/-- The type of a node is found once. It is not under way, so its entries are not written. -/
theorem once (ground : cx.Grounded) {n : Node Mark} {L : List (Node Mark)} (place : cx.At L n)
    (typed : n.isTyped = true) {find : Oracle → Check Ty} {t : Ty}
    (kept : F.nodeTypes.find? n.mark.id = some t)
    (placed : ∀ k, .node k ∈ gs → ∃ K, cx.At K k) (new : .node n ∉ gs)
    (lawful : Lawful cx find) (finds : cx.Replays F gs [] N n.entries find t) :
    cx.Replays F gs [.node n] N [] (fun o => Check.once n.mark.id (find o)) t := by
  intro o T supplies D W c concurs unreached
  have apart : ∀ w ∈ D, w ∉ n.entries := fun w under => unreached.under w under n (by simp)
  refine .once (E := n.entries ++ D) (V := W) (lawful.candid o) kept concurs
    (fun unnoted => ?_) fun c₁ concurs₁ => concurs₁.leave ground place typed concurs.owned kept
  have inner : cx.Unreached F gs [] D c := unreached.mono (by simp) (List.Subset.refl gs)
  refine finds o T supplies (n.entries ++ D) W c
    (concurs.enter ground place apart (Table.contains_eq_false.mpr unnoted))
    { inner with under := fun w under k listed entry => ?_ }
  rcases List.mem_append.mp under with own | outer
  · rw [List.append_nil] at listed
    obtain ⟨K, place'⟩ := placed k listed
    exact new (owner_unique ground place place' own entry ▸ listed)
  · exact inner.under w outer k listed entry

end Replays

end Context

end

end Solo
