import Mathlib.Data.List.Forall2
import Mathlib.Data.Set.Operations
import Solo.Proofs.Scoping

/-!
# Functions added to a program

A program `Gains` functions if another one has the same statements and, among those of some scopes,
further functions with declared results whose names the scopes declare as functions already. The
nodes of the first program are found again in the second under the numbers that `ν` gives them; the
added functions have other numbers.
-/

namespace Solo

/-! ### Lists with members added -/

/-- The members of the second list are counterparts of those of the first, in order, and `E` holds
of all others. -/
inductive Joins {α β : Type} (R : α → β → Prop) (E : β → Prop) : List α → List β → Prop
  | nil : Joins R E [] []
  | both {a : α} {b : β} {as : List α} {bs : List β} (head : R a b) (rest : Joins R E as bs) :
    Joins R E (a :: as) (b :: bs)
  | more {b : β} {as : List α} {bs : List β} (head : E b) (rest : Joins R E as bs) :
    Joins R E as (b :: bs)

namespace Joins

variable {α β γ δ : Type} {R R' : α → β → Prop} {E E' : β → Prop} {as as' : List α} {bs bs' : List β}

theorem added (all : ∀ b ∈ bs, E b) : Joins R E [] bs := by
  induction bs with
  | nil => exact .nil
  | cons b bs ih =>
    obtain ⟨head, rest⟩ := List.forall_mem_cons.mp all
    exact .more head (ih rest)

theorem append (first : Joins R E as bs) (second : Joins R E as' bs') :
    Joins R E (as ++ as') (bs ++ bs') := by
  induction first with
  | nil => exact second
  | both head _ ih => exact .both head ih
  | more head _ ih => exact .more head ih

theorem of_forall₂ (pairs : List.Forall₂ R as bs) : Joins R E as bs := by
  induction pairs with
  | nil => exact .nil
  | cons head _ ih => exact .both head ih

theorem single {a : α} {b : β} (related : R a b) : Joins R E [a] [b] := .both related .nil

theorem snoc {a : α} {b : β} (joins : Joins R E as bs) (related : R a b) :
    Joins R E (as ++ [a]) (bs ++ [b]) :=
  joins.append (.single related)

theorem imp (joins : Joins R E as bs) (related : ∀ a ∈ as, ∀ b ∈ bs, R a b → R' a b)
    (added : ∀ b ∈ bs, E b → E' b) : Joins R' E' as bs := by
  induction joins with
  | nil => exact .nil
  | both head _ ih =>
    exact .both (related _ List.mem_cons_self _ List.mem_cons_self head)
      (ih (fun a left b right => related a (List.mem_cons_of_mem _ left) b
        (List.mem_cons_of_mem _ right)) fun b member => added b (List.mem_cons_of_mem _ member))
  | more head _ ih =>
    exact .more (added _ List.mem_cons_self head)
      (ih (fun a left b right => related a left b (List.mem_cons_of_mem _ right))
        fun b member => added b (List.mem_cons_of_mem _ member))

theorem mem_right (joins : Joins R E as bs) {b : β} (member : b ∈ bs) :
    E b ∨ ∃ a ∈ as, R a b := by
  induction joins with
  | nil => cases member
  | both head _ ih =>
    rcases List.mem_cons.mp member with rfl | later
    · exact .inr ⟨_, List.mem_cons_self, head⟩
    · exact (ih later).imp_right fun ⟨a, inside, related⟩ =>
        ⟨a, List.mem_cons_of_mem _ inside, related⟩
  | more head _ ih =>
    rcases List.mem_cons.mp member with rfl | later
    · exact .inl head
    · exact ih later

theorem mem_left (joins : Joins R E as bs) {a : α} (member : a ∈ as) : ∃ b ∈ bs, R a b := by
  induction joins with
  | nil => cases member
  | both head _ ih =>
    rcases List.mem_cons.mp member with rfl | later
    · exact ⟨_, List.mem_cons_self, head⟩
    · obtain ⟨b, inside, related⟩ := ih later
      exact ⟨b, List.mem_cons_of_mem _ inside, related⟩
  | more _ _ ih =>
    obtain ⟨b, inside, related⟩ := ih member
    exact ⟨b, List.mem_cons_of_mem _ inside, related⟩

theorem filter {p : α → Bool} {q : β → Bool} (joins : Joins R E as bs)
    (same : ∀ a b, R a b → q b = p a) :
    Joins R (fun b => E b ∧ q b = true) (as.filter p) (bs.filter q) := by
  induction joins with
  | nil => exact .nil
  | @both a b _ _ head _ ih =>
    rw [List.filter_cons, List.filter_cons, same a b head]
    split
    · exact .both head ih
    · exact ih
  | @more b _ _ head _ ih =>
    rw [List.filter_cons]
    split
    · next holds => exact .more ⟨head, holds⟩ ih
    · exact ih

theorem map {f : α → γ} {g : β → δ} {S : γ → δ → Prop} {D : δ → Prop} (joins : Joins R E as bs)
    (related : ∀ a ∈ as, ∀ b ∈ bs, R a b → S (f a) (g b)) (added : ∀ b ∈ bs, E b → D (g b)) :
    Joins S D (as.map f) (bs.map g) := by
  induction joins with
  | nil => exact .nil
  | both head rest ih =>
    refine .both (related _ List.mem_cons_self _ List.mem_cons_self head) (ih ?_ ?_)
    · exact fun a inside b inside' =>
        related a (List.mem_cons_of_mem _ inside) b (List.mem_cons_of_mem _ inside')
    · exact fun b inside => added b (List.mem_cons_of_mem _ inside)
  | more head rest ih =>
    refine .more (added _ List.mem_cons_self head) (ih ?_ ?_)
    · exact fun a inside b inside' => related a inside b (List.mem_cons_of_mem _ inside')
    · exact fun b inside => added b (List.mem_cons_of_mem _ inside)

/-- Counterparts are picked alike; of the added members some are. -/
theorem filterMap {f : α → Option γ} {g : β → Option δ} {S : γ → δ → Prop} {D : δ → Prop}
    (joins : Joins R E as bs)
    (related : ∀ a b, R a b → Option.Rel S (f a) (g b))
    (added : ∀ b, E b → ∀ d, g b = some d → D d) :
    Joins S D (as.filterMap f) (bs.filterMap g) := by
  induction joins with
  | nil => exact .nil
  | @both a b _ _ head _ ih =>
    have same := related a b head
    rw [List.filterMap_cons, List.filterMap_cons]
    revert same
    generalize f a = picked
    generalize g b = picked'
    rintro (⟨pair⟩ | _)
    · exact .both pair ih
    · exact ih
  | @more b _ _ head _ ih =>
    rw [List.filterMap_cons]
    cases found : g b with
    | none => exact ih
    | some d => exact .more (added b head d found) ih

end Joins

/-! ### Trees with functions added -/

section
variable (ν : NodeId → NodeId)

def Ident.Moves (x x' : Ident Mark) : Prop := x'.mark.id = ν x.mark.id ∧ x'.name = x.name

def Lit.Moves (l l' : Lit Mark) : Prop := l'.mark.id = ν l.mark.id ∧ l'.value = l.value

/-- The names of the functions that some statements declare. -/
def fnNames (ss : List (Stmt Mark)) : List String :=
  ss.filterMap fun
    | .fn d => some d.name.name
    | _ => none

/-- A function with a declared result and one of the names `S`, with new numbers throughout. -/
def Stmt.Added (S : List String) (s : Stmt Mark) : Prop :=
  ∃ d, s = .fn d ∧ d.result.isSome = true ∧ d.name.name ∈ S ∧
    ∀ n ∈ s.nodes, n.mark.id ∉ Set.range ν

mutual
def Expr.Gains : Expr Mark → Expr Mark → Prop
  | .lit l, e' => ∃ l', e' = .lit l' ∧ l.Moves ν l'
  | .name x, e' => ∃ x', e' = .name x' ∧ x.Moves ν x'
  | .paren m e, e' => ∃ m' k, e' = .paren m' k ∧ m'.id = ν m.id ∧ e.Gains k
  | .unary m op e, e' => ∃ m' k, e' = .unary m' op k ∧ m'.id = ν m.id ∧ e.Gains k
  | .bin m op a b, e' =>
    ∃ m' a' b', e' = .bin m' op a' b' ∧ m'.id = ν m.id ∧ a.Gains a' ∧ b.Gains b'
  | .call m f args, e' =>
    ∃ m' f' args', e' = .call m' f' args' ∧ m'.id = ν m.id ∧ f.Moves ν f' ∧ exprsGain args args'
  | .block m ss tail, e' =>
    ∃ m' ss' tail', e' = .block m' ss' tail' ∧ m'.id = ν m.id ∧ stmtsGain ss (fnNames ss) ss' ∧
      tailGains tail tail'
  | .assign m x e, e' =>
    ∃ m' x' k, e' = .assign m' x' k ∧ m'.id = ν m.id ∧ x.Moves ν x' ∧ e.Gains k
  | .cases m e arms, e' =>
    ∃ m' k arms', e' = .cases m' k arms' ∧ m'.id = ν m.id ∧ e.Gains k ∧ armsGain arms arms'
  | .inhabitant m t, e' => ∃ m' t', e' = .inhabitant m' t' ∧ m'.id = ν m.id ∧ t.Gains t'
  | .host m desc, e' => ∃ m', e' = .host m' desc ∧ m'.id = ν m.id
termination_by structural t => t

def exprsGain : List (Expr Mark) → List (Expr Mark) → Prop
  | [], es' => es' = []
  | e :: es, es' => ∃ k ks, es' = k :: ks ∧ e.Gains k ∧ exprsGain es ks
termination_by structural t => t

def tailGains : Option (Expr Mark) → Option (Expr Mark) → Prop
  | none, tail' => tail' = none
  | some e, tail' => ∃ k, tail' = some k ∧ e.Gains k
termination_by structural t => t

def armsGain : List (Arm Mark) → List (Arm Mark) → Prop
  | [], arms' => arms' = []
  | ⟨m, q, e⟩ :: arms, arms' =>
    ∃ m' q' k ks, arms' = ⟨m', q', k⟩ :: ks ∧ m'.id = ν m.id ∧ q.Gains q' ∧ e.Gains k ∧
      armsGain arms ks
termination_by structural t => t

def Pat.Gains : Pat Mark → Pat Mark → Prop
  | .wildcard m, q' => ∃ m', q' = .wildcard m' ∧ m'.id = ν m.id
  | .lit m l, q' => ∃ m' l', q' = .lit m' l' ∧ m'.id = ν m.id ∧ l.Moves ν l'
  | .typed m t, q' => ∃ m' t', q' = .typed m' t' ∧ m'.id = ν m.id ∧ t.Gains t'
termination_by structural t => t

def TyNode.Gains : TyNode Mark → TyNode Mark → Prop
  | .refer m x, t' => ∃ m' x', t' = .refer m' x' ∧ m'.id = ν m.id ∧ x.Moves ν x'
  | .singleton m e, t' => ∃ m' k, t' = .singleton m' k ∧ m'.id = ν m.id ∧ e.Gains k
  | .lit m l dot, t' => ∃ m' l', t' = .lit m' l' dot ∧ m'.id = ν m.id ∧ l.Moves ν l'
  | .paren m t, t' => ∃ m' u, t' = .paren m' u ∧ m'.id = ν m.id ∧ t.Gains u
termination_by structural t => t

def tyGains? : Option (TyNode Mark) → Option (TyNode Mark) → Prop
  | none, t' => t' = none
  | some t, t' => ∃ u, t' = some u ∧ t.Gains u
termination_by structural t => t

def paramsGain : List (Param Mark) → List (Param Mark) → Prop
  | [], qs' => qs' = []
  | ⟨m, x, t⟩ :: qs, qs' =>
    ∃ m' x' t' ks, qs' = ⟨m', x', t'⟩ :: ks ∧ m'.id = ν m.id ∧ x.Moves ν x' ∧ t.Gains t' ∧
      paramsGain qs ks
termination_by structural t => t

def Stmt.Gains : Stmt Mark → Stmt Mark → Prop
  | .val ⟨m, k, x, t, e⟩, s' =>
    ∃ m' x' t' e', s' = .val ⟨m', k, x', t', e'⟩ ∧ m'.id = ν m.id ∧ x.Moves ν x' ∧
      tyGains? t t' ∧ e.Gains e'
  | .typeAlias ⟨m, x, t⟩, s' =>
    ∃ m' x' t', s' = .typeAlias ⟨m', x', t'⟩ ∧ m'.id = ν m.id ∧ x.Moves ν x' ∧ t.Gains t'
  | .fn ⟨m, x, qs, t, e⟩, s' =>
    ∃ m' x' qs' t' e', s' = .fn ⟨m', x', qs', t', e'⟩ ∧ m'.id = ν m.id ∧ x.Moves ν x' ∧
      paramsGain qs qs' ∧ tyGains? t t' ∧ e.Gains e'
  | .expr m e, s' => ∃ m' e', s' = .expr m' e' ∧ m'.id = ν m.id ∧ e.Gains e'
termination_by structural t => t

/-- Before, between and after some statements functions are added whose names are among `S`. -/
def stmtsGain : List (Stmt Mark) → List String → List (Stmt Mark) → Prop
  | [], S, ss' => ∀ s ∈ ss', s.Added ν S
  | s :: ss, S, ss' =>
    ∃ new s' rest, ss' = new ++ s' :: rest ∧ (∀ g ∈ new, g.Added ν S) ∧ s.Gains s' ∧
      stmtsGain ss S rest
termination_by structural t => t
end

/-- A program with functions added whose names their scopes declare as functions already. -/
def Program.Gains (p p' : Program Mark) : Prop :=
  p'.mark.id = ν p.mark.id ∧ stmtsGain ν p.stmts (fnNames p.stmts) p'.stmts

/-- A part of a tree has its counterpart in a tree with functions added. -/
def Node.Gains : Node Mark → Node Mark → Prop
  | .ident x, n' => ∃ x', n' = .ident x' ∧ x.Moves ν x'
  | .lit l, n' => ∃ l', n' = .lit l' ∧ l.Moves ν l'
  | .expr e, n' => ∃ e', n' = .expr e' ∧ e.Gains ν e'
  | .arm a, n' =>
    ∃ a', n' = .arm a' ∧ a'.mark.id = ν a.mark.id ∧ a.pat.Gains ν a'.pat ∧ a.body.Gains ν a'.body
  | .pat q, n' => ∃ q', n' = .pat q' ∧ q.Gains ν q'
  | .ty t, n' => ∃ t', n' = .ty t' ∧ t.Gains ν t'
  | .param q, n' =>
    ∃ q', n' = .param q' ∧ q'.mark.id = ν q.mark.id ∧ q.name.Moves ν q'.name ∧ q.ty.Gains ν q'.ty
  | .stmt s, n' => ∃ s', n' = .stmt s' ∧ s.Gains ν s'
  | .program p, n' => ∃ p', n' = .program p' ∧ p.Gains ν p'

def Decl.Gains (d d' : Decl) : Prop := d.node.Gains ν d'.node

/-- All parts of a node have new numbers. -/
def Node.Fresh (n : Node Mark) : Prop := ∀ k ∈ n.below, k.mark.id ∉ Set.range ν

/-- Nodes have their counterparts among others, in order, and all others are new. -/
abbrev NodesJoin : List (Node Mark) → List (Node Mark) → Prop := Joins (Node.Gains ν) (Node.Fresh ν)

end

section
variable {ν : NodeId → NodeId}

/-! ### Numbers -/

theorem Expr.Gains.id : ∀ {e e' : Expr Mark}, e.Gains ν e' → e'.mark.id = ν e.mark.id
  | .lit _, _, ⟨_, rfl, same, _⟩ => same
  | .name _, _, ⟨_, rfl, same, _⟩ => same
  | .paren _ _, _, ⟨_, _, rfl, same, _⟩ => same
  | .unary _ _ _, _, ⟨_, _, rfl, same, _⟩ => same
  | .bin _ _ _ _, _, ⟨_, _, _, rfl, same, _⟩ => same
  | .call _ _ _, _, ⟨_, _, _, rfl, same, _⟩ => same
  | .block _ _ _, _, ⟨_, _, _, rfl, same, _⟩ => same
  | .assign _ _ _, _, ⟨_, _, _, rfl, same, _⟩ => same
  | .cases _ _ _, _, ⟨_, _, _, rfl, same, _⟩ => same
  | .inhabitant _ _, _, ⟨_, _, rfl, same, _⟩ => same
  | .host _ _, _, ⟨_, rfl, same⟩ => same

theorem TyNode.Gains.id : ∀ {t t' : TyNode Mark}, t.Gains ν t' → t'.mark.id = ν t.mark.id
  | .refer _ _, _, ⟨_, _, rfl, same, _⟩ => same
  | .singleton _ _, _, ⟨_, _, rfl, same, _⟩ => same
  | .lit _ _ _, _, ⟨_, _, rfl, same, _⟩ => same
  | .paren _ _, _, ⟨_, _, rfl, same, _⟩ => same

theorem Pat.Gains.id : ∀ {q q' : Pat Mark}, q.Gains ν q' → q'.mark.id = ν q.mark.id
  | .wildcard _, _, ⟨_, rfl, same⟩ => same
  | .lit _ _, _, ⟨_, _, rfl, same, _⟩ => same
  | .typed _ _, _, ⟨_, _, rfl, same, _⟩ => same

theorem Pat.Gains.isWildcard : ∀ {q q' : Pat Mark}, q.Gains ν q' → q'.isWildcard = q.isWildcard
  | .wildcard _, _, ⟨_, rfl, _⟩ => rfl
  | .lit _ _, _, ⟨_, _, rfl, _⟩ => rfl
  | .typed _ _, _, ⟨_, _, rfl, _⟩ => rfl

theorem tyGains?.isSome : ∀ {t t' : Option (TyNode Mark)}, tyGains? ν t t' → t'.isSome = t.isSome
  | none, _, rfl => rfl
  | some _, _, ⟨_, rfl, _⟩ => rfl

theorem Stmt.Gains.id : ∀ {s s' : Stmt Mark}, s.Gains ν s' → s'.mark.id = ν s.mark.id
  | .val ⟨_, _, _, _, _⟩, _, ⟨_, _, _, _, rfl, same, _⟩ => same
  | .typeAlias ⟨_, _, _⟩, _, ⟨_, _, _, rfl, same, _⟩ => same
  | .fn ⟨_, _, _, _, _⟩, _, ⟨_, _, _, _, _, rfl, same, _⟩ => same
  | .expr _ _, _, ⟨_, _, rfl, same, _⟩ => same

theorem Stmt.Gains.params : ∀ {d d' : FnDecl Mark}, Stmt.Gains ν (.fn d) (.fn d') →
    paramsGain ν d.params d'.params
  | ⟨_, _, _, _, _⟩, _, ⟨_, _, _, _, _, rfl, _, _, gain, _⟩ => gain

theorem Stmt.Gains.hint : ∀ {d d' : FnDecl Mark}, Stmt.Gains ν (.fn d) (.fn d') →
    tyGains? ν d.result d'.result
  | ⟨_, _, _, _, _⟩, _, ⟨_, _, _, _, _, rfl, _, _, _, hint, _⟩ => hint

theorem Node.Gains.id : ∀ {n n' : Node Mark}, n.Gains ν n' → n'.mark.id = ν n.mark.id
  | .ident _, _, ⟨_, rfl, same, _⟩ => same
  | .lit _, _, ⟨_, rfl, same, _⟩ => same
  | .expr _, _, ⟨_, rfl, gains⟩ => gains.id
  | .arm _, _, ⟨_, rfl, same, _⟩ => same
  | .pat _, _, ⟨_, rfl, gains⟩ => gains.id
  | .ty _, _, ⟨_, rfl, gains⟩ => gains.id
  | .param _, _, ⟨_, rfl, same, _⟩ => same
  | .stmt _, _, ⟨_, rfl, gains⟩ => gains.id
  | .program _, _, ⟨_, rfl, same, _⟩ => same

theorem exprsGain.length : ∀ {es es' : List (Expr Mark)}, exprsGain ν es es' →
    es'.length = es.length
  | [], _, rfl => rfl
  | _ :: _, _, ⟨_, _, rfl, _, rest⟩ => congrArg (· + 1) rest.length

theorem exprsGain.of_getElem? : ∀ {es es' : List (Expr Mark)}, exprsGain ν es es' → ∀ {i : ℕ} {e'},
    es'[i]? = some e' → ∃ e, es[i]? = some e ∧ e.Gains ν e'
  | [], _, rfl, _, _, found => by cases found
  | e :: _, _, ⟨_, _, rfl, head, _⟩, 0, _, rfl => ⟨e, rfl, head⟩
  | _ :: _, _, ⟨_, _, rfl, _, rest⟩, _ + 1, _, found => rest.of_getElem? found

/-- A function is the counterpart of a function. -/
theorem Node.Gains.of_fn {n : Node Mark} {d' : FnDecl Mark} (gains : n.Gains ν (.stmt (.fn d'))) :
    ∃ d, n = .stmt (.fn d) ∧ Stmt.Gains ν (.fn d) (.fn d') := by
  cases n with
  | stmt s =>
    obtain ⟨_, same, gains⟩ := gains
    cases same
    rcases s with ⟨_, _, _, _, _⟩ | ⟨_, _, _⟩ | d | ⟨_, _⟩
    · obtain ⟨_, _, _, _, same, _⟩ := gains
      cases same
    · obtain ⟨_, _, _, same, _⟩ := gains
      cases same
    · exact ⟨d, rfl, gains⟩
    · obtain ⟨_, _, same, _⟩ := gains
      cases same
  | _ =>
    obtain ⟨_, same, _⟩ := gains
    cases same

/-! ### Nodes -/

theorem nodes_added {S : List String} {ss : List (Stmt Mark)} (added : ∀ s ∈ ss, s.Added ν S) :
    ∀ n ∈ stmtsNodes ss, n.Fresh ν := by
  intro n member k below
  rw [stmtsNodes_eq] at member
  obtain ⟨s, inside, own⟩ := List.mem_flatMap.mp member
  obtain ⟨_, _, _, _, new⟩ := added s inside
  exact new k (((Node.stmt s).closed n own).subset below)

mutual
theorem Expr.Gains.nodes : ∀ {e e' : Expr Mark}, e.Gains ν e' → NodesJoin ν e.nodes e'.nodes
  | .lit _, _, ⟨l, rfl, moves⟩ => .single ⟨_, rfl, l, rfl, moves⟩
  | .name _, _, ⟨x, rfl, moves⟩ => .single ⟨_, rfl, x, rfl, moves⟩
  | .paren _ _, _, ⟨m, k, rfl, same, inner⟩ => inner.nodes.snoc ⟨_, rfl, m, k, rfl, same, inner⟩
  | .unary _ _ _, _, ⟨m, k, rfl, same, inner⟩ => inner.nodes.snoc ⟨_, rfl, m, k, rfl, same, inner⟩
  | .bin _ _ _ _, _, ⟨m, a, b, rfl, same, left, right⟩ =>
    (left.nodes.append right.nodes).snoc ⟨_, rfl, m, a, b, rfl, same, left, right⟩
  | .call _ _ _, _, ⟨m, f, args, rfl, same, callee, rest⟩ =>
    .both ⟨f, rfl, callee⟩ ((exprs_nodes rest).snoc ⟨_, rfl, m, f, args, rfl, same, callee, rest⟩)
  | .block _ _ _, _, ⟨m, ss, tail, rfl, same, stmts, last⟩ =>
    ((stmts_nodes stmts).append (tail_nodes last)).snoc
      ⟨_, rfl, m, ss, tail, rfl, same, stmts, last⟩
  | .assign _ _ _, _, ⟨m, x, k, rfl, same, target, inner⟩ =>
    .both ⟨x, rfl, target⟩ (inner.nodes.snoc ⟨_, rfl, m, x, k, rfl, same, target, inner⟩)
  | .cases _ _ _, _, ⟨m, k, arms, rfl, same, inner, rest⟩ =>
    (inner.nodes.append (arms_nodes rest)).snoc ⟨_, rfl, m, k, arms, rfl, same, inner, rest⟩
  | .inhabitant _ _, _, ⟨m, t, rfl, same, inner⟩ =>
    inner.nodes.snoc ⟨_, rfl, m, t, rfl, same, inner⟩
  | .host _ _, _, ⟨m, rfl, same⟩ => .single ⟨_, rfl, m, rfl, same⟩
termination_by structural e => e

theorem exprs_nodes : ∀ {es es' : List (Expr Mark)}, exprsGain ν es es' →
    NodesJoin ν (exprsNodes es) (exprsNodes es')
  | [], _, rfl => .nil
  | _ :: _, _, ⟨_, _, rfl, head, rest⟩ => head.nodes.append (exprs_nodes rest)
termination_by structural es => es

theorem tail_nodes : ∀ {tail tail' : Option (Expr Mark)}, tailGains ν tail tail' →
    NodesJoin ν (tailNodes tail) (tailNodes tail')
  | none, _, rfl => .nil
  | some _, _, ⟨_, rfl, gains⟩ => gains.nodes
termination_by structural tail => tail

theorem arms_nodes : ∀ {arms arms' : List (Arm Mark)}, armsGain ν arms arms' →
    NodesJoin ν (armsNodes arms) (armsNodes arms')
  | [], _, rfl => .nil
  | ⟨_, _, _⟩ :: _, _, ⟨_, _, _, _, rfl, same, pat, body, rest⟩ =>
    .append ((pat.nodes.append body.nodes).snoc ⟨_, rfl, same, pat, body⟩) (arms_nodes rest)
termination_by structural arms => arms

theorem Pat.Gains.nodes : ∀ {q q' : Pat Mark}, q.Gains ν q' → NodesJoin ν q.nodes q'.nodes
  | .wildcard _, _, ⟨m, rfl, same⟩ => .single ⟨_, rfl, m, rfl, same⟩
  | .lit _ _, _, ⟨m, l, rfl, same, moves⟩ =>
    .both ⟨l, rfl, moves⟩ (.single ⟨_, rfl, m, l, rfl, same, moves⟩)
  | .typed _ _, _, ⟨m, t, rfl, same, inner⟩ => inner.nodes.snoc ⟨_, rfl, m, t, rfl, same, inner⟩
termination_by structural q => q

theorem TyNode.Gains.nodes : ∀ {t t' : TyNode Mark}, t.Gains ν t' → NodesJoin ν t.nodes t'.nodes
  | .refer _ _, _, ⟨m, x, rfl, same, moves⟩ =>
    .both ⟨x, rfl, moves⟩ (.single ⟨_, rfl, m, x, rfl, same, moves⟩)
  | .singleton _ _, _, ⟨m, k, rfl, same, inner⟩ => inner.nodes.snoc ⟨_, rfl, m, k, rfl, same, inner⟩
  | .lit _ _ _, _, ⟨m, l, rfl, same, moves⟩ =>
    .both ⟨l, rfl, moves⟩ (.single ⟨_, rfl, m, l, rfl, same, moves⟩)
  | .paren _ _, _, ⟨m, u, rfl, same, inner⟩ => inner.nodes.snoc ⟨_, rfl, m, u, rfl, same, inner⟩
termination_by structural t => t

theorem ty?_nodes : ∀ {t t' : Option (TyNode Mark)}, tyGains? ν t t' →
    NodesJoin ν (tyNodes? t) (tyNodes? t')
  | none, _, rfl => .nil
  | some _, _, ⟨_, rfl, gains⟩ => gains.nodes
termination_by structural t => t

theorem params_nodes : ∀ {qs qs' : List (Param Mark)}, paramsGain ν qs qs' →
    NodesJoin ν (paramsNodes qs) (paramsNodes qs')
  | [], _, rfl => .nil
  | ⟨_, _, _⟩ :: _, _, ⟨_, x, _, _, rfl, same, name, ty, rest⟩ =>
    .append (.both ⟨x, rfl, name⟩ (ty.nodes.snoc ⟨_, rfl, same, name, ty⟩)) (params_nodes rest)
termination_by structural qs => qs

theorem Stmt.Gains.nodes : ∀ {s s' : Stmt Mark}, s.Gains ν s' → NodesJoin ν s.nodes s'.nodes
  | .val ⟨_, _, _, _, _⟩, _, ⟨m, x, t, e, rfl, same, name, ty, init⟩ =>
    .both ⟨x, rfl, name⟩ (((ty?_nodes ty).append init.nodes).snoc
      ⟨_, rfl, m, x, t, e, rfl, same, name, ty, init⟩)
  | .typeAlias ⟨_, _, _⟩, _, ⟨m, x, t, rfl, same, name, ty⟩ =>
    .both ⟨x, rfl, name⟩ (ty.nodes.snoc ⟨_, rfl, m, x, t, rfl, same, name, ty⟩)
  | .fn ⟨_, _, _, _, _⟩, _, ⟨m, x, qs, t, e, rfl, same, name, params, ty, body⟩ =>
    .both ⟨x, rfl, name⟩ ((((params_nodes params).append (ty?_nodes ty)).append body.nodes).snoc
      ⟨_, rfl, m, x, qs, t, e, rfl, same, name, params, ty, body⟩)
  | .expr _ _, _, ⟨m, e, rfl, same, inner⟩ => inner.nodes.snoc ⟨_, rfl, m, e, rfl, same, inner⟩
termination_by structural s => s

theorem stmts_nodes : ∀ {ss : List (Stmt Mark)} {S : List String} {ss' : List (Stmt Mark)},
    stmtsGain ν ss S ss' → NodesJoin ν (stmtsNodes ss) (stmtsNodes ss')
  | [], _, _, added => .added (nodes_added added)
  | _ :: _, _, _, ⟨new, s, rest, rfl, added, head, later⟩ => by
    rw [stmtsNodes_eq (new ++ s :: rest), List.flatMap_append, List.flatMap_cons, ← stmtsNodes_eq,
      ← stmtsNodes_eq]
    have early : NodesJoin ν [] (stmtsNodes new) := .added (nodes_added added)
    exact early.append (head.nodes.append (stmts_nodes later))
termination_by structural ss => ss
end

theorem Program.Gains.nodes {p p' : Program Mark} (gains : p.Gains ν p') :
    NodesJoin ν p.nodes p'.nodes :=
  (stmts_nodes gains.2).snoc ⟨p', rfl, gains⟩

/-! ### Declarations -/

namespace Decl.Gains

variable {d' : Decl}

theorem param {q : Param Mark} (gains : Decl.Gains ν (.param q) d') :
    ∃ q', d' = .param q' ∧ Node.Gains ν (.param q) (.param q') := by
  obtain ⟨_, same, gains⟩ := gains
  cases d' <;> cases same
  exact ⟨_, rfl, _, rfl, gains⟩

theorem val {d : ValDecl Mark} (gains : Decl.Gains ν (.val d) d') :
    ∃ k, d' = .val k ∧ Stmt.Gains ν (.val d) (.val k) := by
  obtain ⟨_, same, gains⟩ := gains
  obtain ⟨m, kind, x, ty, e⟩ := d
  have own := gains
  obtain ⟨_, _, _, _, rfl, _⟩ := own
  cases d' <;> cases same
  exact ⟨_, rfl, gains⟩

theorem typeAlias {d : AliasDecl Mark} (gains : Decl.Gains ν (.typeAlias d) d') :
    ∃ k, d' = .typeAlias k ∧ d.ty.Gains ν k.ty := by
  obtain ⟨_, same, gains⟩ := gains
  obtain ⟨m, x, ty⟩ := d
  obtain ⟨_, _, _, rfl, _, _, gains⟩ := gains
  cases d' <;> cases same
  exact ⟨_, rfl, gains⟩

theorem fn {d : FnDecl Mark} (gains : Decl.Gains ν (.fn d) d') :
    ∃ k, d' = .fn k ∧ Stmt.Gains ν (.fn d) (.fn k) := by
  obtain ⟨_, same, gains⟩ := gains
  obtain ⟨m, x, qs, ty, e⟩ := d
  have own := gains
  obtain ⟨_, _, _, _, _, rfl, _⟩ := own
  cases d' <;> cases same
  exact ⟨_, rfl, gains⟩

theorem name {d : Decl} (gains : d.Gains ν d') : d.name.Moves ν d'.name := by
  cases d with
  | param q =>
    obtain ⟨_, rfl, _, same, _, moves, _⟩ := gains.param
    cases same
    exact moves
  | val d =>
    obtain ⟨_, rfl, own⟩ := gains.val
    obtain ⟨m, kind, x, ty, e⟩ := d
    obtain ⟨_, _, _, _, same, _, moves, _⟩ := own
    cases same
    exact moves
  | typeAlias d =>
    obtain ⟨m, x, ty⟩ := d
    obtain ⟨_, same, _, _, _, rfl, _, moves, _⟩ := gains
    cases d' <;> cases same
    exact moves
  | fn d =>
    obtain ⟨_, rfl, own⟩ := gains.fn
    obtain ⟨m, x, qs, ty, e⟩ := d
    obtain ⟨_, _, _, _, _, same, _, moves, _⟩ := own
    cases same
    exact moves

/-- The counterparts of functions are functions. -/
theorem fn? {d : Decl} (gains : d.Gains ν d') :
    Option.Rel (fun k k' => Stmt.Gains ν (.fn k) (.fn k')) d.fn? d'.fn? := by
  cases d with
  | param q =>
    obtain ⟨_, rfl, _⟩ := gains.param
    exact .none
  | val d =>
    obtain ⟨_, rfl, _⟩ := gains.val
    exact .none
  | typeAlias d =>
    obtain ⟨_, rfl, _⟩ := gains.typeAlias
    exact .none
  | fn d =>
    obtain ⟨_, rfl, own⟩ := gains.fn
    exact .some own

end Decl.Gains

end

end Solo
