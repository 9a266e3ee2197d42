import Solo.Proofs.UpperBounds

/-!
# Overload resolution

Where the types of a call's arguments and of the parameters are known, the call is resolved to the
one overload that accepts the arguments and whose parameters are below those of every other one that
does. If there is none, exactly one problem is reported, unless an argument has a problem itself.
`Resolves` states this without the order of the overloads, and at most one result fits it, up to the
order of the declarations that the problem points at.
-/

namespace Solo

/-! ### Sure answers -/

namespace Context

/-- In a state and in all that differ from it in kept answers only, an action gives an answer and
changes nothing but kept answers. -/
def Tells (cx : Context) (c : Checker) {α : Type} (a : Check α) (x : α) : Prop :=
  ∀ c₁, c.Recalls c₁ → cx.Coherent c₁ →
    ∃ c₂, a c₁ = .ok (x, c₂) ∧ c₁.Recalls c₂ ∧ cx.Coherent c₂

namespace Tells

variable {cx : Context} {c : Checker} {α β : Type} {x : α} {y : β}

theorem pure (cx : Context) (c : Checker) (x : α) : cx.Tells c (Pure.pure x) x :=
  fun c₁ _ coherent => ⟨c₁, rfl, .refl c₁, coherent⟩

theorem bind {a : Check α} {f : α → Check β} (first : cx.Tells c a x) (rest : cx.Tells c (f x) y) :
    cx.Tells c (a >>= f) y := by
  intro c₁ recalls coherent
  obtain ⟨c₂, run, recalls₂, coherent₂⟩ := first c₁ recalls coherent
  obtain ⟨c₃, run', recalls₃, coherent₃⟩ := rest c₂ (recalls.trans recalls₂) coherent₂
  exact ⟨c₃, (Check.bind_eq run).trans run', recalls₂.trans recalls₃, coherent₃⟩

variable {f : β → Check Bool} {P : β → Prop} [DecidablePred P]

theorem allM : ∀ {xs : List β}, (∀ y ∈ xs, cx.Tells c (f y) (decide (P y))) →
    cx.Tells c (xs.allM f) (decide (∀ y ∈ xs, P y))
  | [], _ => by
    simp only [List.not_mem_nil, false_imp_iff, implies_true, decide_true]
    exact pure cx c true
  | y :: ys, each => by
    have rest := allM fun z member => each z (List.mem_cons_of_mem y member)
    rw [List.allM]
    refine (each y List.mem_cons_self).bind ?_
    by_cases holds : P y
    · simp only [holds, decide_true, List.forall_mem_cons, true_and]
      exact rest
    · simp only [holds, decide_false, List.forall_mem_cons, false_and]
      exact pure cx c false

theorem filterM {xs : List β} (each : ∀ y ∈ xs, cx.Tells c (f y) (decide (P y))) :
    cx.Tells c (xs.filterM f) (xs.filter (P ·)) := by
  have filterAux : ∀ (ys acc : List β), ys ⊆ xs →
      cx.Tells c (ys.filterAuxM f acc) ((ys.filter (P ·)).reverse ++ acc) := by
    intro ys
    induction ys with
    | nil => exact fun acc _ => pure cx c acc
    | cons y ys ih =>
      intro acc inside
      obtain ⟨member, rest⟩ := List.cons_subset.mp inside
      rw [List.filterAuxM]
      refine (each y member).bind ?_
      by_cases holds : P y
      · simpa [holds] using ih (y :: acc) rest
      · simpa [holds] using ih acc rest
  rw [List.filterM]
  refine (filterAux xs [] (List.Subset.refl xs)).bind ?_
  simpa using pure cx c (xs.filter (P ·))

end Tells

end Context

/-! ### Types that are known -/

/-- A type that widens to a kind, each step up being found. -/
inductive Checker.Grounds (c : Checker) : Ty → Prop
  | kind (k : Kind) : Grounds c (.intrinsic k)
  | literal (v : Literal) : Grounds c (.literal v)
  | path {x : SymbolId} {t : Ty} (found : c.symbolTypes.find? x = some t) (rest : Grounds c t) :
    Grounds c (.path x)

namespace Context

variable {cx : Context} {c : Checker} {s t : Ty}

theorem Orderly.traced (orderly : cx.Orderly c) : cx.Traced c c.Grounds := by
  refine ⟨fun x grounds _ => ?_, fun t u grounds rises => ?_⟩
  · cases grounds with
    | path found _ =>
      rw [found]
      rfl
  · cases grounds with
    | kind k =>
      cases rises
      exact .kind k
    | literal v =>
      cases rises
      exact .kind _
    | path found rest =>
      cases rises.unique orderly (.inl found)
      exact rest

theorem Orderly.not_spins (orderly : cx.Orderly c) (grounds : c.Grounds t) : ¬c.Spins t := by
  have ends : ∃ n k, Steps (cx.Rises c) n t (.intrinsic k) := by
    induction grounds with
    | kind k => exact ⟨0, k, .none _⟩
    | literal v => exact ⟨1, _, .step rfl (.none _)⟩
    | path found _ ih =>
      obtain ⟨n, k, steps⟩ := ih
      exact ⟨n + 1, k, .step (.inl found) steps⟩
  obtain ⟨n, k, steps⟩ := ends
  exact steps.not_spins orderly

end Context

/-! ### What a call is resolved to -/

/-- Two problems that differ at most in the order of the declarations they point at. -/
inductive Problem.Alike : Problem → Problem → Prop
  | same (p : Problem) : Alike p p
  | noOverloadMatches {name : String} {sites sites' : List Site} (perm : sites.Perm sites') :
    Alike (.noOverloadMatches name sites) (.noOverloadMatches name sites')
  | ambiguousCall {name : String} {sites sites' : List Site} (perm : sites.Perm sites') :
    Alike (.ambiguousCall name sites) (.ambiguousCall name sites')

/-- The same problem at the same place, up to the order of the declarations it points at. -/
structure Diagnostic.Alike (d d' : Diagnostic) : Prop where
  span : d.span = d'.span
  problem : d.problem.Alike d'.problem

/-- Nothing changes but kept answers, and something is reported. -/
def Checker.Notes (c c' : Checker) (reported : List Diagnostic) : Prop :=
  ∃ subtypes, c' = { c with subtypes, diagnostics := c.diagnostics ++ reported.toArray }

theorem Checker.Notes.quiet (c : Checker) : c.Notes c [] := ⟨c.subtypes, by simp⟩

theorem Checker.Notes.report (c : Checker) (d : Diagnostic) :
    ∃ c', Check.report d.span d.problem c = .ok ((), c') ∧ c.Notes c' [d] :=
  ⟨_, rfl, c.subtypes, by simp⟩

theorem Checker.Recalls.notes {c c₁ c₂ : Checker} {reported : List Diagnostic}
    (recalls : c.Recalls c₁) (noted : c₁.Notes c₂ reported) : c.Notes c₂ reported := by
  obtain ⟨_, rfl⟩ := recalls
  exact noted

namespace Resolver

variable (r : Resolver) (c : Checker)

/-- As many parameters as there are arguments, and each of them accepts its argument. -/
def Accepts (args : List Ty) (sig : Signature) : Prop := List.Forall₂ (r.Affirms c) args sig.params

/-- One of the overloads that accept the arguments, with parameters below those of all others. -/
structure Leads (args : List Ty) (sigs : List Signature) (sig : Signature) : Prop where
  member : sig ∈ sigs
  accepts : r.Accepts c args sig
  least : ∀ other ∈ sigs, r.Accepts c args other → other ≠ sig →
    List.Forall₂ (r.Affirms c) sig.params other.params

/-- What is wrong with a call that no overload is selected for. -/
inductive Explains (call : Call) (args : List Ty) (sigs : List Signature) : Diagnostic → Prop
  | wrongArity {only : Signature} (alone : sigs = [only])
    (arity : only.params.length ≠ call.args.length) :
    Explains call args sigs ⟨call.span, .wrongArity only.params.length call.args.length⟩
  /-- The first argument that is not accepted. -/
  | argument {only : Signature} {i : ℕ} {span : Span} {s t : Ty} (alone : sigs = [only])
    (arity : only.params.length = call.args.length) (place : call.args[i]? = some span)
    (argument : args[i]? = some s) (param : only.params[i]? = some t) (fails : ¬r.Affirms c s t)
    (earlier : ∀ j < i, ∀ s t, args[j]? = some s → only.params[j]? = some t → r.Affirms c s t) :
    Explains call args sigs ⟨span, .argumentNotAssignable s t⟩
  | noMatch (several : sigs.length ≠ 1) (none : ∀ sig ∈ sigs, ¬r.Accepts c args sig) :
    Explains call args sigs ⟨call.span, .noOverloadMatches call.callee (sigs.map Signature.site)⟩
  | ambiguous {applicable : List Signature} (among : applicable.Sublist sigs)
    (all : ∀ sig, sig ∈ applicable ↔ sig ∈ sigs ∧ r.Accepts c args sig) (some : applicable ≠ []) :
    Explains call args sigs ⟨call.span, .ambiguousCall call.callee (applicable.map Signature.site)⟩

/-- The overload that a call is resolved to, and what is reported. -/
structure Resolves (call : Call) (args : List Ty) (sigs : List Signature)
    (found : Option Signature) (reported : List Diagnostic) : Prop where
  selected : ∀ sig, found = some sig ↔ .error ∉ args ∧ r.Leads c args sigs sig ∧
    ∀ other, r.Leads c args sigs other → other = sig
  silent : found.isSome = true ∨ .error ∈ args → reported = []
  explained : found = none → .error ∉ args → ∃ d, reported = [d] ∧ r.Explains c call args sigs d

end Resolver

/-! ### The selection -/

instance Resolver.decidableAccepts (r : Resolver) (c : Checker) [DecidableRel (r.Affirms c)]
    (args : List Ty) : DecidablePred (r.Accepts c args) :=
  fun sig => inferInstanceAs (Decidable (List.Forall₂ (r.Affirms c) args sig.params))

/-- Whether a known type is a subtype of another one is told without fail. -/
def Context.Sure (cx : Context) (c : Checker) (r : Resolver) [DecidableRel (r.Affirms c)] : Prop :=
  ∀ s t, c.Grounds s → cx.Tells c (r.isSubtype s t) (decide (r.Affirms c s t))

theorem Context.Coherent.sure {cx : Context} {c : Checker} (coherent : cx.Coherent c)
    (ground : cx.Grounded) (spelled : cx.Spelled) (m : Nat)
    [DecidableRel ((Resolver.ofDepth cx (m + 1)).Affirms c)] :
    cx.Sure c (Resolver.ofDepth cx (m + 1)) := by
  intro s t grounds c₁ recalls coherent₁
  have traced := coherent.orderly.traced
  have calm := coherent.orderly.not_spins grounds
  have affirms_iff := traced.affirms_iff ground spelled coherent m grounds calm (t := t)
  obtain ⟨b, c₂, run, recalls₂, coherent₂, compares⟩ := (traced.kept recalls).answer ground spelled
    coherent₁ m grounds (recalls.spins ▸ calm) t
  replace compares := recalls.compares compares
  refine ⟨c₂, ?_, recalls₂, coherent₂⟩
  rw [run]
  by_cases below : (Resolver.ofDepth cx (m + 1)).Affirms c s t
  · cases (affirms_iff.mp below).unique coherent.orderly compares
    rw [decide_eq_true below]
  · cases b with
    | false => rw [decide_eq_false below]
    | true => exact absurd (affirms_iff.mpr compares) below

namespace Context.Sure

variable {cx : Context} {c : Checker} {r : Resolver} [DecidableRel (r.Affirms c)]
  (sure : cx.Sure c r)
include sure

theorem allSubtypes : ∀ {ss ts : List Ty}, ss.length = ts.length → (∀ s ∈ ss, c.Grounds s) →
    cx.Tells c (r.allSubtypes ss ts) (decide (List.Forall₂ (r.Affirms c) ss ts))
  | [], [], _, _ => by
    simp only [List.Forall₂.nil, decide_true]
    exact .pure cx c true
  | s :: ss, t :: ts, length, grounds => by
    rw [List.forall_mem_cons] at grounds
    have rest := allSubtypes (Nat.succ.inj length) grounds.2
    refine (sure s t grounds.1).bind ?_
    by_cases below : r.Affirms c s t
    · simp only [below, decide_true, if_true, List.forall₂_cons, true_and]
      exact rest
    · simp only [below, decide_false, List.forall₂_cons, false_and]
      exact .pure cx c false

/-- Among different declarations, an overload is compared with all others. -/
theorem isMostSpecific [DecidableEq Signature] {sig : Signature} {others : List Signature}
    (distinct : ∀ other ∈ others, sig.decl.mark.id = other.decl.mark.id → other = sig)
    (length : ∀ other ∈ others, sig.params.length = other.params.length)
    (grounds : ∀ t ∈ sig.params, c.Grounds t) :
    cx.Tells c (r.isMostSpecific sig others) (decide (∀ other ∈ others, other ≠ sig →
      List.Forall₂ (r.Affirms c) sig.params other.params)) := by
  refine .allM fun other member => ?_
  by_cases same : sig.decl.mark.id = other.decl.mark.id
  · simp only [same, if_true, distinct other member same, ne_eq, not_true_eq_false, false_imp_iff,
      decide_true]
    exact .pure cx c true
  · have apart : other ≠ sig := fun eq => same (congrArg (·.decl.mark.id) eq.symm)
    simp only [same, if_false, apart, ne_eq, not_false_eq_true, true_imp_iff]
    exact sure.allSubtypes (length other member) grounds


theorem applicable {call : Call} (sigs : List Signature) {args : List Ty}
    (count : args.length = call.args.length) (known : ∀ t ∈ args, c.Grounds t) :
    cx.Tells c ((sigs.filter fun sig => sig.params.length == call.args.length).filterM fun sig =>
      r.allSubtypes args sig.params) (sigs.filter (r.Accepts c args ·)) := by
  have accepts : (sigs.filter fun sig => sig.params.length == call.args.length).filter
      (r.Accepts c args ·) = sigs.filter (r.Accepts c args ·) := by
    rw [List.filter_filter]
    refine List.filter_congr fun sig _ => ?_
    by_cases holds : r.Accepts c args sig
    · have length : sig.params.length = call.args.length := holds.length_eq.symm.trans count
      simp [holds, length]
    · simp [holds]
  rw [← accepts]
  refine .filterM fun sig member => sure.allSubtypes ?_ known
  have length := (List.mem_filter.mp member).2
  rw [count, eq_of_beq length]

/-- An argument that is not accepted is found and reported. -/
theorem reportArgument : ∀ {spans : List Span} {ss ts : List Ty} {c₁ : Checker},
    spans.length = ss.length → ss.length = ts.length → (∀ s ∈ ss, c.Grounds s) →
    ¬List.Forall₂ (r.Affirms c) ss ts → c.Recalls c₁ → cx.Coherent c₁ →
    ∃ (i : ℕ) (span : Span) (s t : Ty) (c₂ : Checker),
      r.reportArgument spans ss ts c₁ = .ok ((), c₂) ∧
      c₁.Notes c₂ [⟨span, .argumentNotAssignable s t⟩] ∧ spans[i]? = some span ∧ ss[i]? = some s ∧
      ts[i]? = some t ∧ ¬r.Affirms c s t ∧
      ∀ j < i, ∀ s t, ss[j]? = some s → ts[j]? = some t → r.Affirms c s t
  | [], [], [], _, _, _, _, fails, _, _ => absurd .nil fails
  | span :: spans, s :: ss, t :: ts, c₁, count, length, known, fails, recalls, coherent => by
    rw [List.forall_mem_cons] at known
    obtain ⟨c₂, run, recalls₂, coherent₂⟩ := sure s t known.1 c₁ recalls coherent
    by_cases below : r.Affirms c s t
    · have later : ¬List.Forall₂ (r.Affirms c) ss ts := fun rest => fails (.cons below rest)
      obtain ⟨i, span', s', t', c₃, run', noted, place, argument, param, fails', earlier⟩ :=
        reportArgument (Nat.succ.inj count) (Nat.succ.inj length) known.2 later
          (recalls.trans recalls₂) coherent₂
      refine ⟨i + 1, span', s', t', c₃, ?_, ?_, place, argument, param, fails', ?_⟩
      · rw [Resolver.reportArgument]
        refine (Check.bind_eq run).trans ?_
        rw [decide_eq_true below]
        exact run'
      · exact recalls₂.notes noted
      · intro j before s₁ t₁ first second
        cases j with
        | zero =>
          cases first
          cases second
          exact below
        | succ j => exact earlier j (Nat.lt_of_succ_lt_succ before) s₁ t₁ first second
    · obtain ⟨c₃, reports, noted⟩ := Checker.Notes.report c₂ ⟨span, .argumentNotAssignable s t⟩
      refine ⟨0, span, s, t, c₃, ?_, recalls₂.notes noted, rfl, rfl, rfl, below,
        fun j before => absurd before j.not_lt_zero⟩
      rw [Resolver.reportArgument]
      refine (Check.bind_eq run).trans ?_
      rw [decide_eq_false below]
      exact reports

theorem reportNoMatch (call : Call) {sigs : List Signature} {args : List Ty} {c₁ : Checker}
    (count : args.length = call.args.length) (known : ∀ t ∈ args, c.Grounds t)
    (none : ∀ sig ∈ sigs, ¬r.Accepts c args sig) (recalls : c.Recalls c₁)
    (coherent : cx.Coherent c₁) :
    ∃ d c₂, r.reportNoMatch call sigs args c₁ = .ok ((), c₂) ∧ c₁.Notes c₂ [d] ∧
      r.Explains c call args sigs d := by
  have reports := Checker.Notes.report c₁
  rcases sigs with _ | ⟨only, _ | ⟨next, rest⟩⟩
  · obtain ⟨c₂, run, noted⟩ := reports ⟨call.span, .noOverloadMatches call.callee []⟩
    exact ⟨_, c₂, run, noted, .noMatch (by simp) none⟩
  · by_cases arity : only.params.length = call.args.length
    · obtain ⟨i, span, s, t, c₂, run, noted, place, argument, param, fails, earlier⟩ :=
        sure.reportArgument count.symm (count.trans arity.symm) known
          (none only List.mem_cons_self) recalls coherent
      refine ⟨_, c₂, ?_, noted, .argument rfl arity place argument param fails earlier⟩
      rw [Resolver.reportNoMatch, if_neg (not_not.mpr arity)]
      exact run
    · obtain ⟨c₂, run, noted⟩ :=
        reports ⟨call.span, .wrongArity only.params.length call.args.length⟩
      refine ⟨_, c₂, ?_, noted, .wrongArity rfl arity⟩
      rw [Resolver.reportNoMatch, if_pos arity]
      exact run
  · obtain ⟨c₂, run, noted⟩ := reports ⟨call.span, .noOverloadMatches call.callee
      ((only :: next :: rest).map Signature.site)⟩
    exact ⟨_, c₂, run, noted, .noMatch (by simp) none⟩

end Context.Sure

namespace Resolver.Resolves

variable {r : Resolver} {c : Checker} {call : Call} {args : List Ty} {sigs leaders : List Signature}

theorem leads_iff (distinct : leaders.Nodup)
    (all : ∀ sig, sig ∈ leaders ↔ r.Leads c args sigs sig) (best : Signature) :
    leaders = [best] ↔
      r.Leads c args sigs best ∧ ∀ other, r.Leads c args sigs other → other = best := by
  simp only [← all]
  constructor
  · rintro rfl
    simp
  · rintro ⟨member, unique⟩
    rw [← List.perm_singleton, List.perm_ext_iff_of_nodup distinct (List.nodup_singleton best)]
    refine fun sig => ⟨fun inside => List.mem_singleton.mpr (unique sig inside), fun same => ?_⟩
    rwa [List.mem_singleton.mp same]

theorem wrong (wrong : .error ∈ args) : r.Resolves c call args sigs none [] where
  selected := fun _ => ⟨nofun, fun ⟨right, _⟩ => absurd wrong right⟩
  silent := fun _ => rfl
  explained := fun _ right => absurd wrong right

theorem one {best : Signature} (right : .error ∉ args)
    (leads : r.Leads c args sigs best)
    (unique : ∀ other, r.Leads c args sigs other → other = best) :
    r.Resolves c call args sigs (some best) [] where
  selected := by
    intro sig
    constructor
    · rintro ⟨⟩
      exact ⟨right, leads, unique⟩
    · rintro ⟨_, leads', _⟩
      rw [unique sig leads']
  silent := fun _ => rfl
  explained := nofun

theorem none {d : Diagnostic} (right : .error ∉ args)
    (no : ∀ best, r.Leads c args sigs best → ∃ other, r.Leads c args sigs other ∧ other ≠ best)
    (explains : r.Explains c call args sigs d) : r.Resolves c call args sigs none [d] where
  selected := by
    intro sig
    refine ⟨nofun, fun ⟨_, leads, unique⟩ => ?_⟩
    obtain ⟨other, leads', apart⟩ := no sig leads
    exact absurd (unique other leads') apart
  silent := by
    rintro (found | wrong)
    · cases found
    · exact absurd wrong right
  explained := fun _ _ => ⟨d, rfl, explains⟩

end Resolver.Resolves

theorem Resolver.selectOverload_eq (r : Resolver) {call : Call} {sigs : List Signature}
    {args : List Ty} (right : .error ∉ args) :
    r.selectOverload call sigs args =
      ((sigs.filter fun sig => sig.params.length == call.args.length).filterM fun sig =>
        r.allSubtypes args sig.params) >>= r.selectAmong call sigs args := by
  have none : ¬args.any Ty.isError = true := by
    rw [List.any_eq_true]
    exact fun ⟨t, member, error⟩ => right (eq_of_beq error ▸ member)
  rw [selectOverload, if_neg none]
  rfl

namespace Context.Sure

variable {cx : Context} {c c₁ : Checker} {r : Resolver} [DecidableRel (r.Affirms c)]
  (sure : cx.Sure c r) {call : Call} {sigs applicable : List Signature} {args : List Ty}
  (distinct : (sigs.map (·.decl.mark.id)).Nodup)
  (params : ∀ sig ∈ sigs, ∀ t ∈ sig.params, c.Grounds t)
  (among : applicable.Sublist sigs)
  (all : ∀ sig, sig ∈ applicable ↔ sig ∈ sigs ∧ r.Accepts c args sig)
include sure distinct params among all

theorem selectBest (right : .error ∉ args) (some : applicable ≠ []) (recalls : c.Recalls c₁)
    (coherent : cx.Coherent c₁) :
    ∃ found reported c', r.selectBest call applicable c₁ = .ok (found, c') ∧
      c.Notes c' reported ∧ r.Resolves c call args sigs found reported := by
  classical
  have specific : ∀ sig ∈ applicable, cx.Tells c (r.isMostSpecific sig applicable)
      (decide (∀ other ∈ applicable, other ≠ sig →
        List.Forall₂ (r.Affirms c) sig.params other.params)) := by
    intro sig member
    refine sure.isMostSpecific (fun other inside same => ?_) (fun other inside => ?_)
      (params sig (among.subset member))
    · exact (List.inj_on_of_nodup_map distinct (among.subset member) (among.subset inside)
        same).symm
    · exact ((all sig).mp member).2.length_eq.symm.trans ((all other).mp inside).2.length_eq
  obtain ⟨c₂, run, recalls₂, coherent₂⟩ := Tells.filterM specific c₁ recalls coherent
  generalize chosen : applicable.filter _ = leaders at run
  have leads : ∀ sig, sig ∈ leaders ↔ r.Leads c args sigs sig := by
    intro sig
    rw [← chosen, List.mem_filter, decide_eq_true_iff, all]
    constructor
    · rintro ⟨⟨member, accepts⟩, least⟩
      exact ⟨member, accepts, fun other inside holds =>
        least other ((all other).mpr ⟨inside, holds⟩)⟩
    · rintro ⟨member, accepts, least⟩
      exact ⟨⟨member, accepts⟩, fun other inside =>
        least other ((all other).mp inside).1 ((all other).mp inside).2⟩
  have single : leaders.Nodup := by
    rw [← chosen]
    exact (distinct.of_map.sublist among).filter _
  have one := Resolver.Resolves.leads_iff single leads
  by_cases found : ∃ best, leaders = [best]
  · obtain ⟨best, rfl⟩ := found
    obtain ⟨best_leads, unique⟩ := (one best).mp rfl
    exact ⟨_, [], c₂, Check.bind_eq run, (recalls.trans recalls₂).notes (.quiet c₂),
      .one right best_leads unique⟩
  · obtain ⟨c₃, reports, noted⟩ := Checker.Notes.report c₂
      ⟨call.span, .ambiguousCall call.callee (applicable.map Signature.site)⟩
    refine ⟨none, _, c₃, (Check.bind_eq run).trans ?_, (recalls.trans recalls₂).notes noted,
      .none right (fun best leads => ?_) (.ambiguous among all some)⟩
    · split
      · exact absurd ⟨_, rfl⟩ found
      · exact Check.bind_eq reports
    · by_contra alone
      push Not at alone
      exact found ⟨best, (one best).mpr ⟨leads, alone⟩⟩

theorem selectAmong (count : args.length = call.args.length) (known : ∀ t ∈ args, c.Grounds t)
    (right : .error ∉ args) (recalls : c.Recalls c₁) (coherent : cx.Coherent c₁) :
    ∃ found reported c', r.selectAmong call sigs args applicable c₁ = .ok (found, c') ∧
      c.Notes c' reported ∧ r.Resolves c call args sigs found reported := by
  rcases applicable with _ | ⟨only, _ | ⟨next, rest⟩⟩
  · have none : ∀ sig ∈ sigs, ¬r.Accepts c args sig := fun sig member accepts =>
      List.not_mem_nil ((all sig).mpr ⟨member, accepts⟩)
    obtain ⟨d, c₂, run, noted, explains⟩ :=
      sure.reportNoMatch call count known none recalls coherent
    exact ⟨_, [d], c₂, Check.bind_eq run, recalls.notes noted,
      .none right (fun best leads => absurd leads.accepts (none best leads.member)) explains⟩
  · have alone : ∀ sig, sig ∈ sigs → r.Accepts c args sig → sig = only := fun sig member accepts =>
      List.mem_singleton.mp ((all sig).mpr ⟨member, accepts⟩)
    obtain ⟨member, accepts⟩ := (all only).mp List.mem_cons_self
    refine ⟨_, [], c₁, rfl, recalls.notes (.quiet c₁), .one right ⟨member, accepts, ?_⟩ ?_⟩
    · exact fun other inside holds apart => absurd (alone other inside holds) apart
    · exact fun other leads => alone other leads.member leads.accepts
  · exact sure.selectBest distinct params among all right (List.cons_ne_nil _ _) recalls coherent

end Context.Sure

/-- A call is resolved as its arguments and the parameters demand. -/
theorem Context.Sure.selectOverload {cx : Context} {c : Checker} {r : Resolver}
    [DecidableRel (r.Affirms c)] (sure : cx.Sure c r) (coherent : cx.Coherent c) (call : Call)
    (sigs : List Signature) {args : List Ty} (count : args.length = call.args.length)
    (distinct : (sigs.map (·.decl.mark.id)).Nodup) (known : ∀ t ∈ args, c.Grounds t)
    (params : ∀ sig ∈ sigs, ∀ t ∈ sig.params, c.Grounds t) :
    ∃ found reported c', r.selectOverload call sigs args c = .ok (found, c') ∧
      c.Notes c' reported ∧ r.Resolves c call args sigs found reported := by
  by_cases wrong : .error ∈ args
  · have some : args.any Ty.isError = true := List.any_eq_true.mpr ⟨_, wrong, rfl⟩
    refine ⟨none, [], c, ?_, .quiet c, .wrong wrong⟩
    rw [Resolver.selectOverload, if_pos some]
    rfl
  obtain ⟨c₁, run, recalls, coherent₁⟩ :=
    sure.applicable sigs count known c (.refl c) coherent
  have all : ∀ sig, sig ∈ sigs.filter (r.Accepts c args ·) ↔ sig ∈ sigs ∧ r.Accepts c args sig := by
    simp
  obtain ⟨found, reported, c₂, run', noted, resolves⟩ :=
    sure.selectAmong distinct params List.filter_sublist all count known wrong recalls coherent₁
  refine ⟨found, reported, c₂, ?_, noted, resolves⟩
  rw [Resolver.selectOverload_eq r wrong]
  exact (Check.bind_eq run).trans run'

/-! ### The order of the overloads -/

namespace Resolver

variable {r : Resolver} {c : Checker} {call : Call} {args : List Ty} {sigs sigs' : List Signature}
  {d d' : Diagnostic}

theorem Leads.perm {sig : Signature} (leads : r.Leads c args sigs sig) (perm : sigs.Perm sigs') :
    r.Leads c args sigs' sig :=
  ⟨perm.mem_iff.mp leads.member, leads.accepts,
    fun other member => leads.least other (perm.mem_iff.mpr member)⟩

namespace Explains

theorem exists_accepts {xs : List Signature} (some : xs ≠ [])
    (all : ∀ sig, sig ∈ xs ↔ sig ∈ sigs ∧ r.Accepts c args sig) :
    ∃ sig ∈ sigs, r.Accepts c args sig :=
  (List.exists_mem_of_ne_nil xs some).imp fun sig => (all sig).mp

/-- A problem with a call is that no overload accepts the arguments, or that several ones do. -/
theorem cases_accepts (explains : r.Explains c call args sigs d)
    (count : args.length = call.args.length) :
    (∀ sig ∈ sigs, ¬r.Accepts c args sig) ∨
      ∃ applicable : List Signature, applicable.Sublist sigs ∧
        (∀ sig, sig ∈ applicable ↔ sig ∈ sigs ∧ r.Accepts c args sig) ∧ applicable ≠ [] ∧
        d = ⟨call.span, .ambiguousCall call.callee (applicable.map Signature.site)⟩ := by
  cases explains with
  | wrongArity alone arity =>
    subst alone
    refine .inl fun sig member accepts => ?_
    cases List.mem_singleton.mp member
    exact arity (accepts.length_eq.symm.trans count)
  | argument alone arity place argument param fails earlier =>
    subst alone
    refine .inl fun sig member accepts => ?_
    cases List.mem_singleton.mp member
    obtain ⟨inside, rfl⟩ := List.getElem?_eq_some_iff.mp argument
    obtain ⟨inside', rfl⟩ := List.getElem?_eq_some_iff.mp param
    exact fails (List.Forall₂.get accepts inside inside')
  | noMatch several none => exact .inl none
  | ambiguous among all some => exact .inr ⟨_, among, all, some, rfl⟩

/-- Of one overload that does not accept the arguments, one thing is said. -/
theorem lone {only : Signature} (explains : r.Explains c call args [only] d)
    (explains' : r.Explains c call args [only] d') (rejects : ¬r.Accepts c args only) : d = d' := by
  have ambiguous : ∀ {xs : List Signature}, xs ≠ [] →
      ¬∀ sig, sig ∈ xs ↔ sig ∈ [only] ∧ r.Accepts c args sig := by
    intro xs some all
    obtain ⟨sig, member, accepts⟩ := exists_accepts some all
    exact rejects (List.mem_singleton.mp member ▸ accepts)
  cases explains with
  | wrongArity alone arity =>
    cases alone
    cases explains' with
    | wrongArity alone' _ =>
      cases alone'
      rfl
    | argument alone' arity' =>
      cases alone'
      exact absurd arity' arity
    | noMatch several => exact absurd rfl several
    | ambiguous _ all some => exact absurd all (ambiguous some)
  | @argument _ i _ _ _ alone arity place argument param fails earlier =>
    cases alone
    cases explains' with
    | wrongArity alone' arity' =>
      cases alone'
      exact absurd arity arity'
    | @argument _ j _ _ _ alone' _ place' argument' param' fails' earlier' =>
      cases alone'
      rcases Nat.lt_trichotomy i j with before | rfl | after
      · exact absurd (earlier' i before _ _ argument param) fails
      · cases place.symm.trans place'
        cases argument.symm.trans argument'
        cases param.symm.trans param'
        rfl
      · exact absurd (earlier j after _ _ argument' param') fails'
    | noMatch several => exact absurd rfl several
    | ambiguous _ all some => exact absurd all (ambiguous some)
  | noMatch several => exact absurd rfl several
  | ambiguous _ all some => exact absurd all (ambiguous some)

/-- Of no overload or several ones, none of which accepts the arguments, one thing is said. -/
theorem unmatched (explains : r.Explains c call args sigs d) (several : sigs.length ≠ 1)
    (none : ∀ sig ∈ sigs, ¬r.Accepts c args sig) :
    d = ⟨call.span, .noOverloadMatches call.callee (sigs.map Signature.site)⟩ := by
  cases explains with
  | noMatch => rfl
  | ambiguous _ all some =>
    obtain ⟨sig, member, accepts⟩ := exists_accepts some all
    exact absurd accepts (none sig member)
  | wrongArity alone => exact absurd (by rw [alone]; rfl) several
  | argument alone => exact absurd (by rw [alone]; rfl) several

/-- In any order of the overloads the problem is the same. -/
theorem alike (explains : r.Explains c call args sigs d)
    (explains' : r.Explains c call args sigs' d')
    (count : args.length = call.args.length) (perm : sigs.Perm sigs') (single : sigs.Nodup) :
    d.Alike d' := by
  rcases explains.cases_accepts count with none | ⟨xs, among, all, some, rfl⟩ <;>
    rcases explains'.cases_accepts count with none' | ⟨ys, among', all', some', rfl⟩
  · by_cases one : sigs.length = 1
    · obtain ⟨only, rfl⟩ := List.length_eq_one_iff.mp one
      cases List.singleton_perm.mp perm
      cases explains.lone explains' (none only List.mem_cons_self)
      exact ⟨rfl, .same _⟩
    · cases explains.unmatched one none
      cases explains'.unmatched (perm.length_eq ▸ one) none'
      exact ⟨rfl, .noOverloadMatches (perm.map _)⟩
  · obtain ⟨sig, member, accepts⟩ := exists_accepts some' all'
    exact absurd accepts (none sig (perm.mem_iff.mpr member))
  · obtain ⟨sig, member, accepts⟩ := exists_accepts some all
    exact absurd accepts (none' sig (perm.mem_iff.mp member))
  · refine ⟨rfl, .ambiguousCall (List.Perm.map _ ?_)⟩
    rw [List.perm_ext_iff_of_nodup (single.sublist among)
      ((perm.nodup_iff.mp single).sublist among')]
    intro sig
    rw [all, all', perm.mem_iff]

end Explains

/-- In any order of the overloads the same one is selected, and the same problem is reported. -/
theorem Resolves.alike {found found' : Option Signature} {reported reported' : List Diagnostic}
    (resolves : r.Resolves c call args sigs found reported)
    (resolves' : r.Resolves c call args sigs' found' reported')
    (count : args.length = call.args.length) (perm : sigs.Perm sigs') (single : sigs.Nodup) :
    found' = found ∧ List.Forall₂ Diagnostic.Alike reported reported' := by
  have leads : ∀ sig, r.Leads c args sigs' sig ↔ r.Leads c args sigs sig := fun sig =>
    ⟨fun leads => leads.perm perm.symm, fun leads => leads.perm perm⟩
  have same : found' = found := by
    refine Option.ext fun sig => ?_
    simp only [resolves'.selected, resolves.selected, leads]
  subst same
  refine ⟨rfl, ?_⟩
  by_cases quiet : found'.isSome = true ∨ .error ∈ args
  · rw [resolves.silent quiet, resolves'.silent quiet]
    exact .nil
  · rw [not_or, Option.not_isSome_iff_eq_none] at quiet
    obtain ⟨d, rfl, explains⟩ := resolves.explained quiet.1 quiet.2
    obtain ⟨d', rfl, explains'⟩ := resolves'.explained quiet.1 quiet.2
    exact .cons (explains.alike explains' count perm single) .nil

/-- In any order of the overloads the same types are expected of the arguments. -/
theorem expectedArgs_perm (count : ℕ) (perm : sigs.Perm sigs') :
    expectedArgs count sigs' = expectedArgs count sigs := by
  have fitting := perm.filter fun sig => sig.params.length == count
  rw [expectedArgs, expectedArgs]
  generalize sigs.filter _ = xs at fitting ⊢
  generalize sigs'.filter _ = ys at fitting ⊢
  rcases xs with _ | ⟨only, _ | ⟨next, rest⟩⟩
  · rw [List.nil_perm.mp fitting]
  · rw [List.singleton_perm.mp fitting]
  · rcases ys with _ | ⟨only', _ | ⟨next', rest'⟩⟩
    · rfl
    · cases fitting.length_eq
    · rfl

end Resolver

/-! ### Calls -/

namespace Resolver

variable (r : Resolver)

theorem typeOfArgs_length {args : List (Expr Mark)} {expected types : List Ty} {c c₁ : Checker}
    (run : r.typeOfArgs args expected c = .ok (types, c₁)) : types.length = args.length := by
  induction args generalizing expected types c with
  | nil =>
    cases run
    rfl
  | cons e es ih =>
    obtain ⟨t, c₂, _, run⟩ := Check.bind_ok run
    obtain ⟨ts, c₃, typed, run⟩ := Check.bind_ok run
    cases run
    exact congrArg (· + 1) (ih typed)

/-- An expression that has its type keeps it, whatever is expected. -/
theorem typeOfExpr_known {e : Expr Mark} {t : Ty} {c : Checker}
    (found : c.nodeTypes.find? e.mark.id = some t) (expected : Option Ty) :
    r.typeOfExpr e expected c = .ok (t, c) := by
  have known : ∀ {find : Check Ty}, Check.once e.mark.id find c = .ok (t, c) := by
    intro find
    rw [Check.once, Check.get_bind, found]
    rfl
  cases e <;> (rw [typeOfExpr]; exact known)

/-- Arguments that have their types keep them, whatever is expected. -/
theorem typeOfArgs_known (expected : List Ty) {args : List (Expr Mark)} {types : List Ty}
    {c : Checker}
    (known : List.Forall₂ (fun e t => c.nodeTypes.find? e.mark.id = some t) args types) :
    r.typeOfArgs args expected c = .ok (types, c) := by
  induction known generalizing expected with
  | nil => rfl
  | @cons e t es ts found _ ih =>
    rw [typeOfArgs]
    exact (Check.bind_eq (r.typeOfExpr_known found _)).trans (Check.bind_eq (ih _))

/-- Types the arguments of a call and selects an overload. -/
def resolveCall (m : Mark) (name : String) (args : List (Expr Mark)) (sigs : List Signature) :
    Check (List Ty × Option Signature) := do
  let types ← r.typeOfArgs args (expectedArgs args.length sigs)
  let found ← r.selectOverload ⟨m.span, name, args.map Expr.span⟩ sigs types
  return (types, found)

/-- The type of a call is the result of the overload that it is resolved to. -/
theorem typeOfExpr_call {m : Mark} {f : Ident Mark} {args : List (Expr Mark)} {expected : Option Ty}
    {x : SymbolId} (target : r.symbolAt? f.mark.id = some x)
    (function : (r.symbol x).role = .function) :
    r.typeOfExpr (.call m f args) expected = Check.once m.id (do
      let sigs ← r.signaturesOf x
      let (_, found) ← r.resolveCall m (r.symbol x).name args sigs
      match found with
      | some sig =>
        Check.recordSignature m.id sig
        return sig.result
      | none => return .error) := by
  rw [typeOfExpr, target]
  simp only [function, resolveCall, bind_assoc]
  exact congrArg (Check.once m.id) (bind_congr fun _ => bind_congr fun _ => bind_congr fun _ => rfl)

end Resolver

/-! ### Programs -/

/-- Where the arguments of a call are typed, and every step up from their types and from those of
the parameters is found, the call is resolved to the one overload that accepts the arguments and
leads all others that do. If there is none, one problem is reported, unless an argument has a
problem itself. In any order of the overloads the same one is selected, and the same problem is
reported up to the order of the declarations that it points at. -/
theorem Draft.overload_selected (d : Draft) (options : Options) (n : ℕ) (m : Mark) (name : String)
    (args : List (Expr Mark)) (sigs : List Signature) {types : List Ty} {c c₁ : Checker}
    (typed : (Resolver.ofDepth (d.context options) (n + 1)).typeOfArgs args
      (Resolver.expectedArgs args.length sigs) c = .ok (types, c₁))
    (coherent : (d.context options).Coherent c₁) (distinct : (sigs.map (·.decl.mark.id)).Nodup)
    (known : ∀ t ∈ types, c₁.Grounds t) (params : ∀ sig ∈ sigs, ∀ t ∈ sig.params, c₁.Grounds t) :
    let r := Resolver.ofDepth (d.context options) (n + 1)
    ∃ found reported c₂, r.resolveCall m name args sigs c = .ok ((types, found), c₂) ∧
      c₁.Notes c₂ reported ∧
      r.Resolves c₁ ⟨m.span, name, args.map Expr.span⟩ types sigs found reported ∧
      ∀ sigs', sigs.Perm sigs' → ∃ reported' c₂',
        r.resolveCall m name args sigs' c = .ok ((types, found), c₂') ∧ c₁.Notes c₂' reported' ∧
        List.Forall₂ Diagnostic.Alike reported reported' := by
  classical
  intro r
  have sure := coherent.sure (d.grounded options) (d.spelled options) n
  have count : types.length = (args.map Expr.span).length := by
    rw [List.length_map, r.typeOfArgs_length typed]
  let call : Call := ⟨m.span, name, args.map Expr.span⟩
  have resolves : ∀ sigs', sigs.Perm sigs' → ∃ found reported c₂,
      r.resolveCall m name args sigs' c = .ok ((types, found), c₂) ∧ c₁.Notes c₂ reported ∧
      r.Resolves c₁ call types sigs' found reported := by
    intro sigs' perm
    obtain ⟨found, reported, c₂, run, noted, resolves⟩ := sure.selectOverload coherent
      call sigs' count ((perm.map _).nodup_iff.mp distinct) known
      fun sig member => params sig (perm.mem_iff.mpr member)
    refine ⟨found, reported, c₂, ?_, noted, resolves⟩
    rw [← Resolver.expectedArgs_perm _ perm] at typed
    exact (Check.bind_eq typed).trans (Check.bind_eq run)
  obtain ⟨found, reported, c₂, run, noted, resolved⟩ := resolves sigs (.refl sigs)
  refine ⟨found, reported, c₂, run, noted, resolved, fun sigs' perm => ?_⟩
  obtain ⟨found', reported', c₂', run', noted', resolved'⟩ := resolves sigs' perm
  obtain ⟨rfl, alike⟩ := resolved.alike resolved' count perm distinct.of_map
  exact ⟨reported', c₂', run', noted', alike⟩

/-- A draft with a function of an integer and one of a single integer. -/
def Draft.overloaded : Draft where
  text := "def f(n: Int): Int = 1 def f(n: 7): Int = 2 f(7)"
  stmts :=
    [.fn ⟨[], ⟨[], "f"⟩, [⟨[], ⟨[], "n"⟩, .refer [] ⟨[], "Int"⟩⟩], some (.refer [] ⟨[], "Int"⟩),
        .lit ⟨[], .int 1⟩⟩,
      .fn ⟨[], ⟨[], "f"⟩, [⟨[], ⟨[], "n"⟩, .lit [] ⟨[], .int 7⟩ false⟩],
        some (.refer [] ⟨[], "Int"⟩), .lit ⟨[], .int 2⟩⟩,
      .expr [] (.call [] ⟨[], "f"⟩ [.lit ⟨[], .int 7⟩])]

theorem Draft.overloaded_call :
    ((overloaded.context default).checked.toOption.any fun q => !q.hasErrors &&
      match (overloaded.context default).program.stmts.getLast? with
      | some (.expr _ (.call m _ [e])) =>
        q.checker.nodeTypes.find? e.mark.id == some (.literal (.int 7)) &&
        match (overloaded.context default).resolver.signaturesOf 2 q.checker with
        | .error _ => false
        | .ok (sigs, _) =>
          decide (sigs.map (·.decl.mark.id)).Nodup &&
          sigs.all (fun sig => sig.params.all fun t =>
            t == .intrinsic .int || t == .literal (.int 7)) &&
          match (overloaded.context default).resolver.resolveCall m "f" [e] sigs q.checker with
          | .error _ => false
          | .ok ((_, found), _) => found.any fun sig => sig.params == [.literal (.int 7)]
      | _ => false) = true := by
  decide +kernel

/-- The singleton of 7 is selected for 7, and both functions accept it. -/
theorem Draft.overload_selected_narrower : ∃ q m args sigs sig c₂,
    overloaded.Passes default q ∧
    (overloaded.context default).resolver.resolveCall m "f" args sigs q.checker =
      .ok (([.literal (.int 7)], some sig), c₂) ∧
    sig.params = [.literal (.int 7)] ∧
    (overloaded.context default).resolver.Leads q.checker [.literal (.int 7)] sigs sig := by
  have served := overloaded_call
  cases checked : (overloaded.context default).checked with
  | error e =>
    rw [checked] at served
    cases served
  | ok q =>
    simp only [checked, Except.toOption, Option.any_some, Bool.and_eq_true,
      Bool.not_eq_true'] at served
    obtain ⟨clean, served⟩ := served
    split at served
    next _ m f e _ =>
      simp only [Bool.and_eq_true] at served
      obtain ⟨typed, served⟩ := served
      split at served
      · cases served
      next sigs _ signed =>
      simp only [Bool.and_eq_true] at served
      obtain ⟨⟨distinct, plain⟩, served⟩ := served
      split at served
      · cases served
      next types found c₂ run =>
      have passes : overloaded.Passes default q := ⟨checked, clean⟩
      have arguments := Resolver.typeOfArgs_known (overloaded.context default).resolver
        (Resolver.expectedArgs 1 sigs) (.cons (eq_of_beq typed) .nil)
      have grounds : ∀ sig ∈ sigs, ∀ t ∈ sig.params, q.checker.Grounds t := by
        intro sig member t inside
        have kinds := List.all_eq_true.mp (List.all_eq_true.mp plain sig member) t inside
        rcases (Bool.or_eq_true _ _).mp kinds with same | same <;> rw [eq_of_beq same]
        · exact .kind _
        · exact .literal _
      obtain ⟨found', _, c₂', run', _, resolves, _⟩ :=
        overload_selected overloaded default _ m "f" [e] sigs arguments passes.hosts.coherent
          (of_decide_eq_true distinct)
          (fun t member => List.mem_singleton.mp member ▸ .literal _) grounds
      cases run.symm.trans run'
      obtain ⟨sig, rfl, params⟩ := (Option.any_eq_true _ _).mp served
      exact ⟨q, m, [e], sigs, sig, c₂, passes, run, eq_of_beq params,
        ((resolves.selected sig).mp rfl).2.1⟩
    · cases served

end Solo
