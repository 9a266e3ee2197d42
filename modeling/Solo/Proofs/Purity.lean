import Solo.Proofs.Steady

/-!
# Judgements of purity

What a verdict of purity rests on. `Expr.Pure` says for an expression in the body of `owner` that it
neither prints nor assigns, that no operator in it can divide by zero, that a match in it has a
wildcard, and that each of its reads either comes after the declaration or is one of the outside
reads `R`. The calls in it are to functions that a table `P` of verdicts calls pure.

A verdict is judged by the table `P` that all judgements end with.
-/

namespace Solo

section
variable (p : BoundProgram) (F : Checker) (P : Table NodeId Purity) (owner : Option (FnDecl Mark))
  (R : SymbolId → Prop)

/-- A declaration that the owner contains. -/
def Owns (d : Decl) : Prop := (owner.all fun f => d.mark.span.within f.mark.span) = true

/-- A read at a place finds the binding initialized, as far as the owner's own bindings go. -/
def ReadsWell (x : SymbolId) (place : Span) : Prop :=
  ∃ d, (p.symbol x).role.isBinding = true ∧ (p.symbol x).decls.head? = some d ∧
    (Owns owner d ∧ d.mark.span.hi ≤ place.lo ∨ ¬Owns owner d ∧ R x)

mutual
def Expr.Pure : Expr Mark → Prop
  | .lit _ => True
  | .inhabitant _ _ => True
  | .name x => ∃ s, p.symbolAt? x.mark.id = some s ∧ ReadsWell p owner R s x.mark.span
  | .paren _ e => e.Pure
  | .unary _ _ e => e.Pure
  | .bin _ op a b =>
    a.Pure ∧ b.Pure ∧ (op.divides = true → ∃ v, Constant p F b v ∧ v.isZero = false)
  | .block _ ss tail => stmtsPure ss ∧ tailPure tail
  | .cases _ e arms => arms.any (·.pat.isWildcard) = true ∧ e.Pure ∧ armsPure arms
  | .call m _ args =>
    ∃ sig reads, F.signatures.find? m.id = some sig ∧ exprsPure args ∧
      P.find? sig.decl.mark.id = some (.pure reads) ∧
      ∀ x ∈ reads, ReadsWell p owner R x m.span
  | .assign _ _ _ => False
  | .host _ _ => False

def exprsPure : List (Expr Mark) → Prop
  | [] => True
  | e :: es => e.Pure ∧ exprsPure es

def tailPure : Option (Expr Mark) → Prop
  | none => True
  | some e => e.Pure

def armsPure : List (Arm Mark) → Prop
  | [] => True
  | ⟨_, _, e⟩ :: arms => e.Pure ∧ armsPure arms

def stmtPure : Stmt Mark → Prop
  | .val ⟨_, _, _, _, e⟩ => e.Pure
  | .typeAlias _ => True
  | .fn _ => True
  | .expr _ e => e.Pure

def stmtsPure : List (Stmt Mark) → Prop
  | [] => True
  | s :: ss => stmtPure s ∧ stmtsPure ss
end

def PuritiesRight (c : Checker) : Prop :=
  ∀ d, .stmt (.fn d) ∈ p.program.nodes → ∀ reads,
    c.purities.find? d.mark.id = some (.pure reads) → d.body.Pure p F P (some d) (· ∈ reads)

def unjudged (c : Checker) : List (FnDecl Mark) :=
  p.program.functions.filter fun d => !c.purities.contains d.mark.id

end

/-- The verdicts of a table that a function is pure are verdicts of another one. -/
def Verdicts (t u : Table NodeId Purity) : Prop :=
  ∀ i reads, t.find? i = some (.pure reads) → u.find? i = some (.pure reads)

theorem Verdicts.ofWithin {t u w : Table NodeId Purity} (within : t.Within u)
    (verdicts : Verdicts u w) : Verdicts t w :=
  fun i reads found => verdicts i reads (within i _ found)

section
variable (p : BoundProgram) (F : Checker)

/-- What judging does to a checker: it only adds verdicts, and what it adds is right. -/
structure Judged (c c' : Checker) : Prop where
  like : F.Like c'
  within : c.purities.Within c'.purities
  right : ∀ P, Verdicts c'.purities P → PuritiesRight p F P c → PuritiesRight p F P c'

def reads? (s : Option (List SymbolId)) : List SymbolId := s.getD []

/-- A judgement that ends, provided that fewer than `n` functions are still to be judged. If it is
good then `Q` holds, whatever outside reads `R` are allowed that contain the collected ones. -/
def Judges (n : Nat) (a : Judge Bool) (Q : Table NodeId Purity → (SymbolId → Prop) → Prop) : Prop :=
  ∀ s c, F.Like c → (unjudged p c).length < n → ∃ good s' c', a s c = .ok ((good, s'), c') ∧
    Judged p F c c' ∧ reads? s ⊆ reads? s' ∧ (s = none → s' = none) ∧
    ∀ P, Verdicts c'.purities P → good = true →
      ∀ R : SymbolId → Prop, (∀ x ∈ reads? s', R x) → Q P R

/-- A judgement of functions that ends in the same way, with a verdict. -/
def JudgesCall (n : Nat) (callIsPure : FnDecl Mark → Check Bool) : Prop :=
  ∀ d, .stmt (.fn d) ∈ p.program.nodes → ∀ c, F.Like c → (unjudged p c).length < n →
    ∃ good c', callIsPure d c = .ok (good, c') ∧ Judged p F c c' ∧
      (good = true → ∃ reads, c'.purities.find? d.mark.id = some (.pure reads))

end

section
variable {p : BoundProgram} {F : Checker} {c c₁ c₂ : Checker}

/-! ### Functions to be judged -/

theorem unjudged_filter (within : c.purities.Within c₁.purities) :
    unjudged p c₁ = (unjudged p c).filter fun d => !c₁.purities.contains d.mark.id := by
  unfold unjudged
  rw [List.filter_filter]
  refine List.filter_congr fun d _ => ?_
  cases known : c.purities.find? d.mark.id with
  | none => simp [Table.contains, known]
  | some v => simp [Table.contains, within _ _ known]

theorem unjudged_le (within : c.purities.Within c₁.purities) :
    (unjudged p c₁).length ≤ (unjudged p c).length := by
  rw [unjudged_filter within]
  exact List.length_filter_le _ _

theorem unjudged_lt (within : c.purities.Within c₁.purities) {d : FnDecl Mark}
    (node : .stmt (.fn d) ∈ p.program.nodes) (new : c.purities.find? d.mark.id = none)
    (known : c₁.purities.contains d.mark.id = true) :
    (unjudged p c₁).length < (unjudged p c).length := by
  rw [unjudged_filter within]
  refine List.length_filter_lt_length_iff_exists.mpr ⟨d, ?_, by simp [known]⟩
  refine List.mem_filter.mpr ⟨List.mem_filterMap.mpr ⟨_, node, rfl⟩, ?_⟩
  simp [Table.contains, new]

namespace Judged

theorem refl (like : F.Like c) : Judged p F c c := ⟨like, .refl _, fun _ _ right => right⟩

theorem trans (first : Judged p F c c₁) (second : Judged p F c₁ c₂) : Judged p F c c₂ where
  like := second.like
  within := first.within.trans second.within
  right P verdicts right :=
    second.right P verdicts (first.right P (verdicts.ofWithin second.within) right)

theorem fuel {n : Nat} (judged : Judged p F c c₁) (fuel : (unjudged p c).length < n) :
    (unjudged p c₁).length < n :=
  Nat.lt_of_le_of_lt (unjudged_le judged.within) fuel

end Judged

/-! ### Rules -/

theorem Judge.bind_eq {α β : Type} {a : Judge α} {f : α → Judge β} {s s' : Option (List SymbolId)}
    {x : α} (run : a s c = .ok ((x, s'), c₁)) : (a >>= f) s c = f x s' c₁ :=
  Check.bind_eq (f := fun r : α × Option (List SymbolId) => f r.1 r.2) run

namespace Judges

variable {n : Nat} {a b : Judge Bool} {Q Q₁ Q₂ : Table NodeId Purity → (SymbolId → Prop) → Prop}

theorem pure {good : Bool} (holds : good = true → ∀ P R, Q P R) :
    Judges p F n (Pure.pure good) Q :=
  fun s c like _ => ⟨good, s, c, rfl, .refl like, List.Subset.refl _, id,
    fun P _ yes R _ => holds yes P R⟩

theorem no : Judges p F n (Pure.pure false) Q := pure nofun

theorem weaken (judges : Judges p F n a Q₁) (gives : ∀ P R, Q₁ P R → Q P R) : Judges p F n a Q := by
  intro s c like fuel
  obtain ⟨good, s₁, c₁, run, judged, reads, none, holds⟩ := judges s c like fuel
  exact ⟨good, s₁, c₁, run, judged, reads, none,
    fun P verdicts yes R all => gives P R (holds P verdicts yes R all)⟩

theorem andThen (first : Judges p F n a Q₁) (second : Judges p F n b Q₂) :
    Judges p F n (.andThen a b) fun P R => Q₁ P R ∧ Q₂ P R := by
  intro s c like fuel
  obtain ⟨good, s₁, c₁, run₁, judged₁, reads₁, none₁, holds₁⟩ := first s c like fuel
  have run : Judge.andThen a b s c = (if good = true then b else Pure.pure false : Judge Bool) s₁ c₁ :=
    Judge.bind_eq run₁
  cases good with
  | false =>
    exact ⟨false, s₁, c₁, run, judged₁, reads₁, none₁, nofun⟩
  | true =>
    obtain ⟨good, s₂, c₂, run₂, judged₂, reads₂, none₂, holds₂⟩ :=
      second s₁ c₁ judged₁.like (judged₁.fuel fuel)
    refine ⟨good, s₂, c₂, run.trans run₂, judged₁.trans judged₂,
      List.Subset.trans reads₁ reads₂, fun absent => none₂ (none₁ absent), ?_⟩
    intro P verdicts yes R all
    exact ⟨holds₁ P (verdicts.ofWithin judged₂.within) rfl R fun x member => all x (reads₂ member),
      holds₂ P verdicts yes R all⟩

theorem lift {a : Check Bool} {Q₁ : Bool → Prop} (steady : Steady F a Q₁)
    (holds : Q₁ true → ∀ P R, Q P R) : Judges p F n (liftM a) Q := by
  intro s c like _
  obtain ⟨good, c₁, run, like₁, same, found⟩ := steady c like
  refine ⟨good, s, c₁, ?_, ⟨like₁, ?_, ?_⟩, List.Subset.refl _, id, ?_⟩
  · change (a >>= fun x => Pure.pure (x, s)) c = _
    rw [Check.bind_eq run]
    rfl
  · rw [same]
    exact .refl _
  · intro P _ right d node reads
    rw [same]
    exact right d node reads
  · rintro P _ rfl R _
    exact holds found P R

end Judges

section
variable (owner : Option (FnDecl Mark))

theorem Judges.readIsPure {r : Resolver} (n : Nat) (x : SymbolId) (place : Span) :
    Judges r.toBoundProgram F n (r.readIsPure owner x place) fun _ R =>
      ReadsWell r.toBoundProgram owner R x place := by
  unfold Resolver.readIsPure
  dsimp only
  split
  · next d binding head =>
    split
    · next own =>
      exact .pure fun before _ _ => ⟨d, binding, head, .inl ⟨own, of_decide_eq_true before⟩⟩
    · next outside =>
      intro s c like _
      cases s with
      | none => exact ⟨false, none, c, rfl, .refl like, List.Subset.refl _, id, nofun⟩
      | some reads =>
        by_cases known : reads.contains x = true
        · refine ⟨true, some reads, c, ?_, .refl like, List.Subset.refl _, nofun, ?_⟩
          · change (if (!reads.contains x) = true then _ else _ : Judge Bool) (some reads) c = _
            rw [known]
            rfl
          · intro P _ _ R all
            exact ⟨d, binding, head, .inr ⟨outside, all x (List.contains_iff_mem.mp known)⟩⟩
        · refine ⟨true, some (reads ++ [x]), c, ?_, .refl like, List.subset_append_left _ _, nofun, ?_⟩
          · change (if (!reads.contains x) = true then _ else _ : Judge Bool) (some reads) c = _
            rw [(Bool.not_eq_true _).mp known]
            rfl
          · intro P _ _ R all
            exact ⟨d, binding, head, .inr ⟨outside, all x (List.mem_append_right _ List.mem_cons_self)⟩⟩
  · exact .no

theorem Judge.allM_cons {α : Type} (f : α → Judge Bool) (x : α) (xs : List α) :
    (x :: xs).allM f = Judge.andThen (f x) (xs.allM f) := by
  rw [List.allM, Judge.andThen]
  congr 1
  funext good
  cases good <;> rfl

theorem Judges.allM {r : Resolver} (n : Nat) (place : Span) (xs : List SymbolId) :
    Judges r.toBoundProgram F n (xs.allM fun x => r.readIsPure owner x place) fun _ R =>
      ∀ x ∈ xs, ReadsWell r.toBoundProgram owner R x place := by
  induction xs with
  | nil => exact .pure fun _ _ _ => nofun
  | cons x xs ih =>
    rw [Judge.allM_cons]
    refine Judges.weaken (.andThen (.readIsPure owner n x place) ih) ?_
    intro P R both y member
    rcases List.mem_cons.mp member with rfl | later
    · exact both.1
    · exact both.2 y later

end

end

/-! ### Trees -/

namespace Certified

variable {cx : Context} {F : Checker} {n : Nat} {judge : FnDecl Mark → Check Bool}

/-- The function that a call is resolved to. -/
theorem callee {p : BoundProgram} (cert : Certified p F) {m : Mark} {f : Ident Mark}
    {args : List (Expr Mark)} {sig : Signature} (node : .expr (.call m f args) ∈ p.program.nodes)
    (found : F.signatures.find? m.id = some sig) :
    Calls p F f sig ∧ .stmt (.fn sig.decl) ∈ p.program.nodes := by
  have calls := cert.sound.calls m f args node sig found
  obtain ⟨x, target, role, offers, signed⟩ := calls
  refine ⟨⟨x, target, role, offers, signed⟩, ?_⟩
  have owns := cert.bound.owns_of_role (x := x) (by rw [role]; nofun) (by rw [role]; nofun)
  exact (owns.each _ offers.overload).1

theorem isNonZeroConstant (cert : Certified cx.toBoundProgram F) (e : Expr Mark) :
    Steady F (cx.resolver.isNonZeroConstant e) fun good => good = true →
      ∃ v, Constant cx.toBoundProgram F e v ∧ v.isZero = false := by
  refine (cert.constantAt 0 e).bind fun found right => .pure fun nonZero => ?_
  cases found with
  | none => cases nonZero
  | some v => exact ⟨v, right v rfl, by simpa using nonZero⟩

section
variable (cert : Certified cx.toBoundProgram F) (owner : Option (FnDecl Mark))
  (calls : JudgesCall cx.toBoundProgram F n judge)
include cert calls

omit cert in
theorem readsOfCall {d : FnDecl Mark} (node : .stmt (.fn d) ∈ cx.program.nodes) (place : Span) :
    Judges cx.toBoundProgram F n (do
      if ← judge d then
        (← Check.outerReads d).allM fun x => cx.resolver.readIsPure owner x place
      else return false) fun P R =>
        ∃ reads, P.find? d.mark.id = some (.pure reads) ∧
          ∀ x ∈ reads, ReadsWell cx.toBoundProgram owner R x place := by
  intro s c like fuel
  obtain ⟨good, c₁, run, judged, verdict⟩ := calls d node c like fuel
  have lifted : (liftM (judge d) : Judge Bool) s c = .ok ((good, s), c₁) := by
    change (judge d >>= fun x => Pure.pure (x, s)) c = _
    rw [Check.bind_eq run]
    rfl
  cases good with
  | false =>
    refine ⟨false, s, c₁, ?_, judged, List.Subset.refl _, id, nofun⟩
    exact Judge.bind_eq lifted
  | true =>
    obtain ⟨reads, verdict⟩ := verdict rfl
    have known : Check.outerReads d c₁ = .ok (reads, c₁) := by
      rw [Check.outerReads, Check.get_bind, verdict]
      rfl
    have outer : (liftM (Check.outerReads d) : Judge (List SymbolId)) s c₁ =
        .ok ((reads, s), c₁) := by
      change (Check.outerReads d >>= fun x => Pure.pure (x, s)) c₁ = _
      rw [Check.bind_eq known]
      rfl
    obtain ⟨good, s₂, c₂, run₂, judged₂, reads₂, none₂, holds₂⟩ :=
      Judges.allM (r := cx.resolver) owner n place reads s c₁ judged.like (judged.fuel fuel)
    refine ⟨good, s₂, c₂, ?_, judged.trans judged₂, reads₂, none₂, ?_⟩
    · exact (Judge.bind_eq lifted).trans ((Judge.bind_eq outer).trans run₂)
    · intro P verdicts yes R all
      exact ⟨reads, verdicts _ _ (judged₂.within _ _ verdict), holds₂ P verdicts yes R all⟩

theorem callIsPure {m : Mark} {f : Ident Mark} {args : List (Expr Mark)}
    (node : .expr (.call m f args) ∈ cx.program.nodes)
    (argsPure : Judges cx.toBoundProgram F n (cx.resolver.exprsArePure judge owner args)
      fun P R => exprsPure cx.toBoundProgram F P owner R args) :
    Judges cx.toBoundProgram F n (cx.resolver.exprIsPure judge owner (.call m f args))
      fun P R => (Expr.call m f args).Pure cx.toBoundProgram F P owner R := by
  intro s c like fuel
  rw [Resolver.exprIsPure, Check.getThe_bind, like.signatures]
  cases found : F.signatures.find? m.id with
  | none => exact Judges.no s c like fuel
  | some sig =>
    have known := (cert.callee node found).2
    refine Judges.weaken (argsPure.andThen (readsOfCall owner calls known m.span)) ?_ s c like fuel
    rintro P R ⟨args, reads, pure, reads_well⟩
    exact ⟨sig, reads, found, args, pure, reads_well⟩

set_option linter.unusedSectionVars false

mutual
theorem exprIsPure : ∀ e : Expr Mark, e.nodes ⊆ cx.program.nodes →
    Judges cx.toBoundProgram F n (cx.resolver.exprIsPure judge owner e)
      fun P R => e.Pure cx.toBoundProgram F P owner R
  | .lit _, _ => .pure fun _ _ _ => trivial
  | .inhabitant _ _, _ => .pure fun _ _ _ => trivial
  | .name x, _ => by
    rw [Resolver.exprIsPure]
    split
    · next s target =>
      exact Judges.weaken (.readIsPure (r := cx.resolver) owner n s _) fun P R well => ⟨s, target, well⟩
    · exact .no
  | .paren _ e, inside => exprIsPure e (Answers.below_left inside)
  | .unary _ _ e, inside => exprIsPure e (Answers.below_left inside)
  | .bin _ op a b, inside => by
    refine Judges.andThen (exprIsPure a (Answers.below_left (Answers.below_left inside)))
      (.andThen (exprIsPure b (Answers.below_right (Answers.below_left inside))) ?_)
    split
    · exact .lift (cert.isNonZeroConstant b) fun found _ _ _ => found rfl
    · next safe => exact .pure fun _ _ _ divides => absurd divides safe
  | .block _ ss tail, inside =>
    .andThen (stmtsArePure ss (Answers.below_left (Answers.below_left inside)))
      (tailIsPure tail (Answers.below_right (Answers.below_left inside)))
  | .cases _ e arms, inside => by
    rw [Resolver.exprIsPure]
    split
    · next wild =>
      refine Judges.weaken (.andThen (exprIsPure e (Answers.below_left (Answers.below_left inside)))
        (armsArePure arms (Answers.below_right (Answers.below_left inside)))) ?_
      exact fun P R both => ⟨wild, both⟩
    · exact .no
  | .call m f args, inside =>
    callIsPure cert owner calls (inside (Expr.mem_nodes _))
      (exprsArePure args (List.cons_subset.mp (Answers.below_left inside)).2)
  | .assign _ _ _, _ => .no
  | .host _ _, _ => .no

theorem exprsArePure : ∀ es : List (Expr Mark), exprsNodes es ⊆ cx.program.nodes →
    Judges cx.toBoundProgram F n (cx.resolver.exprsArePure judge owner es)
      fun P R => exprsPure cx.toBoundProgram F P owner R es
  | [], _ => .pure fun _ _ _ => trivial
  | e :: es, inside =>
    .andThen (exprIsPure e (Answers.below_left inside)) (exprsArePure es (Answers.below_right inside))

theorem tailIsPure : ∀ tail : Option (Expr Mark), tailNodes tail ⊆ cx.program.nodes →
    Judges cx.toBoundProgram F n (cx.resolver.tailIsPure judge owner tail)
      fun P R => tailPure cx.toBoundProgram F P owner R tail
  | none, _ => .pure fun _ _ _ => trivial
  | some e, inside => exprIsPure e inside

theorem armsArePure : ∀ arms : List (Arm Mark), armsNodes arms ⊆ cx.program.nodes →
    Judges cx.toBoundProgram F n (cx.resolver.armsArePure judge owner arms)
      fun P R => armsPure cx.toBoundProgram F P owner R arms
  | [], _ => .pure fun _ _ _ => trivial
  | ⟨_, _, e⟩ :: arms, inside =>
    .andThen (exprIsPure e (Answers.below_right (Answers.below_left (Answers.below_left inside))))
      (armsArePure arms (Answers.below_right inside))

theorem stmtIsPure : ∀ s : Stmt Mark, s.nodes ⊆ cx.program.nodes →
    Judges cx.toBoundProgram F n (cx.resolver.stmtIsPure judge owner s)
      fun P R => stmtPure cx.toBoundProgram F P owner R s
  | .val ⟨_, _, _, _, e⟩, inside => exprIsPure e (Answers.below_right (Answers.below_left inside))
  | .typeAlias _, _ => .pure fun _ _ _ => trivial
  | .fn _, _ => .pure fun _ _ _ => trivial
  | .expr _ e, inside => exprIsPure e (Answers.below_left inside)

theorem stmtsArePure : ∀ ss : List (Stmt Mark), stmtsNodes ss ⊆ cx.program.nodes →
    Judges cx.toBoundProgram F n (cx.resolver.stmtsArePure judge owner ss)
      fun P R => stmtsPure cx.toBoundProgram F P owner R ss
  | [], _ => .pure fun _ _ _ => trivial
  | s :: ss, inside =>
    .andThen (stmtIsPure s (Answers.below_left inside)) (stmtsArePure ss (Answers.below_right inside))
end

end

/-! ### Functions -/

section
variable (cert : Certified cx.toBoundProgram F)
include cert

/-- While the body of a function is judged its entry stays as it is, so that the verdict is the
first one. -/
theorem judgeBody {d : FnDecl Mark} (node : .stmt (.fn d) ∈ cx.program.nodes)
    (calls : JudgesCall cx.toBoundProgram F n judge) {c : Checker} (like : F.Like c)
    (fuel : (unjudged cx.toBoundProgram c).length < n + 1)
    (new : c.purities.find? d.mark.id = none) :
    ∃ good reads c₂ c₃,
      (cx.resolver.exprIsPure judge (some d) d.body).run (some [])
        { c with purities := c.purities.insert d.mark.id .judging } = .ok ((good, reads), c₂) ∧
      c₃ = { c₂ with
        purities :=
          c₂.purities.insert d.mark.id (if good then .pure (reads.getD []) else .impure) } ∧
      Judged cx.toBoundProgram F c c₃ := by
  have begun : c.purities.Within (c.purities.insert d.mark.id .judging) :=
    .insert _ (Table.contains_eq_false.mpr new)
  have like₁ : F.Like { c with purities := c.purities.insert d.mark.id .judging } :=
    like.update (f := fun c => { c with purities := c.purities.insert d.mark.id .judging })
      fun _ => ⟨_, _, _, _, rfl⟩
  have fewer : (unjudged cx.toBoundProgram
      { c with purities := c.purities.insert d.mark.id .judging }).length <
        (unjudged cx.toBoundProgram c).length :=
    unjudged_lt begun node new (by simp [Table.contains])
  have body : d.body.nodes ⊆ cx.program.nodes := by
    obtain ⟨m, x, qs, result, e⟩ := d
    exact fun k below => Program.mem_below node
      (List.mem_append_left _ (List.mem_append_right _ below))
  obtain ⟨good, reads, c₂, run, judged, _, _, holds⟩ :=
    cert.exprIsPure (some d) calls d.body body (some []) _ like₁
      (Nat.lt_of_lt_of_le fewer (Nat.le_of_lt_succ fuel))
  refine ⟨good, reads, c₂, _, run, rfl, ?_⟩
  have judging : c₂.purities.find? d.mark.id = some .judging :=
    judged.within _ _ (Table.find?_insert_self ..)
  have other : ∀ i, i ≠ d.mark.id → ∀ v, (c₂.purities.insert d.mark.id v).find? i =
      c₂.purities.find? i := fun i apart v => Table.find?_insert_other _ _ apart
  refine ⟨judged.like.update fun _ => ⟨_, _, _, _, rfl⟩, ?_, ?_⟩
  · intro i v found
    have apart : i ≠ d.mark.id := by
      rintro rfl
      rw [new] at found
      cases found
    rw [other i apart]
    exact judged.within _ _ (begun i v found)
  · intro P verdicts right
    have verdicts₂ : Verdicts c₂.purities P := by
      intro i rs found
      have apart : i ≠ d.mark.id := by
        rintro rfl
        rw [judging] at found
        cases found
      exact verdicts i rs ((other i apart _).trans found)
    have right₂ := judged.right P verdicts₂ fun d' node' rs found => by
      have apart : d'.mark.id ≠ d.mark.id := by
        intro same
        rw [same, Table.find?_insert_self] at found
        cases found
      rw [Table.find?_insert_other _ _ apart] at found
      exact right d' node' rs found
    intro d' node' rs found
    by_cases same : d'.mark.id = d.mark.id
    · cases cert.bound.node_unique node' node same
      rw [Table.find?_insert_self] at found
      cases good with
      | false => cases found
      | true =>
        cases found
        exact holds P verdicts₂ rfl _ fun x member => member
    · rw [other _ same] at found
      exact right₂ d' node' rs found

theorem fnIsPureWithin (n : Nat) :
    JudgesCall cx.toBoundProgram F n (cx.resolver.fnIsPureWithin n) := by
  induction n with
  | zero => exact fun d _ c _ fuel => absurd fuel (Nat.not_lt_zero _)
  | succ n ih =>
    intro d node c like fuel
    rw [Resolver.fnIsPureWithin, Check.get_bind]
    cases known : c.purities.find? d.mark.id with
    | none =>
      obtain ⟨good, reads, c₂, c₃, body, rfl, judged⟩ := cert.judgeBody node ih like fuel known
      refine ⟨good, _, ?_, judged, ?_⟩
      · exact (Check.bind_eq rfl).trans ((Check.bind_eq body).trans (Check.bind_eq rfl))
      · rintro rfl
        exact ⟨_, Table.find?_insert_self ..⟩
    | some v =>
      cases v with
      | pure reads => exact ⟨true, c, rfl, .refl like, fun _ => ⟨reads, known⟩⟩
      | judging => exact ⟨false, c, rfl, .refl like, fun yes => absurd yes Bool.false_ne_true⟩
      | impure => exact ⟨false, c, rfl, .refl like, fun yes => absurd yes Bool.false_ne_true⟩

/-- There are enough steps to judge all functions. -/
theorem fnIsPure : JudgesCall cx.toBoundProgram F (cx.nodeCount + 1) cx.resolver.fnIsPure :=
  cert.fnIsPureWithin _

omit cert in
theorem unjudged_lt_nodeCount (sized : cx.program.nodes.length ≤ cx.nodeCount) (c : Checker) :
    (unjudged cx.toBoundProgram c).length < cx.nodeCount + 1 := by
  refine Nat.lt_succ_of_le (Nat.le_trans (List.length_filter_le _ _) (Nat.le_trans ?_ sized))
  exact List.length_filterMap_le _ _

theorem isPureWithin (sized : cx.program.nodes.length ≤ cx.nodeCount)
    (owner : Option (FnDecl Mark)) {e : Expr Mark} (inside : e.nodes ⊆ cx.program.nodes)
    {c : Checker} (like : F.Like c) :
    ∃ good c', cx.resolver.isPureWithin owner e c = .ok (good, c') ∧
      Judged cx.toBoundProgram F c c' ∧ ∀ P, Verdicts c'.purities P → good = true →
        e.Pure cx.toBoundProgram F P owner fun _ => False := by
  obtain ⟨good, reads, c₁, run, judged, _, none, holds⟩ :=
    cert.exprIsPure owner cert.fnIsPure e inside none c like (unjudged_lt_nodeCount sized c)
  refine ⟨good, c₁, Check.bind_eq run, judged, ?_⟩
  intro P verdicts yes
  refine holds P verdicts yes _ ?_
  rw [none rfl]
  exact nofun

end

end Certified

end Solo
