import Solo.Proofs.Soundness
import Solo.Proofs.WriteOnce

/-!
# The error type is never silent

What cannot be typed gets the error type, often without a report, because something else has
reported the reason or is going to. So after a check without an error the error type is nowhere: no
binding, node or alias has it, and no signature mentions it.
-/

namespace Solo

/-- The nodes that may have a type. -/
def Node.isTypable : Node Mark → Bool
  | .expr _ | .ty _ | .pat _ => true
  | _ => false

def Signature.ErrorFree (sig : Signature) : Prop :=
  (∀ t ∈ sig.params, t ≠ .error) ∧ sig.result ≠ .error

/-- The error type is nowhere among what is found of a program. -/
structure Checker.ErrorFree (c : Checker) (p : BoundProgram) : Prop where
  bindings : ∀ x, (p.symbol x).role.isBinding = true →
    ∃ t, c.symbolTypes.find? x = some t ∧ t ≠ .error
  aliases : ∀ x, (p.symbol x).role.isType = true →
    ∀ t, c.aliasTargets.find? x = some t → t ≠ .error
  nodes : ∀ n ∈ p.program.nodes, n.isTypable = true →
    ∀ t, c.nodeTypes.find? n.mark.id = some t → t ≠ .error
  functions : ∀ d, .stmt (.fn d) ∈ p.program.nodes →
    ∃ sig, c.signatures.find? d.mark.id = some sig ∧ sig.ErrorFree
  calls : ∀ m f args, .expr (.call m f args) ∈ p.program.nodes →
    ∀ sig, c.signatures.find? m.id = some sig → sig.ErrorFree

section
variable {p : BoundProgram} {c : Checker}

theorem Signed.errorFree {d : FnDecl Mark} {sig : Signature} (signed : Signed p c d sig) :
    sig.ErrorFree :=
  ⟨fun t member => (signed.params_sane t member).1, signed.sane.1⟩

/-- A pattern has the type of its literal or that of its type node. -/
theorem Pat.Admits.ne_error {q : Pat Mark} {t : Ty} (admits : q.Admits t) (typed : q.Typed p c)
    (found : c.nodeTypes.find? q.mark.id = some t) : t ≠ .error := by
  cases q with
  | wildcard m => cases admits
  | lit m l =>
    cases admits
    exact Ty.noConfusion
  | typed m node =>
    obtain ⟨u, known, denotes⟩ := typed
    cases known.symm.trans found
    exact denotes.sane.1

theorem Certified.errorFree (cert : Certified p c)
    (patterns : ∀ q, .pat q ∈ p.program.nodes →
      ∀ t, c.nodeTypes.find? q.mark.id = some t → q.Admits t) : c.ErrorFree p where
  bindings x isBinding := by
    obtain ⟨t, found, declared⟩ := cert.binding isBinding
    exact ⟨t, found, declared.sane.1⟩
  aliases x isType t found := by
    obtain ⟨d, decls, _⟩ := cert.bound.alias_decl isType
    exact (cert.sound.aliasTargets x t found d (by rw [decls]; rfl)).sane.1
  nodes n node typable t found := by
    cases n with
    | expr e => exact (cert.sound.exprs e node t found).2.1
    | ty node' => exact (cert.sound.types node' node t found).sane.1
    | pat q => exact (patterns q node t found).ne_error (cert.settled node) found
    | _ => cases typable
  functions d node := by
    obtain ⟨sig, _, found, _⟩ := cert.fn node
    exact ⟨sig, found, (cert.sound.signatures d node sig found).errorFree⟩
  calls m f args node sig found := by
    obtain ⟨_, _, _, _, signed⟩ := cert.sound.calls m f args node sig found
    exact signed.errorFree

end

theorem Context.checked_tidy {cx : Context} (nested : cx.WellNested) {q : Checked}
    (run : cx.checked = .ok q) : cx.Tidy [] [] q.checker := by
  obtain ⟨⟨diagnostics, c⟩, checked, run⟩ := Except.bind_ok run
  cases run
  obtain ⟨_, c₁, check, taken⟩ := Check.bind_ok checked
  cases taken
  rcases (check_safe nested).cases with ⟨_, c₂, ended, tidy, _⟩ | fault
  · cases check.symm.trans ended
    exact tidy.alike ⟨rfl, rfl, rfl, rfl, rfl, rfl, fun _ => id⟩
  · rw [fault] at check
    cases check

/-- After a check without an error the error type is nowhere. -/
theorem Draft.error_never_silent (d : Draft) (o : Options) (q : Checked) (passes : d.Passes o q) :
    q.checker.ErrorFree (d.context o).toBoundProgram := by
  obtain ⟨_, cert⟩ := passes.certified
  exact cert.errorFree (Context.checked_tidy (d.wellNested o) passes.checked).patterns

/-- A draft with an alias, overloads, patterns of both kinds and names that stand further down. -/
def Draft.aliased : Draft where
  text := "type T = Int def f(n: T): T = n match { case 0 => f(true) case _: k.type => k case _ => g(n) } def f(b: Boolean) = 1 def g(n: Int): Int = f(n - 1) final val k = 2 var x = f(3) x = x + 1 println(x)"
  stmts :=
    [.typeAlias ⟨[], ⟨[], "T"⟩, .refer [] ⟨[], "Int"⟩⟩,
      .fn ⟨[], ⟨[], "f"⟩, [⟨[], ⟨[], "n"⟩, .refer [] ⟨[], "T"⟩⟩], some (.refer [] ⟨[], "T"⟩),
        .cases [] (.name ⟨[], "n"⟩)
          [⟨[], .lit [] ⟨[], .int 0⟩, .call [] ⟨[], "f"⟩ [.lit ⟨[], .bool true⟩]⟩,
            ⟨[], .typed [] (.singleton [] (.name ⟨[], "k"⟩)), .name ⟨[], "k"⟩⟩,
            ⟨[], .wildcard [], .call [] ⟨[], "g"⟩ [.name ⟨[], "n"⟩]⟩]⟩,
      .fn ⟨[], ⟨[], "f"⟩, [⟨[], ⟨[], "b"⟩, .refer [] ⟨[], "Boolean"⟩⟩], none, .lit ⟨[], .int 1⟩⟩,
      .fn ⟨[], ⟨[], "g"⟩, [⟨[], ⟨[], "n"⟩, .refer [] ⟨[], "Int"⟩⟩], some (.refer [] ⟨[], "Int"⟩),
        .call [] ⟨[], "f"⟩ [.bin [] (.arith .sub) (.name ⟨[], "n"⟩) (.lit ⟨[], .int 1⟩)]⟩,
      .val ⟨[], .finalVal, ⟨[], "k"⟩, none, .lit ⟨[], .int 2⟩⟩,
      .val ⟨[], .var, ⟨[], "x"⟩, none, .call [] ⟨[], "f"⟩ [.lit ⟨[], .int 3⟩]⟩,
      .expr [] (.assign [] ⟨[], "x"⟩
        (.bin [] (.arith .add) (.name ⟨[], "x"⟩) (.lit ⟨[], .int 1⟩))),
      .expr [] (.call [] ⟨[], "println"⟩ [.name ⟨[], "x"⟩])]

theorem Draft.error_never_silent_aliased : ∃ q, Draft.aliased.Passes default q ∧
    q.checker.aliasTargets.size = 1 ∧ q.checker.signatures.size = 7 ∧
    q.checker.ErrorFree (Draft.aliased.context default).toBoundProgram := by
  obtain ⟨q, plan, passes, _, sizes⟩ := Draft.plan?_any .aliased default
    (fun (q, _) => q.checker.aliasTargets.size == 1 && q.checker.signatures.size == 7)
    (by decide +kernel)
  obtain ⟨targets, signatures⟩ := Bool.and_eq_true_iff.mp sizes
  exact ⟨q, passes, eq_of_beq targets, eq_of_beq signatures,
    Draft.error_never_silent .aliased default q passes⟩

end Solo
