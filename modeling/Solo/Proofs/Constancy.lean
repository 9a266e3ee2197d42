import Solo.Proofs.Checked

/-!
# Values known before a run

In a certified program the value that a binding or an expression is known to have is one of its
type, and so is the value that a type was found to have only.
-/

namespace Solo

variable {p : BoundProgram} {c : Checker}

theorem OfKind.may {t : Ty} {k : Kind} {v : Literal} (kind : OfKind p c t k) (fits : Fits p c v t) :
    k.May v :=
  fun known => kind known v fits

theorem Holds.declared {x : SymbolId} {v : Literal} (held : Holds p c x v) :
    ∃ t, c.symbolTypes.find? x = some t := by
  cases held with
  | literal declared => exact ⟨_, declared⟩
  | path declared _ => exact ⟨_, declared⟩
  | init declared _ _ _ => exact ⟨_, declared⟩

theorem Holds.fits_path {x : SymbolId} {t : Ty} {v : Literal} (held : Holds p c x v)
    (declared : c.symbolTypes.find? x = some t) (fits : Fits p c v t) : Fits p c v (.path x) := by
  refine ⟨.path declared fits.1, ?_⟩
  rintro y w ⟨⟩ other
  exact held.unique other

section
variable (cert : Certified p c)
include cert

set_option linter.unusedSectionVars false

mutual
theorem Holds.fits {x : SymbolId} {t : Ty} {v : Literal} :
    Holds p c x v → c.symbolTypes.find? x = some t → Fits p c v t
  | .literal declared, known => by
    cases declared.symm.trans known
    exact fits_literal v
  | .path declared next, known => by
    cases declared.symm.trans known
    obtain ⟨u, declared⟩ := next.declared
    exact next.fits_path declared (next.fits declared)
  | .init declared stable decl constant, known => by
    obtain ⟨u, s, known', typed, below⟩ := cert.init (Role.isBinding_of_isStable stable) decl
    cases known.symm.trans known'
    exact below v (constant.fits typed)

theorem Constant.fits {e : Expr Mark} {t : Ty} {v : Literal} :
    Constant p c e v → e.Typed p c t → Fits p c v t
  | .lit l, ⟨_, same⟩ => same ▸ fits_literal l.value
  | .paren inner, ⟨_, typed⟩ => inner.fits typed
  | .name target held, ⟨_, x, u, target', declared, read⟩ => by
    cases target.symm.trans target'
    have fits := held.fits declared
    rcases read with rfl | rfl
    · exact fits
    · exact held.fits_path declared fits
  | .unary inner value, ⟨_, s, k, j, typed, kind, result, found⟩ => by
    have fits := inner.fits typed
    rcases found with rfl | ⟨v, w, rfl, folded, rfl⟩
    · obtain ⟨w, value', admitted⟩ := UnaryOp.eval_ok (kind.may fits) result
      cases value.symm.trans value'
      exact fits_kind admitted
    · obtain rfl := fits.eq_literal
      cases value.symm.trans folded
      exact fits_literal _
  | .bin left right value, ⟨_, s₁, s₂, k₁, k₂, j, typed₁, typed₂, kind₁, kind₂, result, found⟩ => by
    have fits₁ := left.fits typed₁
    have fits₂ := right.fits typed₂
    rcases found with rfl | ⟨v, w, u, rfl, rfl, folded, rfl⟩
    · exact fits_kind (BinOp.eval_admits (kind₁.may fits₁) (kind₂.may fits₂) result value)
    · obtain rfl := fits₁.eq_literal
      obtain rfl := fits₂.eq_literal
      cases value.symm.trans folded
      exact fits_literal _
end

theorem Sole.fits {t : Ty} {v : Literal} (sole : Sole p c t v) : Fits p c v t := by
  rcases sole with rfl | ⟨rfl, rfl⟩ | ⟨rfl, rfl⟩ | ⟨x, rfl, held⟩
  · exact fits_literal v
  · exact fits_kind rfl
  · exact fits_kind rfl
  · obtain ⟨t, declared⟩ := held.declared
    exact held.fits_path declared (held.fits cert declared)

end

/-- A value of a type that has one value only is that value. -/
theorem Fits.eq_of_sole {t : Ty} {v w : Literal} (fits : Fits p c v t) (sole : Sole p c t w) :
    v = w := by
  rcases sole with rfl | ⟨rfl, rfl⟩ | ⟨rfl, rfl⟩ | ⟨x, rfl, held⟩
  · exact fits.eq_literal
  · have admitted := fits.admits
    cases v <;> first | rfl | cases admitted
  · have admitted := fits.admits
    cases v <;> first | rfl | cases admitted
  · exact fits.2 x w rfl held

end Solo
