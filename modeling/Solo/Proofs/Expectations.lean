import Solo.Proofs.Typing

/-!
# Where an expectation counts

An expression is typed with a type that is expected of it, but only a name whose singleton is
expected takes another type for it. So an expectation counts only where an expression ends in such a
name.
-/

namespace Solo

section
variable {ν : Type}

mutual
/-- The names that an expression may end in: what it is, what its block ends with, what an arm
gives. -/
def Expr.ends : Expr ν → List (Ident ν)
  | .name x => [x]
  | .paren _ e => e.ends
  | .block _ _ tail => tailEnds tail
  | .cases _ _ arms => armsEnds arms
  | _ => []

def tailEnds : Option (Expr ν) → List (Ident ν)
  | none => []
  | some e => e.ends

def armsEnds : List (Arm ν) → List (Ident ν)
  | [] => []
  | ⟨_, _, e⟩ :: arms => e.ends ++ armsEnds arms
end

end

namespace Context

variable (cx : Context)

/-- A name stands for the stable binding whose singleton is expected. -/
def Meets (x : Ident Mark) (t : Ty) : Prop :=
  ∃ s, cx.symbolAt? x.mark.id = some s ∧ (cx.symbol s).role.isStable = true ∧ t = .path s

/-- An expression whose type may depend on whether `t` is expected of it. -/
def Sways (t : Ty) (e : Expr Mark) : Prop := ∃ x ∈ e.ends, cx.Meets x t

/-- Arguments that have the same types whether `ts` are expected of them or nothing is. -/
def Indifferent (args : List (Expr Mark)) (ts : List Ty) : Prop :=
  ∀ (i : ℕ) e t, args[i]? = some e → ts[i]? = some t → ¬cx.Sways t e

end Context

namespace Resolver

variable (r : Resolver)

theorem typeOfName_unswayed {x : Ident Mark} {t : Ty} (apart : ¬r.Meets x t) :
    r.typeOfName x (some t) = r.typeOfName x none := by
  rw [typeOfName, typeOfName]
  cases target : r.symbolAt? x.mark.id with
  | none => rfl
  | some s =>
    have no : ∀ expected, expected = some t ∨ expected = none →
        ¬(expected = some (.path s) ∧ (r.symbol s).role.isStable = true) := by
      rintro _ (rfl | rfl) ⟨same, stable⟩
      · exact apart ⟨s, target, stable, Option.some.inj same⟩
      · cases same
    simp only [no (some t) (.inl rfl), no none (.inr rfl)]

mutual
/-- What is expected of an expression changes nothing unless it is the singleton of a name that the
expression ends in. -/
theorem typeOfExpr_unswayed : ∀ (e : Expr Mark) {t : Ty}, ¬r.Sways t e →
    r.typeOfExpr e (some t) = r.typeOfExpr e none
  | .name x, t, apart => by
    have apart : ¬r.Meets x t := fun meets => apart ⟨x, List.mem_singleton_self x, meets⟩
    rw [typeOfExpr, typeOfExpr, r.typeOfName_unswayed apart]
  | .paren m e, t, apart => by
    rw [typeOfExpr, typeOfExpr, typeOfExpr_unswayed e apart]
  | .block m ss tail, t, apart => by
    rw [typeOfExpr, typeOfExpr, typeOfTail_unswayed tail apart]
  | .cases m e arms, t, apart => by
    rw [typeOfExpr, typeOfExpr]
    exact congrArg (Check.once m.id) (bind_congr fun s => typeOfArms_unswayed arms apart)
  | .lit _, _, _ | .unary .., _, _ | .bin .., _, _ | .call .., _, _ | .assign .., _, _
  | .inhabitant .., _, _ | .host .., _, _ => by rw [typeOfExpr, typeOfExpr]

theorem typeOfTail_unswayed : ∀ (tail : Option (Expr Mark)) {t : Ty},
    (¬∃ x ∈ tailEnds tail, r.Meets x t) → r.typeOfTail tail (some t) = r.typeOfTail tail none
  | none, _, _ => by rw [typeOfTail, typeOfTail]
  | some e, t, apart => by rw [typeOfTail, typeOfTail, typeOfExpr_unswayed e apart]

theorem typeOfArms_unswayed : ∀ (arms : List (Arm Mark)) {t scrutinee : Ty} {closed : Bool}
    {above : Option Ty}, (¬∃ x ∈ armsEnds arms, r.Meets x t) →
      r.typeOfArms scrutinee (some t) closed above arms =
        r.typeOfArms scrutinee none closed above arms
  | [], _, _, _, _, _ => by rw [typeOfArms, typeOfArms]
  | ⟨_, p, e⟩ :: arms, t, scrutinee, closed, above, apart => by
    have first : ¬r.Sways t e := fun ⟨x, inside, meets⟩ =>
      apart ⟨x, List.mem_append_left _ inside, meets⟩
    have rest : ¬∃ x ∈ armsEnds arms, r.Meets x t := fun ⟨x, inside, meets⟩ =>
      apart ⟨x, List.mem_append_right _ inside, meets⟩
    rw [typeOfArms, typeOfArms, typeOfExpr_unswayed e first]
    simp only [typeOfArms_unswayed arms rest]
end

/-- What is expected of arguments changes nothing unless it sways one of them. -/
theorem typeOfArgs_unswayed {args : List (Expr Mark)} {ts : List Ty}
    (indifferent : r.Indifferent args ts) : r.typeOfArgs args ts = r.typeOfArgs args [] := by
  induction args generalizing ts with
  | nil => rw [typeOfArgs, typeOfArgs]
  | cons e es ih =>
    cases ts with
    | nil => rfl
    | cons t ts =>
      have first : ¬r.Sways t e := indifferent 0 e t rfl rfl
      have rest : r.Indifferent es ts := fun i => indifferent (i + 1)
      rw [typeOfArgs, typeOfArgs]
      simp only [List.head?_cons, List.head?_nil, List.tail_cons, List.tail_nil,
        r.typeOfExpr_unswayed e first, ih rest]

end Resolver

end Solo
