import Solo.Checker.Typing

/-!
# Questions that no option touches

Types are compared, calls are resolved and constants are followed in the same way whatever the
options are, given the same answers to the questions that lead elsewhere. The limit on constants
says how many steps are asked for, not where a step leads.
-/

namespace Solo.Resolver

/-- The same answers elsewhere under other options. -/
def under (r : Resolver) (o : Options) : Resolver := { r with options := o }

variable (r : Resolver) (o : Options)

theorem under_toBoundProgram : (r.under o).toBoundProgram = r.toBoundProgram := rfl

/-! ### Types -/

/-- Only the option for literals in type position is looked at. -/
theorem typeOfNode_under (same : o.bareLiteralTypes = r.options.bareLiteralTypes)
    (node : TyNode Mark) : (r.under o).typeOfNode node = r.typeOfNode node := by
  cases node with
  | refer m x => rfl
  | singleton m e => cases e <;> rfl
  | lit m l dot => simp only [typeOfNode, typeOfLiteral, under, same]
  | paren m node => rw [typeOfNode, typeOfNode, typeOfNode_under same node]

theorem baseWithin_under : (r.under o).baseWithin = r.baseWithin := by
  funext n
  induction n with
  | zero => rfl
  | succ n ih =>
    funext t
    simp only [baseWithin, ih]
    rfl

theorem baseKind_under : (r.under o).baseKind = r.baseKind := by
  funext t
  rw [baseKind, baseWithin_under]
  rfl

theorem isSubtypeWithin_under : (r.under o).isSubtypeWithin = r.isSubtypeWithin := by
  funext n
  induction n with
  | zero => rfl
  | succ n ih =>
    funext s t
    simp only [isSubtypeWithin, ih]
    rfl

theorem isSubtype_under : (r.under o).isSubtype = r.isSubtype := by
  funext s t
  rw [isSubtype, isSubtypeWithin_under]
  rfl

theorem lubWithin_under : (r.under o).lubWithin = r.lubWithin := by
  funext n
  induction n with
  | zero => rfl
  | succ n ih =>
    funext s t
    simp only [lubWithin, ih, isSubtype_under]
    rfl

theorem lub_under : (r.under o).lub = r.lub := by
  funext s t
  rw [lub, lubWithin_under]
  rfl

theorem checkAssignable_under : (r.under o).checkAssignable = r.checkAssignable := by
  funext s t span
  simp only [checkAssignable, isSubtype_under]

/-! ### Constants -/

theorem constants_under (n : Nat) :
    (r.under o).constantOf n = r.constantOf n ∧ (r.under o).constant n = r.constant n := by
  induction n with
  | zero => exact ⟨rfl, rfl⟩
  | succ n ih =>
    constructor
    · funext x
      simp only [constantOf, ih.1, ih.2]
      rfl
    · funext e
      simp only [constant, ih.1, ih.2]
      rfl

theorem inhabitantWithin_under : (r.under o).inhabitantWithin = r.inhabitantWithin := by
  funext n
  induction n with
  | zero =>
    funext t
    cases t with
    | intrinsic k => cases k <;> rfl
    | _ => rfl
  | succ n ih =>
    funext t
    cases t with
    | intrinsic k => cases k <;> rfl
    | literal v => rfl
    | path x =>
      simp only [inhabitantWithin, ih, (r.constants_under o n).1]
      rfl

/-! ### Calls -/

theorem allSubtypes_under : (r.under o).allSubtypes = r.allSubtypes := by
  funext ss
  induction ss with
  | nil => rfl
  | cons s ss ih =>
    funext ts
    cases ts with
    | nil => rfl
    | cons t ts => simp only [allSubtypes, ih, isSubtype_under]

theorem reportArgument_under : (r.under o).reportArgument = r.reportArgument := by
  funext spans
  induction spans with
  | nil => rfl
  | cons span spans ih =>
    funext ss ts
    cases ss with
    | nil => rfl
    | cons s ss =>
      cases ts with
      | nil => rfl
      | cons t ts => simp only [reportArgument, ih, isSubtype_under]

theorem selectOverload_under : (r.under o).selectOverload = r.selectOverload := by
  funext call sigs args
  simp only [selectOverload, reportNoMatch, isMostSpecific, allSubtypes_under,
    reportArgument_under]

/-! ### Single nodes -/

theorem typeOfParam_under (same : o.bareLiteralTypes = r.options.bareLiteralTypes) :
    (r.under o).typeOfParam = r.typeOfParam := by
  funext q
  simp only [typeOfParam, r.typeOfNode_under o same]
  rfl

theorem typeOfUnary_under : (r.under o).typeOfUnary = r.typeOfUnary := by
  funext span op t
  simp only [typeOfUnary, baseKind_under]

theorem typeOfBinary_under : (r.under o).typeOfBinary = r.typeOfBinary := by
  funext span op s t
  simp only [typeOfBinary, baseKind_under]

theorem checkPat_under (same : o.bareLiteralTypes = r.options.bareLiteralTypes) :
    (r.under o).checkPat = r.checkPat := by
  funext t a
  cases a <;> simp only [checkPat, checkPat.check, r.typeOfNode_under o same, isSubtype_under]

end Solo.Resolver
