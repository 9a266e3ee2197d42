/-!
# Options

A request may set any of four switches and two limits. What it leaves open gets a default, and
the default of `bareLiteralTypes` is the opposite of `strict`.
-/

namespace Solo

inductive Switch where
  | inferFinalSingleton
  | bareLiteralTypes
  | foldSingletonCalls
  | strict
deriving DecidableEq

inductive Limit where
  | maxConstEvalDepth
  | maxCallDepth
deriving DecidableEq

/-- The options as requested; `none` leaves an option open. -/
structure RawOptions where
  inferFinalSingleton : Option Bool := none
  bareLiteralTypes : Option Bool := none
  foldSingletonCalls : Option Bool := none
  strict : Option Bool := none
  maxConstEvalDepth : Option Nat := none
  maxCallDepth : Option Nat := none
deriving DecidableEq

namespace RawOptions

def switch (o : RawOptions) : Switch → Option Bool
  | .inferFinalSingleton => o.inferFinalSingleton
  | .bareLiteralTypes => o.bareLiteralTypes
  | .foldSingletonCalls => o.foldSingletonCalls
  | .strict => o.strict

def limit (o : RawOptions) : Limit → Option Nat
  | .maxConstEvalDepth => o.maxConstEvalDepth
  | .maxCallDepth => o.maxCallDepth

def setSwitch (o : RawOptions) (s : Switch) (v : Option Bool) : RawOptions :=
  match s with
  | .inferFinalSingleton => { o with inferFinalSingleton := v }
  | .bareLiteralTypes => { o with bareLiteralTypes := v }
  | .foldSingletonCalls => { o with foldSingletonCalls := v }
  | .strict => { o with strict := v }

def setLimit (o : RawOptions) (l : Limit) (v : Option Nat) : RawOptions :=
  match l with
  | .maxConstEvalDepth => { o with maxConstEvalDepth := v }
  | .maxCallDepth => { o with maxCallDepth := v }

def setSwitchIfOpen (o : RawOptions) (s : Switch) (v : Bool) : RawOptions :=
  if (o.switch s).isNone then o.setSwitch s (some v) else o

def setLimitIfOpen (o : RawOptions) (l : Limit) (v : Nat) : RawOptions :=
  if (o.limit l).isNone then o.setLimit l (some v) else o

end RawOptions

structure Options where
  /-- `final val x = 1` gets the type `1` instead of `Int`. -/
  inferFinalSingleton : Bool
  /-- A literal in type position means its singleton without `.type`. -/
  bareLiteralTypes : Bool
  /-- Calls whose result type has one value are replaced by it. -/
  foldSingletonCalls : Bool
  strict : Bool
  /-- How many steps a constant may take. -/
  maxConstEvalDepth : Nat
  /-- How many calls may be open at once. -/
  maxCallDepth : Nat
deriving DecidableEq

/-- Fills in what a request leaves open. -/
def RawOptions.normalize (o : RawOptions) : Options :=
  let strict := o.strict.getD false
  { inferFinalSingleton := o.inferFinalSingleton.getD true
    bareLiteralTypes := o.bareLiteralTypes.getD !strict
    foldSingletonCalls := o.foldSingletonCalls.getD true
    strict
    maxConstEvalDepth := o.maxConstEvalDepth.getD 64
    maxCallDepth := o.maxCallDepth.getD 512 }

instance : Inhabited Options := ⟨({} : RawOptions).normalize⟩

def Options.switchBits (o : Options) : Nat :=
  o.strict.toNat + 2 * o.inferFinalSingleton.toNat + 4 * o.bareLiteralTypes.toNat
    + 8 * o.foldSingletonCalls.toNat

end Solo
