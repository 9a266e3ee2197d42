import Solo.Literal

/-!
# Operators

What the operators of the language do to values, and which kinds they accept. Whole numbers wrap
at 32 or 64 bits. Numbers of different kinds meet at the higher one, and a character counts as a
whole number.
-/

namespace Solo

inductive UnaryOp where
  | minus
  | not
deriving DecidableEq

inductive ArithOp where
  | add
  | sub
  | mul
  | div
  | rem
deriving DecidableEq

inductive CompareOp where
  | lt
  | le
  | gt
  | ge
deriving DecidableEq

inductive BinOp where
  | arith (op : ArithOp)
  | compare (op : CompareOp)
  | equal
  | notEqual
  | and
  | or
deriving DecidableEq

inductive OpError where
  | divisionByZero
  /-- The operator does not accept values of these kinds. -/
  | unsupported
deriving DecidableEq

def UnaryOp.symbol : UnaryOp → String
  | minus => "-"
  | not => "!"

def ArithOp.symbol : ArithOp → String
  | add => "+"
  | sub => "-"
  | mul => "*"
  | div => "/"
  | rem => "%"

def CompareOp.symbol : CompareOp → String
  | lt => "<"
  | le => "<="
  | gt => ">"
  | ge => ">="

namespace BinOp

def symbol : BinOp → String
  | arith op => op.symbol
  | compare op => op.symbol
  | equal => "=="
  | notEqual => "!="
  | and => "&&"
  | or => "||"

def all : List BinOp :=
  [arith .add, arith .sub, arith .mul, arith .div, arith .rem, equal, notEqual,
    compare .lt, compare .le, compare .gt, compare .ge, and, or]

/-- Whether the operator can fail on a zero to its right. -/
def divides : BinOp → Bool
  | arith .div | arith .rem => true
  | _ => false

end BinOp

/-! ### Numbers -/

/-- A value that takes part in arithmetic. -/
inductive Number where
  | int (v : Int32)
  | long (v : Int64)
  | double (v : Binary64)

def Literal.number? : Literal → Option Number
  | .int v => some (.int v)
  | .char c => some (.int (Int32.ofNat c.toNat))
  | .long v => some (.long v)
  | .double v => some (.double v)
  | _ => none

inductive NumberPair where
  | ints (a b : Int32)
  | longs (a b : Int64)
  | doubles (a b : Binary64)

def Binary64.ofInt32 (v : Int32) : Binary64 := ofFloat v.toFloat

def Binary64.ofInt64 (v : Int64) : Binary64 := ofFloat v.toFloat

/-- Brings two numbers to the higher of their kinds. -/
def promote : Number → Number → NumberPair
  | .int a, .int b => .ints a b
  | .int a, .long b => .longs a.toInt64 b
  | .long a, .int b => .longs a b.toInt64
  | .long a, .long b => .longs a b
  | .int a, .double b => .doubles (.ofInt32 a) b
  | .double a, .int b => .doubles a (.ofInt32 b)
  | .long a, .double b => .doubles (.ofInt64 a) b
  | .double a, .long b => .doubles a (.ofInt64 b)
  | .double a, .double b => .doubles a b

namespace ArithOp

def evalInt (op : ArithOp) (a b : Int32) : Except OpError Int32 :=
  match op with
  | add => .ok (a + b)
  | sub => .ok (a - b)
  | mul => .ok (a * b)
  | div => if b = 0 then .error .divisionByZero else .ok (a / b)
  | rem => if b = 0 then .error .divisionByZero else .ok (a % b)

def evalLong (op : ArithOp) (a b : Int64) : Except OpError Int64 :=
  match op with
  | add => .ok (a + b)
  | sub => .ok (a - b)
  | mul => .ok (a * b)
  | div => if b = 0 then .error .divisionByZero else .ok (a / b)
  | rem => if b = 0 then .error .divisionByZero else .ok (a % b)

def evalDouble (op : ArithOp) (a b : Binary64) : Binary64 :=
  match op with
  | add => a.add b
  | sub => a.sub b
  | mul => a.mul b
  | div => a.div b
  | rem => a.rem b

def eval (op : ArithOp) : NumberPair → Except OpError Literal
  | .ints a b => (op.evalInt a b).map .int
  | .longs a b => (op.evalLong a b).map .long
  | .doubles a b => .ok (.double (op.evalDouble a b))

end ArithOp

/-- Comparison; with a NaN on either side it is false. -/
def CompareOp.eval (op : CompareOp) : NumberPair → Bool
  | .ints a b =>
    match op with
    | lt => a < b
    | le => a ≤ b
    | gt => b < a
    | ge => b ≤ a
  | .longs a b =>
    match op with
    | lt => a < b
    | le => a ≤ b
    | gt => b < a
    | ge => b ≤ a
  | .doubles a b =>
    match op with
    | lt => a.ltValue b
    | le => a.ltValue b || a.eqValue b
    | gt => b.ltValue a
    | ge => b.ltValue a || a.eqValue b

def NumberPair.same : NumberPair → Bool
  | .ints a b => a == b
  | .longs a b => a == b
  | .doubles a b => a.eqValue b

/-- Equality as programs see it: numbers by value, all else by kind and text. -/
def Literal.sameValue (l r : Literal) : Bool :=
  match l.number?, r.number? with
  | some a, some b => (promote a b).same
  | none, none => l == r
  | _, _ => false

/-! ### Results -/

def UnaryOp.eval : UnaryOp → Literal → Except OpError Literal
  | .not, .bool b => .ok (.bool !b)
  | .minus, .int v => .ok (.int (-v))
  | .minus, .char c => .ok (.int (-Int32.ofNat c.toNat))
  | .minus, .long v => .ok (.long (-v))
  | .minus, .double v => .ok (.double v.neg)
  | _, _ => .error .unsupported

/-- Both operands are values here; who evaluates the right one only if needed sees to that. A
string on either side of `+` joins the texts of both. -/
def BinOp.eval (op : BinOp) (l r : Literal) : Except OpError Literal :=
  match op with
  | .arith o =>
    if o = .add ∧ (l.isString ∨ r.isString) then .ok (.str (l.display ++ r.display))
    else
      match l.number?, r.number? with
      | some a, some b => o.eval (promote a b)
      | _, _ => .error .unsupported
  | .compare o =>
    match l.number?, r.number? with
    | some a, some b => .ok (.bool (o.eval (promote a b)))
    | _, _ => .error .unsupported
  | .equal => .ok (.bool (l.sameValue r))
  | .notEqual => .ok (.bool !(l.sameValue r))
  | .and =>
    match l, r with
    | .bool a, .bool b => .ok (.bool (a && b))
    | _, _ => .error .unsupported
  | .or =>
    match l, r with
    | .bool a, .bool b => .ok (.bool (a || b))
    | _, _ => .error .unsupported

/-! ### Kinds of results -/

/-- The kind of the result, if the operator accepts the kind. -/
def UnaryOp.resultKind (op : UnaryOp) (k : Kind) : Option Kind :=
  match op with
  | .minus => k.rank?.map .ofRank
  | .not => if k = .boolean then some .boolean else none

def Kind.join? (l r : Kind) : Option Kind :=
  match l.rank?, r.rank? with
  | some a, some b => some (.ofRank (max a b))
  | _, _ => none

/-- The kind of the result, if the operator accepts the kinds. -/
def BinOp.resultKind (op : BinOp) (l r : Kind) : Option Kind :=
  match op with
  | .arith o => if o = .add ∧ (l = .string ∨ r = .string) then some .string else l.join? r
  | .compare _ => (l.join? r).map fun _ => .boolean
  | .equal | .notEqual => some .boolean
  | .and | .or => if l = .boolean ∧ r = .boolean then some .boolean else none

end Solo
