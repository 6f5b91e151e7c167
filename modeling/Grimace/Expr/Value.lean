import Grimace.Expr.Basic
import Grimace.Scores

/-!
# Grimace.Expr.Value

What an expression computes on one frame.

A name that the frame does not carry reads as *absent*, which counts as 0 where a
number is needed and as false where a condition is.  A truth value is never taken
for a number: there the computation fails with a `typeMismatch`.  Operands are
computed from left to right, both before they are looked at, and the first
failure is the one reported; `and`, `or`, `if` and membership stop as soon as the
answer is known.
-/

namespace Grimace

/-- A value on the way. -/
inductive Value where
  | number (x : Float)
  | boolean (b : Bool)
  | absent

/-- What a value is. -/
inductive Value.Kind where
  | number
  | boolean
  | absent
deriving Repr, DecidableEq

/-- Why an expression has no value on a frame. -/
inductive EvalError where
  /-- The operator or function `op` met a value of the wrong kind. -/
  | typeMismatch (op : String) (expected found : Value.Kind)
  | divisionByZero
  /-- A call without arguments; no text is read as one. -/
  | missingArgument (f : Func)
deriving Repr, DecidableEq

/-- A kind of value as a message names it. -/
def Value.Kind.text : Value.Kind → String
  | .number => "number"
  | .boolean => "boolean"
  | .absent => "absent"

/-- The wording of a failure. -/
def EvalError.message : EvalError → String
  | .typeMismatch op expected found => s!"'{op}' expects {expected.text}, got {found.text}"
  | .divisionByZero => "division by zero"
  | .missingArgument f => s!"'{f.name}' has no argument"

namespace Value

/-- The value counts as a condition that holds. -/
def truthy : Value → Bool
  | number x => x != 0 && !x.isNaN
  | boolean b => b
  | absent => false

/-- What the value is. -/
def kind : Value → Kind
  | number _ => .number
  | boolean _ => .boolean
  | absent => .absent

/-- The value as a number, for the operator or function named `op`. -/
def toNumber (op : String) : Value → Except EvalError Float
  | number x => .ok x
  | absent => .ok 0
  | boolean b => .error (.typeMismatch op .number (boolean b).kind)

/-- Equality that never fails: truth values equal each other only, and an absent
value equals 0. -/
def looselyEq : Value → Value → Bool
  | boolean a, boolean b => a == b
  | boolean _, _ | _, boolean _ => false
  | number x, number y => x == y
  | number x, absent => x == 0
  | absent, number y => (0 : Float) == y
  | absent, absent => true

end Value

/-- What an operator makes of two numbers. -/
def Operator.ofNumbers (op : Operator) (x y : Float) : Except EvalError Value :=
  match op with
  | .add => .ok (.number (x + y))
  | .sub => .ok (.number (x - y))
  | .mul => .ok (.number (x * y))
  | .div => if y == 0 then .error .divisionByZero else .ok (.number (x / y))
  | .mod => if y == 0 then .error .divisionByZero else .ok (.number (Binary64.remainder x y))
  | .pow => .ok (.number (Float.pow x y))
  | .eq => .ok (.boolean (x == y))
  | .ne => .ok (.boolean (x != y))
  | .lt => .ok (.boolean (x < y))
  | .le => .ok (.boolean (x ≤ y))
  | .gt => .ok (.boolean (x > y))
  | .ge => .ok (.boolean (x ≥ y))

/-- What an operator makes of two values: `==` and `!=` compare loosely, any other
needs numbers. -/
def Operator.apply (op : Operator) (a b : Value) : Except EvalError Value :=
  match op with
  | .eq => .ok (.boolean (a.looselyEq b))
  | .ne => .ok (.boolean (!a.looselyEq b))
  | _ => do
    let x ← a.toNumber op.symbol
    let y ← b.toNumber op.symbol
    op.ofNumbers x y

namespace Func

/-- The lesser of two numbers, where a NaN yields to a number. -/
def lesser (x y : Float) : Float := if x.isNaN then y else if y < x then y else x

/-- The greater of two numbers, where a NaN yields to a number. -/
def greater (x y : Float) : Float := if x.isNaN then y else if y > x then y else x

/-- What a function makes of its arguments. -/
def apply (f : Func) (args : List Float) : Except EvalError Float :=
  match args with
  | [] => .error (.missingArgument f)
  | first :: _ =>
    .ok <| match f with
    | .abs => first.abs
    | .round => Binary64.round first
    | .floor => Binary64.floor first
    | .ceil => Binary64.ceil first
    | .sqrt => first.sqrt
    | .min => args.foldl lesser (1 / 0)
    | .max => args.foldl greater (-1 / 0)

end Func

namespace Expr

mutual

/-- The value of an expression on a frame. -/
def eval (scores : Scores) : Expr → Except EvalError Value
  | .number x => .ok (.number x)
  | .boolean b => .ok (.boolean b)
  | .var name => .ok (match scores.get? name with
    | some s => .number s.toFloat
    | none => .absent)
  | .neg e => do
    let x ← (← eval scores e).toNumber "-"
    return .number (-x)
  | .not e => do return .boolean (!(← eval scores e).truthy)
  | .binary op a b => do
    let x ← eval scores a
    let y ← eval scores b
    op.apply x y
  | .and a b => do
    if (← eval scores a).truthy then return .boolean (← eval scores b).truthy
    else return .boolean false
  | .or a b => do
    if (← eval scores a).truthy then return .boolean true
    else return .boolean (← eval scores b).truthy
  | .member needle items negated => do
    let x ← eval scores needle
    let found ← evalMember scores x items
    return .boolean (found != negated)
  | .cond test yes no => do
    if (← eval scores test).truthy then eval scores yes else eval scores no
  | .call f args => do
    let xs ← evalArgs scores f.name args
    return .number (← f.apply xs)

/-- Whether a value equals one of the items, which are computed up to the first
that it equals. -/
def evalMember (scores : Scores) (x : Value) : List Expr → Except EvalError Bool
  | [] => .ok false
  | item :: items => do
    let y ← eval scores item
    if x.looselyEq y then return true else evalMember scores x items

/-- The arguments of the function named `op`, each as a number. -/
def evalArgs (scores : Scores) (op : String) : List Expr → Except EvalError (List Float)
  | [] => .ok []
  | arg :: args => do
    let x ← (← eval scores arg).toNumber op
    let xs ← evalArgs scores op args
    return x :: xs

end

end Expr

end Grimace
