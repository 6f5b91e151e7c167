/-!
# Grimace.Expr.Basic

Expressions over scores: the tree that a rule's text stands for.

A tree knows nothing of spelling or place.  Parentheses leave no node, `!` and
`not` are one node, and a membership test keeps its list as written.
-/

namespace Grimace

/-- The operators between two numbers or two values. -/
inductive Operator where
  | add | sub | mul | div | mod | pow | eq | ne | lt | le | gt | ge
deriving Repr, DecidableEq

/-- The way an operator is written. -/
def Operator.symbol : Operator → String
  | .add => "+"
  | .sub => "-"
  | .mul => "*"
  | .div => "/"
  | .mod => "%"
  | .pow => "^"
  | .eq => "=="
  | .ne => "!="
  | .lt => "<"
  | .le => "<="
  | .gt => ">"
  | .ge => ">="

/-- The functions an expression may call. -/
inductive Func where
  | abs | min | max | round | floor | ceil | sqrt
deriving Repr, DecidableEq

namespace Func

/-- The name a function is called by. -/
def name : Func → String
  | abs => "abs"
  | min => "min"
  | max => "max"
  | round => "round"
  | floor => "floor"
  | ceil => "ceil"
  | sqrt => "sqrt"

/-- All functions. -/
def all : List Func := [abs, min, max, round, floor, ceil, sqrt]

/-- The function of a name. -/
def ofName? (s : String) : Option Func := all.find? fun f => f.name == s

theorem ofName?_name (f : Func) : ofName? f.name = some f := by cases f <;> rfl

/-- The function takes one argument or more; any other takes exactly one. -/
def isVariadic : Func → Bool
  | min | max => true
  | _ => false

/-- The function takes this many arguments. -/
def accepts (f : Func) (count : Nat) : Bool :=
  if f.isVariadic then 1 ≤ count else count == 1

end Func

/-- An expression over named scores. -/
inductive Expr where
  | number (x : Float)
  | boolean (b : Bool)
  | var (name : String)
  | neg (e : Expr)
  | not (e : Expr)
  | binary (op : Operator) (a b : Expr)
  | and (a b : Expr)
  | or (a b : Expr)
  /-- Whether `needle` equals one of `items`; `negated` turns the answer round. -/
  | member (needle : Expr) (items : List Expr) (negated : Bool)
  | cond (test yes no : Expr)
  | call (f : Func) (args : List Expr)

namespace Expr

mutual

/-- The names an expression reads, in reading order, with repetitions. -/
def reads : Expr → List String
  | .number _ | .boolean _ => []
  | .var name => [name]
  | .neg e | .not e => reads e
  | .binary _ a b | .and a b | .or a b => reads a ++ reads b
  | .member needle items _ => reads needle ++ readsAll items
  | .cond test yes no => reads test ++ reads yes ++ reads no
  | .call _ args => readsAll args

/-- The names that a list of expressions reads. -/
def readsAll : List Expr → List String
  | [] => []
  | e :: es => reads e ++ readsAll es

end

end Expr

end Grimace
