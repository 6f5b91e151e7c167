import Grimace.Expr.Parser

/-!
# Grimace.Expr.Compile

A text made into a condition on frames.

An expression is tried out once, on a frame that carries the whole vocabulary at
the sample score, and refused if it fails there.  What is left keeps its tree and
the names it reads.
-/

namespace Grimace

/-- An expression ready to be put to frames. -/
structure Condition where
  expr : Expr
  /-- The names it reads, ascending, each once. -/
  reads : List String

namespace Condition

/-- Puts a name into an ascending list, once. -/
def addName (name : String) : List String → List String
  | [] => [name]
  | k :: rest =>
    if name < k then name :: k :: rest
    else if name = k then k :: rest
    else k :: addName name rest

/-- The distinct members of a list of names, ascending. -/
def distinct (names : List String) : List String :=
  names.foldl (fun sorted name => addName name sorted) []

/-- The condition an expression stands for. -/
def ofExpr (e : Expr) : Condition := ⟨e, distinct e.reads⟩

/-- Whether the condition holds on a frame. -/
def holds (c : Condition) (scores : Scores) : Except EvalError Bool := do
  return (← c.expr.eval scores).truthy

end Condition

/-- Makes a text into a condition. -/
def compile (source : String) : Except CompileError Condition := do
  let c := Condition.ofExpr (← parse source)
  match c.holds Scores.sample with
  | .ok _ => return c
  | .error e => .error (.probe e)

end Grimace
