import Grimace.Decimal.Tenths
import Grimace.Reason
import Grimace.Rule.Edge

/-!
# Grimace.Frame.Transition

Changes of state, as they are reported.

A transition tells when, at which edge of which binding and why the state changed.
Where the change fired an action it carries the token, and the words of the
dispatcher if that refused it; the change stands all the same.

Two lines can be written of it: `line` for other programs, and `display` for a
terminal, in colour if that is wanted.
-/

namespace Grimace

/-- A change of state of one edge of one binding. -/
structure Transition where
  frameMs : Float
  binding : Nat
  edge : Edge
  reason : Reason
  /-- The token handed to the dispatcher, if the change fires an action. -/
  action : Option String
  /-- What the dispatcher said, if it refused the token. -/
  error : Option String

/-- Ways of setting a text off on a terminal. -/
inductive Tint where
  | good
  | bad
  | faint
  | heading
  | red
  | green
deriving Repr, DecidableEq

/-- The number of a tint in a terminal's control sequence. -/
def Tint.code : Tint → String
  | good => "1;32"
  | bad => "1;31"
  | faint => "2"
  | heading => "1"
  | red => "31"
  | green => "32"

/-- A text in a tint, if colour is wanted. -/
def Tint.paint (tint : Tint) (colour : Bool) (s : String) : String :=
  if colour then "\x1b[" ++ tint.code ++ "m" ++ s ++ "\x1b[0m" else s

namespace Transition

/-- The change fired an action. -/
def fired (t : Transition) : Bool := t.action.isSome

/-- The change on one line for other programs; `-` stands for no action. -/
def line (t : Transition) : String :=
  "t=" ++ Decimal.tenths t.frameMs ++ " | binding=" ++ toString t.binding ++ " | edge=" ++
    t.edge.name ++ " | action=" ++ t.action.getD "-" ++ " | reason=" ++ t.reason.code

/-- What became of the change's action, for a terminal. -/
def outcome (colour : Bool) (t : Transition) : String :=
  match t.action, t.error with
  | some action, none => Tint.good.paint colour "fire" ++ " '" ++ action ++ "'"
  | some action, some error =>
    Tint.bad.paint colour "fail" ++ " '" ++ action ++ "' (" ++ error ++ ")"
  | none, _ => Tint.faint.paint colour t.reason.description

/-- The change on one line for a terminal. -/
def display (colour : Bool) (t : Transition) : String :=
  "t=" ++ Decimal.tenths t.frameMs ++ "ms | #" ++ toString t.binding ++ " " ++ t.edge.name ++
    " | " ++ t.outcome colour ++ " | " ++ Tint.faint.paint colour t.reason.code

end Transition

end Grimace
