import Grimace.Decimal.Shortest
import Grimace.Json.Basic
import Grimace.Json.Quoted

/-!
# Grimace.Json.Printer

JSON values as text, in two layouts.  `compact` has no white space.  `pretty` has a
line for each item and member, two blanks further in than what holds it, and a
blank behind each colon; an empty list or object stays on one line.
-/

namespace Grimace.Json

/-- A layout: whether lines are broken. -/
structure Layout where
  broken : Bool
deriving Repr, DecidableEq

namespace Layout

/-- What stands in front of an item at a depth. -/
def line (l : Layout) (depth : Nat) : List Char :=
  if l.broken then '\n' :: List.replicate (2 * depth) ' ' else []

/-- What stands between a key and its value. -/
def colon (l : Layout) : List Char := if l.broken then [':', ' '] else [':']

end Layout

mutual

/-- A value as text; `depth` counts the lists and objects around it. -/
def write (l : Layout) (depth : Nat) : Json → List Char
  | .null => ['n', 'u', 'l', 'l']
  | .boolean true => ['t', 'r', 'u', 'e']
  | .boolean false => ['f', 'a', 'l', 's', 'e']
  | .integer n => Text.signedDecimal n
  | .float x => (Decimal.jsonText x).toList
  | .string s => Quoted.write s
  | .array [] => ['[', ']']
  | .array (item :: items) =>
    '[' :: l.line (depth + 1) ++ write l (depth + 1) item ++ writeItems l (depth + 1) items
  | .object [] => ['\x7b', '\x7d']
  | .object ((key, value) :: members) =>
    '\x7b' :: l.line (depth + 1) ++ Quoted.write key ++ l.colon ++ write l (depth + 1) value ++
      writeMembers l (depth + 1) members
termination_by structural j => j

/-- The items behind the first one, and the end of the list. -/
def writeItems (l : Layout) (depth : Nat) : List Json → List Char
  | [] => l.line (depth - 1) ++ [']']
  | item :: items => ',' :: l.line depth ++ write l depth item ++ writeItems l depth items
termination_by structural items => items

/-- The members behind the first one, and the end of the object. -/
def writeMembers (l : Layout) (depth : Nat) : List (String × Json) → List Char
  | [] => l.line (depth - 1) ++ ['\x7d']
  | (key, value) :: members =>
    ',' :: l.line depth ++ Quoted.write key ++ l.colon ++ write l depth value ++
      writeMembers l depth members
termination_by structural members => members

end

/-- A value on one line. -/
def compact (j : Json) : String := String.ofList (write ⟨false⟩ 0 j)

/-- A value with a line for each item and member. -/
def pretty (j : Json) : String := String.ofList (write ⟨true⟩ 0 j)

end Grimace.Json
