/-!
# Grimace.Json.Basic

JSON values to be written: members stand in the order in which they are written,
and a number is either whole or a double.
-/

namespace Grimace

/-- A JSON value. -/
inductive Json where
  | null
  | boolean (b : Bool)
  | integer (n : Int)
  | float (x : Float)
  | string (s : String)
  | array (items : List Json)
  | object (members : List (String × Json))
deriving Inhabited

namespace Json

/-- A text, or `null` where there is none. -/
def ofString? : Option String → Json
  | some s => string s
  | none => null

/-- A natural number as a JSON value. -/
def natural (n : Nat) : Json := integer n

end Json

end Grimace
