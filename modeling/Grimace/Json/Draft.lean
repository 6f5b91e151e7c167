import Grimace.Json.Literal
import Grimace.Json.Quoted

/-!
# Grimace.Json.Draft

What a text says that should be JSON.

Reading never fails.  A draft follows the text as far as it is JSON and is
`broken` at the place where it stops being so; nothing comes after that place.
Who asks a draft for a value looks at it from front to back and so meets the first
thing wrong, be it a broken place or a value that does not fit.

A draft keeps what a value would lose: the digits of a number, a key that comes
twice, and a string that holds half of a surrogate pair (`none`), which is wrong
only where the string is wanted.
-/

namespace Grimace.Json

mutual

/-- What stands where a value should. -/
inductive Draft where
  | null
  | boolean (b : Bool)
  | number (l : Literal)
  | string (s : Option String)
  | array (items : Draft.Items)
  | object (members : Draft.Members)
  | broken

/-- What stands in a list, up to its end or to a broken place. -/
inductive Draft.Items where
  | closed
  | broken
  | cons (item : Draft) (rest : Draft.Items)

/-- What stands in an object, up to its end or to a broken place. -/
inductive Draft.Members where
  | closed
  | broken
  | cons (key : Option String) (value : Draft) (rest : Draft.Members)

end

namespace Draft

/-- The white space of JSON. -/
def isSpace (c : Char) : Bool := c == ' ' || c == '\n' || c == '\t' || c == '\r'

/-- A text without the white space in front. -/
def skip (cs : List Char) : List Char := cs.dropWhile isSpace

/-- The text that pieces of a string make. -/
def joined (pieces : List Quoted.Piece) : Option String :=
  (Quoted.join? pieces).map String.ofList

/-- Reads a value that is neither list nor object. -/
def leaf (cs : List Char) : Draft × List Char :=
  match cs with
  | 'n' :: 'u' :: 'l' :: 'l' :: rest => (.null, rest)
  | 't' :: 'r' :: 'u' :: 'e' :: rest => (.boolean true, rest)
  | 'f' :: 'a' :: 'l' :: 's' :: 'e' :: rest => (.boolean false, rest)
  | '"' :: rest =>
    match Quoted.body rest with
    | some (pieces, rest) => (.string (joined pieces), rest)
    | none => (.broken, [])
  | cs =>
    match Literal.read cs with
    | some (l, rest) => (.number l, rest)
    | none => (.broken, [])

mutual

/-- Reads a value off the front of a text; `bound` is at least twice its length. -/
def value : (bound : Nat) → List Char → Draft × List Char
  | 0, _ => (.broken, [])
  | bound + 1, cs =>
    match skip cs with
    | '[' :: rest =>
      match skip rest with
      | ']' :: rest => (.array .closed, rest)
      | rest =>
        let (items, rest) := items bound rest
        (.array items, rest)
    | '\x7b' :: rest =>
      match skip rest with
      | '\x7d' :: rest => (.object .closed, rest)
      | rest =>
        let (members, rest) := members bound rest
        (.object members, rest)
    | rest => leaf rest

/-- Reads the items of a list that has at least one, and the end of the list. -/
def items : (bound : Nat) → List Char → Items × List Char
  | 0, _ => (.broken, [])
  | bound + 1, cs =>
    let (item, rest) := value bound cs
    match skip rest with
    | ']' :: rest => (.cons item .closed, rest)
    | ',' :: rest =>
      let (more, rest) := items bound rest
      (.cons item more, rest)
    | _ => (.cons item .broken, [])

/-- Reads the members of an object that has at least one, and its end. -/
def members : (bound : Nat) → List Char → Members × List Char
  | 0, _ => (.broken, [])
  | bound + 1, cs =>
    match skip cs with
    | '"' :: rest =>
      match Quoted.body rest with
      | none => (.broken, [])
      | some (pieces, rest) =>
        let key := joined pieces
        match skip rest with
        | ':' :: rest =>
          let (value, rest) := value bound rest
          match skip rest with
          | '\x7d' :: rest => (.cons key value .closed, rest)
          | ',' :: rest =>
            let (more, rest) := members bound rest
            (.cons key value more, rest)
          | _ => (.cons key value .broken, [])
        | _ => (.cons key .broken .broken, [])
    | _ => (.broken, [])

end

/-- Reads the value at the front of a text. -/
def read (text : String) : Draft × List Char :=
  let cs := text.toList
  value (2 * cs.length + 2) cs

end Draft

end Grimace.Json
