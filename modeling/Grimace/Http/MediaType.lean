/-!
# Grimace.Http.MediaType

Media types, as the head of a request names them: `application/json; charset=utf-8`.

A media type is two names with a slash between them and then parameters, each behind
a semicolon.  The second name may end in a suffix behind a plus sign.  A request
speaks JSON if its type is `application` and its second name, or the suffix, is
`json`, in any case of letters.
-/

namespace Grimace.Http.MediaType

/-- A character of a name. -/
def isNameChar (c : Char) : Bool := c.isAlphanum || "!#$%&'*+-.^_|~\x60".toList.contains c

/-- A character that may stand between quotation marks: visible ASCII or a blank. -/
def isQuotedChar (c : Char) : Bool := ' ' ≤ c && c ≤ '~'

/-- What follows a parameter's value: nothing, or a semicolon and more. -/
inductive Tail where
  | done
  | more (cs : List Char)

/-- What follows a value between quotation marks; blanks may stand before the
semicolon. -/
def afterQuoted? : List Char → Option Tail
  | [] => some .done
  | ';' :: cs => some (.more cs)
  | ' ' :: cs => afterQuoted? cs
  | _ => none

/-- Reads a parameter's value and what follows it.  Between quotation marks stands at
least one character, of which only the first may be a quotation mark itself. -/
def value? (cs : List Char) : Option Tail :=
  match cs with
  | '"' :: first :: rest =>
    match rest.dropWhile fun c => isQuotedChar c && c != '"' with
    | '"' :: after => if isQuotedChar first then afterQuoted? after else none
    | _ => none
  | cs =>
    match cs.dropWhile isNameChar with
    | [] => some .done
    | ';' :: rest => if cs.head? = some ';' then none else some (.more rest)
    | _ => none

/-- The text behind a semicolon is made of parameters; `fuel` is at least its
length. -/
def areParameters : (fuel : Nat) → List Char → Bool
  | 0, cs => cs.isEmpty
  | fuel + 1, cs =>
    match cs.dropWhile (· == ' ') with
    | [] => true
    | cs =>
      match cs.dropWhile isNameChar with
      | '=' :: rest =>
        cs.head? != some '=' &&
          match value? rest with
          | some .done => true
          | some (.more cs) => areParameters fuel cs
          | none => false
      | _ => false

/-- The second name without its suffix, and the suffix, if there is one. -/
def splitSuffix (name : List Char) : List Char × Option (List Char) :=
  let after := name.reverse.takeWhile (· != '+')
  if after.length + 1 < name.length then
    (name.take (name.length - after.length - 1), some after.reverse)
  else (name, none)

/-- The media type is one of JSON. -/
def isJson (s : String) : Bool :=
  let cs := s.toList.map Char.toLower
  let main := cs.takeWhile isNameChar
  match cs.drop main.length with
  | '/' :: rest =>
    let sub := rest.takeWhile isNameChar
    let (name, suffix) := splitSuffix sub
    let wellFormed :=
      match rest.drop sub.length with
      | [] => true
      | ';' :: parameters => !sub.isEmpty && areParameters parameters.length parameters
      | _ => false
    wellFormed && main == "application".toList &&
      (name == "json".toList || suffix == some "json".toList)
  | _ => false

end Grimace.Http.MediaType
