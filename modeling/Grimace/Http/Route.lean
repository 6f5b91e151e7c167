import Grimace.Text.Digits
import Grimace.Text.Split

/-!
# Grimace.Http.Route

Which resource a path names.

A path is compared part by part, as it is written.  Two parts may vary, the index of
a profile and the index of a binding; they are kept as text here and read as numbers
by `index?`, which first undoes the percent signs.
-/

namespace Grimace.Http

/-- A resource of the service. -/
inductive Route where
  | health
  | profiles
  | selectedProfile
  | selection
  | bindings (profile : String)
  | binding (profile binding : String)
  | state
  | frame
  | diagnostics
  | save
  /-- The stream of actions. -/
  | stream
deriving Repr, DecidableEq

namespace Route

/-- The path of an address: what stands before a query or a fragment. -/
def path (uri : String) : List Char := uri.toList.takeWhile fun c => c != '?' && c != '#'

/-- The resource that an address names. -/
def of? (uri : String) : Option Route :=
  match (Text.splitOn '/' (path uri)).map String.ofList with
  | ["", "health"] => some .health
  | ["", "profiles"] => some .profiles
  | ["", "profiles", "selected"] => some .selectedProfile
  | ["", "selection"] => some .selection
  | ["", "profiles", p, "bindings"] => some (.bindings p)
  | ["", "profiles", p, "bindings", b] => if b = "" then none else some (.binding p b)
  | ["", "state"] => some .state
  | ["", "frame"] => some .frame
  | ["", "diagnostics"] => some .diagnostics
  | ["", "save"] => some .save
  | ["", "ws"] => some .stream
  | _ => none

/-! ## Indexes -/

/-- The bytes that a text with percent signs stands for.  A percent sign without two
digits stands for itself. -/
def unescape : List Char → List UInt8
  | '%' :: a :: b :: cs =>
    match Text.hexDigit? a, Text.hexDigit? b with
    | some x, some y => UInt8.ofNat (16 * x + y) :: unescape cs
    | _, _ => 37 :: unescape (a :: b :: cs)
  | c :: cs => (String.singleton c).toUTF8.toList ++ unescape cs
  | [] => []

/-- An index of sixty-four bits in decimal digits, with or without a plus sign. -/
def index? (part : String) : Option Nat := do
  let text ← String.fromUTF8? ⟨(unescape part.toList).toArray⟩
  let n ← Text.natural? (match text.toList with
    | '+' :: cs => cs
    | cs => cs)
  if n < UInt64.size then return n else none

end Route

end Grimace.Http
