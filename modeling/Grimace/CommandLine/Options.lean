/-!
# Grimace.CommandLine.Options

What the words of a command line ask for.

Words are read from left to right, and the first one that decides ends the reading:
a mistake, or a wish for the version or the help.  An option takes its value from
behind an equals sign, from the rest of its word if the option is written short, or
from the next word, which then may not look like an option itself.  Short options
without a value can share one dash.  No option may come twice.
-/

namespace Grimace.CommandLine

/-- What a command line asks for. -/
structure Options where
  profiles : String
  settings : String
  frames : Option String
  serve : Bool
  addr : String
  json : Bool
  noColor : Bool
  verbose : Bool
  check : Bool
deriving Repr, DecidableEq

/-- What holds where nothing is said. -/
def Options.default : Options :=
  ⟨"profiles.json", "settings.json", none, false, "127.0.0.1:3000", false, false, false, false⟩

/-- Why no options come of a command line. -/
inductive Stop where
  | mistake
  | help
  | version
deriving Repr, DecidableEq

/-- The names of the options. -/
inductive Name where
  | profiles
  | settings
  | frames
  | serve
  | addr
  | json
  | noColor
  | verbose
  | check
  | help
  | version
deriving Repr, DecidableEq

namespace Name

/-- The name behind two dashes. -/
def ofLong? (s : String) : Option Name :=
  match s with
  | "profiles" => some profiles
  | "settings" => some settings
  | "frames" => some frames
  | "serve" => some serve
  | "addr" => some addr
  | "json" => some json
  | "no-color" => some noColor
  | "verbose" => some verbose
  | "check" => some check
  | "help" => some help
  | "version" => some version
  | _ => none

/-- The name behind one dash. -/
def ofShort? (c : Char) : Option Name :=
  match c with
  | 'p' => some profiles
  | 'f' => some frames
  | 's' => some serve
  | 'v' => some verbose
  | 'h' => some help
  | 'V' => some version
  | _ => none

/-- The option has a value. -/
def hasValue : Name → Bool
  | profiles | settings | frames | addr => true
  | _ => false

/-- The value is a path, which is never empty. -/
def isPath : Name → Bool
  | profiles | settings => true
  | _ => false

end Name

/-- What was read so far: the options and the names that came. -/
structure Reading where
  options : Options
  seen : List Name

namespace Reading

/-- Notes that a name came. -/
def note (r : Reading) (name : Name) : Except Stop Reading :=
  if r.seen.contains name then .error .mistake else .ok { r with seen := name :: r.seen }

/-- Takes an option without a value. -/
def flag (r : Reading) (name : Name) : Except Stop Reading :=
  match name with
  | .help => .error .help
  | .version => .error .version
  | name => do
    let r ← r.note name
    let o := r.options
    return { r with options := match name with
      | .serve => { o with serve := true }
      | .json => { o with json := true }
      | .noColor => { o with noColor := true }
      | .verbose => { o with verbose := true }
      | .check => { o with check := true }
      | _ => o }

/-- Takes an option with its value. -/
def value (r : Reading) (name : Name) (value : String) : Except Stop Reading := do
  if name.isPath && value.isEmpty then .error .mistake
  else
    let r ← r.note name
    let o := r.options
    return { r with options := match name with
      | .profiles => { o with profiles := value }
      | .settings => { o with settings := value }
      | .frames => { o with frames := some value }
      | .addr => { o with addr := value }
      | _ => o }

/-- Reads the letters behind one dash: the reading after them, and the option whose
value is still to come. -/
def letters (r : Reading) : List Char → Except Stop (Reading × Option Name)
  | [] => .ok (r, none)
  | c :: cs =>
    match Name.ofShort? c with
    | none => .error .mistake
    | some name =>
      if name.hasValue then
        match cs with
        | [] => .ok (r, some name)
        | '=' :: rest => do return (← r.value name (String.ofList rest), none)
        | rest => do return (← r.value name (String.ofList rest), none)
      else do letters (← r.flag name) cs

/-- Reads a word behind two dashes. -/
def long (r : Reading) (word : List Char) : Except Stop (Reading × Option Name) :=
  match Name.ofLong? (String.ofList (word.takeWhile (· != '='))) with
  | none => .error .mistake
  | some name =>
    match word.dropWhile (· != '='), name.hasValue with
    | [], true => .ok (r, some name)
    | [], false => do return (← r.flag name, none)
    | _ :: rest, true => do return (← r.value name (String.ofList rest), none)
    | _ :: _, false => .error .mistake

/-- Reads the words; `waiting` is an option whose value is still to come. -/
def words : (waiting : Option Name) → Reading → List String → Except Stop Options
  | none, r, [] => .ok r.options
  | some _, _, [] => .error .mistake
  | waiting, r, word :: rest =>
    match word.toList, waiting with
    | ['-', '-'], none => if rest.isEmpty then .ok r.options else .error .mistake
    | '-' :: '-' :: cs, none => do
      let (r, waiting) ← r.long cs
      words waiting r rest
    | '-' :: c :: cs, none => do
      let (r, waiting) ← r.letters (c :: cs)
      words waiting r rest
    | '-' :: _ :: _, some _ => .error .mistake
    | _, some name => do words none (← r.value name word) rest
    | _, none => .error .mistake

end Reading

/-- What the words of a command line ask for. -/
def parse (args : List String) : Except Stop Options := Reading.words none ⟨.default, []⟩ args

end Grimace.CommandLine
