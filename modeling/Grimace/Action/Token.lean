import Grimace.Action.Basic
import Grimace.Text.Blank
import Grimace.Text.Split

/-!
# Grimace.Action.Token

Tokens read as actions.

Semicolons split a token into segments.  White space around a segment does not
count, and a segment of nothing else is passed over, so a blank token asks for no
steps at all.  Any other segment is a name, a colon and an argument:

```
key:<key>   down:<key>   up:<key>   text:<anything>
click:<left|right|middle>   move:<dx>,<dy>   scroll:<n>
```

An argument has at least one character and no line feed.  A key is an ASCII word
that starts with a letter, or a single visible ASCII character; a button is named
in either case; numbers are decimal and fit thirty-two bits.  The first segment
that is no step decides what is reported.
-/

namespace Grimace.Action

/-- The segments that count, without the white space around them. -/
def stepTexts (token : List Char) : List (List Char) :=
  ((Text.splitOn ';' token).map Text.trim).filter (! ·.isEmpty)

/-- A character that shows and takes up room: ASCII from `!` to `~`. -/
def isVisible (c : Char) : Bool := '!' ≤ c && c ≤ '~'

/-- The name of a key. -/
def isKey : List Char → Bool
  | [] => false
  | c :: cs =>
    (c.isAlpha && cs.all fun d => d.isAlphanum || d == '_') || (cs.isEmpty && isVisible c)

/-- A decimal number that fits thirty-two bits. -/
def int32? (cs : List Char) : Option Int32 :=
  (Text.integer? cs).bind fun n =>
    if Int32.minValue.toInt ≤ n ∧ n ≤ Int32.maxValue.toInt then some (Int32.ofInt n) else none

/-- The button of a name in lower case. -/
def button? (cs : List Char) : Option MouseButton :=
  [MouseButton.left, .right, .middle].find? fun b => b.name.toList == cs

/-- A key read off an argument. -/
def readKey (step : String → Step) (arg : List Char) : Except Fault Step :=
  let key := String.ofList (Text.trim arg)
  if isKey (Text.trim arg) then .ok (step key) else .error (.badKey key)

/-- A button read off an argument. -/
def readClick (arg : List Char) : Except Fault Step :=
  let name := (Text.trim arg).map Char.toLower
  match button? name with
  | some b => .ok (.click b)
  | none => .error (.badButton (String.ofList name))

/-- Two numbers, with white space allowed around the comma. -/
def readMove (arg : List Char) : Except Fault Step :=
  let pair := Text.trim arg
  let dx := Text.trimEnd (pair.takeWhile (· != ','))
  let dy := Text.trimStart ((pair.dropWhile (· != ',')).drop 1)
  match int32? dx, int32? dy with
  | some dx, some dy => .ok (.move dx dy)
  | _, _ => .error (.badMove (String.ofList arg))

/-- A number read off an argument. -/
def readScroll (arg : List Char) : Except Fault Step :=
  match int32? (Text.trim arg) with
  | some n => .ok (.scroll n)
  | none => .error (.badScroll (String.ofList (Text.trim arg)))

/-- How the argument of a name is read. -/
def reader? (name : String) : Option (List Char → Except Fault Step) :=
  match name with
  | "key" => some (readKey .press)
  | "down" => some (readKey .hold)
  | "up" => some (readKey .release)
  | "text" => some fun arg => .ok (.write (String.ofList arg))
  | "click" => some readClick
  | "move" => some readMove
  | "scroll" => some readScroll
  | _ => none

/-- The step that a segment writes. -/
def readStep (segment : List Char) : Except Fault Step :=
  let name := segment.takeWhile (· != ':')
  let arg := (segment.dropWhile (· != ':')).drop 1
  match reader? (String.ofList name) with
  | some read =>
    if arg.isEmpty || arg.contains '\n' then .error (.unknownStep (String.ofList segment))
    else read arg
  | none => .error (.unknownStep (String.ofList segment))

/-- The steps of segments, or the first fault among them. -/
def readSteps : List (List Char) → Except Fault (List Step)
  | [] => .ok []
  | segment :: rest => do
    let step ← readStep segment
    let steps ← readSteps rest
    return step :: steps

/-- Reads a token. -/
def parse (token : String) : Except Fault Action := do
  return ⟨token, ← readSteps (stepTexts token.toList)⟩

/-- The action asks for nothing. -/
def isEmpty (a : Action) : Bool := a.steps.isEmpty

end Grimace.Action
