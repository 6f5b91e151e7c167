import Grimace.Text.Digits

/-!
# Grimace.Action.Basic

Actions: what is done to the keyboard and the mouse when a rule fires.

A rule names its action by a token, a text that the user wrote.  `Action` is a
token that was understood: the text as it stands and the steps it asks for.
-/

namespace Grimace

/-- A mouse button. -/
inductive MouseButton where
  | left
  | right
  | middle
deriving Repr, DecidableEq

/-- The name of a button. -/
def MouseButton.name : MouseButton → String
  | left => "left"
  | right => "right"
  | middle => "middle"

namespace Action

/-- One movement of the actuator. -/
inductive Step where
  /-- Press a key and let it go. -/
  | press (key : String)
  /-- Press a key and hold it. -/
  | hold (key : String)
  /-- Let a held key go. -/
  | release (key : String)
  /-- Type a text. -/
  | write (text : String)
  | click (button : MouseButton)
  | move (dx dy : Int32)
  | scroll (n : Int32)
deriving Repr, DecidableEq

/-- A number as it is written in a token. -/
def int32Text (n : Int32) : String := String.ofList (Text.signedDecimal n.toInt)

/-- A step as it is written in a token. -/
def Step.text : Step → String
  | press key => "key:" ++ key
  | hold key => "down:" ++ key
  | release key => "up:" ++ key
  | write text => "text:" ++ text
  | click button => "click:" ++ button.name
  | move dx dy => "move:" ++ int32Text dx ++ "," ++ int32Text dy
  | scroll n => "scroll:" ++ int32Text n

/-- Why a segment of a token is no step. -/
inductive Fault where
  | unknownStep (segment : String)
  | badKey (name : String)
  | badButton (name : String)
  | badMove (arg : String)
  | badScroll (arg : String)
deriving Repr, DecidableEq

/-- The wording of a fault. -/
def Fault.message : Fault → String
  | unknownStep segment => s!"unknown step '{segment}'"
  | badKey name => s!"bad key name '{name}'"
  | badButton name => s!"bad mouse button '{name}'"
  | badMove arg => s!"bad move '{arg}'"
  | badScroll arg => s!"bad scroll '{arg}'"

end Action

/-- A token that was understood. -/
structure Action where
  token : String
  steps : List Action.Step
deriving Repr, DecidableEq

end Grimace
