import Grimace.Action.Basic
import Grimace.Json.Basic
import Grimace.Json.Decode

/-!
# Grimace.Wire.Action

The JSON form of actions.  A step is an object with its kind under `step` and its
argument under `arg`, such as `{"step": "move", "arg": [3, -4]}`.
-/

namespace Grimace

open Json (Decoder Draft Fault)
open Json.Decode (RecordField)

/-! ## Writing -/

namespace Action

/-- The kind of a step in its JSON form. -/
def Step.kind : Step → String
  | press _ => "key_click"
  | hold _ => "key_down"
  | release _ => "key_up"
  | write _ => "text"
  | click _ => "click"
  | move _ _ => "move"
  | scroll _ => "scroll"

/-- The argument of a step in its JSON form. -/
def Step.argument : Step → Json
  | press s | hold s | release s | write s => .string s
  | click b => .string b.name
  | move dx dy => .array [.integer dx.toInt, .integer dy.toInt]
  | scroll n => .integer n.toInt

/-- A step in its JSON form. -/
def Step.toJson (s : Step) : Json := .object [("step", .string s.kind), ("arg", s.argument)]

/-- An action in its JSON form, with the token under a given key. -/
def toJson (tokenKey : String) (a : Action) : Json :=
  .object [(tokenKey, .string a.token), ("steps", .array (a.steps.map Step.toJson))]

/-! ## Reading -/

/-- The button of a name. -/
def buttonOfName? (name : String) : Option MouseButton :=
  [MouseButton.left, .right, .middle].find? fun b => b.name == name

/-- Two numbers. -/
def pair : Decoder Step
  | .array (.cons dx (.cons dy .closed)) => do
    return .move (← Json.Decode.int32 dx) (← Json.Decode.int32 dy)
  | d => .error (Json.Decode.misfit d)

/-- How the argument of a kind of step is read. -/
def argumentOf? (kind : String) : Option (Decoder Step) :=
  match kind with
  | "key_click" => some fun d => .press <$> Json.Decode.string d
  | "key_down" => some fun d => .hold <$> Json.Decode.string d
  | "key_up" => some fun d => .release <$> Json.Decode.string d
  | "text" => some fun d => .write <$> Json.Decode.string d
  | "click" => some fun d => .click <$> Json.Decode.oneOf buttonOfName? d
  | "move" => some pair
  | "scroll" => some fun d => .scroll <$> Json.Decode.int32 d
  | _ => none

/-- A step whose argument is yet to be read. -/
structure RawStep where
  argumentOf : Decoder Step
  argument : Draft

/-- The fields of a step. -/
def rawStepFields : List (RecordField RawStep) :=
  [.required "step" (Json.Decode.oneOf argumentOf?) fun f r => { r with argumentOf := f },
    .required "arg" .ok fun d r => { r with argument := d }]

/-- A step, its two fields in either order. -/
def stepOfDraft : Decoder Step := fun d => do
  let raw ← Json.Decode.record rawStepFields ⟨fun _ => .error .mismatched, .null⟩ d
  raw.argumentOf raw.argument

/-- The fields of an action. -/
def fields : List (RecordField Action) :=
  [.required "raw" Json.Decode.string fun s a => { a with token := s },
    .required "steps" (Json.Decode.list stepOfDraft) fun s a => { a with steps := s }]

/-- An action. -/
def ofDraft : Decoder Action := Json.Decode.record fields ⟨"", []⟩

end Action

end Grimace
