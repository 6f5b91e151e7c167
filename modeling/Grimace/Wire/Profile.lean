import Grimace.Json.Basic
import Grimace.Json.Decode
import Grimace.Profile.Basic

/-!
# Grimace.Wire.Profile

The JSON form of profiles, which is also the form of a profile file.

Only what the user wrote is in it.  A binding carries its shape under `mode`, as
`simple` or `advanced`, beside its own fields.  What is read stands nowhere yet: it
is not activated, has no open window and no predicate.

A list of bindings and the lists of a set may be left out.  A binding is read as a
whole before its shape is known, so even what nobody asks for has to be a value.
-/

namespace Grimace

open Json (Decoder Draft Fault)
open Json.Decode (RecordField)

variable {π : Type}

/-! ## Writing -/

/-- An edge in its JSON form. -/
def EdgeRule.toJson (r : EdgeRule π) : Json :=
  .object [("logic", .string r.logic), ("debounce_ms", .natural r.debounceMs.toNat),
    ("action", .string r.action)]

/-- A binding in its JSON form. -/
def Binding.toJson : Binding π → Json
  | .simple r =>
    .object [("mode", .string "simple"), ("blendshape", .string r.blendshape),
      ("threshold", .natural r.threshold.toNat),
      ("actions", .object [("start", .string r.startAction), ("stop", .string r.stopAction)])]
  | .advanced start stop =>
    .object [("mode", .string "advanced"), ("start", start.toJson), ("stop", stop.toJson)]

/-- A profile in its JSON form. -/
def Profile.toJson (p : Profile π) : Json :=
  .object [("name", .string p.name), ("bindings", .array (p.bindings.map Binding.toJson))]

/-- A set of profiles in its JSON form. -/
def ProfileSet.toJson (set : ProfileSet π) : Json :=
  .object [("profiles", .array (set.profiles.map Profile.toJson)),
    ("selection", .natural set.selection.toNat)]

/-! ## Reading -/

namespace EdgeRule

/-- The fields of an edge. -/
def fields : List (RecordField (EdgeRule π)) :=
  [.required "logic" Json.Decode.string fun s r => { r with logic := s },
    .required "debounce_ms" Json.Decode.uint64 fun n r => { r with debounceMs := n },
    .required "action" Json.Decode.string fun s r => { r with action := s }]

/-- An edge. -/
def ofDraft : Decoder (EdgeRule π) := Json.Decode.record fields (.blank "" .idle)

end EdgeRule

namespace SimpleRule

/-- The fields of a pair of actions. -/
def actionFields : List (RecordField (String × String)) :=
  [.required "start" Json.Decode.string fun s p => (s, p.2),
    .required "stop" Json.Decode.string fun s p => (p.1, s)]

/-- The fields of a simple binding. -/
def fields : List (RecordField SimpleRule) :=
  [.required "blendshape" Json.Decode.string fun s r => { r with blendshape := s },
    .required "threshold" Json.Decode.uint8 fun n r => { r with threshold := n },
    .required "actions" (Json.Decode.record actionFields ("", "")) fun p r =>
      { r with startAction := p.1, stopAction := p.2 }]

end SimpleRule

namespace Binding

/-- The two edges of an advanced binding. -/
abbrev Edges (π : Type) := EdgeRule π × EdgeRule π

/-- The fields of an advanced binding. -/
def edgeFields : List (RecordField (Edges π)) :=
  [.required "start" EdgeRule.ofDraft fun r p => (r, p.2),
    .required "stop" EdgeRule.ofDraft fun r p => (p.1, r)]

/-- The shape that a member names, the first time there is one. -/
def modeOf : Draft.Members → Except Fault String
  | .cons (some key) value rest =>
    if key = "mode" then Json.Decode.string value else modeOf rest
  | .cons none _ rest => modeOf rest
  | .closed => .error .mismatched
  | .broken => .error .malformed

/-- The field that tells a binding's shape, once that is known. -/
def modeField {α : Type} : RecordField α := .required "mode" Json.Decode.string fun _ a => a

/-- A binding of a shape, from an object with the field `mode`, or from a list without
it. -/
def ofMode (mode : String) (tag : {α : Type} → List (RecordField α)) : Decoder (Binding π) :=
  fun d => match mode with
  | "simple" => do
    return .simple (← Json.Decode.record (tag ++ SimpleRule.fields) .template d)
  | "advanced" => do
    let (start, stop) ← Json.Decode.record (tag ++ edgeFields)
      (EdgeRule.blank "" .idle, EdgeRule.blank "" .idle) d
    return .advanced start stop
  | _ => .error .mismatched

/-- A binding, inside of which `room` more levels may be nested. -/
def ofDraft (room : Nat) : Decoder (Binding π) := fun d =>
  if !d.isSound room then .error .malformed
  else
    match d with
    | .object members => do ofMode (← modeOf members) [modeField] d
    | .array (.cons mode rest) => do ofMode (← Json.Decode.string mode) [] (.array rest)
    | d => .error (Json.Decode.misfit d)

end Binding

namespace Profile

/-- The fields of a profile. -/
def fields (room : Nat) : List (RecordField (Profile π)) :=
  [.required "name" Json.Decode.string fun s p => { p with name := s },
    .defaulted "bindings" (Json.Decode.list (Binding.ofDraft room)) fun bs p =>
      { p with bindings := bs }]

/-- A profile, inside of which `room` more levels may be nested. -/
def ofDraft (room : Nat) : Decoder (Profile π) := Json.Decode.record (fields (room - 2)) ⟨"", []⟩

end Profile

namespace ProfileSet

/-- The fields of a set of profiles. -/
def fields (room : Nat) : List (RecordField (ProfileSet π)) :=
  [.defaulted "profiles" (Json.Decode.list (Profile.ofDraft room)) fun ps set =>
      { set with profiles := ps },
    .defaulted "selection" Json.Decode.uint64 fun n set => { set with selection := n }]

/-- A set of profiles. -/
def ofDraft : Decoder (ProfileSet π) := Json.Decode.record (fields (Json.maxDepth - 2)) .empty

end ProfileSet

end Grimace
