import Grimace.Json.Basic
import Grimace.Json.Decode
import Grimace.Profile.Edit

/-!
# Grimace.Wire.Edit

The JSON form of edits: nine keys, each `null` or missing where nothing is said.
-/

namespace Grimace

open Json (Decoder)
open Json.Decode (RecordField)

namespace BindingEdit

/-- A part of an edit, or `null`. -/
def part {α : Type} (write : α → Json) : Option α → Json
  | some a => write a
  | none => .null

/-- An edit in its JSON form. -/
def toJson (e : BindingEdit) : Json :=
  .object [("simplified", part .boolean e.simplified),
    ("blendshape", part .string e.blendshape),
    ("threshold", part (fun n => .natural n.toNat) e.threshold),
    ("start_action", part .string e.start.action),
    ("stop_action", part .string e.stop.action),
    ("start_logic", part .string e.start.logic),
    ("stop_logic", part .string e.stop.logic),
    ("start_debounce_ms", part (fun n => .natural n.toNat) e.start.debounceMs),
    ("stop_debounce_ms", part (fun n => .natural n.toNat) e.stop.debounceMs)]

/-- The fields of an edit. -/
def fields : List (RecordField BindingEdit) :=
  [.nullable "simplified" Json.Decode.boolean fun v e => { e with simplified := v },
    .nullable "blendshape" Json.Decode.string fun v e => { e with blendshape := v },
    .nullable "threshold" Json.Decode.uint8 fun v e => { e with threshold := v },
    .nullable "start_action" Json.Decode.string fun v e =>
      { e with start := { e.start with action := v } },
    .nullable "stop_action" Json.Decode.string fun v e =>
      { e with stop := { e.stop with action := v } },
    .nullable "start_logic" Json.Decode.string fun v e =>
      { e with start := { e.start with logic := v } },
    .nullable "stop_logic" Json.Decode.string fun v e =>
      { e with stop := { e.stop with logic := v } },
    .nullable "start_debounce_ms" Json.Decode.uint64 fun v e =>
      { e with start := { e.start with debounceMs := v } },
    .nullable "stop_debounce_ms" Json.Decode.uint64 fun v e =>
      { e with stop := { e.stop with debounceMs := v } }]

/-- An edit. -/
def ofDraft : Decoder BindingEdit := Json.Decode.record fields .empty

end BindingEdit

end Grimace
