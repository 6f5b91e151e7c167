import Grimace.Frame.Report
import Grimace.Json.Basic
import Grimace.Json.Decode
import Grimace.Text.Timestamp

/-!
# Grimace.Wire.Frame

The JSON forms of what goes in and comes out with a frame: the detector's frames,
scores, transitions, reports of frames and of failures.

A report that comes from elsewhere carries the time at which it was made; that has
to be a point in time and is otherwise not looked at.
-/

namespace Grimace

open Json (Decoder Draft Fault)
open Json.Decode (RecordField)

/-! ## Names -/

/-- The edge of a name. -/
def Edge.ofName? (name : String) : Option Edge :=
  [Edge.start, .stop].find? fun e => e.name == name

/-- An edge. -/
def Edge.ofDraft : Decoder Edge := Json.Decode.oneOf Edge.ofName?

/-- A state of an edge. -/
def EdgeState.ofDraft : Decoder EdgeState :=
  Json.Decode.oneOf fun name =>
    [EdgeState.idle, .pending, .activated].find? fun s => s.name == name

/-- What happened to a frame. -/
def FrameStatus.ofDraft : Decoder FrameStatus :=
  Json.Decode.oneOf fun name => FrameStatus.all.find? fun s => s.name == name

/-- A reason, by its code. -/
def Reason.ofDraft : Decoder Reason := Json.Decode.oneOf Reason.ofCode?

/-! ## Detector -/

/-- A scored category in its JSON form. -/
def Category.toJson (c : Category) : Json :=
  .object [("categoryName", .string c.name), ("score", .float c.score)]

/-- The fields of a scored category. -/
def Category.fields : List (RecordField Category) :=
  [.required "categoryName" Json.Decode.string fun s c => { c with name := s },
    .required "score" Json.Decode.float fun x c => { c with score := x }]

/-- A scored category. -/
def Category.ofDraft : Decoder Category := Json.Decode.record Category.fields ⟨"", 0⟩

namespace DetectorFrame

/-- The fields of a face. -/
def faceFields : List (RecordField (List Category)) :=
  [.defaulted "categories" (Json.Decode.list Category.ofDraft) fun cs _ => cs]

/-- The fields of a frame. -/
def fields : List (RecordField DetectorFrame) :=
  [.required "timestampMs" Json.Decode.float fun x f => { f with timestampMs := x },
    .defaulted "faceBlendshapes" (Json.Decode.list (Json.Decode.record faceFields [])) fun fs f =>
      { f with faces := fs },
    .defaulted "error" (Json.Decode.optional Json.Decode.string) fun e f => { f with error := e }]

/-- A detector's frame. -/
def ofDraft : Decoder DetectorFrame := Json.Decode.record fields ⟨0, [], none⟩

/-- Reads a line of the detector's output. -/
def ofText (line : String) : Except DetectorError DetectorFrame :=
  (Json.Decode.ofText ofDraft line).mapError fun _ => .malformed

/-- A detector's frame in its JSON form. -/
def toJson (f : DetectorFrame) : Json :=
  let face (cs : List Category) : Json :=
    .object [("categories", .array (cs.map Category.toJson))]
  let error := match f.error with
    | some words => [("error", Json.string words)]
    | none => []
  .object ([("timestampMs", .float f.timestampMs),
    ("faceBlendshapes", .array (f.faces.map face))] ++ error)

end DetectorFrame

namespace Scores

/-- Scores, by name; the last one for a name stands. -/
def ofDraft : Decoder Scores := fun d => do
  return (← Json.Decode.object Json.Decode.uint8 d).foldl (fun s p => s.put p.1 p.2) empty

/-- Scores in their JSON form. -/
def toJson (s : Scores) : Json :=
  .object (s.entries.map fun e => (e.1, .natural e.2.toNat))

end Scores

/-! ## Reports -/

namespace Transition

/-- A transition in its JSON form. -/
def toJson (t : Transition) : Json :=
  .object [("frame_ms", .float t.frameMs), ("binding", .natural t.binding),
    ("edge", .string t.edge.name), ("reason", .string t.reason.code),
    ("action", .ofString? t.action), ("error", .ofString? t.error)]

/-- The fields of a transition. -/
def fields : List (RecordField Transition) :=
  [.required "frame_ms" Json.Decode.float fun x t => { t with frameMs := x },
    .required "binding" Json.Decode.index fun n t => { t with binding := n },
    .required "edge" Edge.ofDraft fun e t => { t with edge := e },
    .required "reason" Reason.ofDraft fun r t => { t with reason := r },
    .nullable "action" Json.Decode.string fun s t => { t with action := s },
    .nullable "error" Json.Decode.string fun s t => { t with error := s }]

/-- A transition. -/
def ofDraft : Decoder Transition :=
  Json.Decode.record fields ⟨0, 0, .start, .edgePending, none, none⟩

end Transition

/-- A point in time. -/
def timestampOfDraft : Decoder Unit := fun d => do
  if Text.Timestamp.isValid (← Json.Decode.string d) then return () else .error .mismatched

namespace FrameReport

/-- The report of a frame in its JSON form. -/
def toJson (r : FrameReport) : Json :=
  .object [("frame_ms", .float r.frameMs), ("status", .string r.status.name),
    ("profile", .ofString? r.profile),
    ("transitions", .array (r.transitions.map Transition.toJson))]

/-- The fields of a frame's report. -/
def fields : List (RecordField FrameReport) :=
  [.required "timestamp" timestampOfDraft fun _ r => r,
    .required "frame_ms" Json.Decode.float fun x r => { r with frameMs := x },
    .required "status" FrameStatus.ofDraft fun s r => { r with status := s },
    .nullable "profile" Json.Decode.string fun s r => { r with profile := s },
    .required "transitions" (Json.Decode.list Transition.ofDraft) fun ts r =>
      { r with transitions := ts }]

/-- The report of a frame. -/
def ofDraft : Decoder FrameReport := Json.Decode.record fields (.skipped 0 .noProfile)

end FrameReport

namespace Diagnostic

/-- The report of a failure in its JSON form. -/
def toJson (d : Diagnostic) : Json :=
  .object [("code", .string d.code.code), ("subject", .string d.subject),
    ("detail", .string d.detail)]

/-- The fields of a failure's report. -/
def fields : List (RecordField Diagnostic) :=
  [.required "timestamp" timestampOfDraft fun _ d => d,
    .required "code" Reason.ofDraft fun r d => { d with code := r },
    .required "subject" Json.Decode.string fun s d => { d with subject := s },
    .required "detail" Json.Decode.string fun s d => { d with detail := s }]

/-- The report of a failure. -/
def ofDraft : Decoder Diagnostic := Json.Decode.record fields ⟨.compileFailed, "", ""⟩

end Diagnostic

/-! ## Where things stand -/

/-- Where an edge stands, in its JSON form. -/
def EdgeRuntime.toJson (r : EdgeRuntime) : Json :=
  .object [("state", .string r.state.name),
    ("pending_since_ms", match r.pendingSinceMs with
      | some x => .float x
      | none => .null),
    ("compiled", .boolean r.compiled)]

/-- Where a binding stands, in its JSON form. -/
def Runtime.toJson : Runtime → Json
  | .simple activated => .object [("mode", .string "simple"), ("activated", .boolean activated)]
  | .advanced start stop =>
    .object [("mode", .string "advanced"), ("start", start.toJson), ("stop", stop.toJson)]

end Grimace
