import Grimace.Http.MediaType
import Grimace.Http.Route
import Grimace.Session
import Grimace.Store
import Grimace.Wire.Edit
import Grimace.Wire.Frame

/-!
# Grimace.Http.Service

A session behind HTTP.

Requests come one after the other.  Each is first matched with a resource and a
method, then its indexes are read, then its body, and only then does it touch the
session; so a request that is refused on the way leaves everything as it is.  The
statuses of refusals are

* 404 for a path that names nothing, 405 for a method that the resource has not,
* 400 for an index that is no number, 415 for a body that is not said to be JSON,
  413 for one too long, 400 for one that is no JSON and 422 for one of another shape.

Frames are evaluated with the selected profile.  What they fire is published if the
settings allow it, and what fails is kept in a backlog until it is asked for.
-/

namespace Grimace.Http

open Json (Decoder)
open Json.Decode (RecordField)

/-- The version of the service. -/
def version : String := "1.0.0"

/-- How many reports of failures are kept. -/
def backlogCapacity : Nat := 256

/-- The longest body, in bytes. -/
def maxBody : Nat := 2 * 1024 * 1024

/-- Where profiles are saved to. -/
inductive Storage where
  /-- Nowhere. -/
  | absent
  /-- To a file, with the text that was last written. -/
  | file (text : Option String)
  /-- To a file that cannot be written. -/
  | broken (fault : FileFault)
deriving Repr, DecidableEq

/-- Writes a text. -/
def Storage.write (text : String) : Storage → Except FileFault Storage
  | .broken fault => .error fault
  | .absent => .ok .absent
  | .file _ => .ok (.file (some text))

/-- The profiles are saved somewhere. -/
def Storage.isPresent : Storage → Bool
  | .absent => false
  | _ => true

/-- A request. -/
structure Request where
  method : String
  uri : String
  contentType : Option String
  body : String

/-- A response, with the actions that were published on the way. -/
structure Response where
  status : Nat
  body : Option Json
  published : List Action

/-- A session behind HTTP. -/
structure Service where
  profiles : ProfileSet Condition
  backlog : Backlog
  settings : Settings
  storage : Storage

namespace Service

/-- The service at its start. -/
def start (profiles : ProfileSet Condition) (settings : Settings) (storage : Storage) : Service :=
  ⟨profiles.normalize .expressions,
    (Backlog.empty (some backlogCapacity)).reportAll (profiles.findings .expressions),
    settings, storage⟩

/-- Where fired tokens go: they are published, if the settings allow it. -/
def dispatcher (s : Service) : Dispatcher (List Action) :=
  .gated s.settings.allowInputSimulation .broadcast

/-! ## Responses -/

/-- A response with a body. -/
def answer (status : Nat) (body : Json) : Response := ⟨status, some body, []⟩

/-- A response without a body. -/
def bare (status : Nat) : Response := ⟨status, none, []⟩

/-- A response that tells what went wrong. -/
def failure (status : Nat) (words : String) : Response :=
  answer status (.object [("error", .string words)])

/-- The status of a failed command. -/
def statusOf : ProfileError → Nat
  | .noSuchProfile _ | .noSuchBinding _ => 404
  | .thresholdOutOfRange _ _ _ => 422
  | .storage _ | .format => 500

/-- The index of something new. -/
def created (index : Nat) : Response := answer 200 (.object [("index", .natural index)])

/-! ## Bodies -/

/-- Reads the body of a request as JSON. -/
def bodyOf {α : Type} (decode : Decoder α) (r : Request) : Except Response α :=
  if !r.contentType.any MediaType.isJson then .error (bare 415)
  else if maxBody < r.body.utf8ByteSize then .error (bare 413)
  else
    match Json.Decode.ofFront decode r.body with
    | .ok a => .ok a
    | .error .malformed => .error (bare 400)
    | .error .mismatched => .error (bare 422)

/-- The name of a new profile. -/
def newProfile : Decoder (Option String) :=
  Json.Decode.record [.nullable "name" Json.Decode.string fun name _ => name] none

/-- The index of the profile to select. -/
def newSelection : Decoder UInt64 :=
  Json.Decode.record [.required "index" Json.Decode.uint64 fun index _ => index] 0

/-- Reads an index in a path. -/
def indexOf (part : String) : Except Response Nat :=
  match Route.index? part with
  | some n => .ok n
  | none => .error (bare 400)

/-! ## What requests do -/

/-- The outcome of a command on the session. -/
def perform (s : Service) (c : Command) : Outcome Condition (List Action) :=
  (Session.mk s.profiles []).step .expressions s.dispatcher c

/-- The service after a command. -/
def after (s : Service) (o : Outcome Condition (List Action)) : Service :=
  { s with profiles := o.session.profiles, backlog := s.backlog.reportAll o.reports }

/-- The response to a command that did what it was asked for. -/
def respond (a : Answer Condition) : Response :=
  match a with
  | .index n => created n
  | .profile none => bare 404
  | .report r => answer 200 r.toJson
  | _ => bare 204

/-- Runs a command and answers. -/
def command (s : Service) (c : Command) : Response × Service :=
  let o := s.perform c
  match o.answer with
  | .ok a => ({ respond a with published := o.session.actuator }, s.after o)
  | .error e => (failure (statusOf e) e.message, s.after o)

/-- What there is to say about the health of the service. -/
def health (s : Service) : Json :=
  .object [("status", .string "ok"), ("version", .string version),
    ("profiles", .natural s.profiles.size)]

/-- Where the selected profile stands. -/
def state (s : Service) : Json :=
  .object [("selection", .natural s.profiles.selection.toNat),
    ("profile", .ofString? (s.profiles.selected?.map Profile.name)),
    ("bindings", .array <| match s.profiles.selected? with
      | some p => p.bindings.map fun b => b.runtime.toJson
      | none => [])]

/-- Saves the profiles. -/
def save (s : Service) : Response × Service :=
  if s.storage.isPresent then
    match s.storage.write s.profiles.fileText with
    | .ok storage => (bare 204, { s with storage })
    | .error fault => (failure 500 (ProfileError.storage fault).message, s)
  else (failure 409 "no profile file configured", s)

/-- Takes the reports out of the backlog. -/
def takeReports (s : Service) : Response × Service :=
  let (items, backlog) := s.backlog.take
  (answer 200 (.array (items.map Diagnostic.toJson)), { s with backlog })

/-- What a method does to a resource; nothing, if the resource has it not.  A request
that is refused before it touches the session ends in an error. -/
def act? (s : Service) (r : Request) (method : String) :
    Route → Option (Except Response (Response × Service))
  | .health => if method = "GET" then some (.ok (answer 200 s.health, s)) else none
  | .profiles =>
    match method with
    | "GET" => some (.ok (answer 200 s.profiles.toJson, s))
    | "POST" => some do
      let name ← bodyOf newProfile r
      return s.command (.createProfile (name.getD ""))
    | _ => none
  | .selectedProfile =>
    if method = "DELETE" then some (.ok (s.command .removeSelected)) else none
  | .selection =>
    if method = "PUT" then some do
      let index ← bodyOf newSelection r
      return s.command (.select index)
    else none
  | .bindings p =>
    if method = "POST" then some do
      let p ← indexOf p
      return s.command (.createBinding p)
    else none
  | .binding p b =>
    match method with
    | "PUT" => some do
      let p ← indexOf p
      let b ← indexOf b
      let e ← bodyOf BindingEdit.ofDraft r
      return s.command (.edit p b e)
    | "DELETE" => some do
      let p ← indexOf p
      let b ← indexOf b
      return s.command (.removeBinding p b)
    | _ => none
  | .state => if method = "GET" then some (.ok (answer 200 s.state, s)) else none
  | .frame =>
    if method = "POST" then some do
      let f ← bodyOf DetectorFrame.ofDraft r
      return s.command (.frame none (.ok f))
    else none
  | .diagnostics => if method = "GET" then some (.ok s.takeReports) else none
  | .save => if method = "POST" then some (.ok s.save) else none
  | .stream => if method = "GET" then some (.error (bare 400)) else none

/-- Answers a request with a method of a resource. -/
def handleAs (s : Service) (r : Request) (method : String) (route : Route) :
    Response × Service :=
  match s.act? r method route with
  | none => (bare 405, s)
  | some (.ok result) => result
  | some (.error refusal) => (refusal, s)

/-- Answers a request.  `HEAD` does what `GET` does and leaves the body out, except
that a stream cannot be asked for in this way. -/
def handle (s : Service) (r : Request) : Response × Service :=
  match Route.of? r.uri with
  | none => (bare 404, s)
  | some route =>
    if r.method = "HEAD" then
      if route = .stream then (bare 405, s)
      else
        let (response, s) := s.handleAs r "GET" route
        ({ response with body := none }, s)
    else s.handleAs r r.method route

/-- Saves the profiles when the service ends, if that is wanted; tells whether they
were saved. -/
def saveOnExit (s : Service) : Except ProfileError Bool × Service :=
  if s.storage.isPresent && s.settings.autoSaveProfiles then
    match s.storage.write s.profiles.fileText with
    | .ok storage => (.ok true, { s with storage })
    | .error fault => (.error (.storage fault), s)
  else (.ok false, s)

end Service

end Grimace.Http
