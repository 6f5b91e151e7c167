import Grimace.Json.Basic
import Grimace.Json.Decode

/-!
# Grimace.Settings

What the user allows and wants: whether actions are carried out, and whether the
profiles are saved at the end of a session.  The keys of the settings file are
dotted, and either may be missing.
-/

namespace Grimace

open Json (Decoder)
open Json.Decode (RecordField)

/-- What the user allows and wants. -/
structure Settings where
  /-- Actions are carried out; otherwise they are swallowed while rules go on. -/
  allowInputSimulation : Bool
  /-- The profiles are saved when the session ends. -/
  autoSaveProfiles : Bool
deriving Repr, DecidableEq

namespace Settings

/-- What holds where the user has said nothing. -/
def default : Settings := ⟨true, false⟩

/-- The fields of the settings. -/
def fields : List (RecordField Settings) :=
  [.defaulted "allow.input.simulation" Json.Decode.boolean fun b s =>
      { s with allowInputSimulation := b },
    .defaulted "auto.save.profiles" Json.Decode.boolean fun b s =>
      { s with autoSaveProfiles := b }]

/-- Settings. -/
def ofDraft : Decoder Settings := Json.Decode.record fields default

/-- Settings in their JSON form. -/
def toJson (s : Settings) : Json :=
  .object [("allow.input.simulation", .boolean s.allowInputSimulation),
    ("auto.save.profiles", .boolean s.autoSaveProfiles)]

end Settings

end Grimace
