import Grimace.Json.Printer
import Grimace.Settings
import Grimace.Wire.Profile

/-!
# Grimace.Store

Profiles and settings in files.

A profile file is the JSON form of a set with a line for each field.  What is loaded
was checked and has its selection in range, but has no predicates yet.  Where a file
cannot be used, the session starts with no profiles or with the default settings.
-/

namespace Grimace

/-- What reading a file gives: its bytes, unless there is no such file. -/
abbrev FileContent := Except FileFault ByteArray

/-- The text in a file. -/
def FileContent.text (content : FileContent) : Except FileFault String := do
  match String.fromUTF8? (← content) with
  | some s => return s
  | none => .error .notText

namespace ProfileSet

variable {π : Type}

/-- The text of a profile file. -/
def fileText (set : ProfileSet π) : String := set.toJson.pretty

/-- The set that the text of a profile file holds, checked and with its selection in
range. -/
def ofFileText (text : String) : Except ProfileError (ProfileSet π) := do
  let set ← (Json.Decode.ofText ofDraft text).mapError fun _ => ProfileError.format
  set.validate
  return set.clampSelection

/-- Loads a set of profiles. -/
def load (content : FileContent) : Except ProfileError (ProfileSet π) := do
  ofFileText (← content.text.mapError .storage)

/-- Loads a set of profiles; where that fails, there are none. -/
def loadOrEmpty (content : FileContent) : ProfileSet π :=
  match load content with
  | .ok set => set
  | .error _ => .empty

end ProfileSet

/-- Loads the settings; where that fails, the defaults hold. -/
def Settings.load (content : FileContent) : Settings :=
  match content.text with
  | .ok text =>
    match Json.Decode.ofText ofDraft text with
    | .ok settings => settings
    | .error _ => default
  | .error _ => default

end Grimace
