import Grimace.Rule.Binding

/-!
# Grimace.Profile.Basic

Profiles: named, ordered lists of bindings, of which one is selected at a time.

A selection can be stale when a set comes from a file; `clampSelection` brings it
back into range.  Operations that name a profile or a binding by a wrong index fail
and leave the set as it is: their result holds a set only if they succeed.
-/

namespace Grimace

/-- Why a file cannot be read or written. -/
inductive FileFault where
  | notFound
  | isDirectory
  | notText
  /-- Any other cause, in the words of the system. -/
  | other (words : String)
deriving Repr, DecidableEq

/-- The wording of a fault. -/
def FileFault.message : FileFault → String
  | notFound => "No such file or directory (os error 2)"
  | isDirectory => "Is a directory (os error 21)"
  | notText => "stream did not contain valid UTF-8"
  | other words => words

/-- Why a set of profiles cannot be loaded, saved or changed. -/
inductive ProfileError where
  | storage (fault : FileFault)
  /-- The file's text is no set of profiles. -/
  | format
  | thresholdOutOfRange (profile : String) (binding : Nat) (threshold : UInt8)
  | noSuchProfile (index : Nat)
  | noSuchBinding (index : Nat)
deriving Repr, DecidableEq

/-- The wording of a cause.  What exactly is wrong with a file's text is not told. -/
def ProfileError.message : ProfileError → String
  | storage fault => s!"profile storage error: {fault.message}"
  | format => "profile format error: <json>"
  | thresholdOutOfRange profile binding threshold =>
    s!"profile '{profile}' binding #{binding}: threshold {threshold} is above 100"
  | noSuchProfile index => s!"no profile at index {index}"
  | noSuchBinding index => s!"no binding at index {index}"

/-- A named, ordered list of bindings. -/
structure Profile (π : Type) where
  name : String
  bindings : List (Binding π)

/-- The name of a profile that was given none. -/
def defaultProfileName : String := "Default"

/-- A new profile with one new binding. -/
def Profile.new {π : Type} (name : String) : Profile π :=
  ⟨if Text.isBlankText name then defaultProfileName else name, [.template]⟩

/-- All profiles and the index of the selected one. -/
structure ProfileSet (π : Type) where
  profiles : List (Profile π)
  /-- The selected profile; without profiles it says nothing. -/
  selection : UInt64

namespace ProfileSet

variable {π : Type}

/-- No profiles. -/
def empty : ProfileSet π := ⟨[], 0⟩

/-- How many profiles there are. -/
def size (set : ProfileSet π) : Nat := set.profiles.length

/-- The selected profile, if there is one. -/
def selected? (set : ProfileSet π) : Option (Profile π) := set.profiles[set.selection.toNat]?

/-- The profile at an index. -/
def profile (set : ProfileSet π) (p : Nat) : Except ProfileError (Profile π) :=
  match set.profiles[p]? with
  | some profile => .ok profile
  | none => .error (.noSuchProfile p)

/-- The binding at an index of the profile at an index. -/
def binding (set : ProfileSet π) (p i : Nat) : Except ProfileError (Binding π) := do
  match (← set.profile p).bindings[i]? with
  | some b => return b
  | none => .error (.noSuchBinding i)

/-- The set with the bindings of a profile replaced. -/
def withBindings (set : ProfileSet π) (p : Nat) (bindings : List (Binding π)) : ProfileSet π :=
  { set with profiles := set.profiles.modify p fun profile => { profile with bindings } }

/-! ## Selection -/

/-- Brings a stale selection back into range. -/
def clampSelection (set : ProfileSet π) : ProfileSet π :=
  if set.selection.toNat < set.size then set
  else { set with selection := UInt64.ofNat (set.size - 1) }

/-- Selects the profile at an index. -/
def select (set : ProfileSet π) (index : UInt64) : Except ProfileError (ProfileSet π) :=
  if index.toNat < set.size then .ok { set with selection := index }
  else .error (.noSuchProfile index.toNat)

/-! ## Profiles and bindings come and go -/

/-- Adds a new profile at the end and selects it. -/
def createProfile (name : String) (set : ProfileSet π) : ProfileSet π :=
  ⟨set.profiles ++ [.new name], UInt64.ofNat set.size⟩

/-- Removes the selected profile and selects the one before it; without a selected
profile there is nothing to remove. -/
def removeSelected (set : ProfileSet π) : Option (Profile π × ProfileSet π) :=
  set.selected?.map fun profile =>
    (profile, ⟨set.profiles.eraseIdx set.selection.toNat, set.selection - min set.selection 1⟩)

/-- Adds a new binding at the end of a profile, and tells its index. -/
def createBinding (set : ProfileSet π) (p : Nat) : Except ProfileError (Nat × ProfileSet π) := do
  let bindings := (← set.profile p).bindings
  return (bindings.length, set.withBindings p (bindings ++ [.template]))

/-- Removes a binding. -/
def removeBinding (set : ProfileSet π) (p i : Nat) :
    Except ProfileError (Binding π × ProfileSet π) := do
  let b ← set.binding p i
  return (b, set.withBindings p ((← set.profile p).bindings.eraseIdx i))

/-- Changes a binding. -/
def modifyBinding (set : ProfileSet π) (p i : Nat) (f : Binding π → Binding π) :
    Except ProfileError (ProfileSet π) := do
  let _ ← set.binding p i
  return set.withBindings p ((← set.profile p).bindings.modify i f)

/-! ## Validity -/

/-- The first threshold of a list of bindings that is out of range, with its index. -/
def firstInvalid? : (index : Nat) → List (Binding π) → Option (Nat × UInt8)
  | _, [] => none
  | i, .simple r :: rest =>
    if r.threshold ≤ maxThreshold then firstInvalid? (i + 1) rest else some (i, r.threshold)
  | i, .advanced _ _ :: rest => firstInvalid? (i + 1) rest

/-- Fails at the first threshold that is out of range. -/
def validateProfiles : List (Profile π) → Except ProfileError Unit
  | [] => .ok ()
  | p :: ps =>
    match firstInvalid? 0 p.bindings with
    | some (i, threshold) => .error (.thresholdOutOfRange p.name i threshold)
    | none => validateProfiles ps

/-- Fails at the first threshold that is out of range. -/
def validate (set : ProfileSet π) : Except ProfileError Unit := validateProfiles set.profiles

/-- Where every binding of every profile stands. -/
def runtime (set : ProfileSet π) : List (List Runtime) :=
  set.profiles.map fun p => p.bindings.map Binding.runtime

end ProfileSet

end Grimace
