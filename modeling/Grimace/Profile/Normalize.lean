import Grimace.Diagnostic
import Grimace.Profile.Basic

/-!
# Grimace.Profile.Normalize

What has to be done to a set before its first frame: the selection is brought into
range, every binding is put where it stands after loading, and every text is made
into a predicate.

What there is to say about the texts is told by the `findings`, in the order of
profiles, bindings and edges: a text that is no condition, and a name that no frame
will ever carry.
-/

namespace Grimace

/-- How a report names an edge of a binding. -/
def edgeSubject (index : Nat) (edge : Edge) : String := s!"binding #{index} {edge.name}"

variable {π : Type}

/-- What there is to say about a rule's text: nothing if it is blank, that it is no
condition, or which names it reads in vain. -/
def EdgeRule.findings (lang : RuleLanguage π) (subject : String) (r : EdgeRule π) :
    List Diagnostic :=
  if Text.isBlankText r.logic then []
  else
    match lang.compile r.logic with
    | .error e => [⟨.compileFailed, subject, s!"'{r.logic}': {e.message}"⟩]
    | .ok p =>
      ((lang.reads p).filter fun name => !Blendshape.isKnown name).map fun name =>
        ⟨.unknownBlendshape, subject, s!"'{name}' in '{r.logic}'"⟩

/-- What there is to say about a binding's texts. -/
def Binding.findings (lang : RuleLanguage π) (index : Nat) : Binding π → List Diagnostic
  | .simple _ => []
  | .advanced start stop =>
    start.findings lang (edgeSubject index .start) ++ stop.findings lang (edgeSubject index .stop)

namespace ProfileSet

/-- The set as it stands before its first frame. -/
def normalize (lang : RuleLanguage π) (set : ProfileSet π) : ProfileSet π :=
  { set.clampSelection with
    profiles := set.profiles.map fun p =>
      { p with bindings := p.bindings.map fun b => b.reset.compiled lang } }

/-- What there is to say about the texts of all profiles. -/
def findings (lang : RuleLanguage π) (set : ProfileSet π) : List Diagnostic :=
  set.profiles.flatMap fun p => (p.bindings.mapIdx fun i b => b.findings lang i).flatten

end ProfileSet

end Grimace
