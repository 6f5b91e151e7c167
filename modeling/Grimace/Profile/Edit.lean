import Grimace.Profile.Normalize

/-!
# Grimace.Profile.Edit

Edits of a binding: each part that is given takes the place of what is there, and
what is not given stays.

A change of shape comes first, then the parts that exist in the shape; a part of the
other shape says nothing.  A new text is made into a predicate at once, while the
edge stays where it stands.  An edit with a threshold out of range is refused before
anything else is looked at but the profile.
-/

namespace Grimace

/-- What an edit says of one edge. -/
structure EdgeEdit where
  action : Option String
  logic : Option String
  debounceMs : Option UInt64
deriving Repr, DecidableEq

/-- What an edit says of a binding. -/
structure BindingEdit where
  simplified : Option Bool
  blendshape : Option String
  threshold : Option UInt8
  start : EdgeEdit
  stop : EdgeEdit
deriving Repr, DecidableEq

/-- The edit that says nothing. -/
def BindingEdit.empty : BindingEdit := ⟨none, none, none, ⟨none, none, none⟩, ⟨none, none, none⟩⟩

variable {π : Type}

/-- The rule after an edit. -/
def EdgeRule.edit (lang : RuleLanguage π) (e : EdgeEdit) (r : EdgeRule π) : EdgeRule π :=
  let r := { r with
    debounceMs := e.debounceMs.getD r.debounceMs
    action := e.action.getD r.action }
  match e.logic with
  | some source => r.withLogic lang source
  | none => r

/-- What there is to say about the text that an edit gives. -/
def EdgeEdit.findings (lang : RuleLanguage π) (subject : String) (e : EdgeEdit) :
    List Diagnostic :=
  match e.logic with
  | some source => EdgeRule.findings lang subject ⟨source, 0, "", none, .idle⟩
  | none => []

namespace BindingEdit

/-- The binding in the shape that an edit asks for. -/
def reshape (e : BindingEdit) (b : Binding π) : Binding π :=
  match e.simplified with
  | some toSimple => b.withShape toSimple
  | none => b

/-- The binding after an edit. -/
def apply (lang : RuleLanguage π) (e : BindingEdit) (b : Binding π) : Binding π :=
  match e.reshape b with
  | .simple r =>
    .simple { r with
      blendshape := e.blendshape.getD r.blendshape
      threshold := e.threshold.getD r.threshold
      startAction := e.start.action.getD r.startAction
      stopAction := e.stop.action.getD r.stopAction }
  | .advanced start stop => .advanced (start.edit lang e.start) (stop.edit lang e.stop)

/-- What there is to say about the texts that an edit gives to a binding. -/
def findings (lang : RuleLanguage π) (index : Nat) (e : BindingEdit) (b : Binding π) :
    List Diagnostic :=
  match e.reshape b with
  | .simple _ => []
  | .advanced _ _ =>
    e.start.findings lang (edgeSubject index .start) ++
      e.stop.findings lang (edgeSubject index .stop)

end BindingEdit

namespace ProfileSet

/-- Fails if an edit's threshold is out of range. -/
def checkThreshold (set : ProfileSet π) (p i : Nat) (e : BindingEdit) :
    Except ProfileError Unit := do
  match e.threshold with
  | some threshold =>
    if threshold ≤ maxThreshold then return ()
    else .error (.thresholdOutOfRange (← set.profile p).name i threshold)
  | none => return ()

/-- Edits a binding, and tells what there is to say about the texts that were given. -/
def edit (lang : RuleLanguage π) (set : ProfileSet π) (p i : Nat) (e : BindingEdit) :
    Except ProfileError (List Diagnostic × ProfileSet π) := do
  set.checkThreshold p i e
  let b ← set.binding p i
  return (e.findings lang i b, ← set.modifyBinding p i (e.apply lang))

end ProfileSet

end Grimace
