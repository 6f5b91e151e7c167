import Grimace.Proofs.Session.Editing
import Grimace.Wire.Action
import Grimace.Wire.Edit

/-!
# Grimace.Proofs.Wire.RoundTrip

Edits and actions on the wire: what is sent is what is received.

An edit is an object of nine keys, and one that is `null` says the same as one that is missing.
An action is its token and its steps, each step its kind and an argument of a shape of its own.

* `BindingEdit.ofText_thinned` — an edit is read from its text as it was, whichever of its
  `null`s are left out;
* `BindingEdit.leaves_alone` — a field that an edit's text says nothing of stays;
* `Action.ofText_write` — an action is read from its text as it was;
* `wire_round_trip` — all three together.
-/

namespace Grimace

open Json (Decoder Layout)
open Json.Decode (RecordField Fills Thinned)

variable {π : Type}

/-! ## Edits -/

/-- The key of a field in the JSON form of an edit. -/
def Field.key : Field → String
  | blendshape => "blendshape"
  | threshold => "threshold"
  | action edge => edge.name ++ "_action"
  | logic edge => edge.name ++ "_logic"
  | debounceMs edge => edge.name ++ "_debounce_ms"

namespace BindingEdit

/-- What stands under the keys of an edit. -/
def values (e : BindingEdit) : List Json :=
  [part .boolean e.simplified, part .string e.blendshape,
    part (fun n => .natural n.toNat) e.threshold, part .string e.start.action,
    part .string e.stop.action, part .string e.start.logic, part .string e.stop.logic,
    part (fun n => .natural n.toNat) e.start.debounceMs,
    part (fun n => .natural n.toNat) e.stop.debounceMs]

/-- The members of an edit in its JSON form. -/
def members (e : BindingEdit) : List (String × Json) := Json.Decode.membersOf fields e.values

theorem toJson_eq (e : BindingEdit) : e.toJson = .object e.members := rfl

theorem isExact_part {β : Type} {write : β → Json} (h : ∀ x, (write x).isExact = true)
    (v : Option β) : (part write v).isExact = true := by
  cases v with
  | none => rfl
  | some x => exact h x

theorem haveExact_members (e : BindingEdit) : Json.haveExact e.members = true := by
  have hboolean : ∀ b, (Json.boolean b).isExact = true := fun _ => rfl
  have hstring : ∀ s, (Json.string s).isExact = true := fun _ => rfl
  have hnatural : ∀ n, (Json.natural n).isExact = true := fun _ => rfl
  simp [members, values, Json.Decode.membersOf, fields, Json.haveExact, isExact_part, hboolean,
    hstring, hnatural]

/-- A part that is written, or `null`, fills its field. -/
theorem fills_part {α β : Type} {key : String} {decode : Decoder β} {set : Option β → α → α}
    {fields : List (RecordField α)} {write : β → Json} {values : List Json} {a c : α}
    (hdecode : ∀ x, Json.Decode.optional decode (.ofJson (write x)) = .ok (some x))
    (hset : set none a = a) (v : Option β) (h : Fills fields values (set v a) c) :
    Fills (.nullable key decode set :: fields) (part write v :: values) a c := by
  cases v with
  | none => exact .cons rfl (fun _ => hset) h
  | some x =>
      refine .cons ?_ (fun hnull => ?_) h
      · simp only [RecordField.nullable, RecordField.putting, part, hdecode, Except.ok_bind]
        rfl
      · have hx := hdecode x
        rw [show write x = .null from hnull] at hx
        exact absurd (Except.ok.inj hx).symm (Option.some_ne_none x)

theorem fills_fields (e : BindingEdit) : Fills fields e.values .empty e := by
  have hboolean : ∀ b, Json.Decode.optional Json.Decode.boolean (.ofJson (.boolean b)) =
      .ok (some b) := fun _ => rfl
  have hstring : ∀ s, Json.Decode.optional Json.Decode.string (.ofJson (.string s)) =
      .ok (some s) := fun _ => rfl
  have huint8 : ∀ n : UInt8, Json.Decode.optional Json.Decode.uint8
      (.ofJson (.natural n.toNat)) = .ok (some n) := fun n =>
    congrArg (some <$> ·) (Json.Decode.uint8_natural n)
  have huint64 : ∀ n : UInt64, Json.Decode.optional Json.Decode.uint64
      (.ofJson (.natural n.toNat)) = .ok (some n) := fun n =>
    congrArg (some <$> ·) (Json.Decode.uint64_natural n)
  -- Each field is filled while it is still empty.
  exact fills_part hboolean rfl _ <| fills_part hstring rfl _ <| fills_part huint8 rfl _ <|
    fills_part hstring rfl _ <| fills_part hstring rfl _ <| fills_part hstring rfl _ <|
    fills_part hstring rfl _ <| fills_part huint64 rfl _ <| fills_part huint64 rfl _ <| .nil e

/-- An edit is read from its text as it was, whichever of its `null`s are left out. -/
theorem ofText_thinned (e : BindingEdit) {members : List (String × Json)}
    (h : Thinned e.members members) (l : Layout) :
    Json.Decode.ofText ofDraft (String.ofList (Json.write l 0 (.object members))) = .ok e := by
  have hexact : (Json.object members).isExact = true := h.haveExact e.haveExact_members
  exact Json.Decode.ofText_write l hexact
    (Json.Decode.record_thinned (by decide) (by decide) e.fills_fields h)

/-! ## What is left alone -/

/-- What stands under the key of a field. -/
def under (e : BindingEdit) : Field → Json
  | .blendshape => part .string e.blendshape
  | .threshold => part (fun n => .natural n.toNat) e.threshold
  | .action edge => part .string (e.ofEdge edge).action
  | .logic edge => part .string (e.ofEdge edge).logic
  | .debounceMs edge => part (fun n => .natural n.toNat) (e.ofEdge edge).debounceMs

theorem mem_members (e : BindingEdit) (f : Field) : (f.key, e.under f) ∈ e.members := by
  cases f with
  | blendshape | threshold =>
      simp [members, values, Json.Decode.membersOf, fields, RecordField.nullable, under, Field.key]
  | action edge | logic edge | debounceMs edge =>
      cases edge <;>
        simp [members, values, Json.Decode.membersOf, fields, RecordField.nullable, under,
          Field.key, Edge.name, ofEdge]

theorem eq_none_of_part {β : Type} {write : β → Json} {v : Option β} (h : part write v = .null)
    (hwrite : ∀ x, write x ≠ .null) : v = none := by
  cases v with
  | none => rfl
  | some x => exact absurd h (hwrite x)

/-- Nothing is given for a field whose key is `null` or missing. -/
theorem given?_eq_none {e : BindingEdit} {members : List (String × Json)}
    (h : Thinned e.members members) {f : Field} (hf : ∀ v, (f.key, v) ∈ members → v = .null) :
    e.given? f = none := by
  have hunder : e.under f = .null := Classical.byContradiction fun hne =>
    hne (hf _ (h.mem (e.mem_members f) hne))
  cases f with
  | blendshape | threshold | action edge | logic edge | debounceMs edge =>
      exact eq_none_of_part hunder fun _ => nofun

theorem simplified_eq_none {e : BindingEdit} {members : List (String × Json)}
    (h : Thinned e.members members) (hf : ∀ v, ("simplified", v) ∈ members → v = .null) :
    e.simplified = none := by
  have hmem : ("simplified", part .boolean e.simplified) ∈ e.members := List.mem_cons_self
  have hpart : part .boolean e.simplified = .null := Classical.byContradiction fun hne =>
    hne (hf _ (h.mem hmem hne))
  exact eq_none_of_part hpart fun _ => nofun

/-- The shape stays if its key is `null` or missing, and so does each field. -/
theorem leaves_alone (lang : RuleLanguage π) {set : ProfileSet π} {p i : Nat} {b : Binding π}
    (hb : set.binding p i = .ok b) {e : BindingEdit} {members : List (String × Json)}
    (h : Thinned e.members members) (hshape : ∀ v, ("simplified", v) ∈ members → v = .null)
    {reports : List Diagnostic} {set' : ProfileSet π}
    (hedit : set.edit lang p i e = .ok (reports, set')) :
    ∃ b', set'.binding p i = .ok b' ∧ b'.isSimple = b.isSimple ∧ b'.standing = b.standing ∧
      ∀ f : Field, (∀ v, (f.key, v) ∈ members → v = .null) → b'.field? f = b.field? f := by
  have hset' := (ProfileSet.edit_eq_ok hedit).2
  have hreshape : e.reshape b = b := by
    unfold reshape
    rw [simplified_eq_none h hshape]
  have hamends := e.amends_apply lang b
  rw [hreshape] at hamends
  refine ⟨_, ProfileSet.binding_modifyBinding hset' hb, hamends.shape, hamends.standing,
    fun f hf => ?_⟩
  rw [hamends.fields f, given?_eq_none h hf]
  simp

end BindingEdit

/-! ## Actions -/

namespace Action

theorem isExact_step (s : Step) : s.toJson.isExact = true := by
  cases s <;> rfl

theorem isExact_toJson (tokenKey : String) (a : Action) : (a.toJson tokenKey).isExact = true := by
  have hsteps := Json.areExact_map fun s (_ : s ∈ a.steps) => isExact_step s
  simp [toJson, Json.isExact, Json.haveExact, hsteps]

/-- The argument of a step is read as its kind asks for. -/
theorem stepOfDraft_of_kind {s : Step} {argumentOf : Decoder Step}
    (h : argumentOf? s.kind = some argumentOf) :
    stepOfDraft (.ofJson s.toJson) = argumentOf (.ofJson s.argument) := by
  have hkind : Json.Decode.oneOf argumentOf? (.ofJson (.string s.kind)) = .ok argumentOf := by
    simp only [Json.Draft.ofJson, Json.Decode.oneOf, h]
  have hrecord : Json.Decode.record rawStepFields ⟨fun _ => .error .mismatched, .null⟩
      (.ofJson s.toJson) = .ok ⟨argumentOf, .ofJson s.argument⟩ := by
    refine (Json.Decode.record_object rawStepFields [.string s.kind, s.argument] _ (by decide)
      rfl).trans ?_
    simp [rawStepFields, hkind]
  rw [stepOfDraft, hrecord]
  rfl

/-- A step of every kind comes back. -/
theorem stepOfDraft_toJson (s : Step) : stepOfDraft (.ofJson s.toJson) = .ok s := by
  cases s with
  | press key => exact stepOfDraft_of_kind (s := .press key) rfl
  | hold key => exact stepOfDraft_of_kind (s := .hold key) rfl
  | release key => exact stepOfDraft_of_kind (s := .release key) rfl
  | write text => exact stepOfDraft_of_kind (s := .write text) rfl
  | click button =>
      refine (stepOfDraft_of_kind (s := .click button) rfl).trans ?_
      cases button <;> rfl
  | move dx dy =>
      refine (stepOfDraft_of_kind (s := .move dx dy) rfl).trans ?_
      have hdx := Json.Decode.int32_integer dx
      have hdy := Json.Decode.int32_integer dy
      simp only [Step.argument, Json.Draft.ofJson, Json.Draft.Items.ofJson, pair] at hdx hdy ⊢
      rw [hdx, hdy]
      rfl
  | scroll n =>
      refine (stepOfDraft_of_kind (s := .scroll n) rfl).trans ?_
      exact congrArg (Step.scroll <$> ·) (Json.Decode.int32_integer n)

/-- An action comes back with its steps in order. -/
theorem ofDraft_toJson (a : Action) : ofDraft (.ofJson (a.toJson "raw")) = .ok a := by
  have hsteps := Json.Decode.list_ofJson (g := id) a.steps fun s _ => stepOfDraft_toJson s
  refine (Json.Decode.record_object fields
    [.string a.token, .array (a.steps.map Step.toJson)] ⟨"", []⟩ (by decide) rfl).trans ?_
  simp [fields, hsteps]

/-- An action is read from its text as it was. -/
theorem ofText_write (a : Action) (l : Layout) :
    Json.Decode.ofText ofDraft (String.ofList (Json.write l 0 (a.toJson "raw"))) = .ok a :=
  Json.Decode.ofText_write l (a.isExact_toJson "raw") a.ofDraft_toJson

end Action

/-! ## On the wire -/

/-- **Edits and actions survive the wire**, in either layout.

An edit whose JSON form is written, with all of its `null`s or without some, is read as the same
edit, so that it does the same to every set.  What its text says nothing of, be it by `null` or
by a missing key, is left alone: without a shape the binding keeps its own and stands where it
stood, and each field that is not given keeps what was written in it.

An action is read with its token and its steps as they were, whatever texts and numbers they
hold. -/
theorem wire_round_trip (l : Layout) :
    (∀ (e : BindingEdit) (full members : List (String × Json)), e.toJson = .object full →
      Thinned full members →
      Json.Decode.ofText BindingEdit.ofDraft
          (String.ofList (Json.write l 0 (.object members))) = .ok e ∧
        ∀ (lang : RuleLanguage π) (set set' : ProfileSet π) (p i : Nat) (b : Binding π)
          (reports : List Diagnostic), set.binding p i = .ok b →
          (∀ v, ("simplified", v) ∈ members → v = .null) →
          set.edit lang p i e = .ok (reports, set') →
          ∃ b', set'.binding p i = .ok b' ∧ b'.isSimple = b.isSimple ∧
            b'.standing = b.standing ∧
            ∀ f : Field, (∀ v, (f.key, v) ∈ members → v = .null) → b'.field? f = b.field? f) ∧
      ∀ a : Action, Json.Decode.ofText Action.ofDraft
        (String.ofList (Json.write l 0 (a.toJson "raw"))) = .ok a := by
  refine ⟨fun e full members hfull hthinned => ?_, fun a => a.ofText_write l⟩
  obtain rfl : e.members = full := Json.object.inj (e.toJson_eq.symm.trans hfull)
  exact ⟨e.ofText_thinned hthinned l, fun lang set set' p i b reports hb hshape hedit =>
    BindingEdit.leaves_alone lang hb hthinned hshape hedit⟩

/-- An edit of which all but one of the `null`s are left out, and an action at the ends of its
range. -/
theorem wire_round_trip_sparse :
    let lang := RuleLanguage.flags []
    let e : BindingEdit := ⟨none, some "jawOpen", none, ⟨some "text:\"ä\"\n", none, none⟩,
      ⟨none, none, none⟩⟩
    let members := [("blendshape", Json.string "jawOpen"),
      ("start_action", .string "text:\"ä\"\n"), ("stop_logic", .null)]
    let set : ProfileSet String := ⟨[⟨"Default", [.template]⟩], 0⟩
    let a : Action := ⟨"\x00😀", [.move Int32.minValue Int32.maxValue, .write "\x00😀",
      .click .middle, .scroll (-1)]⟩
    Json.Decode.ofText BindingEdit.ofDraft (Json.object members).compact = .ok e ∧
      (∃ reports set' b', set.edit lang 0 0 e = .ok (reports, set') ∧
        set'.binding 0 0 = .ok b' ∧ b'.field? .threshold = some SimpleRule.template.threshold) ∧
      Json.Decode.ofText Action.ofDraft (a.toJson "raw").compact = .ok a := by
  intro lang e members set a
  have hthinned : Thinned e.members members :=
    .drop _ <| .keep _ <| .drop _ <| .keep _ <| .drop _ <| .drop _ <| .keep _ <| .drop _ <|
      .drop _ .nil
  obtain ⟨hedits, hactions⟩ := wire_round_trip (π := String) ⟨false⟩
  obtain ⟨hread, halone⟩ := hedits e e.members members rfl hthinned
  obtain ⟨b', hb', -, -, hfields⟩ := halone lang set _ 0 0 .template _ rfl
    (by simp [members]) rfl
  refine ⟨hread, ⟨_, _, b', rfl, hb', ?_⟩, hactions a⟩
  exact hfields .threshold (by simp [members, Field.key])

end Grimace
