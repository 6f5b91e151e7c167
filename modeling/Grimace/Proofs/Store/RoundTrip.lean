import Grimace.Proofs.Json.Decode
import Grimace.Proofs.Profile.Map
import Grimace.Proofs.Session.Invariant
import Grimace.Store

/-!
# Grimace.Proofs.Store.RoundTrip

Profile files: what is saved is loaded again.

A file keeps what the user wrote and nothing of where the rules stand; `stored` says what is
left of a set.

* `ofDraft_toJson`, of edges, bindings, profiles and sets — the JSON form of a value is read
  as what is left of the value;
* `ProfileSet.validate_eq_ok_iff` — what the check after reading checks;
* `ProfileSet.file_round_trip` — files are loaded as they were saved.
-/

namespace Grimace

open Json (Draft)
open Json.Decode (RecordField)

variable {π : Type}

/-! ## What a file keeps -/

/-- The rule as it is after loading: what the user wrote, and nothing else. -/
def EdgeRule.stored (r : EdgeRule π) : EdgeRule π := { r with predicate := none, phase := .idle }

/-- The binding as it is after loading. -/
def Binding.stored : Binding π → Binding π
  | .simple r => .simple { r with activated := false }
  | .advanced start stop => .advanced start.stored stop.stored

/-- The set as it is after loading. -/
def ProfileSet.stored (set : ProfileSet π) : ProfileSet π := set.mapBindings Binding.stored

/-! ## Reading what was written -/

theorem EdgeRule.ofDraft_toJson (r : EdgeRule π) :
    EdgeRule.ofDraft (.ofJson r.toJson) = .ok r.stored := by
  refine (Json.Decode.record_object EdgeRule.fields
    [.string r.logic, .natural r.debounceMs.toNat, .string r.action] (.blank "" .idle) ?_ rfl).trans
    ?_
  · simp [EdgeRule.fields, RecordField.required]
  · simp [EdgeRule.fields, EdgeRule.stored, EdgeRule.blank]

theorem SimpleRule.ofDraft_actions (start stop : String) :
    Json.Decode.record SimpleRule.actionFields ("", "")
      (.ofJson (.object [("start", .string start), ("stop", .string stop)])) =
        .ok (start, stop) := by
  refine (Json.Decode.record_object SimpleRule.actionFields [.string start, .string stop] ("", "")
    (by decide) rfl).trans ?_
  simp [SimpleRule.actionFields]

namespace Binding

/-- A binding is sound as it was written, even before its shape is known. -/
theorem isSound_toJson (b : Binding π) {room : Nat} (hroom : 2 ≤ room) :
    (Draft.ofJson b.toJson).isSound room = true := by
  have hout : (room != 0) = true := by simp; omega
  have hin : (room - 1 != 0) = true := by simp; omega
  cases b <;>
    simp [Binding.toJson, EdgeRule.toJson, Draft.ofJson, Draft.Members.ofJson, Draft.isSound,
      Draft.Members.isSound, hout, hin]

/-- The shape is found where it is written, in front of everything else. -/
theorem ofDraft_mode {mode : String} {members : List (String × Json)} {room : Nat}
    (hsound : (Draft.ofJson (.object (("mode", .string mode) :: members))).isSound room = true) :
    Binding.ofDraft (π := π) room (.ofJson (.object (("mode", .string mode) :: members))) =
      ofMode mode [modeField] (.ofJson (.object (("mode", .string mode) :: members))) := by
  unfold Binding.ofDraft
  rw [hsound]
  rfl

theorem record_simple (r : SimpleRule) :
    Json.Decode.record ([modeField] ++ SimpleRule.fields) .template
      (.ofJson (Binding.simple r : Binding π).toJson) = .ok { r with activated := false } := by
  refine (Json.Decode.record_object ([modeField] ++ SimpleRule.fields)
    [.string "simple", .string r.blendshape, .natural r.threshold.toNat,
      .object [("start", .string r.startAction), ("stop", .string r.stopAction)]]
    .template ?_ rfl).trans ?_
  · simp [SimpleRule.fields, RecordField.required, modeField]
  · simp [modeField, SimpleRule.fields, SimpleRule.ofDraft_actions, SimpleRule.template]

theorem record_advanced (start stop : EdgeRule π) :
    Json.Decode.record ([modeField] ++ edgeFields)
      (EdgeRule.blank "" .idle, EdgeRule.blank "" .idle)
      (.ofJson (Binding.advanced start stop).toJson) = .ok (start.stored, stop.stored) := by
  refine (Json.Decode.record_object ([modeField] ++ edgeFields)
    [.string "advanced", start.toJson, stop.toJson] _ ?_ rfl).trans ?_
  · simp [edgeFields, RecordField.required, modeField]
  · simp [modeField, edgeFields, EdgeRule.ofDraft_toJson]

/-- A binding comes back in its shape. -/
theorem ofDraft_toJson (b : Binding π) {room : Nat} (hroom : 2 ≤ room) :
    Binding.ofDraft room (.ofJson b.toJson) = .ok b.stored := by
  have hsound := b.isSound_toJson hroom
  cases b with
  | simple r =>
      have hread := record_simple (π := π) r
      rw [Binding.toJson] at hsound hread ⊢
      rw [ofDraft_mode hsound, ofMode, hread]
      rfl
  | advanced start stop =>
      have hread := record_advanced start stop
      rw [Binding.toJson] at hsound hread ⊢
      rw [ofDraft_mode hsound, ofMode, hread]
      rfl

end Binding

/-- A profile comes back with its bindings in order. -/
theorem Profile.ofDraft_toJson (p : Profile π) {room : Nat} (hroom : 4 ≤ room) :
    Profile.ofDraft room (.ofJson p.toJson) = .ok (p.mapBindings Binding.stored) := by
  have hbindings := Json.Decode.list_ofJson p.bindings fun b _ =>
    b.ofDraft_toJson (show 2 ≤ room - 2 by omega)
  refine (Json.Decode.record_object (Profile.fields (room - 2))
    [.string p.name, .array (p.bindings.map Binding.toJson)] ⟨"", []⟩ ?_ rfl).trans ?_
  · simp [Profile.fields, RecordField.required, RecordField.defaulted]
  · simp [Profile.fields, hbindings, Profile.mapBindings]

/-- A set comes back with its profiles in order. -/
theorem ProfileSet.ofDraft_toJson (set : ProfileSet π) :
    ProfileSet.ofDraft (.ofJson set.toJson) = .ok set.stored := by
  have hprofiles := Json.Decode.list_ofJson set.profiles fun p _ =>
    p.ofDraft_toJson (show 4 ≤ Json.maxDepth - 2 by decide)
  refine (Json.Decode.record_object (ProfileSet.fields (Json.maxDepth - 2))
    [.array (set.profiles.map Profile.toJson), .natural set.selection.toNat] .empty ?_ rfl).trans ?_
  · simp [ProfileSet.fields, RecordField.defaulted]
  · simp [ProfileSet.fields, hprofiles, ProfileSet.stored, ProfileSet.mapBindings]

/-! ## Written values have no doubles -/

theorem Json.areExact_map {α : Type} {f : α → Json} {list : List α}
    (h : ∀ a ∈ list, (f a).isExact = true) : Json.areExact (list.map f) = true := by
  induction list with
  | nil => rfl
  | cons a list ih =>
      obtain ⟨ha, hlist⟩ := List.forall_mem_cons.1 h
      simp [Json.areExact, ha, ih hlist]

theorem Binding.isExact_toJson (b : Binding π) : b.toJson.isExact = true := by
  cases b <;> rfl

theorem Profile.isExact_toJson (p : Profile π) : p.toJson.isExact = true := by
  have hbindings := Json.areExact_map fun b (_ : b ∈ p.bindings) => b.isExact_toJson
  simp [Profile.toJson, Json.isExact, Json.haveExact, hbindings]

theorem ProfileSet.isExact_toJson (set : ProfileSet π) : set.toJson.isExact = true := by
  have hprofiles := Json.areExact_map fun p (_ : p ∈ set.profiles) => p.isExact_toJson
  simp [ProfileSet.toJson, Json.isExact, Json.haveExact, hprofiles, Json.natural]

/-! ## What is written is what the user wrote -/

theorem Binding.toJson_stored (b : Binding π) : b.stored.toJson = b.toJson := by
  cases b <;> rfl

theorem Profile.toJson_mapBindings {f : Binding π → Binding π} (h : ∀ b, (f b).toJson = b.toJson)
    (p : Profile π) : (p.mapBindings f).toJson = p.toJson := by
  simp [Profile.toJson, Profile.mapBindings, h]

/-- A function that goes unnoticed where a binding is written goes unnoticed in a file. -/
theorem ProfileSet.fileText_mapBindings {f : Binding π → Binding π}
    (h : ∀ b, (f b).toJson = b.toJson) (set : ProfileSet π) :
    (set.mapBindings f).fileText = set.fileText := by
  have hjson : (set.mapBindings f).toJson = set.toJson := by
    simp [ProfileSet.toJson, ProfileSet.mapBindings, Profile.toJson_mapBindings h]
  rw [ProfileSet.fileText, hjson, ProfileSet.fileText]

/-- Where the rules stand makes no difference to a file. -/
theorem ProfileSet.fileText_stored (set : ProfileSet π) : set.stored.fileText = set.fileText :=
  set.fileText_mapBindings Binding.toJson_stored

/-! ## Checks after reading -/

namespace ProfileSet

/-- The selection is that of a profile; without profiles it is 0. -/
def SelectionInRange (set : ProfileSet π) : Prop :=
  set.selection.toNat < set.size ∨ set.size = 0 ∧ set.selection = 0

theorem selectionInRange_clampSelection (set : ProfileSet π) :
    set.clampSelection.SelectionInRange := by
  unfold clampSelection
  split
  · next h => exact .inl h
  · by_cases hsize : set.size = 0
    · refine .inr ⟨hsize, ?_⟩
      simp [hsize]
    · left
      have hle := Nat.mod_le (set.size - 1) (2 ^ 64)
      simp only [UInt64.toNat_ofNat', size] at hle hsize ⊢
      omega

theorem clampSelection_of_inRange {set : ProfileSet π} (h : set.SelectionInRange) :
    set.clampSelection = set := by
  unfold clampSelection
  split
  · rfl
  · next hstale =>
    obtain ⟨hsize, hzero⟩ := h.resolve_left hstale
    have hlast : UInt64.ofNat (set.size - 1) = set.selection := by rw [hsize, hzero]; rfl
    rw [hlast]

theorem firstInvalid?_eq_none_iff {bs : List (Binding π)} (i : Nat) :
    firstInvalid? i bs = none ↔ ∀ b ∈ bs, b.isValid = true := by
  induction bs generalizing i with
  | nil => simp [firstInvalid?]
  | cons b bs ih =>
      cases b with
      | simple r =>
          by_cases hr : r.threshold ≤ maxThreshold <;>
            simp [firstInvalid?, Binding.isValid, hr, ih]
      | advanced start stop => simp [firstInvalid?, Binding.isValid, ih]

/-- A set passes the check exactly if every threshold is within the scores. -/
theorem validate_eq_ok_iff {set : ProfileSet π} :
    set.validate = .ok () ↔ set.All fun b => b.isValid = true := by
  unfold validate All
  induction set.profiles with
  | nil => simp [validateProfiles]
  | cons p ps ih =>
      rw [List.forall_mem_cons, ← ih, ← firstInvalid?_eq_none_iff 0, validateProfiles]
      cases firstInvalid? 0 p.bindings <;> simp

/-! ## Files -/

theorem isValid_of_stored {b : Binding π} : b.stored.isValid = b.isValid := by
  cases b <;> rfl

theorem validate_stored {set : ProfileSet π} (h : set.All fun b => b.isValid = true) :
    set.stored.validate = .ok () := by
  refine validate_eq_ok_iff.2 fun p hp b hb => ?_
  obtain ⟨q, hq, rfl⟩ := List.mem_map.1 hp
  obtain ⟨c, hc, rfl⟩ := List.mem_map.1 hb
  exact isValid_of_stored.trans (h q hq c hc)

theorem text_toUTF8 (s : String) : FileContent.text (.ok s.toUTF8) = .ok s := by
  have hread : String.fromUTF8? s.toUTF8 = some s := by
    simp only [String.fromUTF8?, String.toUTF8_eq_toByteArray, dif_pos s.isValidUTF8]
    rfl
  rw [FileContent.text, Except.ok_bind, hread]
  rfl

/-- The text of a file is read as the set that it was written for. -/
theorem ofText_fileText (set : ProfileSet π) :
    Json.Decode.ofText ofDraft set.fileText = .ok set.stored :=
  Json.Decode.ofText_write ⟨true⟩ set.isExact_toJson set.ofDraft_toJson

/-- A set whose thresholds are within the scores is loaded from its file with its selection in
range, wherever it was. -/
theorem load_fileText_clamped {set : ProfileSet π} (hvalid : set.All fun b => b.isValid = true) :
    load (.ok set.fileText.toUTF8) = .ok set.stored.clampSelection := by
  unfold load ofFileText
  rw [text_toUTF8]
  simp [Except.mapError, ofText_fileText, validate_stored hvalid, pure, Except.pure]

theorem load_fileText {set : ProfileSet π} (hvalid : set.All fun b => b.isValid = true)
    (hselection : set.SelectionInRange) :
    load (.ok set.fileText.toUTF8) = .ok set.stored := by
  have hselection' : set.stored.SelectionInRange := by
    simpa [SelectionInRange, stored, size, mapBindings] using hselection
  rw [load_fileText_clamped hvalid, clampSelection_of_inRange hselection']

/-- What is loaded was checked. -/
theorem checked_of_load {content : FileContent} {set : ProfileSet π}
    (h : load content = .ok set) :
    set.All (fun b => b.isValid = true) ∧ set.SelectionInRange := by
  simp only [load, ofFileText, Except.bind_eq_ok_iff, Except.pure_eq_ok_iff] at h
  obtain ⟨text, -, read, -, _, hvalid, rfl⟩ := h
  exact ⟨(validate_eq_ok_iff.1 hvalid).clampSelection, read.selectionInRange_clampSelection⟩

/-- **Profile files round-trip.**  A set whose thresholds are within the scores and whose
selection is in range is loaded from its file as it was written: all that the user wrote comes
back, and every rule stands as one that was never used.

A set that is loaded, from whatever file, was checked and has its selection in range; saved
and loaded again it has the same file. -/
theorem file_round_trip :
    (∀ set : ProfileSet π, set.All (fun b => b.isValid = true) → set.SelectionInRange →
      load (.ok set.fileText.toUTF8) = .ok set.stored) ∧
      ∀ (content : FileContent) (set : ProfileSet π), load content = .ok set →
        set.validate = .ok () ∧ set.SelectionInRange ∧
          ∃ again : ProfileSet π, load (.ok set.fileText.toUTF8) = .ok again ∧
            again.fileText = set.fileText := by
  refine ⟨fun set => load_fileText, fun content set h => ?_⟩
  obtain ⟨hvalid, hselection⟩ := checked_of_load h
  exact ⟨validate_eq_ok_iff.2 hvalid, hselection, set.stored, load_fileText hvalid hselection,
    set.fileText_stored⟩

/-- Marks, control characters and wide numbers come back; a selection that a file says wrongly
does not. -/
theorem file_round_trip_escapes :
    let set : ProfileSet String :=
      ⟨[⟨"\"Lärm\"\n", [.simple ⟨"jawOpen", 100, "back\\slash", "\x00\t", true⟩,
        .advanced ⟨"нос > 3", 18446744073709551615, "😀", some "p", .pending 3.5⟩
          (.blank "" .activated)]⟩, ⟨"", []⟩], 1⟩
    let text := "\x7b \"selection\": 7 \x7d"
    set.All (fun b => b.isValid = true) ∧ set.SelectionInRange ∧
      load (.ok set.fileText.toUTF8) = .ok set.stored ∧
      load (.ok text.toUTF8) = .ok (.empty : ProfileSet String) ∧
      (.empty : ProfileSet String).SelectionInRange := by
  intro set text
  have hvalid : set.All fun b => b.isValid = true := by
    simp [ProfileSet.All, set, Binding.isValid]; decide
  have hselection : set.SelectionInRange := .inl (by decide)
  have hread : Draft.read text =
      (.object (.cons (some "selection") (.number ⟨false, ['7'], [], none⟩) .closed), []) := by
    simp only [text, Draft.read, String.reduceToList]
    rfl
  have hload : load (.ok text.toUTF8) = .ok (.empty : ProfileSet String) := by
    rw [load, text_toUTF8]
    simp only [Except.mapError, Except.ok_bind, ofFileText, Json.Decode.ofText, hread]
    rfl
  exact ⟨hvalid, hselection, file_round_trip.1 set hvalid hselection, hload,
    (file_round_trip.2 _ _ hload).2.1⟩

end ProfileSet

end Grimace
