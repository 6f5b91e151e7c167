import Grimace.Proofs.Json.Decode
import Grimace.Wire.Frame
import Mathlib.Data.List.Basic

/-!
# Grimace.Proofs.Wire.Report

Reports of frames and of failures on the wire: the JSON form of a report keeps all of it.

* `Transition.toJson_injective`, `FrameReport.toJson_injective`, `Diagnostic.toJson_injective` — no
  two reports have one form;
* `Transition.ofDraft_toJson`, `FrameReport.ofDraft_stamped` — a form is read as the report that
  it is of, so far as the times in it are read as they were written.  A report that comes from
  elsewhere is stamped with a point in time, which is checked and left out;
* `Diagnostic.ofDraft_stamped` — so is the form of a failure's report, in which no times are.
-/

namespace Grimace

/-! ## Single values -/

namespace Json

theorem ofString?_injective {s s' : Option String} (h : ofString? s = ofString? s') : s = s' := by
  cases s <;> cases s' <;> simp_all [ofString?]

theorem natural_injective {n n' : Nat} (h : natural n = natural n') : n = n' :=
  Int.ofNat.inj (Json.integer.inj h)

/-- The double is read as it was written. -/
def ReadsBack (x : Float) : Prop := Decode.float (.ofJson (.float x)) = .ok x

example : ReadsBack 16.7 := by rfl

namespace Decode

theorem index_natural {n : Nat} (h : n < UInt64.size) : index (.ofJson (.natural n)) = .ok n := by
  rw [index, integer_natural h (by decide)]
  rfl

@[simp] theorem optional_ofString? (s : Option String) :
    optional string (.ofJson (.ofString? s)) = .ok s := by
  cases s <;> rfl

end Decode

end Json

@[simp] theorem Edge.ofDraft_name (e : Edge) : Edge.ofDraft (.ofJson (.string e.name)) = .ok e := by
  cases e <;> rfl

@[simp] theorem Reason.ofDraft_code (r : Reason) :
    Reason.ofDraft (.ofJson (.string r.code)) = .ok r := by
  cases r <;> rfl

@[simp] theorem FrameStatus.ofDraft_name (s : FrameStatus) :
    FrameStatus.ofDraft (.ofJson (.string s.name)) = .ok s := by
  cases s <;> rfl

@[simp] theorem timestampOfDraft_string {stamp : String}
    (h : Text.Timestamp.isValid stamp = true) :
    timestampOfDraft (.ofJson (.string stamp)) = .ok () := by
  simp [timestampOfDraft, h, pure, Except.pure]

/-! ## Transitions -/

namespace Transition

/-- No two transitions have one form. -/
theorem toJson_injective : Function.Injective toJson := by
  rintro ⟨frameMs, binding, edge, reason, action, error⟩
    ⟨frameMs', binding', edge', reason', action', error'⟩ h
  simp only [toJson, Json.object.injEq, List.cons.injEq, Prod.mk.injEq, true_and, and_true,
    Json.float.injEq, Json.string.injEq] at h
  obtain ⟨rfl, hbinding, hedge, hreason, haction, herror⟩ := h
  rw [Json.natural_injective hbinding, Edge.name_injective hedge, Reason.code_injective hreason,
    Json.ofString?_injective haction, Json.ofString?_injective herror]

/-- A transition comes back if its time does and its index is one that can be read. -/
theorem ofDraft_toJson {t : Transition} (htime : Json.ReadsBack t.frameMs)
    (hbinding : t.binding < UInt64.size) : ofDraft (.ofJson t.toJson) = .ok t := by
  have hfloat : Json.Decode.float (.ofJson (.float t.frameMs)) = .ok t.frameMs := htime
  have hindex := Json.Decode.index_natural hbinding
  refine (Json.Decode.record_object fields [.float t.frameMs, .natural t.binding,
    .string t.edge.name, .string t.reason.code, .ofString? t.action, .ofString? t.error] _
    (by decide) rfl).trans ?_
  simp [fields, hfloat, hindex]

end Transition

/-! ## Reports -/

namespace FrameReport

/-- No two reports have one form. -/
theorem toJson_injective : Function.Injective toJson := by
  rintro ⟨frameMs, status, profile, transitions⟩ ⟨frameMs', status', profile', transitions'⟩ h
  simp only [toJson, Json.object.injEq, List.cons.injEq, Prod.mk.injEq, true_and, and_true,
    Json.float.injEq, Json.string.injEq, Json.array.injEq] at h
  obtain ⟨rfl, hstatus, hprofile, htransitions⟩ := h
  rw [FrameStatus.name_injective hstatus, Json.ofString?_injective hprofile,
    Transition.toJson_injective.list_map htransitions]

/-- **A report comes back** with its transitions in order, if its times do and its indexes can be
read, whatever point in time it is stamped with. -/
theorem ofDraft_stamped {r : FrameReport} (htime : Json.ReadsBack r.frameMs)
    (htransitions : ∀ t ∈ r.transitions, Json.ReadsBack t.frameMs ∧ t.binding < UInt64.size)
    {stamp : String} (hstamp : Text.Timestamp.isValid stamp = true)
    {members : List (String × Json)} (hmembers : r.toJson = .object members) :
    ofDraft (.ofJson (.object (("timestamp", .string stamp) :: members))) = .ok r := by
  obtain rfl := Json.object.inj hmembers
  have hfloat : Json.Decode.float (.ofJson (.float r.frameMs)) = .ok r.frameMs := htime
  have hlist : Json.Decode.list Transition.ofDraft
      (.ofJson (.array (r.transitions.map Transition.toJson))) = .ok r.transitions := by
    simpa using Json.Decode.list_ofJson (g := id) r.transitions fun t ht =>
      Transition.ofDraft_toJson (htransitions t ht).1 (htransitions t ht).2
  refine (Json.Decode.record_object fields [.string stamp, .float r.frameMs,
    .string r.status.name, .ofString? r.profile, .array (r.transitions.map Transition.toJson)] _
    (by decide) rfl).trans ?_
  simp [fields, hstamp, hfloat, hlist]

end FrameReport

/-! ## Failures -/

namespace Diagnostic

/-- No two reports of failures have one form. -/
theorem toJson_injective : Function.Injective toJson := by
  rintro ⟨code, subject, detail⟩ ⟨code', subject', detail'⟩ h
  simp only [toJson, Json.object.injEq, List.cons.injEq, Prod.mk.injEq, true_and, and_true,
    Json.string.injEq] at h
  obtain ⟨hcode, rfl, rfl⟩ := h
  rw [Reason.code_injective hcode]

/-- **A failure's report comes back**, whatever point in time it is stamped with. -/
theorem ofDraft_stamped (d : Diagnostic) {stamp : String}
    (hstamp : Text.Timestamp.isValid stamp = true) {members : List (String × Json)}
    (hmembers : d.toJson = .object members) :
    ofDraft (.ofJson (.object (("timestamp", .string stamp) :: members))) = .ok d := by
  obtain rfl := Json.object.inj hmembers
  refine (Json.Decode.record_object fields [.string stamp, .string d.code.code,
    .string d.subject, .string d.detail] _ (by decide) rfl).trans ?_
  simp [fields, hstamp]

end Diagnostic

end Grimace
