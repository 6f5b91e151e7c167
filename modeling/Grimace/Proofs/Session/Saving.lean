import Grimace.Proofs.Frame.Replay
import Grimace.Proofs.Session.Dispatch
import Grimace.Proofs.Session.Invariant
import Grimace.Proofs.Store.RoundTrip

/-!
# Grimace.Proofs.Session.Saving

Every session can be saved.

A file is taken if its thresholds are within the scores and it is written as it is only if the
selection is in range.  Both hold of a session at all times, if the thresholds are within the
scores at the start: new bindings have a threshold that is, an edit with any other one is
refused, and wherever profiles come or go the selection follows.

* `Binding.kept_valid` — thresholds stay within the scores;
* `Session.selectionInRange_run` — the selection stays in range;
* `Session.valid_and_saveable` — so a session can be saved and loaded whatever happened in it, and
  a frame is evaluated wherever there is a profile.
-/

namespace Grimace

variable {π σ : Type}

/-! ## Thresholds -/

namespace Binding

theorem isValid_withShape (toSimple : Bool) {b : Binding π} (h : b.isValid = true) :
    (b.withShape toSimple).isValid = true := by
  cases b <;> cases toSimple <;> first | exact h | rfl

theorem isValid_edit (lang : RuleLanguage π) (e : BindingEdit) {b : Binding π}
    (he : ∀ t, e.threshold = some t → t ≤ maxThreshold) (h : b.isValid = true) :
    (e.apply lang b).isValid = true := by
  have hshape : (e.reshape b).isValid = true := by
    unfold BindingEdit.reshape
    split
    · exact isValid_withShape _ h
    · exact h
  unfold BindingEdit.apply
  split
  · next r hr =>
    rw [hr] at hshape
    cases ht : e.threshold with
    | none => exact hshape
    | some t => simpa [Binding.isValid] using he t ht
  · rfl

theorem isValid_turn (lang : RuleLanguage π) (d : Dispatcher σ) (m : Moment) (index : Nat) (s : σ)
    {b : Binding π} (h : b.isValid = true) : (b.turn lang d m index s).value.isValid = true := by
  cases b with
  | advanced start stop => rfl
  | simple r =>
      have hthreshold : (r.turn d m index s).value.threshold = r.threshold := by
        rw [r.value_turn]
        rcases r.step_cases (m.scores.get? r.blendshape) with h | ⟨-, h⟩ | ⟨-, h⟩ <;> rw [h]
      simpa [Binding.turn, Binding.isValid, hthreshold] using h

/-- Whatever happens to a binding, its threshold stays within the scores. -/
theorem kept_valid (lang : RuleLanguage π) (d : Dispatcher σ) :
    Binding.Kept lang d fun b => b.isValid = true where
  template := rfl
  normalize b h := by cases b <;> exact h
  withShape toSimple _ h := isValid_withShape toSimple h
  reset b h := by cases b <;> exact h
  edit e _ he h := isValid_edit lang e he h
  withLogic edge source b h := by cases b <;> cases edge <;> exact h
  turn m index s _ h := isValid_turn lang d m index s h

end Binding

/-! ## The selection -/

namespace ProfileSet

variable {set set' : ProfileSet π}

theorem SelectionInRange.of_eq (h : set.SelectionInRange) (hsize : set'.size = set.size)
    (hselection : set'.selection = set.selection) : set'.SelectionInRange := by
  unfold SelectionInRange
  rw [hsize, hselection]
  exact h

theorem size_withBindings (set : ProfileSet π) (p : Nat) (bs : List (Binding π)) :
    (set.withBindings p bs).size = set.size :=
  List.length_modify ..

theorem SelectionInRange.withBindings (h : set.SelectionInRange) (p : Nat)
    (bs : List (Binding π)) : (set.withBindings p bs).SelectionInRange :=
  h.of_eq (set.size_withBindings p bs) rfl

theorem SelectionInRange.modifyBinding {p i : Nat} {f : Binding π → Binding π}
    (h : set.SelectionInRange) (hset' : set.modifyBinding p i f = .ok set') :
    set'.SelectionInRange := by
  obtain ⟨profile, -, -, -, rfl⟩ := modifyBinding_eq_ok_iff.1 hset'
  exact h.withBindings p _

theorem selectionInRange_normalize (lang : RuleLanguage π) (set : ProfileSet π) :
    (set.normalize lang).SelectionInRange := by
  refine set.selectionInRange_clampSelection.of_eq ?_ rfl
  unfold clampSelection
  split <;> simp [normalize, size]

theorem selectionInRange_createProfile (set : ProfileSet π) (name : String) :
    (set.createProfile name).SelectionInRange := by
  left
  have hle := Nat.mod_le set.size (2 ^ 64)
  simp only [createProfile, size, UInt64.toNat_ofNat', List.length_append,
    List.length_singleton] at hle ⊢
  omega

theorem selectionInRange_select {index : UInt64} (h : set.select index = .ok set') :
    set'.SelectionInRange := by
  unfold select at h
  split at h
  · next hlt =>
    cases h
    exact .inl hlt
  · contradiction

theorem toNat_sub_min_one (n : UInt64) : (n - min n 1).toNat = n.toNat - 1 := by
  have hmin : min n 1 = if n ≤ 1 then n else 1 := rfl
  rw [hmin]
  split
  · next h =>
    have hle : n.toNat ≤ 1 := UInt64.le_iff_toNat_le.1 h
    rw [UInt64.sub_self, UInt64.toNat_zero]
    omega
  · next h =>
    exact UInt64.toNat_sub_of_le n 1 (UInt64.le_of_lt (UInt64.not_le.1 h))

/-- The profile before the removed one is selected, or the first one. -/
theorem selectionInRange_removeSelected {p : Profile π}
    (h : set.removeSelected = some (p, set')) : set'.SelectionInRange := by
  obtain ⟨_, hp, heq⟩ := Option.map_eq_some_iff.1 h
  have hlt : set.selection.toNat < set.profiles.length := (List.getElem?_eq_some_iff.1 hp).1
  rw [Prod.mk.injEq] at heq
  obtain ⟨-, rfl⟩ := heq
  unfold SelectionInRange size
  simp only [List.length_eraseIdx, if_pos hlt, ← UInt64.toNat_inj, toNat_sub_min_one,
    UInt64.toNat_zero]
  omega

theorem SelectionInRange.createBinding {p n : Nat} (h : set.SelectionInRange)
    (hset' : set.createBinding p = .ok (n, set')) : set'.SelectionInRange := by
  obtain ⟨profile, -, rfl⟩ := createBinding_eq_ok hset'
  exact h.withBindings p _

theorem SelectionInRange.removeBinding {p i : Nat} {b : Binding π} (h : set.SelectionInRange)
    (hset' : set.removeBinding p i = .ok (b, set')) : set'.SelectionInRange := by
  obtain ⟨profile, -, rfl⟩ := removeBinding_eq_ok hset'
  exact h.withBindings p _

theorem SelectionInRange.edit {lang : RuleLanguage π} {p i : Nat} {e : BindingEdit}
    {reports : List Diagnostic} (h : set.SelectionInRange)
    (hset' : set.edit lang p i e = .ok (reports, set')) : set'.SelectionInRange :=
  h.modifyBinding (edit_eq_ok hset').2

theorem SelectionInRange.evaluate (h : set.SelectionInRange) (lang : RuleLanguage π)
    (d : Dispatcher σ) (s : σ) (selection : Nat) (m : Moment) :
    (set.evaluate lang d s selection m).set.SelectionInRange := by
  unfold ProfileSet.evaluate
  split
  · exact h
  · exact h.withBindings _ _

theorem SelectionInRange.evaluateReading (h : set.SelectionInRange) (lang : RuleLanguage π)
    (d : Dispatcher σ) (s : σ) (selection : Nat) (f : Except DetectorError DetectorFrame) :
    (set.evaluateReading lang d s selection f).set.SelectionInRange :=
  evaluateReading_cases (motive := fun r => r.set.SelectionInRange)
    (h.evaluate lang d s selection) (fun _ _ _ => h) f

end ProfileSet

namespace Session

variable {lang : RuleLanguage π} {d : Dispatcher σ}

/-- A command leaves the selection in range. -/
theorem selectionInRange_step {s : Session π σ} (hs : s.profiles.SelectionInRange) (c : Command) :
    (s.step lang d c).session.profiles.SelectionInRange := by
  cases c with
  | normalize => exact s.profiles.selectionInRange_normalize lang
  | clampSelection => exact s.profiles.selectionInRange_clampSelection
  | createProfile name => exact s.profiles.selectionInRange_createProfile name
  | removeSelected =>
      unfold Session.step
      dsimp only
      split
      · next p set h => exact ProfileSet.selectionInRange_removeSelected h
      · exact hs
  | select index =>
      exact attempt_keeps _ hs fun set h => ProfileSet.selectionInRange_select h
  | createBinding p => exact attempt_keeps _ hs fun r h => hs.createBinding h
  | removeBinding p i => exact attempt_keeps _ hs fun r h => hs.removeBinding h
  | reshape p i toSimple =>
      exact attempt_keeps _ hs fun b _ => attempt_keeps _ hs fun set h => hs.modifyBinding h
  | reset p i => exact attempt_keeps _ hs fun set h => hs.modifyBinding h
  | edit p i e => exact attempt_keeps _ hs fun r h => hs.edit h
  | setLogic p i edge source =>
      refine attempt_keeps _ hs fun b _ => ?_
      cases b with
      | simple r => exact hs
      | advanced start stop => exact attempt_keeps _ hs fun set h => hs.modifyBinding h
  | evaluate p m => exact hs.evaluate lang d _ _ m
  | frame p f => exact hs.evaluateReading lang d _ _ f

/-- The selection of a session is in range at all times. -/
theorem selectionInRange_run {s : Session π σ} (hs : s.profiles.SelectionInRange)
    (cs : List Command) : (run lang d s cs).profiles.SelectionInRange := by
  induction cs generalizing s with
  | nil => exact hs
  | cons c cs ih => exact ih (selectionInRange_step hs c)

end Session

/-! ## Frames -/

/-- A frame that the detector did not fail on and that shows a face has scores. -/
theorem DetectorFrame.exists_scores {f : DetectorFrame} (herror : f.error = none)
    (hfaces : f.faces ≠ []) : ∃ scores, f.scores = .ok (some scores) := by
  unfold scores
  rw [herror]
  cases hf : f.faces with
  | nil => contradiction
  | cons face faces => exact ⟨_, rfl⟩

/-- Where the selection is in range, there is a selected profile if there is any. -/
theorem ProfileSet.SelectionInRange.exists_selected {set : ProfileSet π}
    (h : set.SelectionInRange) (hpos : 0 < set.size) : ∃ p, set.selected? = some p := by
  have hlt : set.selection.toNat < set.profiles.length := by
    rcases h with hlt | ⟨hzero, -⟩
    · exact hlt
    · omega
  exact ⟨set.profiles[set.selection.toNat], List.getElem?_eq_getElem hlt⟩

namespace Session

/-- What a frame leads to that is evaluated against the selected profile `p`. -/
def evaluating (lang : RuleLanguage π) (d : Dispatcher σ) (s : Session π σ) (p : Profile π)
    (m : Moment) : Outcome π σ :=
  let turn := evaluateBindings lang d m 0 s.actuator p.bindings
  ⟨.ok (.report ⟨m.now, .evaluated, some p.name, turn.transitions⟩),
    ⟨s.profiles.withBindings s.profiles.selection.toNat turn.value, turn.actuator⟩, turn.reports⟩

/-- A frame that shows a face is evaluated against the selected profile if there are profiles, and
touches nothing if there are none. -/
theorem step_frame_of_selectionInRange (lang : RuleLanguage π) (d : Dispatcher σ)
    {s : Session π σ} (hs : s.profiles.SelectionInRange) {f : DetectorFrame}
    (herror : f.error = none) (hfaces : f.faces ≠ []) :
    (0 < s.profiles.size → ∃ p scores, s.profiles.selected? = some p ∧
        f.scores = .ok (some scores) ∧
        s.step lang d (.frame none (.ok f)) = s.evaluating lang d p ⟨scores, f.timestampMs⟩) ∧
      (s.profiles.size = 0 →
        s.step lang d (.frame none (.ok f)) =
          ⟨.ok (.report (.skipped f.timestampMs .noProfile)), s, []⟩) := by
  obtain ⟨scores, hscores⟩ := DetectorFrame.exists_scores herror hfaces
  have hjudges : (Command.frame none (.ok f)).judges? = some (none, ⟨scores, f.timestampMs⟩) := by
    simp only [Command.judges?, hscores]
  have hstep := step_of_judges? lang d s hjudges
  rw [Option.getD_none] at hstep
  constructor
  · intro hpos
    obtain ⟨p, hp⟩ := hs.exists_selected hpos
    have hprofile : s.profiles.profiles[s.profiles.selection.toNat]? = some p := hp
    refine ⟨p, scores, hp, hscores, ?_⟩
    rw [hstep]
    unfold ProfileSet.evaluate
    rw [hprofile]
    rfl
  · intro hzero
    have hnone : s.profiles.profiles[s.profiles.selection.toNat]? = none := by
      rw [List.length_eq_zero_iff.1 hzero]
      rfl
    rw [hstep]
    unfold ProfileSet.evaluate
    rw [hnone]
    rfl

/-! ## All sessions -/

/-- **Every session is valid and can be saved.**  Take a set without profiles or one that was
loaded, and any commands, normalizations and refused ones among them.  The selection is
that of a profile, or 0 without profiles; every threshold is within the scores, so the set passes
the check; and the file that is saved of it is loaded again, with all that the user wrote.

So a frame that the detector did not fail on and that shows a face, put to the selected profile,
is evaluated against that profile if there are profiles, and reports that there is none
otherwise. -/
theorem valid_and_saveable (lang : RuleLanguage π) (d : Dispatcher σ) {set : ProfileSet π}
    (hset : set = .empty ∨ ∃ content, ProfileSet.load content = .ok set) (actuator : σ)
    (cs : List Command) :
    let s := run lang d ⟨set, actuator⟩ cs
    s.profiles.SelectionInRange ∧
      (s.profiles.All fun b => b.isValid = true) ∧
      s.profiles.validate = .ok () ∧
      ProfileSet.load (.ok s.profiles.fileText.toUTF8) = .ok s.profiles.stored ∧
      ∀ f : DetectorFrame, f.error = none → f.faces ≠ [] →
        (0 < s.profiles.size → ∃ p scores, s.profiles.selected? = some p ∧
          f.scores = .ok (some scores) ∧
          s.step lang d (.frame none (.ok f)) = s.evaluating lang d p ⟨scores, f.timestampMs⟩) ∧
        (s.profiles.size = 0 →
          s.step lang d (.frame none (.ok f)) =
            ⟨.ok (.report (.skipped f.timestampMs .noProfile)), s, []⟩) := by
  intro s
  have hkept := Binding.kept_valid lang d
  have hstart : (set.All fun b => b.isValid = true) ∧ set.SelectionInRange := by
    rcases hset with rfl | ⟨content, hload⟩
    · exact ⟨nofun, .inr ⟨rfl, rfl⟩⟩
    · exact ProfileSet.checked_of_load hload
  have hvalid : s.profiles.All fun b => b.isValid = true := all_run hkept hstart.1 cs
  have hselection : s.profiles.SelectionInRange := selectionInRange_run hstart.2 cs
  have hload := ProfileSet.load_fileText hvalid hselection
  exact ⟨hselection, hvalid, ProfileSet.validate_eq_ok_iff.2 hvalid, hload,
    fun f => step_frame_of_selectionInRange lang d hselection⟩

/-- A set that is loaded with a binding of each shape, a normalization, commands that are refused,
and at last the removal of every profile. -/
theorem valid_and_saveable_emptied :
    let lang := RuleLanguage.flags [("blink", true)]
    let d := Dispatcher.recording none
    let saved : ProfileSet String :=
      ⟨[⟨"Default", [.simple ⟨"jawOpen", 100, "key:a", "", true⟩,
        .advanced ⟨"blink", 0, "key:b", none, .idle⟩ (.blank "" .idle)]⟩], 0⟩
    let refused : BindingEdit := { BindingEdit.empty with threshold := some 101 }
    let cs : List Command :=
      [.normalize, .createProfile "Other", .edit 0 0 refused, .select 7, .createBinding 9,
        .removeSelected]
    let s := run lang d ⟨saved.stored, []⟩ cs
    let t := run lang d ⟨saved.stored, []⟩ (cs ++ [.removeSelected, .removeSelected])
    let f : DetectorFrame := ⟨16, [[]], none⟩
    (∃ content, ProfileSet.load content = .ok saved.stored) ∧ f.error = none ∧ f.faces ≠ [] ∧
      (s.profiles.size = 1 ∧ s.profiles.validate = .ok () ∧ ∃ p scores,
        s.profiles.selected? = some p ∧
          s.step lang d (.frame none (.ok f)) = s.evaluating lang d p ⟨scores, 16⟩) ∧
      t.profiles.size = 0 ∧ t.profiles.SelectionInRange ∧
        t.step lang d (.frame none (.ok f)) =
          ⟨.ok (.report (.skipped 16 .noProfile)), t, []⟩ := by
  intro lang d saved refused cs s t f
  have hvalid : saved.All fun b => b.isValid = true := by
    simp [ProfileSet.All, saved, Binding.isValid]; decide
  have hload : ∃ content, ProfileSet.load content = .ok saved.stored :=
    ⟨_, ProfileSet.load_fileText hvalid (.inl (by decide))⟩
  have hsize : s.profiles.size = 1 := by decide +kernel
  have hempty : t.profiles.size = 0 := by decide +kernel
  obtain ⟨-, -, hvalidate, -, hframe⟩ := valid_and_saveable lang d (.inr hload) [] cs
  obtain ⟨hselection, -, -, -, hframe'⟩ :=
    valid_and_saveable lang d (.inr hload) [] (cs ++ [.removeSelected, .removeSelected])
  have hfaces : f.faces ≠ [] := by simp [f]
  obtain ⟨p, scores, hp, -, hstep⟩ := (hframe f rfl hfaces).1 (hsize ▸ Nat.one_pos)
  exact ⟨hload, rfl, hfaces, ⟨hsize, hvalidate, p, scores, hp, hstep⟩, hempty, hselection,
    (hframe' f rfl hfaces).2 hempty⟩

end Session

end Grimace
