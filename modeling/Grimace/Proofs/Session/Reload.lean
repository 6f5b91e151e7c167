import Grimace.Proofs.Session.Predicate
import Grimace.Proofs.Session.Saving

/-!
# Grimace.Proofs.Session.Reload

Edits, one by one, lead to where loading leads at once.

After a normalization every binding stands where it stands when it is loaded, and every
predicate is the one of its text.  Edits keep both: a new binding and one that changes its shape
start where loading starts, a given text is made into a predicate at once, and nothing but a
frame moves a rule.  So as long as no frame comes, normalizing again changes nothing, and what
is saved and loaded is the set itself once it is normalized.
-/

namespace Grimace

variable {π σ : Type}

/-! ## Bindings that no frame has touched -/

/-- The binding stands where it stands when it is loaded. -/
def Binding.Unmoved (b : Binding π) : Prop := b.reset = b

namespace Binding

theorem unmoved_advanced_iff {start stop : EdgeRule π} :
    (advanced start stop).Unmoved ↔ start.phase = .idle ∧ stop.phase = .activated := by
  obtain ⟨logic, debounceMs, action, predicate, phase⟩ := start
  obtain ⟨logic', debounceMs', action', predicate', phase'⟩ := stop
  simp [Unmoved, Binding.reset, eq_comm]

theorem Unmoved.withShape {b : Binding π} (h : b.Unmoved) (toSimple : Bool) :
    (b.withShape toSimple).Unmoved := by
  cases b <;> cases toSimple <;> first | exact h | rfl

theorem Unmoved.edit {b : Binding π} (h : b.Unmoved) (lang : RuleLanguage π) (e : BindingEdit) :
    (e.apply lang b).Unmoved := by
  have hshape : (e.reshape b).Unmoved := by
    unfold BindingEdit.reshape
    split
    · exact h.withShape _
    · exact h
  unfold BindingEdit.apply
  split
  · next r hr =>
    rw [hr] at hshape
    have hactivated : false = r.activated := by
      injection hshape with hr
      exact congrArg SimpleRule.activated hr
    simp [Unmoved, Binding.reset, ← hactivated]
  · next start stop hr =>
    rw [hr] at hshape
    obtain ⟨hstart, hstop⟩ := unmoved_advanced_iff.1 hshape
    exact unmoved_advanced_iff.2
      ⟨(EdgeRule.phase_edit e.start).trans hstart, (EdgeRule.phase_edit e.stop).trans hstop⟩

theorem Unmoved.withLogic {b : Binding π} (h : b.Unmoved) (lang : RuleLanguage π) (edge : Edge)
    (source : String) : (b.withLogic lang edge source).Unmoved := by
  cases b with
  | simple r => exact h
  | advanced start stop =>
      obtain ⟨hstart, hstop⟩ := unmoved_advanced_iff.1 h
      cases edge <;> exact unmoved_advanced_iff.2 ⟨hstart, hstop⟩

theorem unmoved_reset (b : Binding π) : b.reset.Unmoved := by
  cases b <;> rfl

theorem unmoved_compiled_reset (lang : RuleLanguage π) (b : Binding π) :
    (b.reset.compiled lang).Unmoved := by
  cases b <;> rfl

/-- No edit moves a rule. -/
theorem keptByEdits_unmoved (lang : RuleLanguage π) :
    Binding.KeptByEdits lang (Unmoved : Binding π → Prop) where
  template := rfl
  normalize b _ := b.unmoved_compiled_reset lang
  withShape toSimple _ h := h.withShape toSimple
  reset b _ := b.unmoved_reset
  edit e _ _ h := h.edit lang e
  withLogic edge source _ h := h.withLogic lang edge source

end Binding

/-! ## Sets -/

namespace ProfileSet

theorem map_eq_self {α : Type} {f : α → α} {l : List α} (h : ∀ x ∈ l, f x = x) : l.map f = l :=
  (List.map_congr_left h).trans (List.map_id l)

/-- A set that has its selection in range, its predicates made and its rules unmoved is
normal. -/
theorem normalize_eq_self {lang : RuleLanguage π} {set : ProfileSet π}
    (hselection : set.SelectionInRange) (hcurrent : set.All (Binding.Current lang))
    (hunmoved : set.All Binding.Unmoved) : set.normalize lang = set := by
  have hprofiles : (set.profiles.map fun p =>
      { p with bindings := p.bindings.map fun b => b.reset.compiled lang }) = set.profiles := by
    refine map_eq_self fun p hp => ?_
    have hbindings : (p.bindings.map fun b => b.reset.compiled lang) = p.bindings :=
      map_eq_self fun b hb => by rw [hunmoved p hp b hb, hcurrent p hp b hb]
    rw [hbindings]
  unfold normalize
  rw [clampSelection_of_inRange hselection, hprofiles]

/-- Where the rules stand makes no difference to a normalization. -/
theorem normalize_stored (lang : RuleLanguage π) (set : ProfileSet π) :
    set.stored.normalize lang = set.normalize lang :=
  set.normalize_mapBindings_of_eq fun b => by cases b <;> rfl

end ProfileSet

/-! ## Sessions without frames -/

namespace Session

/-- **Editing agrees with loading.**  Take a set that was normalized and any commands after
that, refused ones among them, as long as none puts a frame.  Normalizing again changes nothing:
not the selection, nothing that the user wrote, not where any rule stands and no predicate.

If the thresholds are within the scores, as they are if they were so at the start, the set can
be saved and loaded, and normalizing what is loaded gives the set itself. -/
theorem editing_agrees_with_loading (lang : RuleLanguage π) (d : Dispatcher σ)
    (set : ProfileSet π) (actuator : σ) (cs : List Command)
    (hcs : ∀ c ∈ cs, c.isFrame = false) :
    let edited := (run lang d ⟨set.normalize lang, actuator⟩ cs).profiles
    edited.normalize lang = edited ∧
      ((edited.All fun b => b.isValid = true) →
        ∃ loaded : ProfileSet π, ProfileSet.load (.ok edited.fileText.toUTF8) = .ok loaded ∧
          loaded.normalize lang = edited) ∧
      ((set.All fun b => b.isValid = true) → edited.All fun b => b.isValid = true) := by
  intro edited
  have hselection : edited.SelectionInRange :=
    selectionInRange_run (set.selectionInRange_normalize lang) cs
  have hcurrent : edited.All (Binding.Current lang) :=
    all_run (Binding.kept_current lang d)
      (ProfileSet.all_normalize fun _ _ b _ => b.reset.current_compiled) cs
  have hunmoved : edited.All Binding.Unmoved :=
    all_run_of_not_frame (Binding.keptByEdits_unmoved lang)
      (ProfileSet.all_normalize fun _ _ b _ => b.unmoved_compiled_reset lang) hcs
  have hnormal : edited.normalize lang = edited :=
    ProfileSet.normalize_eq_self hselection hcurrent hunmoved
  refine ⟨hnormal, fun hvalid => ?_, fun hvalid => ?_⟩
  · exact ⟨edited.stored, ProfileSet.load_fileText hvalid hselection,
      (edited.normalize_stored lang).trans hnormal⟩
  · exact all_run (Binding.kept_valid lang d)
      ((Binding.kept_valid lang d).all_normalize hvalid) cs

/-- A binding that changes its shape with both its texts given, one of them no condition, beside
an edit that is refused, and a profile that comes and goes. -/
theorem editing_agrees_with_loading_reshaped :
    let lang := RuleLanguage.flags [("blink", true)]
    let set : ProfileSet String :=
      ⟨[⟨"Default", [.simple .template,
        .advanced ⟨"blink", 5, "down:space", none, .pending 3.5⟩ (.blank "up:space" .idle)]⟩], 7⟩
    let reshaping : BindingEdit :=
      ⟨some false, none, some 40, ⟨none, some "blink", none⟩, ⟨some "up:a", some "!no", some 5⟩⟩
    let refused : BindingEdit :=
      { BindingEdit.empty with simplified := some true, threshold := some 200 }
    let cs : List Command :=
      [.createProfile "Other", .edit 0 0 reshaping, .edit 0 1 refused, .removeSelected,
        .setLogic 0 1 .stop "blink"]
    let edited := (run lang (.recording none) ⟨set.normalize lang, []⟩ cs).profiles
    (∀ c ∈ cs, c.isFrame = false) ∧ (set.All fun b => b.isValid = true) ∧
      edited.profiles.map (fun p => p.bindings.map Binding.sources) =
        [[[("blink", some "blink"), ("!no", none)],
          [("blink", some "blink"), ("blink", some "blink")]]] ∧
      edited.normalize lang = edited ∧
      ∃ loaded : ProfileSet String, ProfileSet.load (.ok edited.fileText.toUTF8) = .ok loaded ∧
        loaded.normalize lang = edited := by
  intro lang set reshaping refused cs edited
  have hcs : ∀ c ∈ cs, c.isFrame = false := by simp [cs, Command.isFrame]
  have hvalid : set.All fun b => b.isValid = true := by
    simp [ProfileSet.All, set, Binding.isValid]; decide
  obtain ⟨hnormal, hload, hkept⟩ :=
    editing_agrees_with_loading lang (.recording none) set [] cs hcs
  exact ⟨hcs, hvalid, by decide +kernel, hnormal, hload (hkept hvalid)⟩

end Session

end Grimace
