import Grimace.Proofs.Frame.Replay
import Grimace.Proofs.Session.Predicate
import Grimace.Proofs.Store.RoundTrip

/-!
# Grimace.Proofs.Session.Untouched

What frames leave untouched.

A frame moves the rules of the profile that it is put to: it sets the flag of a simple binding and
the phases of an advanced one.  `Binding.reset` writes over these and over nothing else, so two
sets are the same with all their bindings reset exactly if they differ in no name, shape, text,
threshold, window, token or predicate, in no order and not in the selection.

* `Binding.reset_turn`, `ProfileSet.reset_evaluate` — a frame moves rules and does nothing else;
* `ProfileSet.profiles_evaluate_of_ne` — it leaves other profiles as they are;
* `Session.frames_move_rules_only` — this for any number of frames, whatever comes of them.
-/

namespace Grimace

variable {π σ : Type}

/-- The index of the profile that a frame is put to, where one is selected. -/
def Command.target? (selected : Nat) : Command → Option Nat
  | evaluate p _ | frame p _ => some (p.getD selected)
  | _ => none

section

variable (lang : RuleLanguage π) (d : Dispatcher σ)

/-! ## Bindings -/

/-- A step sets nothing but the flag of a simple binding. -/
theorem SimpleRule.step_with_activated (score : Option UInt8) (r : SimpleRule) (activated : Bool) :
    { (r.step score).2 with activated } = { r with activated } := by
  rcases r.step_cases score with h | ⟨-, h⟩ | ⟨-, h⟩ <;> rw [h]

/-- A frame moves a binding, and does nothing else to it. -/
theorem Binding.reset_turn (m : Moment) (index : Nat) (s : σ) (b : Binding π) :
    (b.turn lang d m index s).value.reset = b.reset := by
  cases b with
  | simple r =>
      simp only [Binding.turn, Binding.reset, SimpleRule.value_turn, SimpleRule.step_with_activated]
  | advanced start stop =>
      simp only [Binding.turn, Binding.reset, EdgeRule.value_turn, EdgeRule.step]

/-! ## Sets -/

namespace ProfileSet

variable (set : ProfileSet π) (s : σ) (selection : Nat)

/-- Scores that are put to a profile move rules, and do nothing else. -/
theorem reset_evaluate (m : Moment) :
    (set.evaluate lang d s selection m).set.mapBindings .reset = set.mapBindings .reset := by
  unfold ProfileSet.evaluate
  split
  · rfl
  · next profile hp =>
    have hbindings := map_evaluateBindings_of_turn lang d m (Binding.reset_turn lang d m) 0 s
      profile.bindings
    have hprofiles : (set.profiles.modify selection fun p =>
        { p with bindings := (evaluateBindings lang d m 0 s profile.bindings).value }).map
          (Profile.mapBindings .reset) = set.profiles.map (Profile.mapBindings .reset) := by
      refine map_modify_of_eq fun p hp' => ?_
      obtain rfl : profile = p := Option.some.inj (hp.symm.trans hp')
      simp only [Profile.mapBindings, hbindings]
    exact congrArg (ProfileSet.mk · set.selection) hprofiles

/-- Scores that are put to a profile leave the others as they are. -/
theorem profiles_evaluate_of_ne (m : Moment) {p : Nat} (h : selection ≠ p) :
    (set.evaluate lang d s selection m).set.profiles[p]? = set.profiles[p]? := by
  unfold ProfileSet.evaluate
  split
  · rfl
  · exact List.getElem?_modify_ne _ _ h

theorem fileText_reset : (set.mapBindings .reset).fileText = set.fileText :=
  set.fileText_mapBindings fun b => by cases b <;> rfl

end ProfileSet

/-! ## Sessions -/

namespace Session

/-- One frame moves rules of the profile that it is put to, and does nothing else. -/
theorem step_of_isFrame (s : Session π σ) {c : Command} (hc : c.isFrame = true) :
    let after := (s.step lang d c).session.profiles
    after.mapBindings .reset = s.profiles.mapBindings .reset ∧
      ∀ p, c.target? s.profiles.selection.toNat ≠ some p →
        after.profiles[p]? = s.profiles.profiles[p]? := by
  intro after
  cases c with
  | evaluate q m =>
      exact ⟨s.profiles.reset_evaluate lang d _ _ m, fun p hp =>
        s.profiles.profiles_evaluate_of_ne lang d _ _ m fun h => hp (congrArg some h)⟩
  | frame q f =>
      constructor
      · exact ProfileSet.evaluateReading_cases
          (motive := fun r => r.set.mapBindings .reset = s.profiles.mapBindings .reset)
          (s.profiles.reset_evaluate lang d _ _) (fun _ _ _ => rfl) f
      · intro p hp
        exact ProfileSet.evaluateReading_cases
          (motive := fun r => r.set.profiles[p]? = s.profiles.profiles[p]?)
          (fun m => s.profiles.profiles_evaluate_of_ne lang d _ _ m fun h => hp (congrArg some h))
          (fun _ _ _ => rfl) f
  | _ => contradiction

/-- Any number of frames do no more. -/
theorem run_of_isFrame (s : Session π σ) {cs : List Command} (hcs : ∀ c ∈ cs, c.isFrame = true) :
    let after := (run lang d s cs).profiles
    after.mapBindings .reset = s.profiles.mapBindings .reset ∧
      ∀ p, (∀ c ∈ cs, c.target? s.profiles.selection.toNat ≠ some p) →
        after.profiles[p]? = s.profiles.profiles[p]? := by
  induction cs generalizing s with
  | nil => exact ⟨rfl, fun _ _ => rfl⟩
  | cons c cs ih =>
      obtain ⟨hc, hcs⟩ := List.forall_mem_cons.1 hcs
      obtain ⟨hreset, hprofiles⟩ := s.step_of_isFrame lang d hc
      obtain ⟨hreset', hprofiles'⟩ := ih (s.step lang d c).session hcs
      -- The selection is told by a set that is reset, so later frames are put where they would be.
      have hselection := congrArg ProfileSet.selection hreset
      refine ⟨hreset'.trans hreset, fun p hp => ?_⟩
      obtain ⟨hpc, hpcs⟩ := List.forall_mem_cons.1 hp
      have hrest := hprofiles' p fun c hc => hselection ▸ hpcs c hc
      exact hrest.trans (hprofiles p hpc)

end Session

end

/-- **Frames move rules only.**  Put any number of frames to a set, to the selected profile or to
others, by an index that is in range or not, understood or not, whatever the dispatcher makes of
the tokens.

Afterwards the set is the same with all its bindings reset: the profiles and their names are the
same in the same order, and so are their bindings with their shapes, blendshapes, thresholds,
texts, windows, tokens and predicates, and the selection.  The text of its file is what it was
before.  A profile that none of the frames was put to is exactly what it was, with all its rules
standing where they stood. -/
theorem Session.frames_move_rules_only (lang : RuleLanguage π) (d : Dispatcher σ)
    (set : ProfileSet π) (actuator : σ) (cs : List Command) (hcs : ∀ c ∈ cs, c.isFrame = true) :
    let after := (run lang d ⟨set, actuator⟩ cs).profiles
    after.mapBindings .reset = set.mapBindings .reset ∧
      after.selection = set.selection ∧
      after.fileText = set.fileText ∧
      ∀ p, (∀ c ∈ cs, c.target? set.selection.toNat ≠ some p) →
        after.profiles[p]? = set.profiles[p]? := by
  intro after
  obtain ⟨hreset, hprofiles⟩ := run_of_isFrame lang d ⟨set, actuator⟩ hcs
  have hselection := congrArg ProfileSet.selection hreset
  have htext : after.fileText = set.fileText := by
    rw [← after.fileText_reset, hreset, set.fileText_reset]
  exact ⟨hreset, hselection, htext, hprofiles⟩

/-- A window that opens in the selected profile and a binding that starts in another, its token
refused, while one more profile stays as it is; besides, a frame that is put to no profile, and a
line that is no frame. -/
theorem Session.frames_move_rules_only_elsewhere :
    let lang := RuleLanguage.flags [("blink", true)]
    let d := Dispatcher.recording (some "key:a")
    let rule (phase : Phase) : EdgeRule String :=
      ⟨"blink", 100, "down:space", some "blink", phase⟩
    let jaw (activated : Bool) : Binding String := .simple ⟨"jawOpen", 50, "key:a", "", activated⟩
    let set (phase : Phase) (activated : Bool) : ProfileSet String :=
      ⟨[⟨"One", [.advanced (rule phase) (.blank "up:space" .idle)]⟩, ⟨"Two", [jaw activated]⟩,
        ⟨"Three", [jaw false]⟩], 0⟩
    let m : Moment := ⟨Scores.empty.put "jawOpen" 70, 16⟩
    let cs : List Command := [.evaluate none m, .evaluate (some 1) m, .evaluate (some 7) m,
      .frame none (.error .malformed)]
    let after := (run lang d ⟨set .idle false, []⟩ cs).profiles
    (∀ c ∈ cs, c.isFrame = true) ∧ (∀ c ∈ cs, c.target? 0 ≠ some 2) ∧
      after = set (.pending 16) true ∧
      after.fileText = (set .idle false).fileText ∧
      after.profiles[2]? = (set .idle false).profiles[2]? := by
  intro lang d rule jaw set m cs after
  have hframes : ∀ c ∈ cs, c.isFrame = true := by simp [cs, Command.isFrame]
  have hothers : ∀ c ∈ cs, c.target? 0 ≠ some 2 := by simp [cs, Command.target?]
  obtain ⟨-, -, htext, hprofiles⟩ := frames_move_rules_only lang d (set .idle false) [] cs hframes
  exact ⟨hframes, hothers, by rfl, htext, hprofiles 2 hothers⟩

end Grimace
