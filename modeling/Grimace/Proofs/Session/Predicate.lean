import Grimace.Proofs.Session.Invariant

/-!
# Grimace.Proofs.Session.Predicate

The predicate of a rule belongs to its text, at all times.

A rule keeps its predicate beside the text it was made from.  It is *current* if making
the predicate anew would change nothing.  A normalization makes all rules current, and
everything that happens later keeps them so: an edit that gives a text makes the
predicate at once, a change of shape leaves blank texts without predicates, and a frame
touches neither.
-/

namespace Grimace

variable {π σ : Type}

/-! ## Current rules -/

/-- Making the predicate anew changes nothing. -/
def EdgeRule.Current (lang : RuleLanguage π) (r : EdgeRule π) : Prop := r.compiled lang = r

/-- Making the predicates anew changes nothing. -/
def Binding.Current (lang : RuleLanguage π) (b : Binding π) : Prop := b.compiled lang = b

namespace EdgeRule

variable (lang : RuleLanguage π) (r : EdgeRule π)

theorem current_compiled : (r.compiled lang).Current lang := rfl

theorem current_withLogic (source : String) : (r.withLogic lang source).Current lang := rfl

theorem current_blank (action : String) (phase : Phase) :
    (blank action phase : EdgeRule π).Current lang := rfl

variable {lang r}

theorem Current.predicate_eq (h : r.Current lang) :
    r.predicate =
      if Text.isBlankText r.logic then none else (lang.compile r.logic).toOption :=
  (congrArg EdgeRule.predicate h).symm

/-- The predicate depends on the text alone. -/
theorem Current.congr (h : r.Current lang) {r' : EdgeRule π} (hlogic : r'.logic = r.logic)
    (hpredicate : r'.predicate = r.predicate) : r'.Current lang := by
  obtain ⟨logic, debounceMs, action, predicate, phase⟩ := r'
  dsimp only at hlogic hpredicate
  subst hlogic hpredicate
  exact congrArg (EdgeRule.mk r.logic debounceMs action · phase) h.predicate_eq.symm

theorem Current.edit (h : r.Current lang) (e : EdgeEdit) : (r.edit lang e).Current lang := by
  unfold EdgeRule.edit
  split
  · exact current_withLogic lang _ _
  · exact h.congr rfl rfl

/-- An edit leaves the rule where it stands. -/
theorem phase_edit (e : EdgeEdit) : (r.edit lang e).phase = r.phase := by
  unfold EdgeRule.edit
  split <;> rfl

/-- A frame touches neither the text nor the predicate. -/
theorem source_turn (d : Dispatcher σ) (m : Moment) (index : Nat) (edge : Edge) (s : σ) :
    (r.turn lang d m index edge s).value.logic = r.logic ∧
      (r.turn lang d m index edge s).value.predicate = r.predicate := by
  unfold EdgeRule.turn
  dsimp only
  split
  · exact ⟨rfl, rfl⟩
  · split <;> exact ⟨rfl, rfl⟩

/-- A current rule has a predicate exactly if its text is not blank and is a condition. -/
theorem Current.isSome_iff (h : r.Current lang) :
    r.predicate.isSome = true ↔
      Text.isBlankText r.logic = false ∧ ∃ fresh, lang.compile r.logic = .ok fresh := by
  rw [h.predicate_eq]
  cases Text.isBlankText r.logic <;> cases lang.compile r.logic <;> simp [Except.toOption]

/-- The predicate of a current rule is the one that its text is made into. -/
theorem Current.compile_eq (h : r.Current lang) {held : π} (hheld : r.predicate = some held) :
    lang.compile r.logic = .ok held := by
  rw [h.predicate_eq] at hheld
  split at hheld
  · contradiction
  · cases hc : lang.compile r.logic with
    | error e => simp [hc, Except.toOption] at hheld
    | ok fresh =>
        simp only [hc, Except.toOption, Option.some.injEq] at hheld
        rw [hheld]

end EdgeRule

/-! ## Current bindings -/

namespace Binding

variable {lang : RuleLanguage π}

theorem current_advanced_iff {start stop : EdgeRule π} :
    (advanced start stop).Current lang ↔ start.Current lang ∧ stop.Current lang := by
  simp [Binding.Current, EdgeRule.Current, Binding.compiled]

theorem current_compiled (b : Binding π) : (b.compiled lang).Current lang := by
  cases b <;> rfl

theorem Current.withShape {b : Binding π} (h : b.Current lang) (toSimple : Bool) :
    (b.withShape toSimple).Current lang := by
  cases b with
  | simple rule =>
      cases toSimple with
      | true => exact h
      | false =>
          exact current_advanced_iff.2
            ⟨EdgeRule.current_blank lang _ _, EdgeRule.current_blank lang _ _⟩
  | advanced start stop =>
      cases toSimple with
      | true => rfl
      | false => exact h

theorem Current.reset {b : Binding π} (h : b.Current lang) : b.reset.Current lang := by
  cases b with
  | simple rule => rfl
  | advanced start stop =>
      obtain ⟨hstart, hstop⟩ := current_advanced_iff.1 h
      exact current_advanced_iff.2 ⟨hstart.congr rfl rfl, hstop.congr rfl rfl⟩

theorem Current.edit {b : Binding π} (h : b.Current lang) (e : BindingEdit) :
    (e.apply lang b).Current lang := by
  have hshape : (e.reshape b).Current lang := by
    unfold BindingEdit.reshape
    split
    · exact h.withShape _
    · exact h
  unfold BindingEdit.apply
  split
  · rfl
  · next start stop hb =>
    rw [hb] at hshape
    obtain ⟨hstart, hstop⟩ := current_advanced_iff.1 hshape
    exact current_advanced_iff.2 ⟨hstart.edit e.start, hstop.edit e.stop⟩

theorem Current.withLogic {b : Binding π} (h : b.Current lang) (edge : Edge) (source : String) :
    (b.withLogic lang edge source).Current lang := by
  cases b with
  | simple rule => exact h
  | advanced start stop =>
      obtain ⟨hstart, hstop⟩ := current_advanced_iff.1 h
      cases edge with
      | start => exact current_advanced_iff.2 ⟨start.current_withLogic lang source, hstop⟩
      | stop => exact current_advanced_iff.2 ⟨hstart, stop.current_withLogic lang source⟩

theorem Current.turn {b : Binding π} (h : b.Current lang) (d : Dispatcher σ) (m : Moment)
    (index : Nat) (s : σ) : (b.turn lang d m index s).value.Current lang := by
  cases b with
  | simple rule => rfl
  | advanced start stop =>
      obtain ⟨hstart, hstop⟩ := current_advanced_iff.1 h
      obtain ⟨hlogic, hpredicate⟩ := start.source_turn d m index .start s
      obtain ⟨hlogic', hpredicate'⟩ := stop.source_turn d m index .stop
        (start.turn lang d m index .start s).actuator
      exact current_advanced_iff.2
        ⟨hstart.congr hlogic hpredicate, hstop.congr hlogic' hpredicate'⟩

/-- Whatever happens to a binding, its predicates are made anew with their texts. -/
theorem kept_current (lang : RuleLanguage π) (d : Dispatcher σ) :
    Binding.Kept lang d (Binding.Current lang) where
  template := rfl
  normalize b _ := b.reset.current_compiled
  withShape toSimple _ h := h.withShape toSimple
  reset _ h := h.reset
  edit e _ _ h := h.edit e
  withLogic edge source _ h := h.withLogic edge source
  turn m index s _ h := h.turn d m index s

end Binding

/-! ## Frames -/

/-- The texts of a binding's edges, each with the predicate that is kept for it. -/
def Binding.sources : Binding π → List (String × Option π)
  | simple _ => []
  | advanced start stop => [(start.logic, start.predicate), (stop.logic, stop.predicate)]

/-- The texts of all bindings of all profiles, with the predicates kept for them. -/
def ProfileSet.sources (set : ProfileSet π) : List (List (List (String × Option π))) :=
  set.profiles.map fun p => p.bindings.map Binding.sources

section

variable (lang : RuleLanguage π) (d : Dispatcher σ)

theorem Binding.sources_turn (m : Moment) (index : Nat) (s : σ) (b : Binding π) :
    (b.turn lang d m index s).value.sources = b.sources := by
  cases b with
  | simple rule => rfl
  | advanced start stop =>
      simp only [Binding.turn, Binding.sources, EdgeRule.source_turn]

/-- What a frame leaves of each binding, it leaves of them all. -/
theorem map_evaluateBindings_of_turn {β : Type} {g : Binding π → β} (m : Moment)
    (h : ∀ index s b, g (b.turn lang d m index s).value = g b) (index : Nat) (s : σ)
    (bs : List (Binding π)) : (evaluateBindings lang d m index s bs).value.map g = bs.map g := by
  induction bs generalizing index s with
  | nil => rfl
  | cons b bs ih => simp only [evaluateBindings, List.map_cons, ih, h]

theorem map_modify_of_eq {α β : Type} {f : α → α} {g : α → β} {l : List α} {i : Nat}
    (h : ∀ x, l[i]? = some x → g (f x) = g x) : (l.modify i f).map g = l.map g := by
  refine List.ext_getElem? fun j => ?_
  rw [List.getElem?_map, List.getElem?_map, List.getElem?_modify]
  by_cases hij : i = j
  · subst hij
    cases hx : l[i]? with
    | none => rfl
    | some x => simp [h x hx]
  · simp [hij]

theorem ProfileSet.sources_evaluate (set : ProfileSet π) (s : σ) (selection : Nat) (m : Moment) :
    (set.evaluate lang d s selection m).set.sources = set.sources := by
  unfold ProfileSet.evaluate
  split
  · rfl
  · next profile hp =>
    refine map_modify_of_eq fun p hp' => ?_
    obtain rfl : profile = p := Option.some.inj (hp.symm.trans hp')
    exact map_evaluateBindings_of_turn lang d m (Binding.sources_turn lang d m) 0 s profile.bindings

/-- A frame leaves every text and every predicate as it is, whatever fails on it. -/
theorem Session.sources_step_of_isFrame (s : Session π σ) (c : Command) (h : c.isFrame = true) :
    (s.step lang d c).session.profiles.sources = s.profiles.sources := by
  cases c with
  | evaluate p m => exact s.profiles.sources_evaluate lang d _ _ m
  | frame p f =>
      exact ProfileSet.evaluateReading_cases (motive := fun r => r.set.sources = s.profiles.sources)
        (s.profiles.sources_evaluate lang d _ _) (fun _ _ _ => rfl) f
  | _ => contradiction

/-! ## All sessions -/

/-- **The predicate of a rule belongs to its text.**  Take any session that starts with a
normalization, after any commands, and any edge of an advanced binding in it.  The rule has
a predicate exactly if its text is not blank and is a condition; what the predicate answers
on any frame is what the text, made into a predicate anew, would answer; and so each frame
is judged by the text as it is now.  A frame changes no text and takes no predicate away. -/
theorem Session.predicate_belongs_to_text (set : ProfileSet π) (actuator : σ)
    (cs : List Command) :
    let s := Session.run lang d ⟨set.normalize lang, actuator⟩ cs
    (∀ p ∈ s.profiles.profiles, ∀ start stop, Binding.advanced start stop ∈ p.bindings →
      ∀ r, r = start ∨ r = stop →
        (r.predicate.isSome = true ↔
          Text.isBlankText r.logic = false ∧ ∃ fresh, lang.compile r.logic = .ok fresh) ∧
        (∀ held, r.predicate = some held →
          ∃ fresh, lang.compile r.logic = .ok fresh ∧
            ∀ scores, lang.evaluate held scores = lang.evaluate fresh scores) ∧
        ∀ scores, r.holds lang scores = (r.compiled lang).holds lang scores) ∧
      ∀ c, c.isFrame = true →
        (s.step lang d c).session.profiles.sources = s.profiles.sources := by
  intro s
  have hnormal : (set.normalize lang).All (Binding.Current lang) := by
    intro p hp b hb
    obtain ⟨q, -, rfl⟩ := List.mem_map.1 hp
    obtain ⟨c, -, rfl⟩ := List.mem_map.1 hb
    exact c.reset.current_compiled
  have hall : s.profiles.All (Binding.Current lang) :=
    Session.all_run (Binding.kept_current lang d) hnormal cs
  refine ⟨fun p hp start stop hb r hr => ?_, fun c => s.sources_step_of_isFrame lang d c⟩
  have hcurrent : r.Current lang := by
    obtain ⟨hstart, hstop⟩ := Binding.current_advanced_iff.1 (hall p hp _ hb)
    rcases hr with rfl | rfl
    · exact hstart
    · exact hstop
  refine ⟨hcurrent.isSome_iff, fun held hheld => ?_, fun scores => ?_⟩
  · exact ⟨held, hcurrent.compile_eq hheld, fun _ => rfl⟩
  · exact congrArg (EdgeRule.holds lang scores) hcurrent.symm

end

/-- A text that is given to an edge between frames is what the edge is judged by next. -/
theorem Session.predicate_belongs_to_text_after_edit :
    let lang := RuleLanguage.flags [("blink", true)]
    let set : ProfileSet String :=
      ⟨[⟨"Default", [.advanced (.blank "down:space" .idle) (.blank "up:space" .idle)]⟩], 0⟩
    let commands : List Command := [.evaluate none ⟨.empty, 0⟩, .setLogic 0 0 .start "blink"]
    let s := Session.run lang (.recording none) ⟨set.normalize lang, []⟩ commands
    (∃ p ∈ s.profiles.profiles, ∃ start stop, Binding.advanced start stop ∈ p.bindings ∧
        start.predicate.isSome = true) ∧
      (Command.evaluate none ⟨.empty, 16⟩).isFrame = true ∧
      (s.step lang (.recording none) (.evaluate none ⟨.empty, 16⟩)).session.profiles.sources =
        s.profiles.sources := by
  intro lang set commands s
  have h := Session.predicate_belongs_to_text lang (.recording none) set [] commands
  have hcompile : lang.compile "blink" = .ok "blink" := by simp [lang, RuleLanguage.flags]
  refine ⟨⟨_, .head _, _, _, .head _, ?_⟩, rfl, h.2 _ rfl⟩
  exact (h.1 _ (.head _) _ _ (.head _) _ (.inl rfl)).1.2 ⟨by decide, _, hcompile⟩

end Grimace
