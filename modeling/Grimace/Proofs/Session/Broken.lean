import Grimace.Proofs.Rule.Debounce
import Grimace.Proofs.Session.Place

/-!
# Grimace.Proofs.Session.Broken

A rule whose text is blank or no condition does nothing.

Such a rule has no predicate, at all times, so on no frame does its condition hold.  The first
frame that its profile is evaluated on takes the rule back to where it is idle, wherever it stood
when it was given the text, and nothing but another text, another shape or a reset gets it away
from there.

* `EdgeRule.turn_of_not_holds` — one frame for a rule whose condition does not hold;
* `Session.track` — what frames report of one rule while other commands come between them;
* `Session.broken_rules_never_fire` — what is reported of a rule whose text is rejected, and
  where it stands.
-/

namespace Grimace

variable {π σ : Type}

/-! ## Texts that are no conditions -/

/-- The text is blank, or the language makes no predicate of it. -/
def RuleLanguage.Rejects (lang : RuleLanguage π) (source : String) : Prop :=
  Text.isBlankText source = true ∨ ∃ e, lang.compile source = .error e

namespace EdgeRule

variable {lang : RuleLanguage π} {r : EdgeRule π}

theorem Current.predicate_eq_none (h : r.Current lang) (hrejects : lang.Rejects r.logic) :
    r.predicate = none := by
  rw [h.predicate_eq]
  split
  · rfl
  · next hblank =>
    obtain ⟨e, he⟩ := hrejects.resolve_left hblank
    rw [he]
    rfl

/-- The condition of a text that is rejected never holds. -/
theorem Current.holds_eq_false (h : r.Current lang) (hrejects : lang.Rejects r.logic)
    (scores : Scores) : r.holds lang scores = false := by
  rw [holds, h.predicate_eq_none hrejects]

end EdgeRule

/-! ## Frames on which a condition does not hold -/

/-- What a frame reports of a rule that stands in a phase if its condition does not hold. -/
def Phase.release (p : Phase) (m : Moment) (i : Nat) (edge : Edge) : List Transition :=
  if p.state = .idle then [] else [⟨m.now, i, edge, .edgeReleased, none, none⟩]

theorem Phase.reason_release {p : Phase} {m : Moment} {i : Nat} {edge : Edge} :
    ∀ t ∈ p.release m i edge, t.reason = .edgeReleased ∧ t.action = none := by
  unfold Phase.release
  split <;> simp

/-- A frame on which its condition does not hold takes a rule back to where it is idle, and hands
nothing to the dispatcher. -/
theorem EdgeRule.turn_of_not_holds {lang : RuleLanguage π} {r : EdgeRule π} {m : Moment}
    (h : r.holds lang m.scores = false) (d : Dispatcher σ) (i : Nat) (edge : Edge) (s : σ) :
    let turn := r.turn lang d m i edge s
    turn.value.phase = .idle ∧ turn.transitions = r.phase.release m i edge ∧
      turn.actuator = s := by
  unfold EdgeRule.turn EdgeRule.step Phase.step Phase.release
  rw [h]
  by_cases hidle : r.phase.state = .idle <;> simp [hidle, EdgeStep.reason?]

/-- The reasons that frames in a row report of a rule on none of which its condition holds. -/
def Phase.fading (p : Phase) : (frames : Nat) → List (List Reason)
  | 0 => []
  | n + 1 => (if p.state = .idle then [] else [.edgeReleased]) :: List.replicate n []

theorem Phase.fading_idle (n : Nat) : Phase.idle.fading n = List.replicate n [] := by
  cases n <;> rfl

/-- A rule has become `r'` while its frames reported what is seen, and never fired. -/
structure EdgeRule.FadesTo (r : EdgeRule π) (seen : List (List Transition)) (r' : EdgeRule π) :
    Prop where
  logic : r'.logic = r.logic
  /-- Without a frame the rule stands where it stood. -/
  waiting : seen = [] → r'.phase = r.phase
  /-- From the first frame on it is idle, with no window open. -/
  idle : seen ≠ [] → r'.runtime.state = .idle ∧ r'.runtime.pendingSinceMs = none
  /-- The first frame releases it, unless it was idle, and no later one reports anything. -/
  reasons : seen.map (List.map Transition.reason) = r.phase.fading seen.length
  unfired : ∀ ts ∈ seen, ∀ t ∈ ts, t.action = none

namespace EdgeRule.FadesTo

variable {r r₁ r' : EdgeRule π} {seen : List (List Transition)}

theorem refl (r : EdgeRule π) : r.FadesTo [] r := ⟨rfl, fun _ => rfl, nofun, rfl, nofun⟩

/-- A command before that left the rule as it was makes no difference. -/
theorem of_eq (hlogic : r₁.logic = r.logic) (hphase : r₁.phase = r.phase)
    (h : r₁.FadesTo seen r') : r.FadesTo seen r' where
  logic := h.logic.trans hlogic
  waiting hseen := (h.waiting hseen).trans hphase
  idle := h.idle
  reasons := hphase ▸ h.reasons
  unfired := h.unfired

/-- A frame before releases the rule, so that later ones find it idle. -/
theorem cons {m : Moment} {i : Nat} {edge : Edge} (hlogic : r₁.logic = r.logic)
    (hphase : r₁.phase = .idle) (h : r₁.FadesTo seen r') :
    r.FadesTo (r.phase.release m i edge :: seen) r' where
  logic := h.logic.trans hlogic
  waiting := nofun
  idle _ := by
    by_cases hseen : seen = []
    · have hidle : r'.phase = .idle := (h.waiting hseen).trans hphase
      exact ⟨congrArg Phase.state hidle, congrArg Phase.pendingSince? hidle⟩
    · exact h.idle hseen
  reasons := by
    rw [List.map_cons, h.reasons, hphase, Phase.fading_idle, List.length_cons, Phase.fading,
      Phase.release]
    split <;> rfl
  unfired := List.forall_mem_cons.2 ⟨fun t ht => (Phase.reason_release t ht).2, h.unfired⟩

end EdgeRule.FadesTo

/-! ## Rules followed through commands -/

/-- The text that a command gives to the rule at a place, if it leaves the shape of the binding. -/
def Command.text? (place : Place) : Command → Option String
  | edit p i e =>
    if place.isOf p i && e.simplified != some true then (e.ofEdge place.edge).logic else none
  | setLogic p i edge source =>
    if place.isOf p i && edge == place.edge then some source else none
  | _ => none

theorem ProfileSet.All.current_rule {lang : RuleLanguage π} {set : ProfileSet π} {place : Place}
    {r : EdgeRule π} (h : set.All (Binding.Current lang)) (hr : set.rule? place = some r) :
    r.Current lang := by
  obtain ⟨profile, b, hp, hb, hedge⟩ := ProfileSet.rule?_eq_some_iff.1 hr
  have hcurrent := h.bindings hp b (List.mem_of_getElem? hb)
  cases b with
  | simple rule => cases place.edge <;> contradiction
  | advanced start stop =>
      obtain ⟨hstart, hstop⟩ := Binding.current_advanced_iff.1 hcurrent
      cases hplace : place.edge with
      | start =>
          rw [hplace] at hedge
          exact Option.some.inj hedge ▸ hstart
      | stop =>
          rw [hplace] at hedge
          exact Option.some.inj hedge ▸ hstop

namespace Session

/-- What is seen of the rule at a place while commands come, as long as none of them removes it
or makes another rule of it: where it is found in the end, and what each frame of its profile
reports of it. -/
def track (lang : RuleLanguage π) (d : Dispatcher σ) (s : Session π σ) :
    List Command → Place → Option (Place × List (List Transition))
  | [], place => some (place, [])
  | c :: cs, place => do
    let o := s.step lang d c
    let (last, seen) ← track lang d o.session cs (← s.follow lang d c place)
    match s.frameOf? c place.profile with
    | none => return (last, seen)
    | some _ => return (last, o.transitionsAt place :: seen)

variable {lang : RuleLanguage π} {d : Dispatcher σ} {s : Session π σ} {place : Place}
  {r : EdgeRule π}

/-- One command for a rule whose text is rejected. -/
theorem transitionsAt_of_rejects (hs : s.profiles.All (Binding.Current lang))
    (hr : s.profiles.rule? place = some r) (hrejects : lang.Rejects r.logic) {c : Command}
    {m : Moment} (hm : s.frameOf? c place.profile = some m) :
    (s.step lang d c).transitionsAt place = r.phase.release m place.binding place.edge := by
  obtain ⟨s', -, htransitions⟩ := transitionsAt_step lang d hr hm
  have hholds := (hs.current_rule hr).holds_eq_false hrejects m.scores
  rw [htransitions, (EdgeRule.turn_of_not_holds hholds d _ _ s').2.1]

/-- **A run**: while commands leave a rule whose text is rejected, its frames release it once at
most and report nothing else. -/
theorem fadesTo_of_track (hs : s.profiles.All (Binding.Current lang))
    (hr : s.profiles.rule? place = some r) (hrejects : lang.Rejects r.logic) {cs : List Command}
    {last : Place} {seen : List (List Transition)}
    (h : s.track lang d cs place = some (last, seen)) :
    ∃ r', (run lang d s cs).profiles.rule? last = some r' ∧ r.FadesTo seen r' := by
  induction cs generalizing s place r last seen with
  | nil =>
      obtain ⟨rfl, rfl⟩ := Prod.mk.inj (Option.some.inj h)
      exact ⟨r, hr, .refl r⟩
  | cons c cs ih =>
      simp only [track, Option.bind_eq_bind, Option.bind_eq_some_iff, Prod.exists] at h
      obtain ⟨next, hnext, last', rest, hrest, heq⟩ := h
      obtain ⟨r₁, hr₁, hfollows⟩ := follows_step lang d hr hnext
      have hs₁ := all_step (Binding.kept_current lang d) hs c
      obtain ⟨r', hr', hfades⟩ := ih hs₁ hr₁ (hfollows.logic ▸ hrejects) hrest
      cases hm : s.frameOf? c place.profile with
      | none =>
          rw [hm] at heq hfollows
          obtain ⟨rfl, rfl⟩ := Prod.mk.inj (Option.some.inj heq)
          exact ⟨r', hr', hfades.of_eq hfollows.logic hfollows.phase⟩
      | some m =>
          have hholds := (hs.current_rule hr).holds_eq_false hrejects m.scores
          have hphase : r₁.phase = .idle := by
            rw [hfollows.phase, hm]
            simp only [EdgeRule.step, hholds]
            exact (r.phase.step_released r.debounceMs m.now).1
          rw [hm] at heq
          obtain ⟨rfl, rfl⟩ := Prod.mk.inj (Option.some.inj heq)
          rw [transitionsAt_of_rejects hs hr hrejects hm]
          exact ⟨r', hr', hfades.cons hfollows.logic hphase⟩

/-- A text that a rule is given leaves the rule where it stands. -/
theorem rule?_step_of_text? {c : Command} {source : String} (hc : c.text? place = some source)
    (hr : s.profiles.rule? place = some r) {a : Answer π}
    (ha : (s.step lang d c).answer = .ok a) :
    ∃ r', (s.step lang d c).session.profiles.rule? place = some r' ∧ r'.logic = source ∧
      r'.phase = r.phase := by
  cases c with
  | edit p i e =>
      simp only [Command.text?, Option.ite_none_right_eq_some, Bool.and_eq_true, bne_iff_ne] at hc
      obtain ⟨⟨hplace, hsimplified⟩, hlogic⟩ := hc
      obtain ⟨⟨reports, set⟩, hset, hstep⟩ := attempt_of_ok ha
      rcases ProfileSet.rule?_modifyBinding (ProfileSet.edit_eq_ok hset).2 hr with
        ⟨hother, -⟩ | ⟨-, b, hb, hset⟩
      · rw [hplace] at hother
        contradiction
      · rw [Session.step, hstep]
        refine ⟨_, hset.trans (e.rule?_apply hsimplified hb), ?_, EdgeRule.phase_edit _⟩
        simp [EdgeRule.edit, hlogic, EdgeRule.withLogic, EdgeRule.compiled]
  | setLogic p i edge text =>
      simp only [Command.text?, Option.ite_none_right_eq_some, Bool.and_eq_true, beq_iff_eq,
        Option.some.injEq] at hc
      obtain ⟨⟨hplace, rfl⟩, rfl⟩ := hc
      obtain ⟨b, hb, hstep⟩ := attempt_of_ok ha
      rw [Session.step, hstep] at ha ⊢
      cases b with
      | simple rule =>
          have hedge := ProfileSet.rule?_of_binding hplace hb hr
          cases place.edge <;> contradiction
      | advanced start stop =>
          obtain ⟨set, hset, hstep'⟩ := attempt_of_ok ha
          rcases ProfileSet.rule?_modifyBinding hset hr with ⟨hother, -⟩ | ⟨-, b, hb, hset⟩
          · rw [hplace] at hother
            contradiction
          · dsimp only
            rw [hstep']
            exact ⟨_, hset.trans (Binding.rule?_withLogic text hb), rfl, rfl⟩
  | _ => contradiction

/-- **A broken rule never fires**, in any session that starts with a normalization.  Let `s` be
the session that commands lead to, with a log of all that the dispatcher was handed.

What a command hands to the dispatcher is what the transitions of its frame show.  A frame of a
rule's profile reports nothing of a rule whose text is blank or no condition, but that it was
released, and fires nothing.  While later commands leave such a rule, its first frame releases it,
unless it was idle, and from then on it is idle with no window open.

A rule that is given such a text while it is pending or activated stands where it stood until the
next frame of its profile, which releases it with one transition and no action; no later frame
reports anything of it. -/
theorem broken_rules_never_fire (lang : RuleLanguage π) (d : Dispatcher σ) (set : ProfileSet π)
    (actuator : σ) (cs : List Command) :
    let s := run lang d.traced ⟨set.normalize lang, actuator, []⟩ cs
    (∀ c, ∃ calls, (s.step lang d.traced c).session.actuator.2 = s.actuator.2 ++ calls ∧
        calls.map Dispatch.shown =
          (evaluated? (s.step lang d.traced c)).toList.flatMap fun report =>
            report.fired.map fun t => (t.action, t.error)) ∧
      (∀ place r, s.profiles.rule? place = some r → lang.Rejects r.logic →
        (∀ c m, s.frameOf? c place.profile = some m →
          ∀ t ∈ (s.step lang d.traced c).transitionsAt place,
            t.reason = .edgeReleased ∧ t.action = none) ∧
        ∀ later last seen, s.track lang d.traced later place = some (last, seen) →
          ∃ r', (run lang d.traced s later).profiles.rule? last = some r' ∧ r.FadesTo seen r') ∧
      ∀ place r, s.profiles.rule? place = some r → r.phase.state ≠ .idle →
        ∀ c source answer, c.text? place = some source → lang.Rejects source →
          (s.step lang d.traced c).answer = .ok answer →
            let given := (s.step lang d.traced c).session
            (∃ r', given.profiles.rule? place = some r' ∧ r'.logic = source ∧
              r'.phase = r.phase) ∧
            ∀ later last first rest,
              given.track lang d.traced later place = some (last, first :: rest) →
                first.map Transition.reason = [.edgeReleased] ∧ (∀ t ∈ first, t.action = none) ∧
                  ∀ ts ∈ rest, ts = [] := by
  intro s
  have hkept := Binding.kept_current lang d.traced
  have hs : s.profiles.All (Binding.Current lang) :=
    all_run hkept (ProfileSet.all_normalize fun _ _ b _ => b.reset.current_compiled) cs
  refine ⟨fun c => log_step lang d s c, fun place r hr hrejects => ⟨fun c m hm => ?_,
    fun later last seen h => fadesTo_of_track hs hr hrejects h⟩,
    fun place r hr hphase c source answer hc hrejects ha => ?_⟩
  · rw [transitionsAt_of_rejects hs hr hrejects hm]
    exact Phase.reason_release
  · obtain ⟨r', hr', hlogic, hphase'⟩ := rule?_step_of_text? hc hr ha
    refine ⟨⟨r', hr', hlogic, hphase'⟩, fun later last first rest h => ?_⟩
    obtain ⟨_, -, hfades⟩ :=
      fadesTo_of_track (all_step hkept hs c) hr' (hlogic ▸ hrejects) h
    have hreasons := hfades.reasons
    rw [hphase', List.length_cons, Phase.fading, if_neg hphase, List.map_cons,
      List.cons.injEq] at hreasons
    refine ⟨hreasons.1, hfades.unfired first List.mem_cons_self, fun ts hts => ?_⟩
    have hnil := List.mem_map_of_mem (f := List.map Transition.reason) hts
    rw [hreasons.2] at hnil
    exact List.map_eq_nil_iff.1 (List.eq_of_mem_replicate hnil)

/-- A rule that is given a text that is no condition while it is activated, and is moved to another
place before its next frame. -/
theorem broken_rules_never_fire_moved :
    let lang := RuleLanguage.flags [("blink", true)]
    let d := Dispatcher.recording none
    let set : ProfileSet String := ⟨[⟨"Default", [.simple .template,
      .advanced ⟨"blink", 0, "down:space", none, .idle⟩ (.blank "up:space" .idle)]⟩], 0⟩
    let frame : Command := .evaluate (some 0) ⟨.empty, 0⟩
    let s := run lang d.traced ⟨set.normalize lang, [], []⟩ [frame]
    let r : EdgeRule String := ⟨"blink", 0, "down:space", some "blink", .activated⟩
    let given := (s.step lang d.traced (.setLogic 0 1 .start "!no")).session
    let later := [.removeBinding 0 0, frame, .createProfile "Other", frame]
    let seen := [[⟨0, 0, .start, .edgeReleased, none, none⟩], []]
    s.profiles.rule? ⟨0, 1, .start⟩ = some r ∧ r.phase.state ≠ .idle ∧ lang.Rejects "!no" ∧
      given.track lang d.traced later ⟨0, 1, .start⟩ = some (⟨0, 0, .start⟩, seen) ∧
      (∃ r', given.profiles.rule? ⟨0, 1, .start⟩ = some r' ∧ r'.logic = "!no" ∧
        r'.phase = r.phase) ∧
      ∃ r', (run lang d.traced given later).profiles.rule? ⟨0, 0, .start⟩ = some r' ∧
        r'.runtime.state = .idle := by
  intro lang d set frame s r given later seen
  have hrejects : lang.Rejects "!no" := .inr ⟨_, rfl⟩
  obtain ⟨-, -, hgiven⟩ := broken_rules_never_fire lang d set [] [frame]
  obtain ⟨-, hfades, -⟩ :=
    broken_rules_never_fire lang d set [] [frame, .setLogic 0 1 .start "!no"]
  have htrack : given.track lang d.traced later ⟨0, 1, .start⟩ = some (⟨0, 0, .start⟩, seen) := by
    dsimp only [given, s, set, d, lang]
    rfl
  obtain ⟨hplace, -⟩ := hgiven ⟨0, 1, .start⟩ r rfl nofun (.setLogic 0 1 .start "!no") "!no" .done
    rfl hrejects rfl
  obtain ⟨r', hr', hfaded⟩ := (hfades ⟨0, 1, .start⟩ _ rfl hrejects).2 later _ seen htrack
  exact ⟨rfl, nofun, hrejects, htrack, hplace, r', hr', (hfaded.idle nofun).1⟩

end Session

end Grimace
