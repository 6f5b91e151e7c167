import Grimace.Proofs.Rule.Crossing
import Grimace.Proofs.Session.Editing
import Grimace.Proofs.Session.Untouched

/-!
# Grimace.Proofs.Session.Crossing

A simple binding through a whole session, with its threshold edited between frames.

* `Session.binding_step`, `Session.fired_eq` — what a command makes of the binding and what it
  fires, told by the rule and the frame alone;
* `Session.run_keepsSimple` — so any commands take the rule where the sights take it, and fire the
  edges that these tell;
* `Session.firings_insert` — a frame that shows nothing decisive can be put in anywhere;
* `Session.crosses_in_turns` — all of it together, in the terms of the frames.
-/

namespace Grimace

variable {π σ : Type}

/-! ## What happens to a simple rule -/

/-- What a frame shows a simple rule. -/
def SimpleRule.sight (r : SimpleRule) (m : Moment) : Sight :=
  ⟨m.scores.get? r.blendshape, r.threshold⟩

/-- What an edit makes of a simple rule that stays one. -/
def BindingEdit.tune (e : BindingEdit) (r : SimpleRule) : SimpleRule :=
  { r with
    blendshape := e.blendshape.getD r.blendshape
    threshold := e.threshold.getD r.threshold
    startAction := e.start.action.getD r.startAction
    stopAction := e.stop.action.getD r.stopAction }

/-- What a command makes of a simple rule at an index of a profile, where a frame is put to the
profile or none. -/
def SimpleRule.upon (p i : Nat) (frame? : Option Moment) (r : SimpleRule) : Command → SimpleRule
  | .edit q j e =>
    if q = p ∧ j = i ∧ e.threshold.all (· ≤ maxThreshold) then e.tune r else r
  | _ =>
    match frame? with
    | some m => { r with activated := Sight.next r.activated (r.sight m) }
    | none => r

/-- What a frame fires of a simple rule, with the tokens. -/
def SimpleRule.shots (r : SimpleRule) (m : Moment) : List (Edge × Option String) :=
  (Sight.fires r.activated (r.sight m)).toList.map fun edge => (edge, some (r.action edge))

/-- The edge that a change is one of, with the token that was fired. -/
def Transition.shot (t : Transition) : Edge × Option String := (t.edge, t.action)

/-- The command is a frame, or an edit that leaves the binding at an index of a profile simple. -/
def Command.keepsSimple (p i : Nat) : Command → Bool
  | evaluate _ _ | frame _ _ => true
  | edit q j e => !(q == p && j == i && e.simplified == some false)
  | _ => false

theorem Command.keepsSimple_of_isFrame {c : Command} (h : c.isFrame = true) (p i : Nat) :
    c.keepsSimple p i = true := by
  cases c <;> first | rfl | contradiction

theorem BindingEdit.apply_simple (lang : RuleLanguage π) {e : BindingEdit}
    (h : e.simplified ≠ some false) (r : SimpleRule) :
    e.apply lang (.simple r) = .simple (e.tune r) := by
  have hshape : e.reshape (.simple r : Binding π) = .simple r := by
    rw [reshape_eq, if_pos]
    rcases hsimplified : e.simplified with _ | toSimple
    · rfl
    · cases toSimple with
      | true => rfl
      | false => contradiction
  unfold apply
  rw [hshape]
  rfl

theorem SimpleRule.shots_turn (d : Dispatcher σ) (m : Moment) (i : Nat) (r : SimpleRule) (s : σ) :
    (r.turn d m i s).transitions.map Transition.shot = r.shots m := by
  unfold turn shots sight
  rw [r.step_eq]
  cases Sight.fires r.activated ⟨m.scores.get? r.blendshape, r.threshold⟩ with
  | none => rfl
  | some edge =>
      obtain ⟨error, hfire⟩ := fire_transitions d s
        ⟨m.now, i, edge, SimpleRule.reason edge, none, none⟩ (r.action edge)
      simp only [hfire]
      rfl

namespace Session

/-! ## One command -/

section

variable (lang : RuleLanguage π) (d : Dispatcher σ) (p i : Nat)

/-- What a command shows the binding at an index of a profile, if that is simple and a frame is put
to it. -/
def sight? (s : Session π σ) (c : Command) : Option Sight := do
  let m ← s.frameOf? c p
  let r ← (s.profiles.binding p i).toOption.bind Binding.simple?
  return r.sight m

/-- What is fired of the binding when a command is carried out, as it is reported. -/
def fired (s : Session π σ) (c : Command) : List (Edge × Option String) :=
  if (s.frameOf? c p).isSome then
    ((s.step lang d c).transitions.filter fun t => t.binding == i).map Transition.shot
  else []

/-- What the binding is shown by commands, one after the other. -/
def sights : Session π σ → List Command → List Sight
  | _, [] => []
  | s, c :: cs => (s.sight? p i c).toList ++ sights (s.step lang d c).session cs

/-- What is fired of the binding, command by command. -/
def firings : Session π σ → List Command → List (List (Edge × Option String))
  | _, [] => []
  | s, c :: cs => s.fired lang d p i c :: firings (s.step lang d c).session cs

end

section

variable (lang : RuleLanguage π) (d : Dispatcher σ) {p i : Nat} {s : Session π σ} {c : Command}
  {b : Binding π} {r : SimpleRule} {m : Moment}

/-- A frame of its profile makes of a binding what its own turn makes of it. -/
theorem binding_step_of_frame (hb : s.profiles.binding p i = .ok b)
    (hm : s.frameOf? c p = some m) :
    ∃ s', (s.step lang d c).session.profiles.binding p i = .ok (b.turn lang d m i s').value ∧
      s.fired lang d p i c = (b.turn lang d m i s').transitions.map Transition.shot := by
  obtain ⟨q, hc, hq⟩ := frameOf?_eq_some_iff.1 hm
  obtain ⟨profile, hp, hi⟩ := ProfileSet.binding_eq_ok_iff.1 hb
  obtain ⟨s', hvalue, hfilter⟩ := turn_of_getElem? lang d m hi 0 s.actuator
  rw [Nat.zero_add] at hvalue hfilter
  refine ⟨s', ?_, ?_⟩
  · rw [step_of_judges? lang d s hc, hq]
    simp only [framed, ProfileSet.evaluate, hp]
    let turned := (evaluateBindings lang d m 0 s.actuator profile.bindings).value
    refine ProfileSet.binding_eq_ok_iff.2 ⟨{ profile with bindings := turned }, ?_, hvalue⟩
    simp [ProfileSet.withBindings, hp, turned]
  · unfold fired
    rw [hm, step_of_judges? lang d s hc, hq]
    simp only [framed, ProfileSet.evaluate, hp]
    exact congrArg (List.map Transition.shot) hfilter

/-- Other frames leave the binding as it is. -/
theorem binding_step_of_other_frame (hc : c.isFrame = true) (hm : s.frameOf? c p = none) :
    (s.step lang d c).session.profiles.binding p i = s.profiles.binding p i := by
  cases hj : c.judges? with
  | none => rw [session_step_of_judges?_eq_none lang d s hc hj]
  | some judged =>
      obtain ⟨q, m⟩ := judged
      have hne : q.getD s.profiles.selection.toNat ≠ p := fun heq => by
        simp [frameOf?, hj, heq] at hm
      have hp := s.profiles.profiles_evaluate_of_ne lang d s.actuator _ m hne
      rw [step_of_judges? lang d s hj]
      simp only [framed, ProfileSet.binding, ProfileSet.profile, hp]

/-- An edit that leaves a binding simple tunes it, if it is accepted and is an edit of that one. -/
theorem binding_step_of_edit {q j : Nat} {e : BindingEdit}
    (hb : s.profiles.binding p i = .ok (.simple r))
    (hc : (Command.edit q j e).keepsSimple p i = true) :
    (s.step lang d (.edit q j e)).session.profiles.binding p i =
      .ok (.simple (r.upon p i none (.edit q j e))) := by
  have haccepted : e.threshold.all (· ≤ maxThreshold) = true ↔
      ∀ t, e.threshold = some t → t ≤ maxThreshold := by
    cases e.threshold <;> simp
  show (s.attempt (s.profiles.edit lang q j e) _).session.profiles.binding p i = _
  by_cases hplace : q = p ∧ j = i
  · obtain ⟨rfl, rfl⟩ := hplace
    by_cases he : ∀ t, e.threshold = some t → t ≤ maxThreshold
    · obtain ⟨set', hset', hedit⟩ := ProfileSet.edit_of_binding lang hb he
      have hkeeps : e.simplified ≠ some false := by simpa [Command.keepsSimple] using hc
      rw [SimpleRule.upon, if_pos ⟨rfl, rfl, haccepted.2 he⟩, hedit, ← e.apply_simple lang hkeeps]
      exact ProfileSet.binding_modifyBinding hset' hb
    · rw [SimpleRule.upon, if_neg fun h => he (haccepted.1 h.2.2)]
      cases hedit : s.profiles.edit lang q j e with
      | error err => exact hb
      | ok edited => exact absurd (ProfileSet.edit_eq_ok hedit).1 he
  · rw [SimpleRule.upon, if_neg fun h => hplace ⟨h.1, h.2.1⟩]
    cases hedit : s.profiles.edit lang q j e with
    | error err => exact hb
    | ok edited =>
        have hsame := ProfileSet.sameBut_modifyBinding (ProfileSet.edit_eq_ok hedit).2
        have hne : p ≠ q ∨ i ≠ j := by omega
        exact (hsame.bindings p i hne).trans hb

theorem selection_step (hc : c.keepsSimple p i = true) :
    (s.step lang d c).session.profiles.selection = s.profiles.selection := by
  have hframe (h : c.isFrame = true) :
      (s.step lang d c).session.profiles.selection = s.profiles.selection := by
    have hselection := congrArg ProfileSet.selection (step_of_isFrame lang d s h).1
    exact hselection
  cases c with
  | evaluate | frame => exact hframe rfl
  | edit q j e =>
      show (s.attempt (s.profiles.edit lang q j e) _).session.profiles.selection = _
      cases hedit : s.profiles.edit lang q j e with
      | error err => rfl
      | ok r => exact (ProfileSet.sameBut_modifyBinding (ProfileSet.edit_eq_ok hedit).2).selection
  | _ => contradiction

/-- **One command**: a frame moves the rule by one step, and an edit tunes it. -/
theorem binding_step (hb : s.profiles.binding p i = .ok (.simple r))
    (hc : c.keepsSimple p i = true) :
    (s.step lang d c).session.profiles.binding p i =
      .ok (.simple (r.upon p i (s.frameOf? c p) c)) := by
  cases c with
  | edit q j e => exact binding_step_of_edit lang d hb hc
  | evaluate | frame =>
      cases hm : s.frameOf? _ p with
      | none => exact (binding_step_of_other_frame lang d rfl hm).trans hb
      | some m =>
          obtain ⟨s', hstep, -⟩ := binding_step_of_frame lang d hb hm
          rw [hstep, Binding.turn, SimpleRule.value_turn, SimpleRule.step_eq]
          rfl
  | _ => contradiction

/-- Nothing is fired but by a frame, and by that what the rule fires at it. -/
theorem fired_eq (hb : s.profiles.binding p i = .ok (.simple r)) (c : Command) :
    s.fired lang d p i c = (s.frameOf? c p).elim [] r.shots := by
  cases hm : s.frameOf? c p with
  | none => simp [fired, hm]
  | some m =>
      obtain ⟨s', -, hfired⟩ := binding_step_of_frame lang d hb hm
      rw [hfired]
      exact r.shots_turn d m i s'

theorem sight?_eq (hb : s.profiles.binding p i = .ok (.simple r)) (c : Command) :
    s.sight? p i c = (s.frameOf? c p).map r.sight := by
  unfold sight?
  rw [hb]
  cases s.frameOf? c p <;> rfl

theorem activated_upon (frame? : Option Moment) (hc : c.isFrame = false → frame? = none) :
    (r.upon p i frame? c).activated =
      ((frame?.map r.sight).toList).foldl Sight.next r.activated := by
  cases c with
  | evaluate | frame => cases frame? <;> rfl
  | edit q j e =>
      rw [hc rfl, SimpleRule.upon]
      split <;> rfl
  | _ => rw [hc rfl]; rfl

end

/-! ## Many commands -/

section

variable (lang : RuleLanguage π) (d : Dispatcher σ) {p i : Nat} {s s' : Session π σ}
  {r : SimpleRule} {cs : List Command}

theorem frameOf?_of_not_frame {c : Command} (hc : c.isFrame = false) : s.frameOf? c p = none := by
  cases c <;> first | contradiction | rfl

/-- What fires at a frame are the edges that the rule tells of it. -/
theorem map_fst_fired (hb : s.profiles.binding p i = .ok (.simple r)) (c : Command) :
    (s.fired lang d p i c).map Prod.fst =
      Sight.crossings r.activated (s.sight? p i c).toList := by
  rw [fired_eq lang d hb, sight?_eq hb]
  cases s.frameOf? c p with
  | none => rfl
  | some m =>
      simp only [Option.elim_some, SimpleRule.shots, List.map_map, Option.map_some,
        Option.toList_some, Sight.crossings]
      cases Sight.fires r.activated (r.sight m) <;> rfl

/-- **All commands**: the rule stands where the sights take it, and what fires are the edges that
it tells of them. -/
theorem run_keepsSimple (hb : s.profiles.binding p i = .ok (.simple r))
    (hcs : ∀ c ∈ cs, c.keepsSimple p i = true) :
    ∃ r', (run lang d s cs).profiles.binding p i = .ok (.simple r') ∧
      r'.activated = (s.sights lang d p i cs).foldl Sight.next r.activated ∧
      (s.firings lang d p i cs).flatten.map Prod.fst =
        Sight.crossings r.activated (s.sights lang d p i cs) := by
  induction cs generalizing s r with
  | nil => exact ⟨r, hb, rfl, rfl⟩
  | cons c cs ih =>
      obtain ⟨hc, hcs⟩ := List.forall_mem_cons.1 hcs
      have hstep := binding_step lang d hb hc
      have hactivated := activated_upon (r := r) (p := p) (i := i) (s.frameOf? c p)
        fun h => frameOf?_of_not_frame h
      rw [← sight?_eq hb] at hactivated
      obtain ⟨r', hr', hstanding, hedges⟩ := ih hstep hcs
      rw [hactivated] at hstanding hedges
      refine ⟨r', hr', ?_, ?_⟩
      · rw [sights, List.foldl_append]
        exact hstanding
      · rw [firings, sights, List.flatten_cons, List.map_append, hedges, map_fst_fired lang d hb,
          Sight.crossings_append]

/-- What fires is up to the selection and the rule alone. -/
theorem firings_congr (hselection : s'.profiles.selection = s.profiles.selection)
    (hb : s.profiles.binding p i = .ok (.simple r))
    (hb' : s'.profiles.binding p i = .ok (.simple r))
    (hcs : ∀ c ∈ cs, c.keepsSimple p i = true) :
    s'.firings lang d p i cs = s.firings lang d p i cs := by
  induction cs generalizing s s' r with
  | nil => rfl
  | cons c cs ih =>
      obtain ⟨hc, hcs⟩ := List.forall_mem_cons.1 hcs
      have hframe : s'.frameOf? c p = s.frameOf? c p := by
        unfold frameOf?
        rw [hselection]
      have hstep := binding_step lang d hb hc
      have hstep' := binding_step lang d hb' hc
      rw [hframe] at hstep'
      have hnext := (selection_step lang d (s := s') hc).trans
        (hselection.trans (selection_step lang d hc).symm)
      rw [firings, firings, fired_eq lang d hb, fired_eq lang d hb', hframe,
        ih hnext hstep hstep' hcs]

theorem firings_append (before after : List Command) :
    s.firings lang d p i (before ++ after) =
      s.firings lang d p i before ++ (run lang d s before).firings lang d p i after := by
  induction before generalizing s with
  | nil => rfl
  | cons c before ih =>
      rw [List.cons_append, firings, firings, ih]
      rfl

/-- A frame that shows the rule nothing decisive leaves it as it is. -/
theorem upon_of_not_decisive {c : Command} {frame? : Option Moment} (hc : c.isFrame = true)
    (hsight : ∀ m, frame? = some m → (r.sight m).isDecisive = false) :
    r.upon p i frame? c = r := by
  have hnext : ∀ m, frame? = some m → Sight.next r.activated (r.sight m) = r.activated :=
    fun m hm => (Sight.of_not_decisive (hsight m hm)).2
  cases c with
  | evaluate | frame =>
      cases frame? with
      | none => rfl
      | some m =>
          show { r with activated := Sight.next r.activated (r.sight m) } = r
          rw [hnext m rfl]
  | _ => contradiction

/-- It fires nothing, either. -/
theorem step_of_not_decisive {c : Command} (hb : s.profiles.binding p i = .ok (.simple r))
    (hc : c.isFrame = true) (hsight : ∀ x, s.sight? p i c = some x → x.isDecisive = false) :
    s.fired lang d p i c = [] ∧
      (s.step lang d c).session.profiles.binding p i = .ok (.simple r) := by
  have hkeeps := Command.keepsSimple_of_isFrame hc p i
  have hsight : ∀ m, s.frameOf? c p = some m → (r.sight m).isDecisive = false := fun m hm =>
    hsight _ (by rw [sight?_eq hb, hm]; rfl)
  have hstep := binding_step lang d hb hkeeps
  rw [upon_of_not_decisive hc hsight] at hstep
  refine ⟨?_, hstep⟩
  rw [fired_eq lang d hb]
  cases hm : s.frameOf? c p with
  | none => rfl
  | some m =>
      have hfires : Sight.fires r.activated (r.sight m) = none :=
        (Sight.of_not_decisive (hsight m hm)).1
      simp [SimpleRule.shots, hfires]

/-- **Frames that decide nothing.**  A frame that is put between two commands and shows the rule
nothing decisive fires nothing, and the same fires at all other frames. -/
theorem firings_insert {before after : List Command} {c : Command}
    (hb : s.profiles.binding p i = .ok (.simple r))
    (hbefore : ∀ c ∈ before, c.keepsSimple p i = true)
    (hafter : ∀ c ∈ after, c.keepsSimple p i = true) (hc : c.isFrame = true)
    (hsight : ∀ x, (run lang d s before).sight? p i c = some x → x.isDecisive = false) :
    ∃ later, s.firings lang d p i (before ++ after) = s.firings lang d p i before ++ later ∧
      s.firings lang d p i (before ++ c :: after) = s.firings lang d p i before ++ [] :: later := by
  obtain ⟨r', hr', -, -⟩ := run_keepsSimple lang d hb hbefore
  obtain ⟨hfired, hstep⟩ := step_of_not_decisive lang d hr' hc hsight
  have hkeeps := Command.keepsSimple_of_isFrame hc p i
  -- The frame may move other bindings and the dispatcher, but neither matters to what fires here.
  have hlater := firings_congr lang d (selection_step lang d hkeeps) hr' hstep hafter
  refine ⟨_, firings_append lang d before after, ?_⟩
  rw [firings_append, firings, hfired, hlater]

end

/-! ## All sessions -/

/-- **Crossings.**  Take a binding that is simple and not activated, and any frames, put to its
profile or to others, with edits between them, of this binding or of others, that leave it simple.

What fires of it is a start, then a stop, then a start, and so on.  At each time it is activated
exactly if some score so far differed from the threshold then in force and the last of these was
above it.  The next frame fires the start, with its token, if its score is above the threshold
and the binding is not activated, the stop if the score is below and the binding is activated, and
otherwise nothing.  A frame that is put in, at any time, with no score or one that equals the
threshold, fires nothing and changes nothing of what fires before and later. -/
theorem crosses_in_turns (lang : RuleLanguage π) (d : Dispatcher σ) (s : Session π σ) (p i : Nat)
    (r : SimpleRule) (cs : List Command) (hb : s.profiles.binding p i = .ok (.simple r))
    (hr : r.activated = false) (hcs : ∀ c ∈ cs, c.keepsSimple p i = true) :
    (∀ k shot, (s.firings lang d p i cs).flatten[k]? = some shot →
      shot.1 = if k % 2 = 0 then .start else .stop) ∧
    ∀ before after, cs = before ++ after →
      let now := run lang d s before
      ∃ r', now.profiles.binding p i = .ok (.simple r') ∧
        r'.activated = Sight.risen (s.sights lang d p i before) ∧
        (∀ c m, now.frameOf? c p = some m → now.fired lang d p i c =
          if (r'.sight m).isAbove && !r'.activated then [(.start, some r'.startAction)]
          else if (r'.sight m).isBelow && r'.activated then [(.stop, some r'.stopAction)]
          else []) ∧
        ∀ c, c.isFrame = true → (∀ x, now.sight? p i c = some x → x.isDecisive = false) →
          ∃ later, s.firings lang d p i cs = s.firings lang d p i before ++ later ∧
            s.firings lang d p i (before ++ c :: after) =
              s.firings lang d p i before ++ [] :: later := by
  refine ⟨fun k shot hk => ?_, ?_⟩
  · obtain ⟨-, -, -, hedges⟩ := run_keepsSimple lang d hb hcs
    have hedge : (Sight.crossings false (s.sights lang d p i cs))[k]? = some shot.1 := by
      rw [← hr, ← hedges, List.getElem?_map, hk, Option.map_some]
    rw [Sight.crossings_alternate false _ k _ hedge]
    rcases Nat.mod_two_eq_zero_or_one k with hparity | hparity <;> simp [hparity]
  · rintro before after rfl
    have hbefore : ∀ c ∈ before, c.keepsSimple p i = true := fun c hc =>
      hcs c (List.mem_append_left after hc)
    have hafter : ∀ c ∈ after, c.keepsSimple p i = true := fun c hc =>
      hcs c (List.mem_append_right before hc)
    obtain ⟨r', hr', hactivated, -⟩ := run_keepsSimple lang d hb hbefore
    refine ⟨r', hr', ?_, fun c m hm => ?_, fun c hc hsight =>
      firings_insert lang d hb hbefore hafter hc hsight⟩
    · rw [hactivated, hr]
      exact Sight.foldl_next_risen [] _
    · rw [fired_eq lang d hr', hm]
      simp only [Option.elim_some, SimpleRule.shots, Sight.fires]
      split
      · rfl
      · split <;> rfl

/-- A binding that starts, and stops at the same score after its threshold was edited, with a
frame between at which the score equals the threshold. -/
theorem crosses_in_turns_retuned :
    let lang := RuleLanguage.flags []
    let d := Dispatcher.recording none
    let r : SimpleRule := ⟨"jawOpen", 50, "down:space", "up:space", false⟩
    let s : Session String (List String) := ⟨⟨[⟨"Default", [.simple r]⟩], 0⟩, []⟩
    let jaw (score : UInt8) : Command := .evaluate none ⟨Scores.empty.put "jawOpen" score, 0⟩
    let retune : Command := .edit 0 0 { BindingEdit.empty with threshold := some 70 }
    let cs := [jaw 60, retune, jaw 70, jaw 60]
    s.profiles.binding 0 0 = .ok (.simple r) ∧ r.activated = false ∧
      (∀ c ∈ cs, c.keepsSimple 0 0 = true) ∧
      s.sights lang d 0 0 cs = [⟨some 60, 50⟩, ⟨some 70, 70⟩, ⟨some 60, 70⟩] ∧
      s.firings lang d 0 0 cs =
        [[(.start, some "down:space")], [], [], [(.stop, some "up:space")]] ∧
      ∃ r', (run lang d s cs).profiles.binding 0 0 = .ok (.simple r') ∧
        r'.activated = Sight.risen (s.sights lang d 0 0 cs) := by
  intro lang d r s jaw retune cs
  have hcs : ∀ c ∈ cs, c.keepsSimple 0 0 = true := by
    simp [cs, jaw, retune, Command.keepsSimple, BindingEdit.empty]
  obtain ⟨-, hrun⟩ := crosses_in_turns lang d s 0 0 r cs rfl rfl hcs
  obtain ⟨r', hr', hactivated, -⟩ := hrun cs [] (List.append_nil cs).symm
  exact ⟨rfl, rfl, hcs, rfl, rfl, r', hr', hactivated⟩

end Session

end Grimace
