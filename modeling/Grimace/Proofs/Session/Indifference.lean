import Grimace.Proofs.Except
import Grimace.Proofs.Profile.Map
import Grimace.Session

/-!
# Grimace.Proofs.Session.Indifference

What is done with actions changes nothing about the rules.

To *mask* something is to blank out the tokens of actions, and with them what a dispatcher
said of them: whether a change fired an action is still seen, but neither which one nor what
became of it.

* `Session.step_masked` — what a command does, masked, is what the masked command does in the
  masked session with a dispatcher that swallows everything;
* `Session.indifferent_to_actions` — so sessions that differ in tokens and dispatchers alone
  cannot be told apart by where their rules stand.
-/

namespace Grimace

variable {π σ : Type}

/-! ## Masks -/

/-- The dispatcher that swallows everything. -/
def Dispatcher.mute : Dispatcher Unit := .gated false .console

/-- The rule without its token. -/
def EdgeRule.masked (r : EdgeRule π) : EdgeRule π := { r with action := "" }

/-- The rule without its tokens. -/
def SimpleRule.masked (r : SimpleRule) : SimpleRule :=
  { r with startAction := "", stopAction := "" }

/-- The binding without its tokens. -/
def Binding.masked : Binding π → Binding π
  | simple r => simple r.masked
  | advanced start stop => advanced start.masked stop.masked

/-- The set without the tokens of its bindings. -/
def ProfileSet.masked (set : ProfileSet π) : ProfileSet π := set.mapBindings Binding.masked

/-- The edit without its token. -/
def EdgeEdit.masked (e : EdgeEdit) : EdgeEdit := { e with action := none }

/-- The edit without its tokens. -/
def BindingEdit.masked (e : BindingEdit) : BindingEdit :=
  { e with start := e.start.masked, stop := e.stop.masked }

/-- The command without the tokens that it gives to a binding. -/
def Command.masked : Command → Command
  | edit p i e => edit p i e.masked
  | c => c

/-- The change, of which it is only told whether an action was fired. -/
def Transition.masked (t : Transition) : Transition :=
  { t with action := t.action.map fun _ => "", error := none }

/-- The report with its changes masked. -/
def FrameReport.masked (r : FrameReport) : FrameReport :=
  { r with transitions := r.transitions.map Transition.masked }

/-- The answer without tokens. -/
def Answer.masked : Answer π → Answer π
  | profile p => profile (p.map (Profile.mapBindings Binding.masked))
  | binding b => binding b.masked
  | report r => report r.masked
  | a => a

/-- The reports other than those of refused tokens. -/
def unrefused (reports : List Diagnostic) : List Diagnostic :=
  reports.filter fun d => d.code != .dispatchFailed

/-- The session without tokens and without its dispatcher's state. -/
def Session.masked (s : Session π σ) : Session π Unit := ⟨s.profiles.masked, ()⟩

/-- The outcome without tokens and without all that a dispatcher has to do with. -/
def Outcome.masked (o : Outcome π σ) : Outcome π Unit :=
  ⟨o.answer.map Answer.masked, o.session.masked, unrefused o.reports⟩

/-- The turn, masked, where `mask` is for its value. -/
def Turn.masked {α : Type} (mask : α → α) (t : Turn σ α) : Turn Unit α :=
  ⟨mask t.value, t.transitions.map Transition.masked, unrefused t.reports, ()⟩

/-- The result, masked. -/
def FrameResult.masked (r : FrameResult π σ) : FrameResult π Unit :=
  ⟨r.set.masked, r.report.masked, unrefused r.reports, ()⟩

/-- A mask hides nothing of where a binding stands. -/
theorem Binding.runtime_masked (b : Binding π) : b.masked.runtime = b.runtime := by
  cases b <;> rfl

theorem ProfileSet.runtime_masked (set : ProfileSet π) : set.masked.runtime = set.runtime := by
  simp [ProfileSet.runtime, ProfileSet.masked, ProfileSet.mapBindings, Profile.mapBindings,
    Binding.runtime_masked]

/-! ## Reports -/

theorem unrefused_append (reports more : List Diagnostic) :
    unrefused (reports ++ more) = unrefused reports ++ unrefused more :=
  List.filter_append ..

theorem unrefused_eq_self {reports : List Diagnostic}
    (h : ∀ d ∈ reports, d.code ≠ .dispatchFailed) : unrefused reports = reports :=
  List.filter_eq_self.2 fun d hd => by simpa using h d hd

section

variable (lang : RuleLanguage π)

theorem EdgeRule.unrefused_reports (m : Moment) (i : Nat) (edge : Edge) (r : EdgeRule π) :
    unrefused (r.reports lang m i edge) = r.reports lang m i edge := by
  refine unrefused_eq_self fun d hd => ?_
  unfold EdgeRule.reports at hd
  split at hd
  · contradiction
  · split at hd
    · contradiction
    · rw [List.mem_singleton.1 hd]
      nofun

theorem EdgeRule.unrefused_findings (subject : String) (r : EdgeRule π) :
    unrefused (r.findings lang subject) = r.findings lang subject := by
  refine unrefused_eq_self fun d hd => ?_
  unfold EdgeRule.findings at hd
  split at hd
  · contradiction
  · split at hd
    · rw [List.mem_singleton.1 hd]
      nofun
    · obtain ⟨name, -, rfl⟩ := List.mem_map.1 hd
      nofun

theorem EdgeEdit.unrefused_findings (subject : String) (e : EdgeEdit) :
    unrefused (e.findings lang subject) = e.findings lang subject := by
  unfold EdgeEdit.findings
  split
  · exact EdgeRule.unrefused_findings lang subject _
  · rfl

theorem BindingEdit.unrefused_findings (i : Nat) (e : BindingEdit) (b : Binding π) :
    unrefused (e.findings lang i b) = e.findings lang i b := by
  unfold BindingEdit.findings
  split
  · rfl
  · rw [unrefused_append, EdgeEdit.unrefused_findings, EdgeEdit.unrefused_findings]

theorem Binding.unrefused_findings (i : Nat) (b : Binding π) :
    unrefused (b.findings lang i) = b.findings lang i := by
  cases b with
  | simple r => rfl
  | advanced start stop =>
      rw [Binding.findings, unrefused_append, EdgeRule.unrefused_findings,
        EdgeRule.unrefused_findings]

theorem ProfileSet.unrefused_findings (set : ProfileSet π) :
    unrefused (set.findings lang) = set.findings lang := by
  refine unrefused_eq_self fun d hd => ?_
  obtain ⟨p, -, hd⟩ := List.mem_flatMap.1 hd
  obtain ⟨ds, hds, hd⟩ := List.mem_flatten.1 hd
  obtain ⟨i, hi, rfl⟩ := List.mem_mapIdx.1 hds
  rw [← Binding.unrefused_findings] at hd
  simpa using (List.mem_filter.1 hd).2

end

/-! ## Frames -/

section

variable (lang : RuleLanguage π) (d : Dispatcher σ) (m : Moment) (i : Nat)

theorem fire_masked (s : σ) (edge : Edge) (reason : Reason) (token : String) :
    fire .mute () ⟨m.now, i, edge, reason, none, none⟩ "" =
      (fire d s ⟨m.now, i, edge, reason, none, none⟩ token).masked id := by
  unfold fire
  cases d.dispatch s token with
  | mk answer next => cases answer <;> rfl

theorem EdgeRule.turn_masked (edge : Edge) (r : EdgeRule π) (s : σ) :
    r.masked.turn lang .mute m i edge () = (r.turn lang d m i edge s).masked EdgeRule.masked := by
  -- A token has no part in the step or in what is said of the condition.
  have hstep : r.masked.step (r.masked.holds lang m.scores) m.now =
      ((r.step (r.holds lang m.scores) m.now).1,
        (r.step (r.holds lang m.scores) m.now).2.masked) := rfl
  have hreports : r.masked.reports lang m i edge = r.reports lang m i edge := rfl
  have haction : r.masked.action = "" := rfl
  unfold EdgeRule.turn
  rw [hstep, hreports, haction]
  obtain ⟨step, next⟩ := r.step (r.holds lang m.scores) m.now
  cases step with
  | fired =>
      simp [EdgeStep.reason?, fire_masked d m i s edge .edgeActivated r.action, Turn.masked,
        unrefused_append, r.unrefused_reports]
  | _ => simp [EdgeStep.reason?, Turn.masked, r.unrefused_reports, Transition.masked]

theorem SimpleRule.step_masked (score : Option UInt8) (r : SimpleRule) :
    r.masked.step score = ((r.step score).1, (r.step score).2.masked) := by
  cases score with
  | none => rfl
  | some n =>
      unfold SimpleRule.step SimpleRule.masked
      by_cases hup : !r.activated ∧ r.threshold < n
      · simp only [if_pos hup]
      · by_cases hdown : r.activated ∧ n < r.threshold
        · simp only [if_neg hup, if_pos hdown]
        · simp only [if_neg hup, if_neg hdown]

theorem SimpleRule.turn_masked (r : SimpleRule) (s : σ) :
    r.masked.turn .mute m i () = (r.turn d m i s).masked SimpleRule.masked := by
  have haction : ∀ edge, r.masked.action edge = "" := fun edge => by cases edge <;> rfl
  have hblendshape : r.masked.blendshape = r.blendshape := rfl
  unfold SimpleRule.turn
  rw [hblendshape, SimpleRule.step_masked]
  obtain ⟨edge?, next⟩ := r.step (m.scores.get? r.blendshape)
  cases edge? with
  | none => rfl
  | some edge =>
      simp [haction, fire_masked d m i s edge (SimpleRule.reason edge) (r.action edge),
        Turn.masked]

theorem Binding.turn_masked (b : Binding π) (s : σ) :
    b.masked.turn lang .mute m i () = (b.turn lang d m i s).masked Binding.masked := by
  cases b with
  | simple r => simp [Binding.masked, Binding.turn, r.turn_masked d m i s, Turn.masked]
  | advanced start stop =>
      simp [Binding.masked, Binding.turn, start.turn_masked lang d m i .start s,
        stop.turn_masked lang d m i .stop (start.turn lang d m i .start s).actuator, Turn.masked,
        unrefused_append]

theorem evaluateBindings_masked (bs : List (Binding π)) (s : σ) :
    evaluateBindings lang .mute m i () (bs.map Binding.masked) =
      (evaluateBindings lang d m i s bs).masked (List.map Binding.masked) := by
  induction bs generalizing i s with
  | nil => rfl
  | cons b bs ih =>
      simp only [List.map_cons, evaluateBindings, b.turn_masked lang d m i s, Turn.masked,
        ih (i + 1) (b.turn lang d m i s).actuator, List.map_append, unrefused_append]

theorem ProfileSet.evaluate_masked (set : ProfileSet π) (s : σ) (selection : Nat) :
    set.masked.evaluate lang .mute () selection m = (set.evaluate lang d s selection m).masked := by
  unfold ProfileSet.evaluate
  rw [ProfileSet.masked, getElem?_mapBindings]
  cases set.profiles[selection]? with
  | none => rfl
  | some p =>
      simp [Profile.mapBindings, evaluateBindings_masked lang d m 0 p.bindings s, Turn.masked,
        withBindings_mapBindings, FrameResult.masked, ProfileSet.masked, FrameReport.masked]

theorem ProfileSet.evaluateReading_masked (set : ProfileSet π) (s : σ) (selection : Nat)
    (reading : Except DetectorError DetectorFrame) :
    set.masked.evaluateReading lang .mute () selection reading =
      (set.evaluateReading lang d s selection reading).masked := by
  cases reading with
  | error e => rfl
  | ok frame =>
      unfold ProfileSet.evaluateReading ProfileSet.evaluateFrame
      dsimp only
      split
      · exact set.evaluate_masked lang d _ s selection
      · rfl
      · rfl

end

/-! ## Edits -/

section

variable (lang : RuleLanguage π)

theorem EdgeRule.edit_masked (e : EdgeEdit) (r : EdgeRule π) :
    r.masked.edit lang e.masked = (r.edit lang e).masked := by
  obtain ⟨action, logic, debounceMs⟩ := e
  cases logic <;> rfl

theorem Binding.withShape_masked (toSimple : Bool) (b : Binding π) :
    b.masked.withShape toSimple = (b.withShape toSimple).masked := by
  cases b <;> cases toSimple <;> rfl

theorem Binding.reset_masked (b : Binding π) : b.masked.reset = b.reset.masked := by
  cases b <;> rfl

theorem Binding.compiled_masked (b : Binding π) :
    b.masked.compiled lang = (b.compiled lang).masked := by
  cases b <;> rfl

theorem Binding.withLogic_masked (edge : Edge) (source : String) (b : Binding π) :
    b.masked.withLogic lang edge source = (b.withLogic lang edge source).masked := by
  cases b <;> cases edge <;> rfl

theorem BindingEdit.reshape_masked (e : BindingEdit) (b : Binding π) :
    e.masked.reshape b.masked = (e.reshape b).masked := by
  unfold BindingEdit.reshape
  rw [show e.masked.simplified = e.simplified from rfl]
  cases e.simplified with
  | none => rfl
  | some toSimple => exact b.withShape_masked toSimple

theorem BindingEdit.apply_masked (e : BindingEdit) (b : Binding π) :
    e.masked.apply lang b.masked = (e.apply lang b).masked := by
  unfold BindingEdit.apply
  rw [BindingEdit.reshape_masked]
  cases e.reshape b with
  | simple r => rfl
  | advanced start stop =>
      exact congrArg₂ Binding.advanced (start.edit_masked lang e.start)
        (stop.edit_masked lang e.stop)

theorem BindingEdit.findings_masked (i : Nat) (e : BindingEdit) (b : Binding π) :
    e.masked.findings lang i b.masked = e.findings lang i b := by
  unfold BindingEdit.findings
  rw [BindingEdit.reshape_masked]
  cases e.reshape b <;> rfl

theorem ProfileSet.findings_masked (set : ProfileSet π) :
    set.masked.findings lang = set.findings lang :=
  set.findings_mapBindings fun i b => by cases b <;> rfl

theorem ProfileSet.normalize_masked (set : ProfileSet π) :
    set.masked.normalize lang = (set.normalize lang).masked := by
  have hselection : set.masked.clampSelection.selection = set.clampSelection.selection :=
    (congrArg ProfileSet.selection (set.clampSelection_mapBindings Binding.masked)).trans rfl
  simp only [ProfileSet.normalize, hselection]
  simp [ProfileSet.masked, ProfileSet.mapBindings, Profile.mapBindings, Binding.reset_masked,
    Binding.compiled_masked, Function.comp_def]

theorem ProfileSet.checkThreshold_masked (set : ProfileSet π) (p i : Nat) (e : BindingEdit) :
    set.masked.checkThreshold p i e.masked = set.checkThreshold p i e := by
  unfold ProfileSet.checkThreshold
  rw [show e.masked.threshold = e.threshold from rfl, ProfileSet.masked, profile_mapBindings]
  cases set.profile p <;> rfl

theorem ProfileSet.edit_masked (set : ProfileSet π) (p i : Nat) (e : BindingEdit) :
    set.masked.edit lang p i e.masked =
      (set.edit lang p i e).map fun r => (unrefused r.1, r.2.masked) := by
  unfold ProfileSet.edit
  rw [checkThreshold_masked, ProfileSet.masked, binding_mapBindings,
    modifyBinding_mapBindings Binding.masked set p i (e.apply_masked lang)]
  cases set.checkThreshold p i e with
  | error fault => rfl
  | ok u =>
      cases set.binding p i with
      | error fault => rfl
      | ok b =>
          simp only [Except.map, Except.ok_bind, e.findings_masked]
          cases set.modifyBinding p i (e.apply lang) with
          | error fault => rfl
          | ok set' => simp only [Except.ok_bind, pure, Except.pure, e.unrefused_findings]; rfl

end

/-! ## Sessions -/

namespace Session

variable {τ : Type} (lang : RuleLanguage π) (d : Dispatcher σ) (s : Session π σ)

/-- A command that may fail is masked where it succeeds. -/
theorem attempt_masked {α : Type} {mask : α → α} {result masked : Except ProfileError α}
    {finish : α → Outcome π σ} {finish' : α → Outcome π Unit}
    (hresult : masked = result.map mask)
    (h : ∀ a, finish' (mask a) = (finish a).masked) :
    s.masked.attempt masked finish' = (s.attempt result finish).masked := by
  subst hresult
  cases result with
  | error e => rfl
  | ok a => exact h a

/-- **One command**: masked, it does what the masked command does in the masked session. -/
theorem step_masked (c : Command) :
    s.masked.step lang .mute c.masked = (s.step lang d c).masked := by
  have hnew : (Binding.template : Binding π).masked = .template := rfl
  cases c with
  | normalize =>
      simp only [Command.masked, Session.step, Session.masked, s.profiles.normalize_masked,
        s.profiles.findings_masked, Outcome.masked, s.profiles.unrefused_findings]
      rfl
  | clampSelection =>
      exact congrArg (s.masked.done .done) (s.profiles.clampSelection_mapBindings Binding.masked)
  | createProfile name =>
      exact congrArg₂ (fun n set => s.masked.done (.index n) set)
        (s.profiles.size_mapBindings Binding.masked)
        (s.profiles.createProfile_mapBindings hnew name)
  | removeSelected =>
      have hremoved := s.profiles.removeSelected_mapBindings Binding.masked
      simp only [Command.masked, Session.step, Session.masked, ProfileSet.masked, hremoved]
      cases s.profiles.removeSelected <;> rfl
  | select index =>
      exact s.attempt_masked (s.profiles.select_mapBindings Binding.masked index) fun set => rfl
  | createBinding p =>
      exact s.attempt_masked (s.profiles.createBinding_mapBindings p hnew) fun r => rfl
  | removeBinding p i =>
      exact s.attempt_masked (s.profiles.removeBinding_mapBindings Binding.masked p i) fun r => rfl
  | reshape p i toSimple =>
      refine s.attempt_masked (s.profiles.binding_mapBindings Binding.masked p i) fun b => ?_
      refine s.attempt_masked (s.profiles.modifyBinding_mapBindings Binding.masked p i
        (Binding.withShape_masked toSimple)) fun set => ?_
      rw [Binding.withShape_masked]
      rfl
  | reset p i =>
      exact s.attempt_masked (s.profiles.modifyBinding_mapBindings Binding.masked p i
        Binding.reset_masked) fun set => rfl
  | edit p i e => exact s.attempt_masked (s.profiles.edit_masked lang p i e) fun r => rfl
  | setLogic p i edge source =>
      refine s.attempt_masked (s.profiles.binding_mapBindings Binding.masked p i) fun b => ?_
      cases b with
      | simple r => rfl
      | advanced start stop =>
          refine s.attempt_masked (s.profiles.modifyBinding_mapBindings Binding.masked p i
            (Binding.withLogic_masked lang edge source)) fun set => ?_
          simp only [Outcome.masked, EdgeEdit.unrefused_findings]
          rfl
  | evaluate p m =>
      exact congrArg framed (s.profiles.evaluate_masked lang d m s.actuator _)
  | frame p f =>
      exact congrArg framed (s.profiles.evaluateReading_masked lang d s.actuator _ f)

/-- **A run**: masked, it is the run of the masked commands from the masked session. -/
theorem run_masked (cs : List Command) :
    run lang .mute s.masked (cs.map Command.masked) = (run lang d s cs).masked := by
  induction cs generalizing s with
  | nil => rfl
  | cons c cs ih =>
      simp only [run, List.map_cons, List.foldl_cons] at ih ⊢
      rw [step_masked lang d s c]
      exact ih (s.step lang d c).session

variable (e : Dispatcher τ)

/-- **What is done with actions never influences the rules.**  Take two sessions whose sets
are the same but for the tokens of actions, each with a dispatcher of its own in a state of its
own, and two runs of commands that are the same but for the tokens in edits.  After every
command all bindings stand at the same place in both; the answers, the reports of frames among
them, are the same but for the tokens and for what a dispatcher said; and so are the reports of
failures, but for those of refused tokens. -/
theorem indifferent_to_actions (set set' : ProfileSet π) (actuator : σ) (actuator' : τ)
    (cs cs' : List Command) (c c' : Command) (hset : set.masked = set'.masked)
    (hcs : cs.map Command.masked = cs'.map Command.masked) (hc : c.masked = c'.masked) :
    let o := (run lang d ⟨set, actuator⟩ cs).step lang d c
    let o' := (run lang e ⟨set', actuator'⟩ cs').step lang e c'
    o.session.profiles.runtime = o'.session.profiles.runtime ∧
      o.session.profiles.masked = o'.session.profiles.masked ∧
      o.answer.map Answer.masked = o'.answer.map Answer.masked ∧
      unrefused o.reports = unrefused o'.reports := by
  intro o o'
  have hstart : (⟨set, actuator⟩ : Session π σ).masked =
      (⟨set', actuator'⟩ : Session π τ).masked := congrArg (Session.mk · ()) hset
  have hrun : (run lang d ⟨set, actuator⟩ cs).masked =
      (run lang e ⟨set', actuator'⟩ cs').masked := by
    rw [← run_masked, ← run_masked, hstart, hcs]
  have hmasked : o.masked = o'.masked := by
    rw [← step_masked, ← step_masked, hrun, hc]
  have hprofiles : o.session.profiles.masked = o'.session.profiles.masked :=
    congrArg (fun o => o.session.profiles) hmasked
  refine ⟨?_, hprofiles, congrArg Outcome.answer hmasked, congrArg Outcome.reports hmasked⟩
  rw [← ProfileSet.runtime_masked, hprofiles, ProfileSet.runtime_masked]

/-- A frame on which one dispatcher refuses the token and another one swallows it. -/
theorem indifferent_to_actions_refused :
    let lang := RuleLanguage.flags [("blink", true)]
    let set (token : String) : ProfileSet String :=
      ⟨[⟨"Default", [.advanced ⟨"blink", 0, token, some "blink", .idle⟩ (.blank "" .idle)]⟩], 0⟩
    let edit (token : String) : Command :=
      .edit 0 0 ⟨none, none, none, ⟨none, none, none⟩, ⟨some token, some "blink", some 5⟩⟩
    let frame : Command := .evaluate none ⟨.empty, 16⟩
    let o := (run lang (.recording (some "down:space")) ⟨set "down:space", []⟩
      [edit "up:space"]).step lang (.recording (some "down:space")) frame
    let o' := (run lang (.gated false .broadcast) ⟨set "press:a", []⟩
      [edit "press:b"]).step lang (.gated false .broadcast) frame
    o.reports.length = 1 ∧ o'.reports.length = 0 ∧
      o.session.profiles.runtime = o'.session.profiles.runtime ∧
      o.answer.map Answer.masked = o'.answer.map Answer.masked := by
  intro lang set edit frame o o'
  obtain ⟨hruntime, -, hanswer, -⟩ := indifferent_to_actions lang (.recording (some "down:space"))
    (.gated false .broadcast) (set "down:space") (set "press:a") [] [] [edit "up:space"]
    [edit "press:b"] frame frame rfl rfl rfl
  exact ⟨rfl, rfl, hruntime, hanswer⟩

end Session

end Grimace
