import Grimace.Frame.Report

/-!
# Grimace.Proofs.Frame.Account

What an evaluated frame does to the outside, held against what it reports.

A frame leaves four traces: the tokens handed to the dispatcher, the transitions, the
reports of failures and the new state.  Here the first three are tied to each other and to
the bindings that were judged:

* `Dispatcher.traced` keeps a log of what a dispatcher is handed and what it answers;
* `Slot` lists all that one edge can leave behind on one frame;
* `Accounted` says how the log, the transitions and the reports of a frame belong together;
* `accounted_evaluateBindings` — every frame is accounted for.

The order of the reports is that of the evaluation: bindings in order, start before stop,
and of one edge the failed condition before the refused token.
-/

namespace Grimace

variable {π σ : Type}

/-! ## The log of a dispatcher -/

/-- A token that was handed to a dispatcher, and what that answered. -/
structure Dispatch where
  token : String
  answer : Except DispatchError Unit

namespace Dispatch

/-- What the dispatcher said, if it refused the token. -/
def words? (c : Dispatch) : Option String :=
  match c.answer with
  | .ok () => none
  | .error e => some e.message

/-- A token and its refusal as a transition shows them. -/
def shown (c : Dispatch) : Option String × Option String := (some c.token, c.words?)

end Dispatch

/-- The dispatcher with a log of all that it is handed, oldest first. -/
def Dispatcher.traced (d : Dispatcher σ) : Dispatcher (σ × List Dispatch) where
  dispatch s token :=
    let (answer, next) := d.dispatch s.1 token
    (answer, next, s.2 ++ [⟨token, answer⟩])

/-! ## What has to be accounted for -/

/-- The reasons of the changes that fire an action. -/
def Reason.fires : Reason → Bool
  | simpleStart | simpleStop | edgeActivated => true
  | _ => false

/-- The token of the action at an edge. -/
def Binding.token : Binding π → Edge → String
  | simple r, edge => r.action edge
  | advanced start _, .start => start.action
  | advanced _ stop, .stop => stop.action

/-- The order of transitions within a frame: by binding, and start before stop. -/
def Transition.Before (t u : Transition) : Prop :=
  t.binding < u.binding ∨ t.binding = u.binding ∧ t.edge = .start ∧ u.edge = .stop

/-- The transition is one of an edge of the binding at an index. -/
def Transition.isAt (i : Nat) (edge : Edge) (t : Transition) : Bool :=
  t.binding == i && t.edge == edge

/-- The failure of a rule's condition on a frame, if it has a predicate that fails. -/
def EdgeRule.failure? (lang : RuleLanguage π) (scores : Scores) (r : EdgeRule π) :
    Option EvalError :=
  match r.predicate.map fun p => lang.evaluate p scores with
  | some (.error e) => some e
  | _ => none

/-- What has to be reported of a rule whose condition failed on a frame. -/
def EdgeRule.failedCondition (lang : RuleLanguage π) (m : Moment) (i : Nat) (edge : Edge)
    (r : EdgeRule π) : List Diagnostic :=
  ((r.failure? lang m.scores).map fun e =>
    ⟨.evalFailed, edgeSubject i edge, s!"'{r.logic}': {e.message}"⟩).toList

/-- What has to be reported of an edge whose condition failed on a frame. -/
def Binding.failedCondition (lang : RuleLanguage π) (m : Moment) (i : Nat) :
    Edge → Binding π → List Diagnostic
  | _, simple _ => []
  | .start, advanced start _ => start.failedCondition lang m i .start
  | .stop, advanced _ stop => stop.failedCondition lang m i .stop

/-- What has to be reported of an edge whose transition shows a refusal. -/
def refusals (transitions : List Transition) (i : Nat) (edge : Edge) : List Diagnostic :=
  (transitions.filter (Transition.isAt i edge)).filterMap fun t =>
    t.error.map fun words => ⟨.dispatchFailed, edgeSubject i edge, words⟩

/-- What has to be reported of bindings, the first of which has an index. -/
def failures (lang : RuleLanguage π) (m : Moment) (transitions : List Transition) (index : Nat)
    (bs : List (Binding π)) : List Diagnostic :=
  (bs.zipIdx index).flatMap fun (b, i) =>
    [Edge.start, Edge.stop].flatMap fun edge =>
      b.failedCondition lang m i edge ++ refusals transitions i edge

/-- The tokens handed to a dispatcher, the transitions and the reports belong together, for
bindings the first of which has an index. -/
structure Accounted (lang : RuleLanguage π) (m : Moment) (index : Nat) (bs : List (Binding π))
    (calls : List Dispatch) (transitions : List Transition) (reports : List Diagnostic) :
    Prop where
  /-- The transitions that show an action show what was dispatched, in order, each with the
  words of its refusal. -/
  dispatched : calls.map Dispatch.shown =
    (transitions.filter Transition.fired).map fun t => (t.action, t.error)
  ordered : transitions.Pairwise Transition.Before
  /-- A simple binding has one transition at most. -/
  simple : ∀ i r, bs[i]? = some (.simple r) →
    (transitions.filter fun t => t.binding == index + i).length ≤ 1
  /-- Each transition is one of an edge of a binding, at the time of the frame.  It shows an
  action exactly for the reasons that fire, and then the token of the edge. -/
  placed : ∀ t ∈ transitions, t.frameMs = m.now ∧ index ≤ t.binding ∧
    ∃ b, bs[t.binding - index]? = some b ∧
      t.action = if t.reason.fires then some (b.token t.edge) else none
  /-- Only what was dispatched can have been refused. -/
  unfired : ∀ t ∈ transitions, t.action = none → t.error = none
  reported : reports = failures lang m transitions index bs

/-! ## One edge -/

/-- All that one edge can leave behind on one frame, where `token` is the token of its
action and `prior` what its condition had reported. -/
inductive Slot (m : Moment) (i : Nat) (edge : Edge) (token : String) (prior : List Diagnostic) :
    List Dispatch → List Transition → List Diagnostic → Prop where
  | silent : Slot m i edge token prior [] [] prior
  | noted (reason : Reason) (h : reason.fires = false) :
    Slot m i edge token prior [] [⟨m.now, i, edge, reason, none, none⟩] prior
  | fired (reason : Reason) (h : reason.fires = true) (answer : Except DispatchError Unit) :
    Slot m i edge token prior [⟨token, answer⟩]
      [⟨m.now, i, edge, reason, some token, (Dispatch.mk token answer).words?⟩]
      (prior ++ ((Dispatch.mk token answer).words?.map fun words =>
        ⟨.dispatchFailed, edgeSubject i edge, words⟩).toList)

section

variable (lang : RuleLanguage π) (d : Dispatcher σ) (m : Moment) (i : Nat)

theorem slot_fire (edge : Edge) (token : String) (prior : List Diagnostic) (reason : Reason)
    (h : reason.fires = true) (s : σ × List Dispatch) :
    let done := fire d.traced s ⟨m.now, i, edge, reason, none, none⟩ token
    ∃ calls, done.actuator.2 = s.2 ++ calls ∧
      Slot m i edge token prior calls done.transitions (prior ++ done.reports) := by
  refine ⟨[⟨token, (d.dispatch s.1 token).1⟩], ?_⟩
  have hslot : Slot m i edge token prior [⟨token, (d.dispatch s.1 token).1⟩] _ _ :=
    .fired reason h (d.dispatch s.1 token).1
  unfold fire Dispatcher.traced
  cases hd : d.dispatch s.1 token with
  | mk answer next =>
      cases answer with
      | ok u => simpa [hd, Dispatch.words?] using hslot
      | error e => simpa [hd, Dispatch.words?] using hslot

theorem EdgeRule.slot_turn (edge : Edge) (r : EdgeRule π) (s : σ × List Dispatch) :
    let turn := r.turn lang d.traced m i edge s
    ∃ calls, turn.actuator.2 = s.2 ++ calls ∧
      Slot m i edge r.action (r.reports lang m i edge) calls turn.transitions turn.reports := by
  unfold EdgeRule.turn
  obtain ⟨step, next⟩ := r.step (r.holds lang m.scores) m.now
  cases step with
  | held => exact ⟨[], by simp [EdgeStep.reason?], .silent⟩
  | opened => exact ⟨[], by simp [EdgeStep.reason?], .noted .edgePending rfl⟩
  | released => exact ⟨[], by simp [EdgeStep.reason?], .noted .edgeReleased rfl⟩
  | fired => exact slot_fire d m i edge r.action _ .edgeActivated rfl s

theorem SimpleRule.slot_turn (r : SimpleRule) (s : σ × List Dispatch) :
    let turn := r.turn d.traced m i s
    ∃ edge calls, turn.actuator.2 = s.2 ++ calls ∧
      Slot m i edge (r.action edge) [] calls turn.transitions turn.reports := by
  unfold SimpleRule.turn
  obtain ⟨edge?, next⟩ := r.step (m.scores.get? r.blendshape)
  cases edge? with
  | none => exact ⟨.start, [], by simp, .silent⟩
  | some edge =>
      have hfires : (SimpleRule.reason edge).fires = true := by cases edge <;> rfl
      exact ⟨edge, slot_fire d m i edge (r.action edge) [] _ hfires s⟩

end

namespace Slot

variable {m : Moment} {i : Nat} {edge : Edge} {token : String} {prior reports : List Diagnostic}
  {calls : List Dispatch} {ts : List Transition}

theorem dispatched (h : Slot m i edge token prior calls ts reports) :
    calls.map Dispatch.shown =
      (ts.filter Transition.fired).map fun t => (t.action, t.error) := by
  cases h with
  | silent => rfl
  | noted reason h => rfl
  | fired reason h answer => rfl

theorem length_le (h : Slot m i edge token prior calls ts reports) : ts.length ≤ 1 := by
  cases h <;> simp

theorem pairwise (h : Slot m i edge token prior calls ts reports)
    (R : Transition → Transition → Prop) : ts.Pairwise R := by
  cases h <;> simp

theorem placed (h : Slot m i edge token prior calls ts reports) :
    ∀ t ∈ ts, t.frameMs = m.now ∧ t.binding = i ∧ t.edge = edge ∧
      t.action = if t.reason.fires then some token else none := by
  cases h with
  | silent => simp
  | noted reason h => simp [h]
  | fired reason h answer => simp [h]

/-- Whatever an edge of a binding leaves behind is placed at the binding. -/
theorem placed_at (h : Slot m i edge token prior calls ts reports) {b : Binding π}
    (htoken : b.token edge = token) : ∀ t ∈ ts, t.frameMs = m.now ∧ i ≤ t.binding ∧
      ∃ c, [b][t.binding - i]? = some c ∧
        t.action = if t.reason.fires then some (c.token t.edge) else none := by
  intro t ht
  obtain ⟨hnow, hbinding, hedge, haction⟩ := h.placed t ht
  refine ⟨hnow, by omega, b, by simp [hbinding], ?_⟩
  rw [haction, hedge, htoken]

theorem unfired (h : Slot m i edge token prior calls ts reports) :
    ∀ t ∈ ts, t.action = none → t.error = none := by
  cases h <;> simp

theorem reported (h : Slot m i edge token prior calls ts reports) :
    reports = prior ++ refusals ts i edge := by
  cases h with
  | silent => simp [refusals]
  | noted reason h => simp [refusals, Transition.isAt]
  | fired reason h answer =>
      cases hw : (Dispatch.mk token answer).words? <;>
        simp [refusals, Transition.isAt]

/-- An edge leaves nothing behind that looks like the other edge's. -/
theorem refusals_other (h : Slot m i edge token prior calls ts reports) (other : Edge)
    (hne : edge ≠ other) : refusals ts i other = [] := by
  cases h <;> simp [refusals, Transition.isAt, hne]

end Slot

/-! ## One binding -/

section

variable {lang : RuleLanguage π} {m : Moment} {i : Nat}

theorem refusals_append (ts us : List Transition) (i : Nat) (edge : Edge) :
    refusals (ts ++ us) i edge = refusals ts i edge ++ refusals us i edge := by
  simp [refusals]

theorem refusals_eq_nil {ts : List Transition} {i : Nat} {edge : Edge}
    (h : ∀ t ∈ ts, t.binding ≠ i) : refusals ts i edge = [] := by
  have hnone : ts.filter (Transition.isAt i edge) = [] := by
    refine List.filter_eq_nil_iff.2 fun t ht => ?_
    simp [Transition.isAt, h t ht]
  rw [refusals, hnone, List.filterMap_nil]

theorem EdgeRule.reports_eq (r : EdgeRule π) (edge : Edge) :
    r.reports lang m i edge = r.failedCondition lang m i edge := by
  unfold EdgeRule.reports EdgeRule.failedCondition EdgeRule.failure?
  cases r.predicate with
  | none => rfl
  | some p =>
      dsimp only [Option.map_some]
      cases lang.evaluate p m.scores <;> rfl

theorem failures_cons (ts : List Transition) (b : Binding π) (bs : List (Binding π)) :
    failures lang m ts i (b :: bs) =
      (b.failedCondition lang m i .start ++ refusals ts i .start ++
        (b.failedCondition lang m i .stop ++ refusals ts i .stop)) ++
      failures lang m ts (i + 1) bs := by
  simp [failures]

theorem failures_nil (ts : List Transition) : failures lang m ts i ([] : List (Binding π)) = [] :=
  rfl

/-- A simple binding on one frame. -/
theorem accounted_simple {r : SimpleRule} {edge : Edge} {calls : List Dispatch}
    {ts : List Transition} {reports : List Diagnostic}
    (h : Slot m i edge (r.action edge) [] calls ts reports) :
    Accounted lang m i [.simple r] calls ts reports where
  dispatched := h.dispatched
  ordered := h.pairwise _
  simple _ _ _ := Nat.le_trans (List.length_filter_le _ _) h.length_le
  placed := h.placed_at rfl
  unfired := h.unfired
  reported := by
    rw [failures_cons, failures_nil, h.reported]
    cases edge with
    | start => simp [Binding.failedCondition, h.refusals_other .stop (by decide)]
    | stop => simp [Binding.failedCondition, h.refusals_other .start (by decide)]

/-- The edges of an advanced binding on one frame, the start before the stop. -/
theorem accounted_advanced {start stop : EdgeRule π} {calls calls' : List Dispatch}
    {ts ts' : List Transition} {reports reports' : List Diagnostic}
    (h : Slot m i .start start.action (start.reports lang m i .start) calls ts reports)
    (h' : Slot m i .stop stop.action (stop.reports lang m i .stop) calls' ts' reports') :
    Accounted lang m i [.advanced start stop] (calls ++ calls') (ts ++ ts')
      (reports ++ reports') where
  dispatched := by simp [h.dispatched, h'.dispatched]
  ordered := by
    refine List.pairwise_append.2 ⟨h.pairwise _, h'.pairwise _, fun t ht u hu => ?_⟩
    obtain ⟨-, ht, htedge, -⟩ := h.placed t ht
    obtain ⟨-, hu, huedge, -⟩ := h'.placed u hu
    exact .inr ⟨ht.trans hu.symm, htedge, huedge⟩
  simple j r hj := by
    cases j <;> simp at hj
  placed t ht := by
    rcases List.mem_append.1 ht with ht | ht
    · exact h.placed_at rfl t ht
    · exact h'.placed_at rfl t ht
  unfired t ht := by
    rcases List.mem_append.1 ht with ht | ht
    · exact h.unfired t ht
    · exact h'.unfired t ht
  reported := by
    rw [failures_cons, failures_nil, h.reported, h'.reported, refusals_append, refusals_append,
      h.refusals_other .stop (by decide),
      h'.refusals_other .start (by decide), EdgeRule.reports_eq, EdgeRule.reports_eq]
    simp [Binding.failedCondition]

/-! ## Bindings in order -/

theorem accounted_nil : Accounted lang m i ([] : List (Binding π)) [] [] [] where
  dispatched := rfl
  ordered := .nil
  simple j r hj := by simp at hj
  placed t ht := by simp at ht
  unfired t ht := by simp at ht
  reported := rfl

/-- What stands behind a place is reported from the transitions behind it alone. -/
theorem failures_append {ts us : List Transition} {bs : List (Binding π)}
    (h : ∀ t ∈ ts, t.binding < i) : failures lang m (ts ++ us) i bs = failures lang m us i bs := by
  induction bs generalizing i with
  | nil => rfl
  | cons b bs ih =>
      have hne : ∀ t ∈ ts, t.binding ≠ i := fun t ht => Nat.ne_of_lt (h t ht)
      rw [failures_cons, failures_cons, ih fun t ht => Nat.lt_succ_of_lt (h t ht)]
      simp only [refusals_append, refusals_eq_nil hne, List.nil_append]

namespace Accounted

variable {b : Binding π} {bs : List (Binding π)} {calls calls' : List Dispatch}
  {ts ts' : List Transition} {reports reports' : List Diagnostic}

/-- No edge has two transitions. -/
theorem length_filter_isAt_le (h : Accounted lang m i bs calls ts reports) (j : Nat)
    (edge : Edge) : (ts.filter (Transition.isAt j edge)).length ≤ 1 := by
  have hordered := h.ordered.filter (Transition.isAt j edge)
  have hat : ∀ t ∈ ts.filter (Transition.isAt j edge), t.binding = j ∧ t.edge = edge := by
    intro t ht
    simpa [Transition.isAt] using (List.mem_filter.1 ht).2
  match hl : ts.filter (Transition.isAt j edge) with
  | [] => exact Nat.zero_le 1
  | [_] => exact Nat.le_refl 1
  | t :: u :: _ =>
      rw [hl] at hordered hat
      obtain ⟨ht, htedge⟩ := hat t (by simp)
      obtain ⟨hu, huedge⟩ := hat u (by simp)
      rcases (List.pairwise_cons.1 hordered).1 u (by simp) with hlt | ⟨-, hstart, hstop⟩
      · omega
      · rw [htedge.symm.trans hstart] at huedge
        rw [huedge] at hstop
        contradiction

theorem le_binding (h : Accounted lang m i bs calls ts reports) : ∀ t ∈ ts, i ≤ t.binding :=
  fun t ht => (h.placed t ht).2.1

theorem binding_eq (h : Accounted lang m i [b] calls ts reports) : ∀ t ∈ ts, t.binding = i := by
  intro t ht
  obtain ⟨-, hle, c, hc, -⟩ := h.placed t ht
  have hlt := (List.getElem?_eq_some_iff.1 hc).1
  rw [List.length_singleton] at hlt
  omega

/-- A binding and those behind it. -/
theorem cons (h : Accounted lang m i [b] calls ts reports)
    (h' : Accounted lang m (i + 1) bs calls' ts' reports') :
    Accounted lang m i (b :: bs) (calls ++ calls') (ts ++ ts') (reports ++ reports') where
  dispatched := by simp [h.dispatched, h'.dispatched]
  ordered := by
    refine List.pairwise_append.2 ⟨h.ordered, h'.ordered, fun t ht u hu => .inl ?_⟩
    have hlt := h'.le_binding u hu
    rw [h.binding_eq t ht]
    omega
  simple j r hj := by
    rw [List.filter_append, List.length_append]
    cases j with
    | zero =>
        have hnone : ts'.filter (fun t => t.binding == i + 0) = [] := by
          refine List.filter_eq_nil_iff.2 fun t ht => ?_
          have hlt := h'.le_binding t ht
          simp only [beq_iff_eq]
          omega
        have hone := h.simple 0 r (by simpa using hj)
        rw [hnone, List.length_nil]
        omega
    | succ j =>
        have hnone : ts.filter (fun t => t.binding == i + (j + 1)) = [] := by
          refine List.filter_eq_nil_iff.2 fun t ht => ?_
          simp only [h.binding_eq t ht, beq_iff_eq]
          omega
        have hone := h'.simple j r (by simpa using hj)
        rw [show i + 1 + j = i + (j + 1) by omega] at hone
        rw [hnone, List.length_nil]
        omega
  placed t ht := by
    rcases List.mem_append.1 ht with ht | ht
    · obtain ⟨hnow, hle, c, hc, haction⟩ := h.placed t ht
      have heq := h.binding_eq t ht
      refine ⟨hnow, hle, c, ?_, haction⟩
      simpa [heq] using hc
    · obtain ⟨hnow, hle, c, hc, haction⟩ := h'.placed t ht
      refine ⟨hnow, by omega, c, ?_, haction⟩
      rw [show t.binding - i = t.binding - (i + 1) + 1 by omega, List.getElem?_cons_succ]
      exact hc
  unfired t ht := by
    rcases List.mem_append.1 ht with ht | ht
    · exact h.unfired t ht
    · exact h'.unfired t ht
  reported := by
    -- Neither part's transitions are at the other part's places, so each reports for itself.
    have hlt : ∀ t ∈ ts, t.binding < i + 1 := fun t ht => by
      rw [h.binding_eq t ht]
      omega
    have hne : ∀ t ∈ ts', t.binding ≠ i := fun t ht => by
      have hle := h'.le_binding t ht
      omega
    rw [failures_cons, failures_append hlt, ← h'.reported, h.reported, failures_cons, failures_nil]
    simp only [refusals_append, refusals_eq_nil hne, List.append_nil]

end Accounted

end

section

variable (lang : RuleLanguage π) (d : Dispatcher σ) (m : Moment) (i : Nat)

theorem Binding.accounted_turn (b : Binding π) (s : σ × List Dispatch) :
    let turn := b.turn lang d.traced m i s
    ∃ calls, turn.actuator.2 = s.2 ++ calls ∧
      Accounted lang m i [b] calls turn.transitions turn.reports := by
  cases b with
  | simple r =>
      obtain ⟨edge, calls, hlog, hslot⟩ := r.slot_turn d m i s
      exact ⟨calls, hlog, accounted_simple hslot⟩
  | advanced start stop =>
      obtain ⟨calls, hlog, hslot⟩ := start.slot_turn lang d m i .start s
      obtain ⟨calls', hlog', hslot'⟩ :=
        stop.slot_turn lang d m i .stop (start.turn lang d.traced m i .start s).actuator
      refine ⟨calls ++ calls', ?_, accounted_advanced hslot hslot'⟩
      rw [← List.append_assoc, ← hlog]
      exact hlog'

/-- **Every frame is accounted for**: the log of the dispatcher has grown by what the
transitions show, and what was reported is what the bindings and the transitions call for. -/
theorem accounted_evaluateBindings (bs : List (Binding π)) (s : σ × List Dispatch) :
    let turn := evaluateBindings lang d.traced m i s bs
    ∃ calls, turn.actuator.2 = s.2 ++ calls ∧
      Accounted lang m i bs calls turn.transitions turn.reports := by
  induction bs generalizing i s with
  | nil => exact ⟨[], (List.append_nil _).symm, accounted_nil⟩
  | cons b bs ih =>
      obtain ⟨calls, hlog, hb⟩ := b.accounted_turn lang d m i s
      obtain ⟨calls', hlog', hbs⟩ := ih (i + 1) (b.turn lang d.traced m i s).actuator
      refine ⟨calls ++ calls', ?_, hb.cons hbs⟩
      rw [← List.append_assoc, ← hlog]
      exact hlog'

end

end Grimace
