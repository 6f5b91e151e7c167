import Grimace.Proofs.Session.Dispatch

/-!
# Grimace.Proofs.Frame.Independence

Bindings that are evaluated together, held against each of them evaluated alone.

A dispatcher is *stateless* if its answer depends on the token alone.  With such a dispatcher
nothing is handed on from one binding to the next, nor from one edge to the other:

* `Dispatcher.follows_of_natural` — what was handed to a stateless dispatcher before a turn is
  seen in nothing but its log;
* `Binding.turn_placed` — the index of a binding is seen in nothing but its transitions and
  reports;
* `evaluateBindings_apart` — a frame for several bindings is put together from the frames for
  each of them alone;
* `Binding.turn_apart` — so is a frame for the two edges of an advanced binding.
-/

namespace Grimace

variable {π σ τ : Type}

/-! ## Stateless dispatchers -/

/-- What the dispatcher answers depends on the token alone. -/
def Dispatcher.Answers (d : Dispatcher σ) (answer : String → Except DispatchError Unit) : Prop :=
  ∀ s token, (d.dispatch s token).1 = answer token

/-- The dispatcher that gives fixed answers and has no state. -/
def Dispatcher.fixed (answer : String → Except DispatchError Unit) : Dispatcher Unit where
  dispatch s token := (answer token, s)

/-- A turn that differs from another one in what was handed to the dispatcher before it. -/
structure Turn.Follows {α : Type} (log : List Dispatch) (t t₀ : Turn (σ × List Dispatch) α) :
    Prop where
  value : t.value = t₀.value
  transitions : t.transitions = t₀.transitions
  reports : t.reports = t₀.reports
  calls : t.actuator.2 = log ++ t₀.actuator.2

namespace Dispatcher

theorem Answers.maps_fixed {d : Dispatcher σ} {answer : String → Except DispatchError Unit}
    (h : d.Answers answer) :
    Maps (fun s : σ × List Dispatch => ((), s.2)) d.traced (fixed answer).traced := by
  intro s token
  simp [traced, fixed, h s.1 token]

/-- What stands in the log already makes no difference. -/
theorem maps_log (d : Dispatcher σ) (log : List Dispatch) :
    Maps (fun s : σ × List Dispatch => (s.1, log ++ s.2)) d.traced d.traced := by
  intro s token
  simp [traced]

/-- Whatever is done with a stateless dispatcher, without looking into its state, does not
depend on what it was handed before. -/
theorem follows_of_natural {α : Type} {d : Dispatcher σ}
    {answer : String → Except DispatchError Unit} (h : d.Answers answer)
    (run : (τ : Type) → Dispatcher τ → τ → Turn τ α)
    (hrun : ∀ (τ υ : Type) (f : τ → υ) (d : Dispatcher τ) (e : Dispatcher υ), Maps f d e →
      ∀ s, run υ e (f s) = (run τ d s).mapActuator f)
    (s : σ × List Dispatch) (s₀ : σ) :
    Turn.Follows s.2 (run _ d.traced s) (run _ d.traced (s₀, [])) := by
  have hs := hrun _ _ _ _ _ h.maps_fixed s
  have hs₀ := hrun _ _ _ _ _ h.maps_fixed (s₀, [])
  have hlog := hrun _ _ _ _ _ ((fixed answer).maps_log s.2) ((), [])
  rw [List.append_nil] at hlog
  -- Both turns are that of the dispatcher with fixed answers, from two logs.
  have heq := hs.symm.trans (hlog.trans (congrArg (Turn.mapActuator _) hs₀))
  have hvalue := congrArg Turn.value heq
  have htransitions := congrArg Turn.transitions heq
  have hreports := congrArg Turn.reports heq
  exact ⟨hvalue, htransitions, hreports, congrArg (fun t => t.actuator.2) heq⟩

end Dispatcher

/-! ## Places -/

/-- The transition as that of the binding at an index. -/
def Transition.placedAt (i : Nat) (t : Transition) : Transition := { t with binding := i }

/-- A report on an edge of the first binding, as one on the same edge of the binding at an
index. -/
def Diagnostic.placedAt (i : Nat) (r : Diagnostic) : Diagnostic :=
  match [Edge.start, .stop].find? fun edge => r.subject == edgeSubject 0 edge with
  | some edge => { r with subject := edgeSubject i edge }
  | none => r

theorem Diagnostic.placedAt_edgeSubject (i : Nat) (code : Reason) (edge : Edge) (detail : String) :
    (Diagnostic.mk code (edgeSubject 0 edge) detail).placedAt i =
      ⟨code, edgeSubject i edge, detail⟩ := by
  have hne : (edgeSubject 0 .stop == edgeSubject 0 .start) = false := by decide
  cases edge <;> simp [Diagnostic.placedAt, hne]

/-- The turn of the first binding, as that of the binding at an index. -/
def Turn.placedAt {α : Type} (i : Nat) (t : Turn σ α) : Turn σ α :=
  { t with
    transitions := t.transitions.map (Transition.placedAt i)
    reports := t.reports.map (Diagnostic.placedAt i) }

section

variable (lang : RuleLanguage π) (d : Dispatcher σ) (m : Moment) (i : Nat)

theorem fire_placed (s : σ) (edge : Edge) (reason : Reason) (token : String) :
    fire d s ⟨m.now, i, edge, reason, none, none⟩ token =
      (fire d s ⟨m.now, 0, edge, reason, none, none⟩ token).placedAt i := by
  unfold fire
  cases d.dispatch s token with
  | mk answer next =>
      cases answer <;>
        simp [Turn.placedAt, Transition.placedAt, Diagnostic.placedAt_edgeSubject]

theorem EdgeRule.reports_placed (edge : Edge) (r : EdgeRule π) :
    r.reports lang m i edge = (r.reports lang m 0 edge).map (Diagnostic.placedAt i) := by
  unfold EdgeRule.reports
  split
  · rfl
  · split
    · rfl
    · simp [Diagnostic.placedAt_edgeSubject]

theorem EdgeRule.turn_placed (edge : Edge) (r : EdgeRule π) (s : σ) :
    r.turn lang d m i edge s = (r.turn lang d m 0 edge s).placedAt i := by
  unfold EdgeRule.turn
  rw [r.reports_placed lang m i edge]
  obtain ⟨step, next⟩ := r.step (r.holds lang m.scores) m.now
  cases step with
  | fired =>
      simp [EdgeStep.reason?, fire_placed d m i s edge .edgeActivated r.action, Turn.placedAt]
  | _ => simp [EdgeStep.reason?, Turn.placedAt, Transition.placedAt]

theorem SimpleRule.turn_placed (r : SimpleRule) (s : σ) :
    r.turn d m i s = (r.turn d m 0 s).placedAt i := by
  unfold SimpleRule.turn
  obtain ⟨edge?, next⟩ := r.step (m.scores.get? r.blendshape)
  cases edge? with
  | none => rfl
  | some edge =>
      simp [fire_placed d m i s edge (SimpleRule.reason edge) (r.action edge), Turn.placedAt]

/-- A binding does at an index what it does at the first one. -/
theorem Binding.turn_placed (b : Binding π) (s : σ) :
    b.turn lang d m i s = (b.turn lang d m 0 s).placedAt i := by
  cases b with
  | simple r => simp [Binding.turn, r.turn_placed d m i s, Turn.placedAt]
  | advanced start stop =>
      simp [Binding.turn, start.turn_placed lang d m i .start s, Turn.placedAt,
        stop.turn_placed lang d m i .stop (start.turn lang d m 0 .start s).actuator]

end

/-! ## Bindings in order -/

section

variable (lang : RuleLanguage π) (d : Dispatcher σ) (m : Moment) (s₀ : σ)

/-- One frame for a binding alone, with a log of what it hands to the dispatcher. -/
def Binding.alone (b : Binding π) : Turn (σ × List Dispatch) (List (Binding π)) :=
  evaluateBindings lang d.traced m 0 (s₀, []) [b]

/-- One frame for an edge alone, with a log of what it hands to the dispatcher. -/
def EdgeRule.alone (i : Nat) (edge : Edge) (r : EdgeRule π) :
    Turn (σ × List Dispatch) (EdgeRule π) :=
  r.turn lang d.traced m i edge (s₀, [])

variable {d} {answer : String → Except DispatchError Unit} (h : d.Answers answer)

include h

/-- **One frame** for several bindings: each becomes what it becomes alone, and transitions,
reports and dispatches are those of each alone, in order, but for the index. -/
theorem evaluateBindings_apart (bs : List (Binding π)) (i : Nat) (s : σ × List Dispatch) :
    let turn := evaluateBindings lang d.traced m i s bs
    turn.value = bs.flatMap (fun b => (b.alone lang d m s₀).value) ∧
      turn.transitions = ((bs.zipIdx i).flatMap fun (b, j) =>
        (b.alone lang d m s₀).transitions.map (Transition.placedAt j)) ∧
      turn.reports = ((bs.zipIdx i).flatMap fun (b, j) =>
        (b.alone lang d m s₀).reports.map (Diagnostic.placedAt j)) ∧
      turn.actuator.2 = s.2 ++ bs.flatMap fun b => (b.alone lang d m s₀).actuator.2 := by
  induction bs generalizing i s with
  | nil => exact ⟨rfl, rfl, rfl, (List.append_nil _).symm⟩
  | cons b bs ih =>
      have hfresh := Dispatcher.follows_of_natural h (fun _ d s => b.turn lang d m 0 s)
        (fun _ _ _ _ _ hmaps s => b.turn_mapActuator m 0 hmaps s) s s₀
      have hplaced := b.turn_placed lang d.traced m i s
      obtain ⟨hvalue, htransitions, hreports, hcalls⟩ :=
        ih (i + 1) (b.turn lang d.traced m i s).actuator
      simp only [evaluateBindings, List.flatMap_cons, List.zipIdx_cons, Binding.alone] at *
      rw [hvalue, htransitions, hreports, hcalls, hplaced]
      simp [Turn.placedAt, hfresh.value, hfresh.transitions, hfresh.reports, hfresh.calls]

/-- **The two edges** of a binding: each becomes and does what it becomes and does without the
other one. -/
theorem Binding.turn_apart (start stop : EdgeRule π) (i : Nat) (s : σ × List Dispatch) :
    let turn := (Binding.advanced start stop).turn lang d.traced m i s
    let a := start.alone lang d m s₀ i .start
    let b := stop.alone lang d m s₀ i .stop
    turn.value = .advanced a.value b.value ∧ turn.transitions = a.transitions ++ b.transitions ∧
      turn.reports = a.reports ++ b.reports ∧
      turn.actuator.2 = s.2 ++ a.actuator.2 ++ b.actuator.2 := by
  have hedge := fun edge (r : EdgeRule π) s =>
    Dispatcher.follows_of_natural h (fun _ d s => r.turn lang d m i edge s)
      (fun _ _ _ _ _ hmaps s => r.turn_mapActuator m i hmaps edge s) s s₀
  have hstart := hedge .start start s
  have hstop := hedge .stop stop (start.turn lang d.traced m i .start s).actuator
  simp only [Binding.turn, EdgeRule.alone]
  rw [hstart.value, hstart.transitions, hstart.reports, hstop.value, hstop.transitions,
    hstop.reports, hstop.calls, hstart.calls]
  exact ⟨rfl, rfl, rfl, rfl⟩

end

end Grimace
