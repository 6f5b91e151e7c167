import Grimace.Frame.Report

/-!
# Grimace.Proofs.Frame.Replay

The transitions of a frame, replayed on where the bindings stood.

A transition tells enough of a change to repeat it on the view that is shown of a binding.  A
list of transitions *tells* how one view becomes another if replaying them in order leads there
and each of them changes something; so nothing is left out, and nothing is said in vain.

* `Phase.leads_step` — all that one step can do to a phase, whatever its fields hold, and
  `Phase.Leads.coherent`, that it opens no window in an activated phase;
* `EdgeRule.tells_turn`, `Binding.tells_turn` — what a frame reports of one edge and of one
  binding;
* `tells_evaluateBindings`, `ProfileSet.tells_evaluateReading` — what it reports of all
  bindings, where each transition is replayed at the place it names.
-/

namespace Grimace

variable {π σ : Type}

/-! ## Replaying transitions -/

/-- Where an edge stands after a change. -/
def EdgeRuntime.replay (t : Transition) (v : EdgeRuntime) : EdgeRuntime :=
  match t.reason with
  | .edgePending => { v with state := .pending, pendingSinceMs := some t.frameMs }
  | .edgeActivated => { v with state := .activated, pendingSinceMs := none }
  | .edgeReleased => { v with state := .idle, pendingSinceMs := none }
  | _ => v

/-- Where a binding stands after a change. -/
def Runtime.replay (t : Transition) : Runtime → Runtime
  | .simple activated =>
    match t.reason with
    | .simpleStart => .simple true
    | .simpleStop => .simple false
    | _ => .simple activated
  | .advanced start stop =>
    match t.edge with
    | .start => .advanced (start.replay t) stop
    | .stop => .advanced start (stop.replay t)

/-- Where the bindings of a profile stand after a change of one of them. -/
def replay (t : Transition) (view : List Runtime) : List Runtime :=
  view.modify t.binding (Runtime.replay t)

section

variable {α β : Type}

/-- Replayed in order, the transitions lead from one view to another, and each of them changes
something. -/
def Tells (apply : Transition → α → α) : α → List Transition → α → Prop
  | v, [], w => v = w
  | v, t :: ts, w => apply t v ≠ v ∧ Tells apply (apply t v) ts w

namespace Tells

variable {apply : Transition → α → α} {u v w : α} {ts us : List Transition}

theorem append (h : Tells apply u ts v) (h' : Tells apply v us w) : Tells apply u (ts ++ us) w := by
  induction ts generalizing u with
  | nil =>
      obtain rfl : u = v := h
      exact h'
  | cons t ts ih => exact ⟨h.1, ih h.2⟩

theorem foldl_eq (h : Tells apply v ts w) : ts.foldl (fun v t => apply t v) v = w := by
  induction ts generalizing v with
  | nil => exact h
  | cons t ts ih => exact ih h.2

/-- What is told of a part is told of the whole that it is a part of. -/
theorem lift {apply' : Transition → β → β} {g : α → β} (hg : Function.Injective g)
    (h : ∀ t ∈ ts, ∀ v, apply' t (g v) = g (apply t v)) (htells : Tells apply v ts w) :
    Tells apply' (g v) ts (g w) := by
  induction ts generalizing v with
  | nil => exact congrArg g htells
  | cons t ts ih =>
      obtain ⟨ht, hts⟩ := List.forall_mem_cons.1 h
      refine ⟨?_, ?_⟩
      · rw [ht]
        exact hg.ne htells.1
      · rw [ht]
        exact ih hts htells.2

end Tells

end

/-! ## Edges -/

/-- What one step can do to a phase. -/
inductive Phase.Leads (now : Float) (p : Phase) : EdgeStep → Phase → Prop where
  | held : Leads now p .held p
  | opened (h : p.state = .idle) : Leads now p .opened (.pending now)
  | fired (h : p.state ≠ .activated) : Leads now p .fired .activated
  | released (h : p.state ≠ .idle) : Leads now p .released .idle

theorem Phase.leads_step (debounceMs : UInt64) (holds : Bool) (now : Float) (p : Phase) :
    p.Leads now (p.step debounceMs holds now).1 (p.step debounceMs holds now).2 := by
  unfold Phase.step
  split
  · by_cases hidle : p.state = .idle
    · rw [if_pos hidle, ← Phase.state_eq_idle_iff.1 hidle]
      exact .held
    · rw [if_neg hidle]
      exact .released hidle
  · split
    · exact .held
    · next hactivated =>
      have hfires : p.state ≠ .activated := mt Phase.state_eq_activated_iff.1 hactivated
      split
      · exact .fired hfires
      · cases hsince : p.pendingSince? with
        | none =>
            -- Neither activated nor pending, so the window opens on a phase at rest.
            obtain ⟨isActivated, pendingSince?⟩ := p
            obtain rfl : isActivated = false := Bool.eq_false_iff.2 hactivated
            obtain rfl : pendingSince? = none := hsince
            exact .opened rfl
        | some since =>
            dsimp only
            split
            · exact .fired hfires
            · exact .held

/-- A window is open exactly while the phase is shown as pending. -/
def Phase.Coherent (p : Phase) : Prop := p.pendingSince?.isSome = true ↔ p.state = .pending

/-- Of all that the two fields can hold, three phases are coherent. -/
theorem Phase.coherent_iff {p : Phase} :
    p.Coherent ↔ p = .idle ∨ (∃ since, p = .pending since) ∨ p = .activated := by
  obtain ⟨isActivated, pendingSince?⟩ := p
  cases isActivated <;> cases pendingSince? <;>
    simp [Coherent, state, idle, pending, activated]

/-- No step opens a window in an activated phase, or leaves one open. -/
theorem Phase.Leads.coherent {now : Float} {p q : Phase} {step : EdgeStep}
    (h : p.Leads now step q) (hp : p.Coherent) : q.Coherent := by
  cases h with
  | held => exact hp
  | opened => exact coherent_iff.2 (.inr (.inl ⟨now, rfl⟩))
  | fired => exact coherent_iff.2 (.inr (.inr rfl))
  | released => exact coherent_iff.2 (.inl rfl)

/-- A token and what a dispatcher says of it are all that firing adds to a change. -/
theorem fire_transitions (d : Dispatcher σ) (s : σ) (t : Transition) (token : String) :
    ∃ error, (fire d s t token).transitions = [{ t with action := some token, error }] := by
  unfold fire
  cases d.dispatch s token with
  | mk answer next =>
      cases answer with
      | ok u => exact ⟨t.error, rfl⟩
      | error e => exact ⟨_, rfl⟩

section

variable (lang : RuleLanguage π) (d : Dispatcher σ) (m : Moment) (i : Nat)

/-- What is reported of an edge tells what became of it, and is reported at the edge. -/
theorem EdgeRule.tells_turn (edge : Edge) (r : EdgeRule π) (s : σ) :
    let turn := r.turn lang d m i edge s
    Tells EdgeRuntime.replay r.runtime turn.transitions turn.value.runtime ∧
      ∀ t ∈ turn.transitions, t.binding = i ∧ t.edge = edge := by
  have hleads := r.phase.leads_step r.debounceMs (r.holds lang m.scores) m.now
  unfold EdgeRule.turn EdgeRule.step
  generalize r.phase.step r.debounceMs (r.holds lang m.scores) m.now = step at hleads
  obtain ⟨step, next⟩ := step
  cases hleads with
  | held => exact ⟨rfl, nofun⟩
  | opened h =>
      refine ⟨⟨fun heq => ?_, rfl⟩, by simp [EdgeStep.reason?]⟩
      have hstate := congrArg EdgeRuntime.state heq
      exact absurd (hstate.trans h) nofun
  | fired h =>
      obtain ⟨error, hfire⟩ :=
        fire_transitions d s ⟨m.now, i, edge, .edgeActivated, none, none⟩ r.action
      simp only [EdgeStep.reason?, if_true, hfire]
      refine ⟨⟨fun heq => h ?_, rfl⟩, by simp⟩
      exact (congrArg EdgeRuntime.state heq).symm
  | released h =>
      refine ⟨⟨fun heq => h ?_, rfl⟩, by simp [EdgeStep.reason?]⟩
      exact (congrArg EdgeRuntime.state heq).symm

/-- What becomes of a rule on a frame is one step. -/
theorem EdgeRule.value_turn (r : EdgeRule π) (edge : Edge) (s : σ) :
    (r.turn lang d m i edge s).value = (r.step (r.holds lang m.scores) m.now).2 := by
  unfold EdgeRule.turn
  obtain ⟨step, next⟩ := r.step (r.holds lang m.scores) m.now
  cases step <;> rfl

/-- What one frame can do to a simple binding. -/
theorem SimpleRule.step_cases (score : Option UInt8) (r : SimpleRule) :
    r.step score = (none, r) ∨
      r.activated = false ∧ r.step score = (some .start, { r with activated := true }) ∨
      r.activated = true ∧ r.step score = (some .stop, { r with activated := false }) := by
  cases score with
  | none => exact .inl rfl
  | some n =>
      simp only [SimpleRule.step]
      split
      · next hup => exact .inr (.inl ⟨by simpa using hup.1, rfl⟩)
      · split
        · next hdown => exact .inr (.inr ⟨hdown.1, rfl⟩)
        · exact .inl rfl

/-- What becomes of a simple binding on a frame is up to the score alone. -/
theorem SimpleRule.value_turn (r : SimpleRule) (s : σ) :
    (r.turn d m i s).value = (r.step (m.scores.get? r.blendshape)).2 := by
  unfold SimpleRule.turn
  obtain ⟨edge?, next⟩ := r.step (m.scores.get? r.blendshape)
  cases edge? <;> rfl

/-- What is reported of a simple binding tells what became of it. -/
theorem SimpleRule.tells_turn (r : SimpleRule) (s : σ) :
    let turn := r.turn d m i s
    Tells Runtime.replay (.simple r.activated) turn.transitions (.simple turn.value.activated) ∧
      ∀ t ∈ turn.transitions, t.binding = i := by
  unfold SimpleRule.turn
  rcases r.step_cases (m.scores.get? r.blendshape) with hstep | ⟨hr, hstep⟩ | ⟨hr, hstep⟩
  · rw [hstep]
    exact ⟨rfl, nofun⟩
  · obtain ⟨error, hfire⟩ := fire_transitions d s ⟨m.now, i, .start, .simpleStart, none, none⟩
      (r.action .start)
    rw [hstep]
    simp only [SimpleRule.reason, hfire, hr]
    exact ⟨⟨nofun, rfl⟩, by simp⟩
  · obtain ⟨error, hfire⟩ := fire_transitions d s ⟨m.now, i, .stop, .simpleStop, none, none⟩
      (r.action .stop)
    rw [hstep]
    simp only [SimpleRule.reason, hfire, hr]
    exact ⟨⟨nofun, rfl⟩, by simp⟩

/-- What is reported of a binding tells what became of it, and is reported at the binding. -/
theorem Binding.tells_turn (b : Binding π) (s : σ) :
    let turn := b.turn lang d m i s
    Tells Runtime.replay b.runtime turn.transitions turn.value.runtime ∧
      ∀ t ∈ turn.transitions, t.binding = i := by
  cases b with
  | simple r => exact r.tells_turn d m i s
  | advanced start stop =>
      obtain ⟨hstart, hat⟩ := start.tells_turn lang d m i .start s
      obtain ⟨hstop, hat'⟩ := stop.tells_turn lang d m i .stop
        (start.turn lang d m i .start s).actuator
      refine ⟨.append (v := .advanced (start.turn lang d m i .start s).value.runtime stop.runtime)
        ?_ ?_, fun t ht => ?_⟩
      · refine hstart.lift (g := (Runtime.advanced · stop.runtime)) (fun v w h => by injection h) ?_
        intro t ht v
        simp [Runtime.replay, (hat t ht).2]
      · refine hstop.lift (g := Runtime.advanced (start.turn lang d m i .start s).value.runtime)
          (fun v w h => by injection h) ?_
        intro t ht v
        simp [Runtime.replay, (hat' t ht).2]
      · rcases List.mem_append.1 ht with ht | ht
        · exact (hat t ht).1
        · exact (hat' t ht).1

/-! ## Bindings in order -/

/-- A change at a place is replayed there. -/
theorem replay_append_cons (t : Transition) (before after : List Runtime) (v : Runtime)
    (h : t.binding = before.length) :
    replay t (before ++ v :: after) = before ++ v.replay t :: after := by
  unfold replay
  rw [h, List.modify_eq_take_drop]
  simp

/-- **One frame**: what is reported of bindings tells what became of them, wherever in the
profile they stand. -/
theorem tells_evaluateBindings (bs : List (Binding π)) (before : List Runtime)
    (h : before.length = i) (s : σ) :
    let turn := evaluateBindings lang d m i s bs
    Tells replay (before ++ bs.map Binding.runtime) turn.transitions
      (before ++ turn.value.map Binding.runtime) := by
  induction bs generalizing before i s with
  | nil => exact rfl
  | cons b bs ih =>
      obtain ⟨hb, hat⟩ := b.tells_turn lang d m i s
      have hfirst : Tells replay _ _ _ := hb.lift
        (g := fun v => before ++ v :: bs.map Binding.runtime) (fun v w heq => by simpa using heq)
        fun t ht v => replay_append_cons t before _ v ((hat t ht).trans h.symm)
      have hrest := ih (i + 1) (before ++ [(b.turn lang d m i s).value.runtime]) (by simp [h])
        (b.turn lang d m i s).actuator
      simp only [List.append_assoc, List.singleton_append] at hrest
      exact hfirst.append hrest

end

/-! ## Sets -/

namespace ProfileSet

/-- Where the bindings of a profile stand; without the profile there are none. -/
def view (set : ProfileSet π) (p : Nat) : List Runtime := set.runtime[p]?.getD []

variable (lang : RuleLanguage π) (d : Dispatcher σ)

/-- What a frame reports tells what became of the profile that it was put to, and no other
profile is touched. -/
theorem tells_evaluate (set : ProfileSet π) (s : σ) (p : Nat) (m : Moment) :
    let r := set.evaluate lang d s p m
    Tells replay (set.view p) r.report.transitions (r.set.view p) ∧
      (∀ q, q ≠ p → r.set.view q = set.view q) ∧ r.set.selection = set.selection := by
  unfold evaluate
  cases hp : set.profiles[p]? with
  | none => exact ⟨rfl, fun _ _ => rfl, rfl⟩
  | some profile =>
      refine ⟨?_, fun q hq => ?_, rfl⟩
      · have htells := tells_evaluateBindings lang d m 0 profile.bindings [] rfl s
        simpa [view, runtime, withBindings, hp] using htells
      · simp [view, runtime, withBindings, Ne.symm hq]

theorem tells_evaluateReading (set : ProfileSet π) (s : σ) (p : Nat)
    (f : Except DetectorError DetectorFrame) :
    let r := set.evaluateReading lang d s p f
    Tells replay (set.view p) r.report.transitions (r.set.view p) ∧
      (∀ q, q ≠ p → r.set.view q = set.view q) ∧ r.set.selection = set.selection := by
  intro r
  exact evaluateReading_cases (motive := fun r =>
      Tells replay (set.view p) r.report.transitions (r.set.view p) ∧
        (∀ q, q ≠ p → r.set.view q = set.view q) ∧ r.set.selection = set.selection)
    (set.tells_evaluate lang d s p) (fun _ _ _ => ⟨rfl, fun _ _ => rfl, rfl⟩) f

end ProfileSet

end Grimace
