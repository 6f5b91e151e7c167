import Grimace.Proofs.Session.Invariant
import Grimace.Proofs.Session.Program

/-!
# Grimace.Proofs.Session.InPlace

Commands as programs that change the profiles in place.

A `Command` fails as a whole or succeeds as a whole, because `Session.step` hands out another
session only with a success.  Here each command is written out as the statements that are carried
out one after the other, and shown to come to the same:

* `InPlace.compileRule`, `InPlace.setShape`, `InPlace.edit` and their like — the statements;
* `InPlace.refuses_edit` — an edit of many fields is refused before its first assignment;
* `Command.inPlace_eq` — in place, every command does what it does as a whole.
-/

namespace Grimace

variable {π σ α β : Type}

namespace InPlace

/-! ## Rules -/

/-- Makes the predicate anew from the text: there is none while the text is looked at. -/
def compileRule (lang : RuleLanguage π) (subject : String) : InPlace σ (EdgeRule π) Unit := do
  change fun r => { r with predicate := none }
  let r ← value
  if Text.isBlankText r.logic then pure ()
  else
    match lang.compile r.logic with
    | .ok predicate =>
      forM (lang.reads predicate) fun name =>
        if Blendshape.isKnown name then pure ()
        else report ⟨.unknownBlendshape, subject, s!"'{name}' in '{r.logic}'"⟩
      change fun r => { r with predicate := some predicate }
    | .error e => report ⟨.compileFailed, subject, s!"'{r.logic}': {e.message}"⟩

/-- Gives a rule another text. -/
def setLogic (lang : RuleLanguage π) (subject source : String) : InPlace σ (EdgeRule π) Unit := do
  change fun r => { r with logic := source }
  compileRule lang subject

/-- Edits one edge. -/
def editRule (lang : RuleLanguage π) (subject : String) (e : EdgeEdit) :
    InPlace σ (EdgeRule π) Unit := do
  assign e.debounceMs fun debounceMs r => { r with debounceMs }
  assign e.action fun action r => { r with action }
  match e.logic with
  | some source => setLogic lang subject source
  | none => pure ()

section

variable (lang : RuleLanguage π) (subject : String)

theorem leads_compileRule (r : EdgeRule π) :
    Leads (compileRule lang subject : InPlace σ (EdgeRule π) Unit) r () (r.compiled lang)
      (r.findings lang subject) := by
  unfold compileRule EdgeRule.compiled EdgeRule.findings
  refine (leads_change _ r).next ((leads_value _).next ?_)
  dsimp only
  cases hblank : Text.isBlankText r.logic with
  | true => exact leads_pure () _
  | false =>
      simp only [Bool.false_eq_true, if_false]
      cases hcompile : lang.compile r.logic with
      | error e => exact leads_report _ _
      | ok predicate =>
          have hunknown := leads_forM_report (σ := σ) (lang.reads predicate) Blendshape.isKnown
            (fun name => ⟨.unknownBlendshape, subject, s!"'{name}' in '{r.logic}'"⟩)
            { r with predicate := (none : Option π) }
          exact hunknown.last (leads_change _ _)

theorem leads_setLogic (source : String) (r : EdgeRule π) :
    Leads (setLogic lang subject source : InPlace σ (EdgeRule π) Unit) r ()
      (r.withLogic lang source) ({ r with logic := source }.findings lang subject) :=
  (leads_change _ r).next (leads_compileRule lang subject _)

theorem leads_editRule (e : EdgeEdit) (r : EdgeRule π) :
    Leads (editRule lang subject e : InPlace σ (EdgeRule π) Unit) r () (r.edit lang e)
      (e.findings lang subject) := by
  unfold editRule EdgeRule.edit EdgeEdit.findings
  refine (leads_assign _ _ EdgeRule.debounceMs rfl).next
    ((leads_assign _ _ EdgeRule.action rfl).next ?_)
  cases e.logic with
  | none => exact leads_pure () _
  | some source => exact leads_setLogic lang subject source _

end

/-! ## Bindings -/

/-- Works on the rule of a simple binding, or on the two rules of an advanced one. -/
def byShape (simple : InPlace σ SimpleRule Unit)
    (advanced : InPlace σ (EdgeRule π × EdgeRule π) Unit) : InPlace σ (Binding π) Unit := do
  match ← value with
  | .simple r => within (fun _ => .ok r) (fun r _ => .simple r) simple
  | .advanced start stop =>
    within (fun _ => .ok (start, stop)) (fun rules _ => .advanced rules.1 rules.2) advanced

/-- Works on one of the two rules. -/
def onEdge (edge : Edge) (program : InPlace σ (EdgeRule π) Unit) :
    InPlace σ (EdgeRule π × EdgeRule π) Unit :=
  match edge with
  | .start => within (fun rules => .ok rules.1) (fun r rules => (r, rules.2)) program
  | .stop => within (fun rules => .ok rules.2) (fun r rules => (rules.1, r)) program

/-- Makes the predicates of both edges anew. -/
def compileBinding (lang : RuleLanguage π) (index : Nat) : InPlace σ (Binding π) Unit :=
  byShape (pure ()) do
    onEdge .start (compileRule lang (edgeSubject index .start))
    onEdge .stop (compileRule lang (edgeSubject index .stop))

/-- Gives the binding one of the two shapes: a new one takes over the tokens, and is put where
it stands when it is loaded. -/
def setShape (toSimple : Bool) : InPlace σ (Binding π) Unit := do
  let b ← value
  if b.isSimple = toSimple then pure ()
  else
    change fun
      | .simple r => .advanced (.blank r.startAction .idle) (.blank r.stopAction .idle)
      | .advanced start stop =>
        .simple { SimpleRule.template with startAction := start.action, stopAction := stop.action }
    change Binding.reset

/-- Does what an edit says of the shape, and makes the predicates of a new shape. -/
def editShape (lang : RuleLanguage π) (index : Nat) (e : BindingEdit) :
    InPlace σ (Binding π) Unit :=
  match e.simplified with
  | none => pure ()
  | some toSimple => do
    let b ← value
    setShape toSimple
    if b.isSimple = toSimple then pure () else compileBinding lang index

/-- Does what an edit says of the fields of the shape that the binding has. -/
def editFields (lang : RuleLanguage π) (index : Nat) (e : BindingEdit) :
    InPlace σ (Binding π) Unit :=
  byShape
    (do
      assign e.blendshape fun blendshape r => { r with blendshape }
      assign e.threshold fun threshold r => { r with threshold }
      assign e.start.action fun startAction r => { r with startAction }
      assign e.stop.action fun stopAction r => { r with stopAction })
    (do
      onEdge .start (editRule lang (edgeSubject index .start) e.start)
      onEdge .stop (editRule lang (edgeSubject index .stop) e.stop))

section

variable {simple : InPlace σ SimpleRule Unit} {advanced : InPlace σ (EdgeRule π × EdgeRule π) Unit}
  {program : InPlace σ (EdgeRule π) Unit} {r r' : SimpleRule}
  {start stop start' stop' : EdgeRule π} {ds : List Diagnostic}

theorem leads_byShape_simple (h : Leads simple r () r' ds) :
    Leads (byShape simple advanced) (.simple r) () (.simple r') ds :=
  (leads_value _).next (leads_within rfl h)

theorem leads_byShape_advanced (h : Leads advanced (start, stop) () (start', stop') ds) :
    Leads (byShape simple advanced) (.advanced start stop) () (.advanced start' stop') ds := by
  refine (leads_value _).next ?_
  intro actuator reports
  simp only [within, h actuator reports]

theorem leads_onStart (h : Leads program start () start' ds) :
    Leads (onEdge .start program) (start, stop) () (start', stop) ds := by
  intro actuator reports
  simp only [onEdge, within, h actuator reports]

theorem leads_onStop (h : Leads program stop () stop' ds) :
    Leads (onEdge .stop program) (start, stop) () (start, stop') ds := by
  intro actuator reports
  simp only [onEdge, within, h actuator reports]

end

section

variable (lang : RuleLanguage π) (index : Nat) (e : BindingEdit)

theorem leads_compileBinding (b : Binding π) :
    Leads (compileBinding lang index : InPlace σ (Binding π) Unit) b () (b.compiled lang)
      (b.findings lang index) := by
  cases b with
  | simple r => exact leads_byShape_simple (leads_pure () r)
  | advanced start stop =>
      exact leads_byShape_advanced
        ((leads_onStart (leads_compileRule lang _ start)).bind
          (leads_onStop (leads_compileRule lang _ stop)))

theorem leads_setShape (toSimple : Bool) (b : Binding π) :
    Leads (setShape toSimple : InPlace σ (Binding π) Unit) b () (b.withShape toSimple) [] := by
  refine (leads_value b).next ?_
  cases b with
  | simple r =>
      cases toSimple with
      | true => exact leads_pure () _
      | false => exact (leads_change _ _).next (leads_change _ _)
  | advanced start stop =>
      cases toSimple with
      | true => exact (leads_change _ _).next (leads_change _ _)
      | false => exact leads_pure () _

/-- A binding that was given another shape has nothing to compile yet. -/
theorem compiled_withShape {toSimple : Bool} {b : Binding π} (h : b.isSimple ≠ toSimple) :
    (b.withShape toSimple).compiled lang = b.withShape toSimple ∧
      (b.withShape toSimple).findings lang index = [] := by
  cases b <;> cases toSimple <;> simp_all [Binding.isSimple, Binding.withShape, Binding.compiled,
    Binding.findings, EdgeRule.compiled, EdgeRule.findings, EdgeRule.blank, Text.isBlankText]

theorem leads_editShape (b : Binding π) :
    Leads (editShape lang index e : InPlace σ (Binding π) Unit) b () (e.reshape b) [] := by
  unfold editShape BindingEdit.reshape
  cases e.simplified with
  | none => exact leads_pure () b
  | some toSimple =>
      refine (leads_value b).next ((leads_setShape toSimple b).next ?_)
      by_cases hshape : b.isSimple = toSimple
      · rw [if_pos hshape]
        exact leads_pure () _
      · obtain ⟨hcompiled, hfindings⟩ := compiled_withShape lang index hshape
        have h := leads_compileBinding (σ := σ) lang index (b.withShape toSimple)
        rw [hcompiled, hfindings] at h
        rwa [if_neg hshape]

theorem leads_editFields (b : Binding π) :
    Leads (editFields lang index e : InPlace σ (Binding π) Unit) (e.reshape b) ()
      (e.apply lang b) (e.findings lang index b) := by
  unfold editFields BindingEdit.apply BindingEdit.findings
  cases e.reshape b with
  | simple r =>
      exact leads_byShape_simple
        ((leads_assign _ _ SimpleRule.blendshape rfl).next
          ((leads_assign _ _ SimpleRule.threshold rfl).next
            ((leads_assign _ _ SimpleRule.startAction rfl).next
              (leads_assign _ _ SimpleRule.stopAction rfl))))
  | advanced start stop =>
      exact leads_byShape_advanced
        ((leads_onStart (leads_editRule lang _ e.start start)).bind
          (leads_onStop (leads_editRule lang _ e.stop stop)))

end

/-! ## Sets -/

/-- Works on the profile at an index. -/
def onProfile (p : Nat) (program : InPlace σ (Profile π) β) : InPlace σ (ProfileSet π) β :=
  within (fun set => set.profile p)
    (fun profile set => { set with profiles := set.profiles.set p profile }) program

/-- Works on the binding at an index of a profile. -/
def onBinding (p i : Nat) (program : InPlace σ (Binding π) β) : InPlace σ (ProfileSet π) β :=
  onProfile p <| within (fun profile => profile.bindings[i]?.elim (.error (.noSuchBinding i)) .ok)
    (fun b profile => { profile with bindings := profile.bindings.set i b }) program

/-- Selects the profile at an index. -/
def select (index : UInt64) : InPlace σ (ProfileSet π) Unit := do
  let set ← value
  if set.size ≤ index.toNat then throw (.noSuchProfile index.toNat)
  else change fun set => { set with selection := index }

/-- Adds a new profile at the end, then selects it, and tells its index. -/
def createProfile (name : String) : InPlace σ (ProfileSet π) Nat := do
  change fun set => { set with profiles := set.profiles ++ [.new name] }
  change fun set => { set with selection := UInt64.ofNat (set.size - 1) }
  let set ← value
  return set.size - 1

/-- Removes the selected profile, then selects the one before it. -/
def removeSelected : InPlace σ (ProfileSet π) (Option (Profile π)) := do
  let set ← value
  match set.selected? with
  | none => return none
  | some removed =>
    change fun set => { set with profiles := set.profiles.eraseIdx set.selection.toNat }
    change fun set => { set with selection := set.selection - min set.selection 1 }
    return some removed

/-- Adds a new binding at the end of a profile, and tells its index. -/
def createBinding (p : Nat) : InPlace σ (ProfileSet π) Nat :=
  onProfile p do
    change fun profile => { profile with bindings := profile.bindings ++ [.template] }
    let profile ← value
    return profile.bindings.length - 1

/-- Removes a binding. -/
def removeBinding (p i : Nat) : InPlace σ (ProfileSet π) (Binding π) :=
  onProfile p do
    let profile ← value
    match profile.bindings[i]? with
    | none => throw (.noSuchBinding i)
    | some removed =>
      change fun profile => { profile with bindings := profile.bindings.eraseIdx i }
      return removed

/-- Fails if an edit's threshold is out of range.  The failure names the profile, which may be
missing itself. -/
def checkThreshold (p i : Nat) (e : BindingEdit) : InPlace σ (ProfileSet π) Unit :=
  match e.threshold with
  | none => pure ()
  | some threshold =>
    if maxThreshold < threshold then do
      let profile ← onProfile p value
      throw (.thresholdOutOfRange profile.name i threshold)
    else pure ()

/-- Edits a binding. -/
def edit (lang : RuleLanguage π) (p i : Nat) (e : BindingEdit) : InPlace σ (ProfileSet π) Unit := do
  checkThreshold p i e
  onBinding p i do
    editShape lang i e
    editFields lang i e

/-- Puts a frame to the profiles.  Frames never fail, so that nothing of them is taken apart. -/
def cycle (result : ProfileSet π → σ → FrameResult π σ) : InPlace σ (ProfileSet π) (Answer π) :=
  fun w =>
    let r := result w.value w.actuator
    .ok (.report r.report) ⟨r.set, r.actuator, w.reports ++ r.reports⟩

section

variable {set : ProfileSet π} {p i : Nat} {profile profile' : Profile π} {b : Binding π} {x : β}
  {ds : List Diagnostic} {e : ProfileError}

/-- An item put back in its place. -/
theorem set_eq_modify {l : List α} {n : Nat} {a : α} (h : l[n]? = some a) (f : α → α) :
    l.set n (f a) = l.modify n f := by
  have : Inhabited α := ⟨a⟩
  rw [List.modify_eq_set, h]
  rfl

/-- A profile put back as it was. -/
theorem set_profile_eq_self (hp : set.profiles[p]? = some profile) :
    { set with profiles := set.profiles.set p profile } = set := by
  have h := set_eq_modify hp id
  rw [List.modify_id, id_eq] at h
  rw [h]

theorem leads_onProfile {program : InPlace σ (Profile π) β} (hp : set.profiles[p]? = some profile)
    {bindings : List (Binding π)} (h : Leads program profile x { profile with bindings } ds) :
    Leads (onProfile p program) set x (set.withBindings p bindings) ds := by
  have hset : set.withBindings p bindings =
      { set with profiles := set.profiles.set p { profile with bindings } } := by
    rw [ProfileSet.withBindings,
      set_eq_modify hp fun profile => { profile with bindings }]
  rw [hset]
  exact leads_within (ProfileSet.profile_eq_ok_iff.2 hp) h

theorem refuses_onProfile {program : InPlace σ (Profile π) β} (h : set.profile p = .error e) :
    Refuses (onProfile p program) set e :=
  refuses_within h

theorem Refuses.onProfile {program : InPlace σ (Profile π) β} (h : Refuses program profile e)
    (hp : set.profiles[p]? = some profile) : Refuses (onProfile p program) set e :=
  h.within (ProfileSet.profile_eq_ok_iff.2 hp) (set_profile_eq_self hp)

/-- Looking at a profile changes nothing. -/
theorem leads_profile (hp : set.profile p = .ok profile) :
    Leads (onProfile p value : InPlace σ (ProfileSet π) (Profile π)) set profile set [] := by
  have hput := set_profile_eq_self (ProfileSet.profile_eq_ok_iff.1 hp)
  intro actuator reports
  simp only [onProfile, within, hp, leads_value profile actuator reports, hput]

/-- **Work on a binding**: a success changes this binding, and nothing else. -/
theorem leads_onBinding {program : InPlace σ (Binding π) β} {f : Binding π → Binding π}
    (hb : set.binding p i = .ok b) (h : Leads program b x (f b) ds) {set' : ProfileSet π}
    (hset' : set.modifyBinding p i f = .ok set') : Leads (onBinding p i program) set x set' ds := by
  obtain ⟨profile, _, hp, _, rfl⟩ := ProfileSet.modifyBinding_eq_ok_iff.1 hset'
  obtain ⟨profile', hp', hi⟩ := ProfileSet.binding_eq_ok_iff.1 hb
  obtain rfl : profile = profile' := Option.some.inj (hp.symm.trans hp')
  refine leads_onProfile hp ?_
  rw [← set_eq_modify hi f]
  exact leads_within (by rw [hi]; rfl) h

/-- Work that leaves the binding as it is leaves the set as it is. -/
theorem leads_onBinding_self {program : InPlace σ (Binding π) β} (hb : set.binding p i = .ok b)
    (h : Leads program b x b ds) : Leads (onBinding p i program) set x set ds := by
  obtain ⟨profile, hp, hi⟩ := ProfileSet.binding_eq_ok_iff.1 hb
  have hmodify : set.modifyBinding p i id = .ok set := by
    refine ProfileSet.modifyBinding_eq_ok_iff.2 ⟨profile, b, hp, hi, ?_⟩
    rw [List.modify_id, ProfileSet.withBindings,
      ← set_eq_modify hp fun q => { q with bindings := profile.bindings }]
    exact set_profile_eq_self hp
  exact leads_onBinding hb h hmodify

theorem refuses_onBinding {program : InPlace σ (Binding π) β} (h : set.binding p i = .error e) :
    Refuses (onBinding p i program) set e := by
  rcases ProfileSet.binding_eq_error_iff.1 h with hp | ⟨profile, hp, hi, rfl⟩
  · exact refuses_onProfile hp
  · refine Refuses.onProfile (refuses_within ?_) hp
    rw [hi]
    rfl

end

section

variable {set set' : ProfileSet π} {p i : Nat} {b : Binding π} {e : BindingEdit}
  {err : ProfileError}

theorem leads_select {index : UInt64} (h : set.select index = .ok set') :
    Leads (select index : InPlace σ (ProfileSet π) Unit) set () set' [] := by
  unfold ProfileSet.select at h
  split at h
  · next hlt =>
      cases h
      refine (leads_value set).next ?_
      rw [if_neg (Nat.not_le.2 hlt)]
      exact leads_change _ set
  · contradiction

theorem refuses_select {index : UInt64} (h : set.select index = .error err) :
    Refuses (select index : InPlace σ (ProfileSet π) Unit) set err := by
  unfold ProfileSet.select at h
  split at h
  · contradiction
  · next hlt =>
      cases h
      refine (leads_value set).refuses ?_
      rw [if_pos (Nat.not_lt.1 hlt)]
      exact refuses_throw _ set

theorem leads_createProfile (name : String) (set : ProfileSet π) :
    Leads (createProfile name : InPlace σ (ProfileSet π) Nat) set set.size
      (set.createProfile name) [] := by
  have hsize : (set.profiles ++ [Profile.new name]).length - 1 = set.size := by
    rw [List.length_append]
    rfl
  refine (leads_change _ set).next ((leads_change _ _).next ((leads_value _).next ?_))
  simp only [ProfileSet.size] at hsize ⊢
  rw [hsize]
  exact leads_pure _ _

theorem leads_removeSelected (set : ProfileSet π) :
    Leads (removeSelected : InPlace σ (ProfileSet π) (Option (Profile π))) set
      (set.removeSelected.map Prod.fst) ((set.removeSelected.map Prod.snd).getD set) [] := by
  refine (leads_value set).next ?_
  unfold ProfileSet.removeSelected
  cases set.selected? with
  | none => exact leads_pure none set
  | some removed => exact (leads_change _ set).next ((leads_change _ _).next (leads_pure _ _))

theorem leads_createBinding {n : Nat} (h : set.createBinding p = .ok (n, set')) :
    Leads (createBinding p : InPlace σ (ProfileSet π) Nat) set n set' [] := by
  simp only [ProfileSet.createBinding, Except.bind_eq_ok_iff, ProfileSet.profile_eq_ok_iff,
    Except.pure_eq_ok_iff, Prod.mk.injEq] at h
  obtain ⟨profile, hp, rfl, rfl⟩ := h
  refine leads_onProfile hp ((leads_change _ profile).next ((leads_value _).next ?_))
  rw [List.length_append]
  exact leads_pure _ _

theorem refuses_createBinding (h : set.createBinding p = .error err) :
    Refuses (createBinding p : InPlace σ (ProfileSet π) Nat) set err := by
  rcases Except.bind_eq_error_iff.1 h with hp | ⟨profile, _, hdone⟩
  · exact refuses_onProfile hp
  · contradiction

theorem leads_removeBinding (h : set.removeBinding p i = .ok (b, set')) :
    Leads (removeBinding p i : InPlace σ (ProfileSet π) (Binding π)) set b set' [] := by
  simp only [ProfileSet.removeBinding, Except.bind_eq_ok_iff, ProfileSet.binding_eq_ok_iff,
    ProfileSet.profile_eq_ok_iff, Except.pure_eq_ok_iff, Prod.mk.injEq] at h
  obtain ⟨_, ⟨profile, hp, hi⟩, profile', hp', rfl, rfl⟩ := h
  obtain rfl : profile = profile' := Option.some.inj (hp.symm.trans hp')
  refine leads_onProfile hp ((leads_value profile).next ?_)
  rw [hi]
  exact (leads_change _ profile).next (leads_pure _ _)

theorem refuses_removeBinding (h : set.removeBinding p i = .error err) :
    Refuses (removeBinding p i : InPlace σ (ProfileSet π) (Binding π)) set err := by
  rcases ProfileSet.binding_eq_error_iff.1 (ProfileSet.removeBinding_eq_error_iff.1 h) with
    hp | ⟨profile, hp, hi, rfl⟩
  · exact refuses_onProfile hp
  · refine Refuses.onProfile ((leads_value profile).refuses ?_) hp
    rw [hi]
    exact refuses_throw _ profile

theorem leads_checkThreshold (h : set.checkThreshold p i e = .ok ()) :
    Leads (checkThreshold p i e : InPlace σ (ProfileSet π) Unit) set () set [] := by
  unfold ProfileSet.checkThreshold at h
  unfold checkThreshold
  cases hthreshold : e.threshold with
  | none => exact leads_pure () set
  | some threshold =>
      simp only [hthreshold] at h ⊢
      split at h
      · next hle =>
          rw [if_neg (UInt8.not_lt.2 hle)]
          exact leads_pure () set
      · simp [Except.bind_eq_ok_iff] at h

theorem refuses_checkThreshold (h : set.checkThreshold p i e = .error err) :
    Refuses (checkThreshold p i e : InPlace σ (ProfileSet π) Unit) set err := by
  unfold ProfileSet.checkThreshold at h
  unfold checkThreshold
  cases hthreshold : e.threshold with
  | none =>
      simp only [hthreshold] at h
      contradiction
  | some threshold =>
      simp only [hthreshold] at h ⊢
      split at h
      · contradiction
      · next hle =>
          rw [if_pos (UInt8.not_le.1 hle)]
          rcases Except.bind_eq_error_iff.1 h with hp | ⟨profile, hp, hthrow⟩
          · exact (refuses_onProfile hp).bind
          · cases hthrow
            exact (leads_profile hp).refuses (refuses_throw _ set)

theorem leads_edit (lang : RuleLanguage π) {reports : List Diagnostic}
    (h : set.edit lang p i e = .ok (reports, set')) :
    Leads (edit lang p i e : InPlace σ (ProfileSet π) Unit) set () set' reports := by
  simp only [ProfileSet.edit, Except.bind_eq_ok_iff, Except.pure_eq_ok_iff, Prod.mk.injEq] at h
  obtain ⟨_, hcheck, b, hb, _, hset', rfl, rfl⟩ := h
  have hparts : Leads (do editShape lang i e; editFields lang i e : InPlace σ (Binding π) Unit) b ()
      (e.apply lang b) (e.findings lang i b) :=
    (leads_editShape lang i e b).next (leads_editFields lang i e b)
  exact (leads_checkThreshold hcheck).next (leads_onBinding hb hparts hset')

/-- **An edit is refused before it begins**: both of its checks come before the first
assignment. -/
theorem refuses_edit (lang : RuleLanguage π) (h : set.edit lang p i e = .error err) :
    Refuses (edit lang p i e : InPlace σ (ProfileSet π) Unit) set err := by
  rcases ProfileSet.edit_eq_error_iff.1 h with hcheck | ⟨hcheck, hb⟩
  · exact (refuses_checkThreshold hcheck).bind
  · exact (leads_checkThreshold hcheck).refuses (refuses_onBinding hb)

end

end InPlace

/-! ## Commands -/

open InPlace in
/-- A command as a program that changes the profiles in place. -/
def Command.inPlace (lang : RuleLanguage π) (d : Dispatcher σ) :
    Command → InPlace σ (ProfileSet π) (Answer π)
  | .normalize => fun w =>
    .ok .done ⟨w.value.normalize lang, w.actuator, w.reports ++ w.value.findings lang⟩
  | .clampSelection => do
    change ProfileSet.clampSelection
    return .done
  | .createProfile name => do
    let n ← InPlace.createProfile name
    return .index n
  | .removeSelected => do
    let removed ← InPlace.removeSelected
    return .profile removed
  | .select index => do
    InPlace.select index
    return .done
  | .createBinding p => do
    let n ← InPlace.createBinding p
    return .index n
  | .removeBinding p i => do
    let removed ← InPlace.removeBinding p i
    return .binding removed
  | .reshape p i toSimple =>
    onBinding p i do
      setShape toSimple
      let b ← value
      return .binding b
  | .reset p i =>
    onBinding p i do
      change Binding.reset
      return .done
  | .edit p i e => do
    InPlace.edit lang p i e
    return .done
  | .setLogic p i edge source =>
    onBinding p i do
      match ← value with
      | .simple _ => return .otherShape
      | .advanced _ _ =>
        byShape (pure ()) (onEdge edge (InPlace.setLogic lang (edgeSubject i edge) source))
        return .done
  | .evaluate p m =>
    cycle fun set s => set.evaluate lang d s (p.getD set.selection.toNat) m
  | .frame p f =>
    cycle fun set s => set.evaluateReading lang d s (p.getD set.selection.toNat) f

/-- What an outcome leaves of a work: after a success its session and its reports, after a failure
all as it was. -/
def Outcome.result (o : Outcome π σ) (w : Work σ (ProfileSet π)) :
    EStateM.Result ProfileError (Work σ (ProfileSet π)) (Answer π) :=
  match o.answer with
  | .ok a => .ok a ⟨o.session.profiles, o.session.actuator, w.reports ++ o.reports⟩
  | .error e => .error e w

theorem Outcome.result_eq_ok_iff {o : Outcome π σ} {w w' : Work σ (ProfileSet π)} {a : Answer π} :
    o.result w = .ok a w' ↔ o.answer = .ok a ∧
      w' = ⟨o.session.profiles, o.session.actuator, w.reports ++ o.reports⟩ := by
  unfold Outcome.result
  cases o.answer with
  | error e => simp
  | ok b => simp [eq_comm]

theorem Outcome.result_eq_error_iff {o : Outcome π σ} {w w' : Work σ (ProfileSet π)}
    {e : ProfileError} : o.result w = .error e w' ↔ o.answer = .error e ∧ w' = w := by
  unfold Outcome.result
  cases o.answer with
  | error err => simp [eq_comm]
  | ok a => simp

namespace InPlace

variable {s : Session π σ} {program : InPlace σ (ProfileSet π) (Answer π)}

/-- Put to a session, a program comes to what an outcome says. -/
def Follows (program : InPlace σ (ProfileSet π) (Answer π)) (s : Session π σ)
    (o : Outcome π σ) : Prop :=
  ∀ reports, program ⟨s.profiles, s.actuator, reports⟩ =
    o.result ⟨s.profiles, s.actuator, reports⟩

theorem Leads.follows {a : Answer π} {set' : ProfileSet π} {ds : List Diagnostic}
    (h : Leads program s.profiles a set' ds) : Follows program s ⟨.ok a, ⟨set', s.actuator⟩, ds⟩ :=
  fun reports => h s.actuator reports

/-- What may fail is followed if it is followed where it succeeds and refused where it fails. -/
theorem follows_attempt {result : Except ProfileError α} {finish : α → Outcome π σ}
    (hok : ∀ a, result = .ok a → Follows program s (finish a))
    (herror : ∀ e, result = .error e → Refuses program s.profiles e) :
    Follows program s (s.attempt result finish) := by
  cases result with
  | error e => exact fun reports => herror e rfl s.actuator reports
  | ok a => exact hok a rfl

/-- The same for work on a binding: nothing is refused but a missing binding. -/
theorem follows_modifyBinding {work : InPlace σ (Binding π) (Answer π)} {p i : Nat}
    {b : Binding π} {f : Binding π → Binding π} {a : Answer π} {ds : List Diagnostic}
    (hb : s.profiles.binding p i = .ok b) (h : Leads work b a (f b) ds) :
    Follows (onBinding p i work) s (s.attempt (s.profiles.modifyBinding p i f) fun set =>
      ⟨.ok a, ⟨set, s.actuator⟩, ds⟩) :=
  follows_attempt (fun _ hset' => (leads_onBinding hb h hset').follows)
    (fun _ he => refuses_onBinding (ProfileSet.modifyBinding_eq_error_iff.1 he))

end InPlace

namespace Command

open InPlace

variable (lang : RuleLanguage π) (d : Dispatcher σ)

theorem follows_step (c : Command) (s : Session π σ) :
    Follows (c.inPlace lang d) s (s.step lang d c) := by
  obtain ⟨set, actuator⟩ := s
  cases c with
  | normalize | evaluate p m | frame p f => exact fun reports => rfl
  | clampSelection => exact Leads.follows ((leads_change _ set).next (leads_pure _ _))
  | createProfile name =>
      exact Leads.follows ((leads_createProfile name set).next (leads_pure _ _))
  | removeSelected =>
      have h : Follows (Command.removeSelected.inPlace lang d) ⟨set, actuator⟩ _ :=
        Leads.follows ((leads_removeSelected set).next (leads_pure _ _))
      cases hremoved : set.removeSelected with
      | none => simpa [Session.step, hremoved, Session.done] using h
      | some r => simpa [Session.step, hremoved, Session.done] using h
  | select index =>
      exact follows_attempt
        (fun set' h => Leads.follows ((leads_select h).next (leads_pure _ _)))
        (fun e h => (refuses_select h).bind)
  | createBinding p =>
      exact follows_attempt
        (fun r h => Leads.follows ((leads_createBinding h).next (leads_pure _ _)))
        (fun e h => (refuses_createBinding h).bind)
  | removeBinding p i =>
      exact follows_attempt
        (fun r h => Leads.follows ((leads_removeBinding h).next (leads_pure _ _)))
        (fun e h => (refuses_removeBinding h).bind)
  | reshape p i toSimple =>
      refine follows_attempt (fun b hb => ?_) (fun e h => refuses_onBinding h)
      refine follows_modifyBinding hb ((leads_setShape toSimple b).next ((leads_value _).next ?_))
      exact leads_pure _ _
  | reset p i =>
      refine follows_attempt (fun set' hset' => ?_)
        (fun e h => refuses_onBinding (ProfileSet.modifyBinding_eq_error_iff.1 h))
      obtain ⟨profile, b, hp, hi, -⟩ := ProfileSet.modifyBinding_eq_ok_iff.1 hset'
      have hb := ProfileSet.binding_eq_ok_iff.2 ⟨profile, hp, hi⟩
      refine (leads_onBinding hb ((leads_change _ b).next ?_) hset').follows
      exact leads_pure _ _
  | edit p i e =>
      exact follows_attempt
        (fun r h => Leads.follows ((leads_edit lang h).last (leads_pure _ _)))
        (fun e h => (refuses_edit lang h).bind)
  | setLogic p i edge source =>
      refine follows_attempt (fun b hb => ?_) (fun e h => refuses_onBinding h)
      cases b with
      | simple r =>
          exact Leads.follows (leads_onBinding_self hb ((leads_value _).next (leads_pure _ _)))
      | advanced start stop =>
          refine follows_modifyBinding hb ((leads_value _).next ?_)
          cases edge with
          | start =>
              exact (leads_byShape_advanced
                (leads_onStart (leads_setLogic lang _ source start))).last (leads_pure _ _)
          | stop =>
              exact (leads_byShape_advanced
                (leads_onStop (leads_setLogic lang _ source stop))).last (leads_pure _ _)

/-- **In place, every command does what it does as a whole**: where it succeeds it leaves the
session and the reports of its outcome, and where it fails it leaves everything as it was. -/
theorem inPlace_eq (c : Command) (w : Work σ (ProfileSet π)) :
    c.inPlace lang d w = ((Session.mk w.value w.actuator).step lang d c).result w :=
  follows_step lang d c ⟨w.value, w.actuator⟩ w.reports

end Command

end Grimace
