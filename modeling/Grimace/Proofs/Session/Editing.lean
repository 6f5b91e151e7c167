import Grimace.Proofs.Session.Findings
import Grimace.Proofs.Session.InPlace
import Grimace.Proofs.Session.Reload

/-!
# Grimace.Proofs.Session.Editing

An edit does what it says, and nothing else.

What a user wrote of a binding is a number of fields, some of which exist in one shape only.  An
edit gives values to some of them.

* `BindingEdit.Amends` — the fields that an edit gives take their values, all others stay, and the
  binding stays where it stands;
* `BindingEdit.reshape_eq` — what is amended: the binding as it is, or the template of the other
  shape with the tokens carried over;
* `ProfileSet.SameBut` — no other binding, no name and no selection is touched;
* `ProfileSet.edits_as_given` — all this of every edit that is accepted, with what it reports.
-/

namespace Grimace

variable {π σ : Type}

attribute [ext] EdgeEdit

/-! ## Fields -/

/-- A field of a binding, as a user writes it. -/
inductive Field where
  | blendshape
  | threshold
  | action (edge : Edge)
  | logic (edge : Edge)
  | debounceMs (edge : Edge)

/-- What is written in a field. -/
def Field.Value : Field → Type
  | blendshape | action _ | logic _ => String
  | threshold => UInt8
  | debounceMs _ => UInt64

/-- The rule of a simple binding. -/
def Binding.simple? : Binding π → Option SimpleRule
  | simple r => some r
  | advanced _ _ => none

/-- What is written in a field, if the binding has it. -/
def Binding.field? (b : Binding π) : (f : Field) → Option f.Value
  | .blendshape => b.simple?.map SimpleRule.blendshape
  | .threshold => b.simple?.map SimpleRule.threshold
  | .action edge => some (b.token edge)
  | .logic edge => (b.rule? edge).map EdgeRule.logic
  | .debounceMs edge => (b.rule? edge).map EdgeRule.debounceMs

/-- What an edit gives for a field. -/
def BindingEdit.given? (e : BindingEdit) : (f : Field) → Option f.Value
  | .blendshape => e.blendshape
  | .threshold => e.threshold
  | .action edge => (e.ofEdge edge).action
  | .logic edge => (e.ofEdge edge).logic
  | .debounceMs edge => (e.ofEdge edge).debounceMs

/-- Where a binding stands: its flag, or the phases of its edges. -/
def Binding.standing : Binding π → Bool ⊕ Phase × Phase
  | simple r => .inl r.activated
  | advanced start stop => .inr (start.phase, stop.phase)

/-- The predicate that a text is made into, unless it is blank or no condition. -/
def RuleLanguage.predicate? (lang : RuleLanguage π) (text : String) : Option π :=
  if Text.isBlankText text then none else (lang.compile text).toOption

/-- The rule after an edit, field by field. -/
theorem EdgeRule.edit_eq (lang : RuleLanguage π) (e : EdgeEdit) (r : EdgeRule π) : r.edit lang e =
    { logic := e.logic.getD r.logic
      debounceMs := e.debounceMs.getD r.debounceMs
      action := e.action.getD r.action
      predicate := match e.logic with
        | none => r.predicate
        | some text => lang.predicate? text
      phase := r.phase } := by
  unfold edit
  cases e.logic <;> rfl

/-! ## Bindings -/

/-- The binding that one of a shape begins as, with tokens. -/
def Binding.ofTokens (simple : Bool) (token : Edge → String) : Binding π :=
  if simple then
    .simple { SimpleRule.template with startAction := token .start, stopAction := token .stop }
  else .advanced (.blank (token .start) .idle) (.blank (token .stop) .activated)

namespace BindingEdit

/-- An edit makes `b'` of `b`, which has the shape already: the fields that it gives take their
values, and everything else stays, where the binding stands included.  A new text is made into a
predicate. -/
structure Amends (lang : RuleLanguage π) (e : BindingEdit) (b b' : Binding π) : Prop where
  shape : b'.isSimple = b.isSimple
  fields : ∀ f, b'.field? f = (b.field? f).map fun v => (e.given? f).getD v
  standing : b'.standing = b.standing
  predicates : ∀ edge r, b.rule? edge = some r → ∃ r', b'.rule? edge = some r' ∧
    r'.predicate = match (e.ofEdge edge).logic with
      | none => r.predicate
      | some text => lang.predicate? text

section

variable (lang : RuleLanguage π) (e : BindingEdit) (b : Binding π)

theorem amends_apply : e.Amends lang (e.reshape b) (e.apply lang b) := by
  unfold apply
  cases e.reshape b with
  | simple r =>
      refine ⟨rfl, fun f => ?_, rfl, fun edge r hr => nomatch hr⟩
      cases f with
      | blendshape | threshold | logic edge | debounceMs edge => rfl
      | action edge => cases edge <;> rfl
  | advanced start stop =>
      simp only [EdgeRule.edit_eq]
      refine ⟨rfl, fun f => ?_, rfl, fun edge r hr => ?_⟩
      · cases f with
        | blendshape | threshold => rfl
        | action edge | logic edge | debounceMs edge => cases edge <;> rfl
      · cases edge <;> exact ⟨_, rfl, by rw [← Option.some.inj hr]; rfl⟩

/-- The tokens are carried over to another shape, and all else in it is as in the template. -/
theorem reshape_eq : e.reshape b =
    if e.simplified.getD b.isSimple = b.isSimple then b
    else .ofTokens (!b.isSimple) b.token := by
  unfold reshape
  cases e.simplified with
  | none => simp
  | some toSimple => cases b <;> cases toSimple <;> rfl

/-- No edit loses a token: each one is given anew or stays, in whichever shape. -/
theorem token_apply (edge : Edge) :
    (e.apply lang b).token edge = (e.ofEdge edge).action.getD (b.token edge) := by
  have hreshape : (e.reshape b).token edge = b.token edge := by
    rw [reshape_eq]
    split
    · rfl
    · cases b <;> cases edge <;> rfl
  have hfield := (e.amends_apply lang b).fields (.action edge)
  rw [← hreshape]
  exact Option.some.inj hfield

/-- A binding that was given another shape is as if it had been loaded so. -/
theorem loaded_apply (h : e.simplified.getD b.isSimple ≠ b.isSimple) :
    (e.apply lang b).reset.compiled lang = e.apply lang b := by
  -- After the change of shape, the edit is one that says nothing of the shape.
  let rest : BindingEdit := { e with simplified := none }
  have hreshape : e.reshape b = .ofTokens (!b.isSimple) b.token := by
    rw [reshape_eq, if_neg h]
  have hunmoved : (e.reshape b).Unmoved := by
    rw [hreshape]
    cases b <;> rfl
  have hcurrent : (e.reshape b).Current lang := by
    rw [hreshape]
    cases b <;> rfl
  have hrest : rest.apply lang (e.reshape b) = e.apply lang b := rfl
  have hunmoved : (e.apply lang b).reset = e.apply lang b := hrest ▸ hunmoved.edit lang rest
  have hcurrent : (e.apply lang b).compiled lang = e.apply lang b := hrest ▸ hcurrent.edit rest
  rw [hunmoved, hcurrent]

/-- Only the fields that the binding has in the end make a difference. -/
theorem apply_congr {e e' : BindingEdit} (hsimplified : e'.simplified = e.simplified)
    (hgiven : ∀ f, ((e.apply lang b).field? f).isSome = true → e'.given? f = e.given? f) (i : Nat) :
    e'.apply lang b = e.apply lang b ∧ e'.findings lang i b = e.findings lang i b := by
  have hreshape : e'.reshape b = e.reshape b := by
    unfold reshape
    rw [hsimplified]
  have hgiven : ∀ f, ((e.reshape b).field? f).isSome = true → e'.given? f = e.given? f := by
    intro f hf
    refine hgiven f ?_
    rwa [(e.amends_apply lang b).fields f, Option.isSome_map]
  unfold apply findings
  rw [hreshape]
  cases hshape : e.reshape b with
  | simple r =>
      rw [hshape] at hgiven
      have hblendshape : e'.blendshape = e.blendshape := hgiven .blendshape rfl
      have hthreshold : e'.threshold = e.threshold := hgiven .threshold rfl
      have hstart : e'.start.action = e.start.action := hgiven (.action .start) rfl
      have hstop : e'.stop.action = e.stop.action := hgiven (.action .stop) rfl
      rw [hblendshape, hthreshold, hstart, hstop]
      exact ⟨rfl, rfl⟩
  | advanced start stop =>
      rw [hshape] at hgiven
      have hedge : ∀ edge, e'.ofEdge edge = e.ofEdge edge := by
        intro edge
        have haction : (e'.ofEdge edge).action = (e.ofEdge edge).action := hgiven (.action edge) rfl
        have hlogic : (e'.ofEdge edge).logic = (e.ofEdge edge).logic :=
          hgiven (.logic edge) (by cases edge <;> rfl)
        have hdebounceMs : (e'.ofEdge edge).debounceMs = (e.ofEdge edge).debounceMs :=
          hgiven (.debounceMs edge) (by cases edge <;> rfl)
        exact EdgeEdit.ext haction hlogic hdebounceMs
      have hstart : e'.start = e.start := hedge .start
      have hstop : e'.stop = e.stop := hedge .stop
      rw [hstart, hstop]
      exact ⟨rfl, rfl⟩

end

end BindingEdit

/-! ## Sets -/

namespace ProfileSet

/-- Two sets are the same but for the binding at an index of a profile. -/
structure SameBut (p i : Nat) (set set' : ProfileSet π) : Prop where
  selection : set'.selection = set.selection
  names : set'.profiles.map Profile.name = set.profiles.map Profile.name
  bindings : ∀ q j, (q ≠ p ∨ j ≠ i) → set'.binding q j = set.binding q j

variable {set set' : ProfileSet π} {p i : Nat} {b : Binding π} {f : Binding π → Binding π}

theorem sameBut_modifyBinding (h : set.modifyBinding p i f = .ok set') : SameBut p i set set' := by
  obtain ⟨profile, c, hp, hc, rfl⟩ := modifyBinding_eq_ok_iff.1 h
  refine ⟨rfl, ?_, fun q j hne => ?_⟩
  · exact map_modify_of_eq fun _ _ => rfl
  · by_cases hq : q = p
    · subst hq
      have hj : i ≠ j := fun h => hne.elim (fun h => h rfl) (fun hj => hj h.symm)
      simp [binding, ProfileSet.profile, withBindings, hp, hj]
    · simp [binding, ProfileSet.profile, withBindings, Ne.symm hq]

theorem binding_modifyBinding (h : set.modifyBinding p i f = .ok set')
    (hb : set.binding p i = .ok b) : set'.binding p i = .ok (f b) := by
  obtain ⟨profile, c, hp, hc, rfl⟩ := modifyBinding_eq_ok_iff.1 h
  obtain ⟨profile', hp', hb⟩ := binding_eq_ok_iff.1 hb
  obtain rfl : profile = profile' := Option.some.inj (hp.symm.trans hp')
  refine binding_eq_ok_iff.2 ⟨{ profile with bindings := profile.bindings.modify i f }, ?_, ?_⟩
  · simp [withBindings, hp]
  · simp [hb]

/-- What a change makes of other bindings makes no difference. -/
theorem modifyBinding_congr {g : Binding π → Binding π} (hb : set.binding p i = .ok b)
    (h : f b = g b) : set.modifyBinding p i f = set.modifyBinding p i g := by
  obtain ⟨profile, hp, hi⟩ := binding_eq_ok_iff.1 hb
  have hprofile := profile_eq_ok_iff.2 hp
  have hbindings : profile.bindings.modify i f = profile.bindings.modify i g := by
    rw [← InPlace.set_eq_modify hi, ← InPlace.set_eq_modify hi, h]
  simp only [modifyBinding, hb, hprofile, Except.ok_bind, hbindings]

/-- An edit is accepted if its binding is there and its threshold is within the scores. -/
theorem edit_of_binding (lang : RuleLanguage π) {e : BindingEdit} (hb : set.binding p i = .ok b)
    (he : ∀ t, e.threshold = some t → t ≤ maxThreshold) :
    ∃ set', set.modifyBinding p i (e.apply lang) = .ok set' ∧
      set.edit lang p i e = .ok (e.findings lang i b, set') := by
  obtain ⟨profile, hp, hi⟩ := binding_eq_ok_iff.1 hb
  have hset' : set.modifyBinding p i (e.apply lang) =
      .ok (set.withBindings p (profile.bindings.modify i (e.apply lang))) :=
    modifyBinding_eq_ok_iff.2 ⟨profile, b, hp, hi, rfl⟩
  have hcheck : set.checkThreshold p i e = .ok () := checkThreshold_eq_ok_iff.2 he
  refine ⟨_, hset', ?_⟩
  rw [edit, hcheck, hb, hset']
  rfl

open InPlace in
/-- **An edit does what it says, and nothing else.**  Every edit of a binding that is there is
accepted, unless its threshold is out of range.

It leaves all other bindings, all names and the selection as they were.  If it does not ask for
the other shape, the fields that it gives take their values and everything else stays, where the
binding stands included.  If it does, the tokens are carried over, the fields that it gives take
their values, and everything else is as in a template that was just loaded.

What it reports is told text by text, start before stop, of the texts that it gives, if the binding
is an advanced one in the end.  A field that the binding does not have then makes no difference.
No token is lost by any two edits: so a change of shape and one back preserve both. -/
theorem edits_as_given (lang : RuleLanguage π) (set : ProfileSet π) (p i : Nat) (e : BindingEdit)
    (b : Binding π) (hb : set.binding p i = .ok b)
    (he : ∀ t, e.threshold = some t → t ≤ maxThreshold) :
    ∃ reports set' b', set.edit lang p i e = .ok (reports, set') ∧
      (∀ σ : Type,
        Leads (InPlace.edit lang p i e : InPlace σ (ProfileSet π) Unit) set () set' reports) ∧
      SameBut p i set set' ∧ set'.binding p i = .ok b' ∧
      (e.simplified.getD b.isSimple = b.isSimple → e.Amends lang b b') ∧
      (e.simplified.getD b.isSimple ≠ b.isSimple →
        e.Amends lang (.ofTokens (!b.isSimple) b.token) b' ∧ b'.reset.compiled lang = b') ∧
      (∃ findings, List.Forall₂ (RuleText.Reported lang fun p names => names = lang.unknown p)
          (if b'.isSimple then [] else e.texts i) findings ∧ reports = findings.flatten) ∧
      (∀ e' : BindingEdit, e'.simplified = e.simplified →
        (∀ f, (b'.field? f).isSome = true → e'.given? f = e.given? f) →
        (∀ t, e'.threshold = some t → t ≤ maxThreshold) →
        set.edit lang p i e' = .ok (reports, set')) ∧
      ∀ e' : BindingEdit, (∀ t, e'.threshold = some t → t ≤ maxThreshold) →
        ∃ reports' set'' b'', set'.edit lang p i e' = .ok (reports', set'') ∧
          set''.binding p i = .ok b'' ∧ ∀ edge, b''.token edge =
            (e'.ofEdge edge).action.getD ((e.ofEdge edge).action.getD (b.token edge)) := by
  obtain ⟨set', hset', hedit⟩ := edit_of_binding lang hb he
  have hb' := binding_modifyBinding hset' hb
  have hamends := e.amends_apply lang b
  rw [e.reshape_eq] at hamends
  refine ⟨_, set', e.apply lang b, hedit, fun σ => leads_edit lang hedit,
    sameBut_modifyBinding hset', hb', fun h => ?_, fun h => ?_, ?_,
    fun e' hsimplified hgiven he' => ?_, fun e' he' => ?_⟩
  · rwa [if_pos h] at hamends
  · rw [if_neg h] at hamends
    exact ⟨hamends, e.loaded_apply lang b h⟩
  · have hshape := (e.amends_apply lang b).shape
    rw [hshape, e.findings_eq lang i b]
    cases (e.reshape b).isSimple with
    | true => exact ⟨[], .nil, rfl⟩
    | false =>
        exact ⟨_, RuleText.forall₂_reported (RuleText.reported_findings lang) (e.texts i),
          List.flatMap_def⟩
  · obtain ⟨happly, hfindings⟩ := BindingEdit.apply_congr lang b hsimplified hgiven i
    obtain ⟨set'', hset'', hedit'⟩ := edit_of_binding lang hb he'
    rw [modifyBinding_congr hb happly, hset'] at hset''
    rw [hedit', hfindings, Except.ok.inj hset'']
  · obtain ⟨set'', hset'', hedit'⟩ := edit_of_binding lang hb' he'
    refine ⟨_, set'', _, hedit', binding_modifyBinding hset'' hb', fun edge => ?_⟩
    rw [e'.token_apply, e.token_apply]

/-- An edit of an advanced binding while a window is open, with a text that is no condition and a
threshold that the binding has no use for. -/
theorem edits_as_given_pending :
    let lang := RuleLanguage.flags [("blink", true)]
    let b : Binding String := .advanced ⟨"blink", 100, "down:space", some "blink", .pending 40⟩
      (.blank "up:space" .activated)
    let set : ProfileSet String := ⟨[⟨"Default", [.template, b]⟩], 0⟩
    let e : BindingEdit := ⟨none, none, some 70, ⟨none, some "!no", none⟩, ⟨none, none, some 250⟩⟩
    ∃ reports set' b', set.edit lang 0 1 e = .ok (reports, set') ∧
      set'.binding 0 0 = .ok .template ∧ set'.binding 0 1 = .ok b' ∧
      b'.standing = .inr (.pending 40, .activated) ∧ b'.field? (.logic .start) = some "!no" ∧
      b'.field? (.debounceMs .stop) = some (250 : UInt64) ∧ b'.field? .threshold = none ∧
      reports.map Diagnostic.code = [.compileFailed] := by
  intro lang b set e
  have he : ∀ t, e.threshold = some t → t ≤ maxThreshold := by simp [e, maxThreshold, maxScore]
  obtain ⟨reports, set', b', hedit, -, hsame, hb', hamends, -, ⟨findings, hfindings, hreports⟩,
    -⟩ := edits_as_given lang set 0 1 e b rfl he
  have hamends := hamends rfl
  have hother := hsame.bindings 0 0 (.inr (by decide))
  have hlogic := hamends.fields (.logic .start)
  have hdebounceMs := hamends.fields (.debounceMs .stop)
  refine ⟨reports, set', b', hedit, hother, hb', hamends.standing, hlogic, hdebounceMs,
    hamends.fields .threshold, ?_⟩
  have hshape : b'.isSimple = false := hamends.shape
  rw [hshape] at hfindings
  obtain ⟨ds, _, hds, hnil, rfl⟩ := List.forall₂_cons_left_iff.1 hfindings
  obtain rfl := List.forall₂_nil_left_iff.1 hnil
  cases hds with
  | blank hblank => exact absurd hblank (by decide)
  | rejected => rw [hreports]; rfl
  | accepted _ hcompile => exact nomatch hcompile

end ProfileSet

end Grimace
