import Grimace.Proofs.Expr.Reads
import Grimace.Proofs.Session.Place
import Mathlib.Data.List.Basic
import Mathlib.Data.List.Forall2

/-!
# Grimace.Proofs.Session.Findings

What there is to say about texts, told text by text.

A set of profiles has texts in the order of its profiles, bindings and edges, and an edit gives
texts in the order of the edges.  What is reported of a text depends on the text alone: nothing if
it is blank, one report if it is rejected, and otherwise one report for each name that it reads in
vain.

* `RuleText.Reported` — what is reported of one text, in any language;
* `ProfileSet.findings_eq`, `BindingEdit.findings_eq` — what is reported of a set and of an edit,
  one text after the other;
* `RuleText.reported_expressions` — of an expression, the names that are told are those that occur
  in its tree and not in the vocabulary, in ascending order;
* `RuleText.Reported.ne_nil_iff` — so there is something to say exactly of the faulty texts.
-/

namespace Grimace

variable {π : Type}

/-! ## Texts -/

/-- A text for an edge of a binding. -/
structure RuleText where
  binding : Nat
  edge : Edge
  text : String
deriving Repr, DecidableEq

/-- How a report names the edge. -/
def RuleText.subject (t : RuleText) : String := s!"binding #{t.binding} {t.edge.name}"

/-- The texts of a binding. -/
def Binding.texts (i : Nat) (b : Binding π) : List RuleText :=
  [Edge.start, Edge.stop].filterMap fun edge =>
    (b.rule? edge).map fun r => ⟨i, edge, r.logic⟩

/-- The texts of all profiles, in the order of profiles, bindings and edges. -/
def ProfileSet.texts (set : ProfileSet π) : List RuleText :=
  set.profiles.flatMap fun p => p.bindings.zipIdx.flatMap fun (b, i) => b.texts i

/-- The texts that an edit gives to a binding. -/
def BindingEdit.texts (i : Nat) (e : BindingEdit) : List RuleText :=
  [Edge.start, Edge.stop].filterMap fun edge =>
    (e.ofEdge edge).logic.map fun source => ⟨i, edge, source⟩

/-- What is reported of a text, where `Vain` tells the names that a predicate reads in vain. -/
inductive RuleText.Reported (lang : RuleLanguage π) (Vain : π → List String → Prop)
    (t : RuleText) : List Diagnostic → Prop where
  | blank (hblank : Text.isBlankText t.text = true) : Reported lang Vain t []
  | rejected {e : CompileError} (hblank : Text.isBlankText t.text = false)
    (hcompile : lang.compile t.text = .error e) :
    Reported lang Vain t [⟨.compileFailed, t.subject, s!"'{t.text}': {e.message}"⟩]
  | accepted {p : π} {names : List String} (hblank : Text.isBlankText t.text = false)
    (hcompile : lang.compile t.text = .ok p) (hnames : Vain p names) :
    Reported lang Vain t
      (names.map fun name => ⟨.unknownBlendshape, t.subject, s!"'{name}' in '{t.text}'"⟩)

/-- The names that a predicate reads and that are not in the vocabulary. -/
def RuleLanguage.unknown (lang : RuleLanguage π) (p : π) : List String :=
  (lang.reads p).filter (· ∉ Blendshape.names)

/-- What there is to say about a text. -/
def RuleText.findings (lang : RuleLanguage π) (t : RuleText) : List Diagnostic :=
  EdgeRule.findings lang (edgeSubject t.binding t.edge) ⟨t.text, 0, "", none, .idle⟩

namespace RuleText

variable {lang : RuleLanguage π} {t : RuleText} {ds : List Diagnostic}

/-- What there is to say about a text is what has to be reported of it. -/
theorem reported_findings (lang : RuleLanguage π) (t : RuleText) :
    t.Reported lang (fun p names => names = lang.unknown p) (t.findings lang) := by
  unfold findings EdgeRule.findings
  dsimp only
  cases hblank : Text.isBlankText t.text with
  | true => exact .blank hblank
  | false =>
      cases hcompile : lang.compile t.text with
      | error e => exact .rejected hblank hcompile
      | ok p =>
          have hunknown : (lang.reads p).filter (fun name => !Blendshape.isKnown name) =
              lang.unknown p :=
            List.filter_congr fun name _ => by simp [Blendshape.isKnown]
          simp only [Bool.false_eq_true, if_false, hunknown]
          exact .accepted hblank hcompile rfl

/-- So texts have reports, one after the other. -/
theorem forall₂_reported {Vain : π → List String → Prop}
    (h : ∀ t : RuleText, t.Reported lang Vain (t.findings lang)) (ts : List RuleText) :
    List.Forall₂ (Reported lang Vain) ts (ts.map (findings lang)) := by
  rw [List.forall₂_map_right_iff, List.forall₂_same]
  exact fun t _ => h t

theorem Reported.mono {Vain Vain' : π → List String → Prop} (h : t.Reported lang Vain ds)
    (hvain : ∀ p names, lang.compile t.text = .ok p → Vain p names → Vain' p names) :
    t.Reported lang Vain' ds := by
  cases h with
  | blank hblank => exact .blank hblank
  | rejected hblank hcompile => exact .rejected hblank hcompile
  | accepted hblank hcompile hnames => exact .accepted hblank hcompile (hvain _ _ hcompile hnames)

/-- Whatever is reported of a text is a failure. -/
theorem Reported.isFailure {Vain : π → List String → Prop} (h : t.Reported lang Vain ds) :
    ∀ d ∈ ds, d.code.isFailure = true := by
  cases h with
  | blank => simp
  | rejected => simp [Reason.isFailure]
  | accepted => simp [Reason.isFailure]

end RuleText

/-! ## Sets and edits -/

/-- What there is to say about a binding is what there is to say about its texts. -/
theorem Binding.findings_eq (lang : RuleLanguage π) (i : Nat) (b : Binding π) :
    b.findings lang i = (b.texts i).flatMap (RuleText.findings lang) := by
  cases b <;> simp [Binding.findings, Binding.texts, Binding.rule?, RuleText.findings,
    EdgeRule.findings]

/-- What there is to say about a set is what there is to say about its texts. -/
theorem ProfileSet.findings_eq (lang : RuleLanguage π) (set : ProfileSet π) :
    set.findings lang = set.texts.flatMap (RuleText.findings lang) := by
  have hbindings : ∀ bs : List (Binding π),
      (bs.mapIdx fun i b => b.findings lang i).flatten =
        (bs.zipIdx.flatMap fun (b, i) => b.texts i).flatMap (RuleText.findings lang) := by
    intro bs
    rw [List.mapIdx_eq_zipIdx_map, List.flatMap_assoc, ← List.flatMap_def]
    exact List.flatMap_congr fun x _ => x.1.findings_eq lang x.2
  simp only [ProfileSet.findings, ProfileSet.texts, List.flatMap_assoc, hbindings]

/-- What there is to say about an edit is what there is to say about the texts that it gives, if
the binding then has a place for them. -/
theorem BindingEdit.findings_eq (lang : RuleLanguage π) (i : Nat) (e : BindingEdit)
    (b : Binding π) :
    e.findings lang i b = if (e.reshape b).isSimple then []
      else (e.texts i).flatMap (RuleText.findings lang) := by
  unfold BindingEdit.findings
  cases e.reshape b with
  | simple r => simp [Binding.isSimple]
  | advanced start stop =>
      cases hstart : e.start.logic <;> cases hstop : e.stop.logic <;>
        simp [EdgeEdit.findings, BindingEdit.texts, BindingEdit.ofEdge, RuleText.findings,
          Binding.isSimple, hstart, hstop]

theorem Binding.mem_texts_iff {i : Nat} {b : Binding π} {t : RuleText} :
    t ∈ b.texts i ↔ t.binding = i ∧ ∃ r, b.rule? t.edge = some r ∧ r.logic = t.text := by
  have hedge : ∀ edge, edge ∈ [Edge.start, Edge.stop] := by
    intro edge
    cases edge <;> simp
  simp only [Binding.texts, List.mem_filterMap, Option.map_eq_some_iff]
  constructor
  · rintro ⟨edge, -, r, hr, rfl⟩
    exact ⟨rfl, r, hr, rfl⟩
  · rintro ⟨rfl, r, hr, htext⟩
    exact ⟨t.edge, hedge t.edge, r, hr, by rw [htext]⟩

/-- The texts of a set are those of its rules. -/
theorem ProfileSet.mem_texts_iff {set : ProfileSet π} {t : RuleText} :
    t ∈ set.texts ↔
      ∃ p r, set.rule? ⟨p, t.binding, t.edge⟩ = some r ∧ r.logic = t.text := by
  simp only [texts, List.mem_flatMap, Prod.exists, List.mem_zipIdx_iff_getElem?,
    Binding.mem_texts_iff, rule?_eq_some_iff]
  constructor
  · rintro ⟨profile, hprofile, b, i, hb, rfl, r, hr, htext⟩
    obtain ⟨p, hp⟩ := List.mem_iff_getElem?.1 hprofile
    exact ⟨p, r, ⟨profile, b, hp, hb, hr⟩, htext⟩
  · rintro ⟨p, r, ⟨profile, b, hp, hb, hr⟩, htext⟩
    exact ⟨profile, List.mem_of_getElem? hp, b, t.binding, hb, rfl, r, hr, htext⟩

/-! ## Expressions -/

/-- The names that are told of a condition: those that occur in its tree and not in the
vocabulary, each once, in ascending order. -/
structure Condition.ReadsInVain (c : Condition) (names : List String) : Prop where
  ascending : names.Pairwise (· < ·)
  unknown : ∀ name, name ∈ names ↔ Expr.Occurs (.var name) c.expr ∧ name ∉ Blendshape.names

/-- There is something wrong with a text: it is no condition, or one with a name that no frame
will ever carry. -/
def IsFaulty (text : String) : Prop :=
  Text.isBlankText text = false ∧
    ((∃ e, compile text = .error e) ∨
      ∃ c name, compile text = .ok c ∧ Expr.Occurs (.var name) c.expr ∧ name ∉ Blendshape.names)

theorem Condition.readsInVain_unknown {text : String} {c : Condition}
    (h : compile text = .ok c) : c.ReadsInVain (RuleLanguage.expressions.unknown c) := by
  obtain ⟨e, -, rfl, -⟩ := compile_eq_ok_iff.1 h
  refine ⟨(ascending_distinct e.reads).filter _, fun name => ?_⟩
  simp only [RuleLanguage.unknown, RuleLanguage.expressions, ofExpr, List.mem_filter,
    mem_distinct, Expr.mem_reads_iff, decide_eq_true_eq]

namespace RuleText

variable {t : RuleText} {ds : List Diagnostic}

/-- **What is told of an expression**: the names that occur in its tree and not in the
vocabulary. -/
theorem reported_expressions (t : RuleText) :
    t.Reported .expressions Condition.ReadsInVain (t.findings .expressions) := by
  refine (t.reported_findings .expressions).mono fun c names hcompile hnames => ?_
  rw [hnames]
  exact Condition.readsInVain_unknown hcompile

/-- There is something to say about the faulty texts, and about no others. -/
theorem Reported.ne_nil_iff (h : t.Reported .expressions Condition.ReadsInVain ds) :
    ds ≠ [] ↔ IsFaulty t.text := by
  cases h with
  | blank hblank => simp [IsFaulty, hblank]
  | @rejected e hblank hcompile =>
      have hrejected : compile t.text = .error e := hcompile
      simp [IsFaulty, hblank, hrejected]
  | @accepted c names hblank hcompile hnames =>
      have haccepted : compile t.text = .ok c := hcompile
      rw [Ne, List.map_eq_nil_iff, List.eq_nil_iff_forall_not_mem]
      simp [IsFaulty, hblank, haccepted, hnames.unknown]

end RuleText

end Grimace
