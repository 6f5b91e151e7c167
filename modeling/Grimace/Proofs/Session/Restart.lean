import Grimace.Proofs.Session.Reload

/-!
# Grimace.Proofs.Session.Restart

What a normalization leaves of a session: nothing but what is in its file.

A normalization reads the texts, the thresholds and the tokens of a set and its selection, and
writes over everything else.  What it reads is what a file keeps (`ProfileSet.stored`), so it does
not matter whether a set is normalized as it is, or saved and loaded before that, or normalized
twice.

* `ProfileSet.normalize_normalize`, `ProfileSet.findings_normalize` — a second time nothing changes
  and the same is said;
* `ProfileSet.stored_eq_of_write_eq` — what is written alike is the same once it is stored;
* `ProfileSet.normalize_forgets` — so a session that is started again begins as new.
-/

namespace Grimace

variable {π : Type}

theorem Binding.unmoved_simple_iff {r : SimpleRule} :
    (Binding.simple r : Binding π).Unmoved ↔ r.activated = false := by
  obtain ⟨blendshape, threshold, startAction, stopAction, activated⟩ := r
  simp [Unmoved, Binding.reset, eq_comm]

namespace ProfileSet

/-! ## Once and twice -/

/-- After a normalization there is nothing left to normalize. -/
theorem normalize_normalize (lang : RuleLanguage π) (set : ProfileSet π) :
    (set.normalize lang).normalize lang = set.normalize lang := by
  have hselection := set.selectionInRange_normalize lang
  have hcurrent : (set.normalize lang).All (Binding.Current lang) :=
    all_normalize fun _ _ b _ => b.reset.current_compiled
  have hunmoved : (set.normalize lang).All Binding.Unmoved :=
    all_normalize fun _ _ b _ => b.unmoved_compiled_reset lang
  exact normalize_eq_self hselection hcurrent hunmoved

theorem profiles_clampSelection (set : ProfileSet π) :
    set.clampSelection.profiles = set.profiles := by
  unfold clampSelection
  split <;> rfl

theorem findings_clampSelection (lang : RuleLanguage π) (set : ProfileSet π) :
    set.clampSelection.findings lang = set.findings lang := by
  unfold findings
  rw [profiles_clampSelection]

/-- There is the same to say of the texts afterwards. -/
theorem findings_normalize (lang : RuleLanguage π) (set : ProfileSet π) :
    (set.normalize lang).findings lang = set.findings lang := by
  have htexts : ∀ i (b : Binding π), (b.reset.compiled lang).findings lang i = b.findings lang i :=
    fun i b => by cases b <;> rfl
  rw [normalize_eq_mapBindings, findings_mapBindings _ htexts, findings_clampSelection]

/-- A selection that was brought into range before makes no difference. -/
theorem normalize_clampSelection (lang : RuleLanguage π) (set : ProfileSet π) :
    set.clampSelection.normalize lang = set.normalize lang := by
  have hselection := set.selectionInRange_clampSelection
  rw [normalize_eq_mapBindings, normalize_eq_mapBindings, clampSelection_of_inRange hselection]

/-! ## What is written -/

theorem findings_stored (lang : RuleLanguage π) (set : ProfileSet π) :
    set.stored.findings lang = set.findings lang :=
  set.findings_mapBindings fun i b => by cases b <;> rfl

/-- Sets that are written alike, in either layout, are the same but for where their rules stand. -/
theorem stored_eq_of_write_eq {l : Json.Layout} {set set' : ProfileSet π}
    (h : Json.write l 0 set'.toJson = Json.write l 0 set.toJson) : set'.stored = set.stored := by
  have hread := Json.read_write l set.toJson set.isExact_toJson
  have hread' := Json.read_write l set'.toJson set'.isExact_toJson
  rw [h, hread] at hread'
  have hdraft : Json.Draft.ofJson set.toJson = .ofJson set'.toJson := congrArg Prod.fst hread'
  have hstored := set.ofDraft_toJson
  rw [hdraft, set'.ofDraft_toJson] at hstored
  exact Except.ok.inj hstored

/-! ## A new start -/

/-- **A normalization forgets the session.**  Take a set in whatever state: with rules that are
activated or have a window open, or both, which no session leads to; with any predicates and with
a stale selection.

Normalized a second time it is the same, and the same is said of its texts.  Sets that are written
alike, in either layout, are normalized alike with the same said of their texts.  A set whose
thresholds are within the scores is loaded from its file, and what is loaded is normalized as the
set itself is.

Afterwards no simple binding is activated, and of an advanced one the start is idle and the stop
activated; so no window is open, and nothing goes on where an earlier session stopped. -/
theorem normalize_forgets (lang : RuleLanguage π) (set : ProfileSet π) :
    let normal := set.normalize lang
    (normal.normalize lang = normal ∧ normal.findings lang = set.findings lang) ∧
      (∀ (l : Json.Layout) (set' : ProfileSet π),
        Json.write l 0 set'.toJson = Json.write l 0 set.toJson →
          set'.normalize lang = normal ∧ set'.findings lang = set.findings lang) ∧
      ((set.All fun b => b.isValid = true) → ∃ loaded : ProfileSet π,
        load (.ok set.fileText.toUTF8) = .ok loaded ∧
          loaded.normalize lang = normal ∧ loaded.findings lang = set.findings lang) ∧
      ∀ p ∈ normal.profiles,
        (∀ r, Binding.simple r ∈ p.bindings → r.activated = false) ∧
          ∀ start stop, Binding.advanced start stop ∈ p.bindings →
            start.phase = .idle ∧ stop.phase = .activated := by
  intro normal
  refine ⟨⟨set.normalize_normalize lang, set.findings_normalize lang⟩, ?_, ?_, ?_⟩
  · intro l set' hwritten
    have hstored := stored_eq_of_write_eq hwritten
    constructor
    · rw [← normalize_stored, hstored, normalize_stored]
    · rw [← findings_stored, hstored, findings_stored]
  · intro hvalid
    refine ⟨set.stored.clampSelection, load_fileText_clamped hvalid, ?_, ?_⟩
    · rw [normalize_clampSelection, normalize_stored]
    · rw [findings_clampSelection, findings_stored]
  · have hunmoved : normal.All Binding.Unmoved :=
      all_normalize fun _ _ b _ => b.unmoved_compiled_reset lang
    intro p hp
    constructor
    · intro r hr
      exact Binding.unmoved_simple_iff.1 (hunmoved p hp _ hr)
    · intro start stop hb
      exact Binding.unmoved_advanced_iff.1 (hunmoved p hp _ hb)

/-- Two states of one set, with a stale selection, a rule that is activated with a window open in
the one and a predicate of some other text in the other. -/
theorem normalize_forgets_pending :
    let lang := RuleLanguage.flags [("blink", true)]
    let set (activated : Bool) (predicate : Option String) (phase : Phase) : ProfileSet String :=
      ⟨[⟨"Default", [.simple ⟨"jawOpen", 100, "key:a", "", activated⟩,
        .advanced ⟨"blink", 5, "key:b", predicate, phase⟩ ⟨"!no", 0, "", none, .idle⟩]⟩], 7⟩
    let one := set true none ⟨true, some 3.5⟩
    let other := set false (some "wink") .activated
    Json.write ⟨true⟩ 0 other.toJson = Json.write ⟨true⟩ 0 one.toJson ∧
      (one.All fun b => b.isValid = true) ∧
      (other.normalize lang = one.normalize lang ∧ other.findings lang = one.findings lang ∧
        (one.findings lang).length = 1) ∧
      ((one.normalize lang).normalize lang = one.normalize lang ∧
        (one.normalize lang).selection = 0) ∧
      ∃ loaded : ProfileSet String, load (.ok one.fileText.toUTF8) = .ok loaded ∧
        loaded.normalize lang = one.normalize lang := by
  intro lang set one other
  have hvalid : one.All fun b => b.isValid = true := by
    simp [ProfileSet.All, one, set, Binding.isValid]; decide
  obtain ⟨⟨htwice, -⟩, halike, hload, -⟩ := normalize_forgets lang one
  obtain ⟨hsame, hfindings⟩ := halike ⟨true⟩ other rfl
  obtain ⟨loaded, hloaded, hnormal, -⟩ := hload hvalid
  exact ⟨rfl, hvalid, ⟨hsame, hfindings, by decide +kernel⟩, ⟨htwice, rfl⟩, loaded, hloaded,
    hnormal⟩

end ProfileSet

end Grimace
