import Grimace.Proofs.Action.Grammar

/-!
# Grimace.Proofs.Action.Shown

Steps written out as a token, and the token read again.

A step is shown as its verb, a colon and an argument, and steps with a semicolon between them.  That
is read as the same steps only if no argument has a semicolon or a line feed of its own, and none
ends in white space, which would be trimmed.  A text can break all of these; no step that was read
off a token does.

* `Step.Speakable` — the steps that a token can ask for, told without any token;
* `speakable_of_read` — there are no others in an action, whatever the token was;
* `read_shown` — these are read back, with numbers and keys in the one way that they are shown.
-/

namespace Grimace.Action

open Text (Blank Trimmed Numeral isBlank)

/-- Steps as a token that asks for them. -/
def shown (steps : List Step) : String := ";".intercalate (steps.map Step.text)

namespace Step

/-- What a step is called by. -/
def verb : Step → Verb
  | press _ => .key
  | hold _ => .down
  | release _ => .up
  | write _ => .text
  | click _ => .click
  | move _ _ => .move
  | scroll _ => .scroll

/-- What stands behind the colon when a step is shown. -/
def arg : Step → List Char
  | press key | hold key | release key => key.toList
  | write text => text.toList
  | click button => button.name.toList
  | move dx dy => Text.signedDecimal dx.toInt ++ ',' :: Text.signedDecimal dy.toInt
  | scroll n => Text.signedDecimal n.toInt

theorem toList_text (step : Step) :
    step.text.toList = step.verb.word.toList ++ ':' :: step.arg := by
  cases step <;> simp [text, verb, arg, Verb.word, int32Text]

/-- A token can ask for the step.  A key is named as a key is, and is no semicolon; a text has a
character, neither semicolon nor line feed, and no white space at its end.  All else is spelled
by its value. -/
def Speakable : Step → Prop
  | press key | hold key | release key => KeyName key.toList ∧ ';' ∉ key.toList
  | write text => text.toList ≠ [] ∧ ';' ∉ text.toList ∧ '\n' ∉ text.toList ∧
      ∀ c ∈ text.toList.getLast?, isBlank c = false
  | click _ | move _ _ | scroll _ => True

end Step

/-! ## Arguments as they are shown -/

/-- The text can stand behind a colon and be left as it is. -/
structure Carried (arg : List Char) : Prop where
  nonempty : arg ≠ []
  oneLine : '\n' ∉ arg
  uncut : ';' ∉ arg
  last : ∀ c ∈ arg.getLast?, isBlank c = false

/-- There is no white space and no semicolon in the text. -/
def Solid (cs : List Char) : Prop := ∀ c ∈ cs, isBlank c = false ∧ c ≠ ';'

instance : DecidablePred Solid := fun cs => List.decidableBAll _ cs

theorem Solid.append {cs ds : List Char} (hcs : Solid cs) (hds : Solid ds) : Solid (cs ++ ds) :=
  List.forall_mem_append.2 ⟨hcs, hds⟩

theorem Solid.carried {cs : List Char} (h : Solid cs) (hne : cs ≠ []) : Carried cs where
  nonempty := hne
  oneLine hmem := absurd (h _ hmem).1 (by decide)
  uncut hmem := (h _ hmem).2 rfl
  last c hc := (h c (List.mem_of_getLast? hc)).1

/-- A solid text is its own trimming. -/
theorem Solid.trimmed {cs : List Char} (h : Solid cs) : Trimmed cs cs where
  around := ⟨[], [], by simp, nofun, nofun⟩
  first c hc := (h c (List.mem_of_head? hc)).1
  last c hc := (h c (List.mem_of_getLast? hc)).1

theorem solid_word (verb : Verb) : Solid verb.word.toList := by
  cases verb <;> decide

theorem solid_button (button : MouseButton) : Solid button.name.toList := by
  cases button <;> decide

theorem numeral_signedDecimal (n : Int) : Numeral (Text.signedDecimal n) n :=
  Text.integer?_eq_some_iff.1 (Text.integer?_signedDecimal n)

theorem signedDecimal_ne_nil (n : Int) : Text.signedDecimal n ≠ [] := by
  cases n with
  | ofNat k => exact Text.decimal_ne_nil k
  | negSucc k => exact List.cons_ne_nil _ _

theorem solid_signedDecimal (n : Int) : Solid (Text.signedDecimal n) := by
  have hdigits : ∀ k, ∀ c ∈ Text.decimal k, isBlank c = false ∧ c ≠ ';' := by
    intro k c hc
    have hdigit : c.isDigit = true := Text.isDigit_of_mem_decimal hc
    refine ⟨Text.isBlank_of_isDigit hdigit, ?_⟩
    rintro rfl
    exact absurd hdigit (by decide)
  cases n with
  | ofNat k => exact hdigits k
  | negSucc k => exact List.forall_mem_cons.2 ⟨by decide, hdigits (k + 1)⟩

theorem solid_pair (x y : Int) :
    Solid (Text.signedDecimal x ++ ',' :: Text.signedDecimal y) := by
  have hcomma : Solid [','] := by decide
  exact (solid_signedDecimal x).append (hcomma.append (solid_signedDecimal y))

/-- What names a key shows, so there is no white space in it. -/
theorem KeyName.not_blank {key : List Char} (h : KeyName key) : ∀ c ∈ key, isBlank c = false := by
  -- All characters of a name are from `!` to `~`.
  have hvisible : ∀ c ∈ key, '!' ≤ c ∧ c ≤ '~' := by
    cases h with
    | sign hfirst hlast => simpa using ⟨hfirst, hlast⟩
    | word hc hcs =>
        have hletter : ∀ d, IsLetter d → '!' ≤ d ∧ d ≤ '~' := by
          rintro d (⟨hd, hd'⟩ | ⟨hd, hd'⟩)
          · exact ⟨Char.le_trans (by decide) hd, Char.le_trans hd' (by decide)⟩
          · exact ⟨Char.le_trans (by decide) hd, Char.le_trans hd' (by decide)⟩
        refine List.forall_mem_cons.2 ⟨hletter _ hc, fun d hd => ?_⟩
        rcases hcs d hd with hd | hd | rfl
        · exact hletter d hd
        · simp only [Char.isDigit, Bool.and_eq_true, decide_eq_true_eq] at hd
          exact ⟨Char.le_trans (by decide) hd.1, Char.le_trans hd.2 (by decide)⟩
        · decide
  intro c hc
  obtain ⟨hfirst, hlast⟩ := hvisible c hc
  have hlow : 33 ≤ c.toNat := UInt32.le_iff_toNat_le.1 hfirst
  have hhigh : c.toNat ≤ 126 := UInt32.le_iff_toNat_le.1 hlast
  simp only [isBlank, Bool.or_eq_false_iff, Bool.and_eq_false_imp, decide_eq_true_eq,
    decide_eq_false_iff_not, beq_eq_false_iff_ne]
  omega

theorem KeyName.solid {key : List Char} (h : KeyName key) (huncut : ';' ∉ key) : Solid key :=
  fun c hc => ⟨h.not_blank c hc, fun heq => huncut (heq ▸ hc)⟩

namespace Step

variable {step : Step}

/-- What a step shows behind its colon is left as it is. -/
theorem Speakable.carried (h : step.Speakable) : Carried step.arg := by
  cases step with
  | press key | hold key | release key =>
      obtain ⟨hname, huncut⟩ := h
      have hne : key.toList ≠ [] := by
        intro hnil
        rw [hnil] at hname
        cases hname
      exact (hname.solid huncut).carried hne
  | write text =>
      obtain ⟨hne, huncut, honeLine, hlast⟩ := h
      exact ⟨hne, honeLine, huncut, hlast⟩
  | click button => exact (solid_button button).carried (by cases button <;> decide)
  | move dx dy => exact (solid_pair dx.toInt dy.toInt).carried (by simp)
  | scroll n =>
      exact (solid_signedDecimal n.toInt).carried (signedDecimal_ne_nil n.toInt)

/-- What a step shows stands for the step. -/
theorem Speakable.denotes (h : step.Speakable) : Denotes step.verb step.arg step := by
  cases step with
  | press key => simpa [verb, arg] using Denotes.press (h.1.solid h.2).trimmed h.1
  | hold key => simpa [verb, arg] using Denotes.hold (h.1.solid h.2).trimmed h.1
  | release key => simpa [verb, arg] using Denotes.release (h.1.solid h.2).trimmed h.1
  | write text => simpa [verb, arg] using @Denotes.write text.toList
  | click button =>
      have htrimmed := (solid_button button).trimmed
      exact .click htrimmed (by cases button <;> decide)
  | move dx dy =>
      have hblank : Blank [] := nofun
      have hdisplacement : Displacement dx dy _ := .mk (numeral_signedDecimal dx.toInt)
        hblank hblank (numeral_signedDecimal dy.toInt)
      exact .move (solid_pair dx.toInt dy.toInt).trimmed (by simpa using hdisplacement)
  | scroll n => exact .scroll (solid_signedDecimal n.toInt).trimmed (numeral_signedDecimal n.toInt)

theorem Speakable.uncut (h : step.Speakable) : ';' ∉ step.text.toList := by
  have hverb : ';' ∉ step.verb.word.toList := fun hmem => (solid_word step.verb _ hmem).2 rfl
  rw [toList_text]
  simp [hverb, h.carried.uncut]

theorem not_blank_text (step : Step) : ¬ Blank step.text.toList := by
  intro hblank
  rw [toList_text] at hblank
  exact absurd (hblank ':' (by simp)) (by decide)

/-- A step that is shown is a piece that writes it. -/
theorem Speakable.writes (h : step.Speakable) : Writes step.text.toList step := by
  have hfirst : ∀ c ∈ step.text.toList.head?, isBlank c = false := by
    rw [toList_text]
    cases step.verb <;> simp [Verb.word, isBlank]
  have hlast : ∀ c ∈ step.text.toList.getLast?, isBlank c = false := by
    rw [toList_text, List.getLast?_append_of_ne_nil _ (List.cons_ne_nil _ _),
      List.getLast?_cons_of_ne_nil h.carried.nonempty]
    exact h.carried.last
  have hblank : Blank [] := List.forall_mem_nil _
  have htrimmed : Trimmed step.text.toList step.text.toList :=
    ⟨⟨[], [], by simp, hblank, hblank⟩, hfirst, hlast⟩
  exact .mk htrimmed ⟨toList_text step, h.carried.nonempty, h.carried.oneLine⟩ h.denotes

end Step

/-! ## Steps that were read -/

/-- A piece without a semicolon writes no step but a speakable one. -/
theorem Writes.speakable {piece : List Char} {step : Step} (h : Writes piece step)
    (huncut : ';' ∉ piece) : step.Speakable := by
  obtain ⟨htrimmed, hcalls, hdenotes⟩ := h
  next segment arg verb =>
  -- Whatever the argument has in it is in the piece as well.
  have harg : ∀ c ∈ arg, c ∈ piece := by
    obtain ⟨before, after, rfl, -, -⟩ := htrimmed.around
    intro c hc
    simp [hcalls.text, hc]
  have hkey : ∀ {key : List Char}, Trimmed key arg → KeyName key →
      KeyName (String.ofList key).toList ∧ ';' ∉ (String.ofList key).toList := by
    intro key hkey hname
    obtain ⟨before, after, rfl, -, -⟩ := hkey.around
    rw [String.toList_ofList]
    exact ⟨hname, fun hmem => huncut (harg _ (by simp [hmem]))⟩
  cases hdenotes with
  | press hkeyText hname | hold hkeyText hname | release hkeyText hname =>
      exact hkey hkeyText hname
  | write =>
      have hlast : ∀ c ∈ arg.getLast?, isBlank c = false := by
        intro c hc
        have hsegment : segment.getLast? = some c := by
          rw [hcalls.text, List.getLast?_append_of_ne_nil _ (List.cons_ne_nil _ _),
            List.getLast?_cons_of_ne_nil hcalls.nonempty]
          exact hc
        exact htrimmed.last c hsegment
      simp only [Step.Speakable, String.toList_ofList]
      exact ⟨hcalls.nonempty, fun hmem => huncut (harg _ hmem), hcalls.oneLine, hlast⟩
  | click | move | scroll => trivial

/-- **Whatever the token was**, a step that was read off it can be asked for again. -/
theorem speakable_of_read {token : String} {a : Action} (h : Dispatcher.read token = .ok a) :
    ∀ step ∈ a.steps, step.Speakable := by
  have hcut : Text.Cut ';' token.toList (Text.splitOn ';' token.toList) :=
    Text.splitOn_eq_iff.1 rfl
  have hsteps := (read_eq_ok_iff.1 h).2
  rw [stepTexts_eq hcut, readSteps_eq_ok_iff] at hsteps
  generalize a.steps = steps at hsteps ⊢
  have huncut : ∀ piece ∈ counting (Text.splitOn ';' token.toList), ';' ∉ piece :=
    fun piece hpiece => hcut.uncut piece (List.mem_of_mem_filter hpiece)
  generalize counting (Text.splitOn ';' token.toList) = pieces at hsteps huncut
  induction hsteps with
  | nil => nofun
  | cons hwrites _ ih =>
      obtain ⟨hpiece, hpieces⟩ := List.forall_mem_cons.1 huncut
      exact List.forall_mem_cons.2 ⟨hwrites.speakable hpiece, ih hpieces⟩

/-! ## Steps that are shown -/

/-- Steps that are shown are cut where one ends and the next begins. -/
theorem cut_shown {steps : List Step} (hne : steps ≠ []) (h : ∀ step ∈ steps, step.Speakable) :
    Text.Cut ';' (shown steps).toList (steps.map fun step => step.text.toList) where
  joined := by simp [shown, String.toList_intercalate, Function.comp_def]
  nonempty := by simpa using hne
  uncut := by
    intro piece hpiece
    obtain ⟨step, hstep, rfl⟩ := List.mem_map.1 hpiece
    exact (h step hstep).uncut

/-- Speakable steps are read off the token that shows them. -/
theorem read_shown {steps : List Step} (h : ∀ step ∈ steps, step.Speakable) :
    Dispatcher.read (shown steps) = .ok ⟨shown steps, steps⟩ := by
  by_cases hne : steps = []
  · subst hne
    rfl
  have hcounting : counting (steps.map fun step => step.text.toList) =
      steps.map fun step => step.text.toList := by
    simp [counting, List.filter_map, Function.comp_def, Step.not_blank_text]
  rw [read_eq_ok_iff, stepTexts_eq (cut_shown hne h), hcounting, readSteps_eq_ok_iff,
    List.forall₂_map_left_iff, List.forall₂_same]
  exact ⟨rfl, fun step hstep => (h step hstep).writes⟩

/-- A token can ask for just the steps that are speakable. -/
theorem exists_read_iff_speakable {steps : List Step} :
    (∃ token a, Dispatcher.read token = .ok a ∧ a.steps = steps) ↔
      ∀ step ∈ steps, step.Speakable := by
  constructor
  · rintro ⟨token, a, hread, rfl⟩
    exact speakable_of_read hread
  · intro h
    exact ⟨shown steps, _, read_shown h, rfl⟩

/-- **What is shown is read back.**  Whatever token the steps of an action were read off, the token
that shows them is an action with the same steps. -/
theorem shown_reads_back {token : String} {a : Action} (h : Dispatcher.read token = .ok a) :
    Dispatcher.read (shown a.steps) = .ok ⟨shown a.steps, a.steps⟩ :=
  read_shown (speakable_of_read h)

/-- Keys that are signs of the grammar, a text with white space in front and inside, a zero that
was negative, and the numbers at both ends. -/
theorem shown_reads_back_signs :
    let token := " key: : ;up:-; ;text:  a: b ;move:-0 , 2147483647;scroll:-2147483648"
    let steps : List Step :=
      [.press ":", .release "-", .write "  a: b", .move 0 2147483647, .scroll (-2147483648)]
    Dispatcher.read token = .ok ⟨token, steps⟩ ∧
      shown steps = "key::;up:-;text:  a: b;move:0,2147483647;scroll:-2147483648" ∧
      Dispatcher.read (shown steps) = .ok ⟨shown steps, steps⟩ :=
  have hread : Dispatcher.read _ = .ok ⟨
      " key: : ;up:-; ;text:  a: b ;move:-0 , 2147483647;scroll:-2147483648", _⟩ := by rfl
  ⟨hread, by decide, shown_reads_back hread⟩

end Grimace.Action
