import Grimace.Dispatcher
import Grimace.Proofs.Except
import Grimace.Proofs.Text.Reading
import Mathlib.Data.List.Forall2

/-!
# Grimace.Proofs.Action.Grammar

The grammar of tokens, apart from any way to read them.

A token is cut at its semicolons, and pieces of nothing but white space are left out.  Any other
piece is, without the white space around it, a verb, a colon and an argument:

* `Action.Denotes` — the step that a verb and an argument stand for;
* `Action.Misuse` — what is said of an argument that is none for its verb;
* `Action.Writes`, `Action.Flawed` — the same of a whole piece.

The readers do as the grammar says, one after the other: `Verb.read_eq_ok_iff` and
`Verb.read_eq_error_iff` for arguments, `readStep_eq_ok_iff` and `readStep_eq_error_iff` for
pieces.  `Action.read_by_grammar` puts the pieces together.
-/

namespace Grimace.Action

open Text (Blank Trimmed Numeral)

/-! ## The grammar -/

/-- A letter of ASCII. -/
def IsLetter (c : Char) : Prop := 'A' ≤ c ∧ c ≤ 'Z' ∨ 'a' ≤ c ∧ c ≤ 'z'

/-- The text names a key: by a word that starts with a letter, or by a character that shows. -/
inductive KeyName : List Char → Prop where
  | word {c : Char} {cs : List Char} : IsLetter c →
    (∀ d ∈ cs, IsLetter d ∨ d.isDigit = true ∨ d = '_') → KeyName (c :: cs)
  | sign {c : Char} : '!' ≤ c → c ≤ '~' → KeyName [c]

/-- The text writes two numbers with a comma between them and white space around the comma. -/
inductive Displacement (dx dy : Int32) : List Char → Prop where
  | mk {x before after y : List Char} : Numeral x dx.toInt → Blank before → Blank after →
    Numeral y dy.toInt → Displacement dx dy (x ++ before ++ ',' :: (after ++ y))

/-- What a step can be called by. -/
inductive Verb where
  | key | down | up | text | click | move | scroll
deriving Repr, DecidableEq

/-- A verb as it is written. -/
def Verb.word : Verb → String
  | key => "key"
  | down => "down"
  | up => "up"
  | text => "text"
  | click => "click"
  | move => "move"
  | scroll => "scroll"

/-- The step that a verb and its argument stand for.  A text is taken as it is, anything else
without the white space around it; the name of a button may be written in either case. -/
inductive Denotes : Verb → List Char → Step → Prop where
  | press {arg key : List Char} : Trimmed key arg → KeyName key →
    Denotes .key arg (.press (String.ofList key))
  | hold {arg key : List Char} : Trimmed key arg → KeyName key →
    Denotes .down arg (.hold (String.ofList key))
  | release {arg key : List Char} : Trimmed key arg → KeyName key →
    Denotes .up arg (.release (String.ofList key))
  | write {arg : List Char} : Denotes .text arg (.write (String.ofList arg))
  | click {arg name : List Char} {button : MouseButton} : Trimmed name arg →
    name.map Char.toLower = button.name.toList → Denotes .click arg (.click button)
  | move {arg pair : List Char} {dx dy : Int32} : Trimmed pair arg → Displacement dx dy pair →
    Denotes .move arg (.move dx dy)
  | scroll {arg number : List Char} {n : Int32} : Trimmed number arg → Numeral number n.toInt →
    Denotes .scroll arg (.scroll n)

/-- What is said of an argument that stands for no step with its verb. -/
inductive Misuse : Verb → List Char → Fault → Prop where
  | key {verb : Verb} {arg key : List Char} : verb = .key ∨ verb = .down ∨ verb = .up →
    Trimmed key arg → ¬ KeyName key → Misuse verb arg (.badKey (String.ofList key))
  | click {arg name : List Char} : Trimmed name arg →
    (∀ button : MouseButton, name.map Char.toLower ≠ button.name.toList) →
    Misuse .click arg (.badButton (String.ofList (name.map Char.toLower)))
  | move {arg pair : List Char} : Trimmed pair arg → (∀ dx dy, ¬ Displacement dx dy pair) →
    Misuse .move arg (.badMove (String.ofList arg))
  | scroll {arg number : List Char} : Trimmed number arg →
    (∀ n : Int32, ¬ Numeral number n.toInt) → Misuse .scroll arg (.badScroll (String.ofList number))

/-- The segment is a verb, a colon and an argument, which has a character and no line feed. -/
structure Calls (segment : List Char) (verb : Verb) (arg : List Char) : Prop where
  text : segment = verb.word.toList ++ ':' :: arg
  nonempty : arg ≠ []
  oneLine : '\n' ∉ arg

/-- The piece of a token writes a step, with white space around it. -/
inductive Writes (piece : List Char) : Step → Prop where
  | mk {segment arg : List Char} {verb : Verb} {step : Step} : Trimmed segment piece →
    Calls segment verb arg → Denotes verb arg step → Writes piece step

/-- What is said of a piece that writes no step. -/
inductive Flawed (piece : List Char) : Fault → Prop where
  | unknown {segment : List Char} : Trimmed segment piece → (∀ verb arg, ¬ Calls segment verb arg) →
    Flawed piece (.unknownStep (String.ofList segment))
  | misuse {segment arg : List Char} {verb : Verb} {fault : Fault} : Trimmed segment piece →
    Calls segment verb arg → Misuse verb arg fault → Flawed piece fault

/-- The pieces that count: those that are not of white space alone. -/
def counting (pieces : List (List Char)) : List (List Char) := pieces.filter (¬ Blank ·)

/-! ## Parts of an argument -/

theorem isAlpha_iff {c : Char} : c.isAlpha = true ↔ IsLetter c := by
  have hupper : c.isUpper = true ↔ 'A' ≤ c ∧ c ≤ 'Z' := decide_eq_true_iff
  have hlower : c.isLower = true ↔ 'a' ≤ c ∧ c ≤ 'z' :=
    Bool.and_eq_true_iff.trans (and_congr decide_eq_true_iff decide_eq_true_iff)
  exact Bool.or_eq_true_iff.trans (or_congr hupper hlower)

theorem isKey_iff {cs : List Char} : isKey cs = true ↔ KeyName cs := by
  constructor
  · intro h
    cases cs with
    | nil => contradiction
    | cons c cs =>
        simp only [isKey, isVisible, Char.isAlphanum, Bool.or_eq_true, Bool.and_eq_true,
          List.all_eq_true, isAlpha_iff, beq_iff_eq, List.isEmpty_iff, decide_eq_true_eq,
          or_assoc] at h
        rcases h with ⟨hc, hcs⟩ | ⟨rfl, hfirst, hlast⟩
        · exact .word hc hcs
        · exact .sign hfirst hlast
  · intro h
    cases h with
    | @word c cs hc hcs =>
        have hall : cs.all (fun d => d.isAlphanum || d == '_') = true := by
          simpa [Char.isAlphanum, isAlpha_iff, or_assoc] using hcs
        simp [isKey, isAlpha_iff, hc, hall]
    | sign hfirst hlast => simp [isKey, isVisible, hfirst, hlast]

theorem int32?_eq_some_iff {cs : List Char} {n : Int32} :
    int32? cs = some n ↔ Numeral cs n.toInt := by
  rw [← Text.integer?_eq_some_iff, int32?, Option.bind_eq_some_iff]
  constructor
  · rintro ⟨k, hk, hn⟩
    split at hn
    · next hrange =>
      obtain rfl := Option.some.inj hn
      rw [Int32.toInt_ofInt_of_le hrange.1 (Int.lt_of_le_of_lt hrange.2 (by decide)), hk]
    · contradiction
  · intro h
    exact ⟨n.toInt, h, by rw [if_pos ⟨n.minValue_le_toInt, n.toInt_le⟩, Int32.ofInt_toInt]⟩

theorem button?_eq_some_iff {cs : List Char} {button : MouseButton} :
    button? cs = some button ↔ cs = button.name.toList := by
  constructor
  · intro h
    have hname := List.find?_some h
    exact (beq_iff_eq.1 hname).symm
  · rintro rfl
    cases button <;> decide

/-- The two numbers of a pair are what is read in front of the comma and behind it. -/
theorem displacement_iff {pair : List Char} {dx dy : Int32} :
    Displacement dx dy pair ↔
      int32? (Text.trimEnd (pair.takeWhile (· != ','))) = some dx ∧
        int32? (Text.trimStart ((pair.dropWhile (· != ',')).drop 1)) = some dy := by
  constructor
  · rintro ⟨hx, hbefore, hafter, hy⟩
    next x before after y =>
    have hcomma : ',' ∉ x ++ before := fun hmem =>
      (List.mem_append.1 hmem).elim (fun hmem => (hx.not_blank hmem).2 rfl)
        fun hmem => absurd (hbefore _ hmem) (by decide)
    have hlast : ∀ c ∈ x.getLast?, Text.isBlank c = false :=
      fun c hc => (hx.not_blank (List.mem_of_getLast? hc)).1
    have hfirst : ∀ c ∈ y.head?, Text.isBlank c = false :=
      fun c hc => (hy.not_blank (List.mem_of_head? hc)).1
    rw [Text.takeWhile_append_cons hcomma, Text.drop_dropWhile_append_cons hcomma,
      Text.trimEnd_append hbefore, Text.trimEnd_eq_self hlast, Text.trimStart_append hafter,
      Text.trimStart_eq_self hfirst]
    exact ⟨int32?_eq_some_iff.2 hx, int32?_eq_some_iff.2 hy⟩
  · rintro ⟨hx, hy⟩
    have hbehind : (pair.dropWhile (· != ',')).drop 1 ≠ [] := by
      intro hnil
      rw [hnil] at hy
      contradiction
    obtain ⟨⟨before, hbefore, hfront⟩, -⟩ :=
      Text.exists_trimEnd_append (pair.takeWhile (· != ','))
    obtain ⟨⟨after, hafter, hback⟩, -⟩ :=
      Text.exists_append_trimStart ((pair.dropWhile (· != ',')).drop 1)
    rw [Text.eq_takeWhile_append_cons hbehind, hfront, hback]
    exact .mk (int32?_eq_some_iff.1 hx) hbefore hafter (int32?_eq_some_iff.1 hy)

/-! ## Arguments -/

/-- How the argument of a verb is read. -/
def Verb.read : Verb → List Char → Except Fault Step
  | key => readKey .press
  | down => readKey .hold
  | up => readKey .release
  | text => fun arg => .ok (.write (String.ofList arg))
  | click => readClick
  | move => readMove
  | scroll => readScroll

theorem reader?_word (verb : Verb) : reader? verb.word = some verb.read := by
  cases verb <;> rfl

theorem exists_verb_of_reader? {name : String} {read : List Char → Except Fault Step}
    (h : reader? name = some read) : ∃ verb : Verb, name = verb.word := by
  unfold reader? at h
  split at h
  · exact ⟨.key, rfl⟩
  · exact ⟨.down, rfl⟩
  · exact ⟨.up, rfl⟩
  · exact ⟨.text, rfl⟩
  · exact ⟨.click, rfl⟩
  · exact ⟨.move, rfl⟩
  · exact ⟨.scroll, rfl⟩
  · contradiction

theorem readKey_eq_ok_iff {f : String → Step} {arg : List Char} {step : Step} :
    readKey f arg = .ok step ↔
      ∃ key, Trimmed key arg ∧ KeyName key ∧ f (String.ofList key) = step := by
  simp only [readKey, ← Text.trim_eq_iff, exists_eq_left', ← isKey_iff]
  cases isKey (Text.trim arg) <;> simp

theorem readKey_eq_error_iff {f : String → Step} {arg : List Char} {fault : Fault} :
    readKey f arg = .error fault ↔
      ∃ key, Trimmed key arg ∧ ¬ KeyName key ∧ .badKey (String.ofList key) = fault := by
  simp only [readKey, ← Text.trim_eq_iff, exists_eq_left', ← isKey_iff]
  cases isKey (Text.trim arg) <;> simp

theorem readClick_eq_ok_iff {arg : List Char} {step : Step} :
    readClick arg = .ok step ↔ ∃ name, Trimmed name arg ∧ ∃ button : MouseButton,
      name.map Char.toLower = button.name.toList ∧ .click button = step := by
  simp only [readClick, ← Text.trim_eq_iff, exists_eq_left', ← button?_eq_some_iff]
  cases button? ((Text.trim arg).map Char.toLower) <;> simp

theorem readClick_eq_error_iff {arg : List Char} {fault : Fault} :
    readClick arg = .error fault ↔ ∃ name, Trimmed name arg ∧
      (∀ button : MouseButton, name.map Char.toLower ≠ button.name.toList) ∧
        .badButton (String.ofList (name.map Char.toLower)) = fault := by
  simp only [readClick, ← Text.trim_eq_iff, exists_eq_left', ne_eq, ← button?_eq_some_iff]
  cases button? ((Text.trim arg).map Char.toLower) <;> simp

theorem readMove_eq_ok_iff {arg : List Char} {step : Step} :
    readMove arg = .ok step ↔ ∃ pair, Trimmed pair arg ∧
      ∃ dx dy, Displacement dx dy pair ∧ .move dx dy = step := by
  simp only [readMove, ← Text.trim_eq_iff, exists_eq_left', displacement_iff]
  generalize int32? (Text.trimEnd _) = dx?, int32? (Text.trimStart _) = dy?
  cases dx? <;> cases dy? <;> simp

theorem readMove_eq_error_iff {arg : List Char} {fault : Fault} :
    readMove arg = .error fault ↔ ∃ pair, Trimmed pair arg ∧
      (∀ dx dy, ¬ Displacement dx dy pair) ∧ .badMove (String.ofList arg) = fault := by
  simp only [readMove, ← Text.trim_eq_iff, exists_eq_left', displacement_iff]
  generalize int32? (Text.trimEnd _) = dx?, int32? (Text.trimStart _) = dy?
  cases dx? <;> cases dy? <;> simp

theorem readScroll_eq_ok_iff {arg : List Char} {step : Step} :
    readScroll arg = .ok step ↔ ∃ number, Trimmed number arg ∧
      ∃ n : Int32, Numeral number n.toInt ∧ .scroll n = step := by
  simp only [readScroll, ← Text.trim_eq_iff, exists_eq_left', ← int32?_eq_some_iff]
  cases int32? (Text.trim arg) <;> simp

theorem readScroll_eq_error_iff {arg : List Char} {fault : Fault} :
    readScroll arg = .error fault ↔ ∃ number, Trimmed number arg ∧
      (∀ n : Int32, ¬ Numeral number n.toInt) ∧ .badScroll (String.ofList number) = fault := by
  simp only [readScroll, ← Text.trim_eq_iff, exists_eq_left', ← int32?_eq_some_iff]
  cases int32? (Text.trim arg) <;> simp

/-- **Arguments**: what is read for a verb is what the argument stands for. -/
theorem Verb.read_eq_ok_iff {verb : Verb} {arg : List Char} {step : Step} :
    verb.read arg = .ok step ↔ Denotes verb arg step := by
  constructor
  · intro h
    cases verb with
    | key =>
        obtain ⟨key, htrimmed, hname, rfl⟩ := readKey_eq_ok_iff.1 h
        exact .press htrimmed hname
    | down =>
        obtain ⟨key, htrimmed, hname, rfl⟩ := readKey_eq_ok_iff.1 h
        exact .hold htrimmed hname
    | up =>
        obtain ⟨key, htrimmed, hname, rfl⟩ := readKey_eq_ok_iff.1 h
        exact .release htrimmed hname
    | text =>
        obtain rfl := Except.ok.inj h
        exact .write
    | click =>
        obtain ⟨name, htrimmed, button, hbutton, rfl⟩ := readClick_eq_ok_iff.1 h
        exact .click htrimmed hbutton
    | move =>
        obtain ⟨pair, htrimmed, dx, dy, hpair, rfl⟩ := readMove_eq_ok_iff.1 h
        exact .move htrimmed hpair
    | scroll =>
        obtain ⟨number, htrimmed, n, hn, rfl⟩ := readScroll_eq_ok_iff.1 h
        exact .scroll htrimmed hn
  · intro h
    cases h with
    | press htrimmed hname | hold htrimmed hname | release htrimmed hname =>
        exact readKey_eq_ok_iff.2 ⟨_, htrimmed, hname, rfl⟩
    | write => rfl
    | click htrimmed hbutton => exact readClick_eq_ok_iff.2 ⟨_, htrimmed, _, hbutton, rfl⟩
    | move htrimmed hpair => exact readMove_eq_ok_iff.2 ⟨_, htrimmed, _, _, hpair, rfl⟩
    | scroll htrimmed hn => exact readScroll_eq_ok_iff.2 ⟨_, htrimmed, _, hn, rfl⟩

/-- What is said of an argument that is not read is due to it. -/
theorem Verb.read_eq_error_iff {verb : Verb} {arg : List Char} {fault : Fault} :
    verb.read arg = .error fault ↔ Misuse verb arg fault := by
  constructor
  · intro h
    cases verb with
    | key | down | up =>
        obtain ⟨key, htrimmed, hname, rfl⟩ := readKey_eq_error_iff.1 h
        exact .key (by decide) htrimmed hname
    | text => contradiction
    | click =>
        obtain ⟨name, htrimmed, hbutton, rfl⟩ := readClick_eq_error_iff.1 h
        exact .click htrimmed hbutton
    | move =>
        obtain ⟨pair, htrimmed, hpair, rfl⟩ := readMove_eq_error_iff.1 h
        exact .move htrimmed hpair
    | scroll =>
        obtain ⟨number, htrimmed, hn, rfl⟩ := readScroll_eq_error_iff.1 h
        exact .scroll htrimmed hn
  · intro h
    cases h with
    | key hverb htrimmed hname =>
        rcases hverb with rfl | rfl | rfl <;>
          exact readKey_eq_error_iff.2 ⟨_, htrimmed, hname, rfl⟩
    | click htrimmed hbutton => exact readClick_eq_error_iff.2 ⟨_, htrimmed, hbutton, rfl⟩
    | move htrimmed hpair => exact readMove_eq_error_iff.2 ⟨_, htrimmed, hpair, rfl⟩
    | scroll htrimmed hn => exact readScroll_eq_error_iff.2 ⟨_, htrimmed, hn, rfl⟩

/-! ## Pieces -/

/-- A segment that is a verb and an argument is read as its verb reads the argument. -/
theorem readStep_of_calls {segment arg : List Char} {verb : Verb} (h : Calls segment verb arg) :
    readStep segment = verb.read arg := by
  obtain ⟨rfl, hnonempty, honeLine⟩ := h
  have hcolon : ':' ∉ verb.word.toList := by cases verb <;> decide
  rw [readStep, Text.takeWhile_append_cons hcolon, Text.drop_dropWhile_append_cons hcolon,
    String.ofList_toList, reader?_word]
  simp [hnonempty, honeLine]

/-- Any other segment is no step that is known. -/
theorem readStep_of_not_calls {segment : List Char}
    (h : ∀ verb arg, ¬ Calls segment verb arg) :
    readStep segment = .error (.unknownStep (String.ofList segment)) := by
  unfold readStep
  dsimp only
  split
  · next read hread =>
    obtain ⟨verb, hverb⟩ := exists_verb_of_reader? hread
    split
    · rfl
    · next harg =>
      simp only [Bool.or_eq_true, List.isEmpty_iff, List.contains_iff_mem, not_or] at harg
      refine absurd ⟨?_, harg.1, harg.2⟩ (h verb ((segment.dropWhile (· != ':')).drop 1))
      rw [← hverb, String.toList_ofList]
      exact Text.eq_takeWhile_append_cons harg.1
  · rfl

/-- **Pieces**: a piece is read as the step that it writes. -/
theorem readStep_eq_ok_iff {piece : List Char} {step : Step} :
    readStep (Text.trim piece) = .ok step ↔ Writes piece step := by
  constructor
  · intro h
    by_cases hcalls : ∃ verb arg, Calls (Text.trim piece) verb arg
    · obtain ⟨verb, arg, hcalls⟩ := hcalls
      rw [readStep_of_calls hcalls] at h
      exact .mk (Text.trimmed_trim piece) hcalls (Verb.read_eq_ok_iff.1 h)
    · rw [readStep_of_not_calls fun verb arg hc => hcalls ⟨verb, arg, hc⟩] at h
      contradiction
  · rintro ⟨htrimmed, hcalls, hdenotes⟩
    rw [Text.trim_eq_iff.2 htrimmed, readStep_of_calls hcalls]
    exact Verb.read_eq_ok_iff.2 hdenotes

/-- What is said of a piece that is not read is due to it. -/
theorem readStep_eq_error_iff {piece : List Char} {fault : Fault} :
    readStep (Text.trim piece) = .error fault ↔ Flawed piece fault := by
  constructor
  · intro h
    by_cases hcalls : ∃ verb arg, Calls (Text.trim piece) verb arg
    · obtain ⟨verb, arg, hcalls⟩ := hcalls
      rw [readStep_of_calls hcalls] at h
      exact .misuse (Text.trimmed_trim piece) hcalls (Verb.read_eq_error_iff.1 h)
    · have hunknown : ∀ verb arg, ¬ Calls (Text.trim piece) verb arg :=
        fun verb arg hc => hcalls ⟨verb, arg, hc⟩
      rw [readStep_of_not_calls hunknown] at h
      obtain rfl := Except.error.inj h
      exact .unknown (Text.trimmed_trim piece) hunknown
  · intro h
    cases h with
    | unknown htrimmed hunknown =>
        rw [Text.trim_eq_iff.2 htrimmed, readStep_of_not_calls hunknown]
    | misuse htrimmed hcalls hmisuse =>
        rw [Text.trim_eq_iff.2 htrimmed, readStep_of_calls hcalls]
        exact Verb.read_eq_error_iff.2 hmisuse

/-! ## Tokens -/

theorem stepTexts_eq {token : List Char} {pieces : List (List Char)}
    (h : Text.Cut ';' token pieces) : stepTexts token = (counting pieces).map Text.trim := by
  have htrim : ∀ piece : List Char, (!(Text.trim piece).isEmpty) = decide (¬ Blank piece) := by
    intro piece
    rw [Bool.eq_iff_iff]
    simp [Text.trim_eq_nil_iff]
  simp only [stepTexts, counting, Text.splitOn_eq_iff.2 h, List.filter_map, Function.comp_def,
    htrim]

theorem stepTexts_append (cs ds : List Char) :
    stepTexts (cs ++ ';' :: ds) = stepTexts cs ++ stepTexts ds := by
  simp only [stepTexts, Text.splitOn_append, List.map_append, List.filter_append]

/-- The steps that are read are those written, one for each piece. -/
theorem readSteps_eq_ok_iff {pieces : List (List Char)} {steps : List Step} :
    readSteps (pieces.map Text.trim) = .ok steps ↔ List.Forall₂ Writes pieces steps := by
  induction pieces generalizing steps with
  | nil => simp [readSteps, eq_comm]
  | cons piece pieces ih =>
      simp only [List.map_cons, readSteps, Except.bind_eq_ok_iff, Except.pure_eq_ok_iff,
        readStep_eq_ok_iff, ih, List.forall₂_cons_left_iff]
      constructor
      · rintro ⟨step, hstep, rest, hrest, rfl⟩
        exact ⟨step, rest, hstep, hrest, rfl⟩
      · rintro ⟨step, rest, hstep, hrest, rfl⟩
        exact ⟨step, hstep, rest, hrest, rfl⟩

/-- The first piece that writes no step decides what is said. -/
theorem readSteps_eq_error_iff {pieces : List (List Char)} {fault : Fault} :
    readSteps (pieces.map Text.trim) = .error fault ↔
      ∃ before piece after, pieces = before ++ piece :: after ∧
        (∀ p ∈ before, ∃ step, Writes p step) ∧ Flawed piece fault := by
  induction pieces with
  | nil => simp [readSteps]
  | cons first pieces ih =>
      have hpure : ∀ step steps, (pure (step :: steps) : Except Fault (List Step)) ≠ .error fault :=
        fun _ _ => nofun
      simp only [List.map_cons, readSteps, Except.bind_eq_error_iff, readStep_eq_error_iff,
        readStep_eq_ok_iff, ih, hpure, and_false, exists_false, or_false]
      constructor
      · rintro (hflawed | ⟨step, hstep, before, piece, after, rfl, hbefore, hflawed⟩)
        · exact ⟨[], first, pieces, rfl, nofun, hflawed⟩
        · exact ⟨first :: before, piece, after, rfl,
            List.forall_mem_cons.2 ⟨⟨step, hstep⟩, hbefore⟩, hflawed⟩
      · rintro ⟨before, piece, after, hpieces, hbefore, hflawed⟩
        cases before with
        | nil =>
            obtain ⟨rfl, -⟩ := List.cons.inj hpieces
            exact .inl hflawed
        | cons b before =>
            obtain ⟨rfl, rfl⟩ := List.cons.inj hpieces
            obtain ⟨⟨step, hstep⟩, hbefore⟩ := List.forall_mem_cons.1 hbefore
            exact .inr ⟨step, hstep, before, piece, after, rfl, hbefore, hflawed⟩

/-- Steps are read of some pieces if each of them writes one. -/
theorem exists_readSteps_iff {pieces : List (List Char)} :
    (∃ steps, readSteps (pieces.map Text.trim) = .ok steps) ↔
      ∀ piece ∈ pieces, ∃ step, Writes piece step := by
  induction pieces with
  | nil => simp [readSteps]
  | cons piece pieces ih =>
      simp only [List.forall_mem_cons, ← ih, readSteps_eq_ok_iff, List.forall₂_cons_left_iff]
      constructor
      · rintro ⟨-, step, steps, hstep, hsteps, rfl⟩
        exact ⟨⟨step, hstep⟩, steps, hsteps⟩
      · rintro ⟨⟨step, hstep⟩, steps, hsteps⟩
        exact ⟨_, step, steps, hstep, hsteps, rfl⟩

/-- Two lists of segments are read one after the other. -/
theorem readSteps_append (front back : List (List Char)) :
    readSteps (front ++ back) = do
      let steps ← readSteps front
      let more ← readSteps back
      return steps ++ more := by
  induction front with
  | nil => simp [readSteps]
  | cons segment front ih => simp [readSteps, ih]

theorem read_eq_ok_iff {token : String} {a : Action} :
    Dispatcher.read token = .ok a ↔
      a.token = token ∧ readSteps (stepTexts token.toList) = .ok a.steps := by
  rw [Dispatcher.read, Except.mapError_eq_ok_iff, parse]
  simp only [Except.bind_eq_ok_iff, Except.pure_eq_ok_iff]
  constructor
  · rintro ⟨steps, hsteps, rfl⟩
    exact ⟨rfl, hsteps⟩
  · rintro ⟨rfl, hsteps⟩
    exact ⟨a.steps, hsteps, rfl⟩

theorem read_eq_error_iff {token : String} {e : DispatchError} :
    Dispatcher.read token = .error e ↔
      ∃ fault, readSteps (stepTexts token.toList) = .error fault ∧
        e = .invalidToken token fault := by
  have hpure : ∀ steps fault, (pure ⟨token, steps⟩ : Except Fault Action) ≠ .error fault :=
    fun _ _ => nofun
  rw [Dispatcher.read, Except.mapError_eq_error_iff, parse]
  simp only [Except.bind_eq_error_iff, hpure, and_false, exists_false, or_false]

/-- A token is an action if each of its pieces that counts writes a step. -/
theorem exists_read_eq_ok_iff {token : String} {pieces : List (List Char)}
    (h : Text.Cut ';' token.toList pieces) :
    (∃ a, Dispatcher.read token = .ok a) ↔
      ∀ piece ∈ pieces, ¬ Blank piece → ∃ step, Writes piece step := by
  have hcounting : (∀ piece ∈ pieces, ¬ Blank piece → ∃ step, Writes piece step) ↔
      ∀ piece ∈ counting pieces, ∃ step, Writes piece step := by
    simp [counting, and_imp]
  rw [hcounting, ← exists_readSteps_iff, ← stepTexts_eq h]
  constructor
  · rintro ⟨a, ha⟩
    exact ⟨a.steps, (read_eq_ok_iff.1 ha).2⟩
  · rintro ⟨steps, hsteps⟩
    exact ⟨⟨token, steps⟩, read_eq_ok_iff.2 ⟨rfl, hsteps⟩⟩

/-- Two tokens with a semicolon between them are an action if both are, and ask for the steps of
both. -/
theorem read_append_eq_ok_iff {token other : String} {c : Action} :
    Dispatcher.read (token ++ ";" ++ other) = .ok c ↔
      ∃ a b, Dispatcher.read token = .ok a ∧ Dispatcher.read other = .ok b ∧
        c = ⟨token ++ ";" ++ other, a.steps ++ b.steps⟩ := by
  have hsegments : stepTexts (token ++ ";" ++ other).toList =
      stepTexts token.toList ++ stepTexts other.toList := by
    rw [← stepTexts_append]
    simp
  simp only [read_eq_ok_iff, hsegments, readSteps_append, Except.bind_eq_ok_iff,
    Except.pure_eq_ok_iff]
  constructor
  · rintro ⟨htoken, steps, hsteps, more, hmore, hc⟩
    exact ⟨⟨token, steps⟩, ⟨other, more⟩, ⟨rfl, hsteps⟩, ⟨rfl, hmore⟩, by rw [← htoken, hc]⟩
  · rintro ⟨a, b, ⟨-, ha⟩, ⟨-, hb⟩, rfl⟩
    exact ⟨rfl, a.steps, ha, b.steps, hb, rfl⟩

/-- **Tokens**: a token is an action if each of its pieces that counts writes a step, and those are
its steps, in order; it is refused, as a whole, for the first of its pieces that writes none.  Two
tokens with a semicolon between them are an action if both are, and ask for the steps of both. -/
theorem read_by_grammar (token : String) :
    ∃ pieces, Text.Cut ';' token.toList pieces ∧
      ((∃ a, Dispatcher.read token = .ok a) ↔
        ∀ piece ∈ pieces, ¬ Blank piece → ∃ step, Writes piece step) ∧
      (∀ a, Dispatcher.read token = .ok a ↔
        a.token = token ∧ List.Forall₂ Writes (counting pieces) a.steps) ∧
      (∀ e, Dispatcher.read token = .error e ↔ ∃ before piece after fault,
        counting pieces = before ++ piece :: after ∧ (∀ p ∈ before, ∃ step, Writes p step) ∧
          Flawed piece fault ∧ e = .invalidToken token fault) ∧
      ∀ other c, Dispatcher.read (token ++ ";" ++ other) = .ok c ↔
        ∃ a b, Dispatcher.read token = .ok a ∧ Dispatcher.read other = .ok b ∧
          c = ⟨token ++ ";" ++ other, a.steps ++ b.steps⟩ := by
  have hcut : Text.Cut ';' token.toList (Text.splitOn ';' token.toList) :=
    Text.splitOn_eq_iff.1 rfl
  refine ⟨_, hcut, exists_read_eq_ok_iff hcut, fun a => ?steps, fun e => ?refused,
    fun other c => read_append_eq_ok_iff⟩
  case steps => rw [read_eq_ok_iff, stepTexts_eq hcut, readSteps_eq_ok_iff]
  case refused =>
    rw [read_eq_error_iff, stepTexts_eq hcut]
    simp only [readSteps_eq_error_iff]
    constructor
    · rintro ⟨fault, ⟨before, piece, after, hpieces, hbefore, hflawed⟩, he⟩
      exact ⟨before, piece, after, fault, hpieces, hbefore, hflawed, he⟩
    · rintro ⟨before, piece, after, fault, hpieces, hbefore, hflawed, he⟩
      exact ⟨fault, ⟨before, piece, after, hpieces, hbefore, hflawed⟩, he⟩

/-- A colon is a key, a zero may be negative, and the least number of thirty-two bits is one. -/
example : Dispatcher.read "key:: ; move:-2147483648 ,-0;text: a " =
    .ok ⟨"key:: ; move:-2147483648 ,-0;text: a ",
      [.press ":", .move (-2147483648) 0, .write " a"]⟩ := by
  rfl

/-- Digits are those of ASCII; of two pieces that are wrong, the first is reported. -/
example : Dispatcher.read "scroll:٣;key: " =
    .error (.invalidToken "scroll:٣;key: " (.badScroll "٣")) := by
  rfl

end Grimace.Action
