import Grimace.Expr.Lexer
import Grimace.Proofs.Text.Reading

/-!
# Grimace.Proofs.Expr.Spelling

How a token may be spelled, and how much of a text one token takes.

An operator has one or two characters, a number is a run of digits and points, and a word has a
tail in which a `?` stands only before a point.  The four kinds of spellings start with different
characters, but for the operators of one character that start one of two.

* `Spelling`, `Spells` — what may be a token, and which one it is;
* `Longest` — no spelling at the front of a text is longer;
* `longest_single_iff`, `longest_number_iff`, `longest_word_iff` — what has to stand behind a
  spelling for that;
* `no_spelling_iff` — where none starts at all;
* `lexeme_of_spells`, `lexeme_of_stuck`, `spells_or_stuck` — the lexer takes the longest spelling,
  and fails where there is none, or where it is a number with two points.
-/

namespace Grimace

namespace Lexer

/-! ## Spellings -/

/-- A number as it is written, with any number of points. -/
inductive NumberRun : List Char → Prop where
  | mk {c : Char} {cs : List Char} : c.isDigit = true → (∀ d ∈ cs, isNumberChar d = true) →
    NumberRun (c :: cs)

/-- The character goes on a word: a letter, a digit, `_`, a point, or a `?` directly before one. -/
def GoesOn (c : Char) (cs : List Char) : Prop :=
  isWordChar c = true ∨ c = '?' ∧ cs.head? = some '.'

/-- A word may end so. -/
inductive WordTail : List Char → Prop where
  | nil : WordTail []
  | cons {c : Char} {cs : List Char} : GoesOn c cs → WordTail cs → WordTail (c :: cs)

/-- A word as it is written. -/
inductive Word : List Char → Prop where
  | mk {c : Char} {cs : List Char} : isWordStart c = true → WordTail cs → Word (c :: cs)

/-- What the marks of a word do not change. -/
def unmarked (cs : List Char) : List Char := cs.filter (· != '?')

/-- A token may be spelled so, whether it then makes sense or not. -/
inductive Spelling : List Char → Prop where
  | pair {c d : Char} {kind : Token.Kind} : pair? c d = some kind → Spelling [c, d]
  | single {c : Char} {kind : Token.Kind} : single? c = some kind → Spelling [c]
  | number {run : List Char} : NumberRun run → Spelling run
  | word {w : List Char} : Word w → Spelling w

/-- The token that is spelled so.  A number has one point at most, and a word says what it says
without its marks. -/
inductive Spells : List Char → Token.Kind → Prop where
  | pair {c d : Char} {kind : Token.Kind} : pair? c d = some kind → Spells [c, d] kind
  | single {c : Char} {kind : Token.Kind} : single? c = some kind → Spells [c] kind
  | number {run : List Char} {x : Float} : NumberRun run → run.count '.' ≤ 1 →
    numberOf? run = some x → Spells run (.number x)
  | word {w : List Char} : Word w → Spells w (.ofWord (String.ofList (unmarked w)))

/-- The text starts with a spelling, and with none that is longer. -/
structure Longest (cs w : List Char) : Prop where
  spelling : Spelling w
  front : w <+: cs
  longest : ∀ {v}, Spelling v → v <+: cs → v.length ≤ w.length

/-- No token can be read at the front of the text, which is at a place: no spelling starts there, or
the longest one is a run with more than one point. -/
inductive Stuck (pos : Nat) : List Char → CompileError → Prop where
  | char {c : Char} {cs : List Char} : Text.isBlank c = false →
    (∀ w, Spelling w → ¬ w <+: c :: cs) → Stuck pos (c :: cs) (.unexpectedChar c pos)
  | number {run rest : List Char} : NumberRun run → Longest (run ++ rest) run →
    1 < run.count '.' → Stuck pos (run ++ rest) (.invalidNumber (String.ofList run) pos)

/-! ## First characters -/

section

variable {c d : Char} {kind : Token.Kind} {cs v w run rest : List Char}

theorem isWordStart_iff : isWordStart c = true ↔
    (65 ≤ c.toNat ∧ c.toNat ≤ 90) ∨ (97 ≤ c.toNat ∧ c.toNat ≤ 122) ∨ c = '_' := by
  have hupper : c.isUpper = true ↔ 65 ≤ c.toNat ∧ c.toNat ≤ 90 := decide_eq_true_iff
  have hlower : c.isLower = true ↔ 97 ≤ c.toNat ∧ c.toNat ≤ 122 :=
    Bool.and_eq_true_iff.trans (and_congr decide_eq_true_iff decide_eq_true_iff)
  have halpha : c.isAlpha = true ↔ c.isUpper = true ∨ c.isLower = true := Bool.or_eq_true_iff
  rw [isWordStart, Bool.or_eq_true, halpha, hupper, hlower, beq_iff_eq, or_assoc]

theorem isWordStart_of_isDigit (h : c.isDigit = true) : isWordStart c = false := by
  have hcode : 48 ≤ c.toNat ∧ c.toNat ≤ 57 := by
    simp only [Char.isDigit, Bool.and_eq_true, decide_eq_true_eq] at h
    exact ⟨UInt32.le_iff_toNat_le.1 h.1, UInt32.le_iff_toNat_le.1 h.2⟩
  by_contra hstart
  rw [Bool.not_eq_false, isWordStart_iff] at hstart
  obtain hupper | hlower | rfl := hstart
  · omega
  · omega
  · exact absurd hcode (by decide)

theorem isBlank_of_isWordStart (h : isWordStart c = true) : Text.isBlank c = false := by
  have hcode : 65 ≤ c.toNat ∧ c.toNat ≤ 122 := by
    obtain hupper | hlower | rfl := isWordStart_iff.1 h
    · omega
    · omega
    · decide
  simp only [Text.isBlank, Bool.or_eq_false_iff, Bool.and_eq_false_imp, decide_eq_true_eq,
    decide_eq_false_iff_not, beq_eq_false_iff_ne]
  omega

/-- An operator of two characters starts with no digit and with no letter. -/
theorem first_of_pair? (h : pair? c d = some kind) :
    Text.isBlank c = false ∧ c.isDigit = false ∧ isWordStart c = false := by
  unfold pair? at h
  split at h
  all_goals first | contradiction | decide

theorem first_of_single? (h : single? c = some kind) :
    Text.isBlank c = false ∧ c.isDigit = false ∧ isWordStart c = false := by
  unfold single? at h
  split at h
  all_goals first | contradiction | decide

/-- An operator of two characters is looked for in a character and the next one. -/
theorem exists_of_bind_pair? (h : cs.head?.bind (pair? c) = some kind) :
    ∃ d rest, cs = d :: rest ∧ pair? c d = some kind := by
  obtain ⟨d, hd, hpair⟩ := Option.bind_eq_some_iff.1 h
  obtain ⟨rest, rfl⟩ := List.head?_eq_some_iff.1 hd
  exact ⟨d, rest, rfl, hpair⟩

/-- What the first character of a spelling says of it. -/
theorem Spelling.cons_cases (h : Spelling (c :: cs)) :
    (∃ d kind, cs = [d] ∧ pair? c d = some kind) ∨ (∃ kind, cs = [] ∧ single? c = some kind) ∨
      (c.isDigit = true ∧ ∀ d ∈ cs, isNumberChar d = true) ∨
      (isWordStart c = true ∧ WordTail cs) := by
  cases h with
  | pair h => exact .inl ⟨_, _, rfl, h⟩
  | single h => exact .inr (.inl ⟨_, rfl, h⟩)
  | number h =>
      obtain ⟨hc, hcs⟩ := h
      exact .inr (.inr (.inl ⟨hc, hcs⟩))
  | word h =>
      obtain ⟨hc, hcs⟩ := h
      exact .inr (.inr (.inr ⟨hc, hcs⟩))

theorem Spelling.ne_nil (h : Spelling w) : w ≠ [] := by
  rintro rfl
  cases h with
  | number h | word h => cases h

theorem Spells.spelling (h : Spells w kind) : Spelling w := by
  cases h with
  | pair h => exact .pair h
  | single h => exact .single h
  | number h => exact .number h
  | word h => exact .word h

/-- A spelling starts with no white space. -/
theorem Spelling.isBlank_first (h : Spelling (c :: cs)) : Text.isBlank c = false := by
  obtain ⟨d, kind, -, h⟩ | ⟨kind, -, h⟩ | ⟨h, -⟩ | ⟨h, -⟩ := h.cons_cases
  · exact (first_of_pair? h).1
  · exact (first_of_single? h).1
  · exact Text.isBlank_of_isDigit h
  · exact isBlank_of_isWordStart h

theorem Stuck.ne_nil {pos : Nat} {e : CompileError} (h : Stuck pos cs e) : cs ≠ [] := by
  cases h with
  | char => exact List.cons_ne_nil _ _
  | number hrun =>
      cases hrun with
      | mk => exact List.cons_ne_nil _ _

/-- The lexer does not get stuck at white space. -/
theorem Stuck.isBlank_first {pos : Nat} {e : CompileError} (h : Stuck pos (c :: cs) e) :
    Text.isBlank c = false := by
  generalize htext : c :: cs = text at h
  cases h with
  | char hblank =>
      obtain ⟨rfl, -⟩ := List.cons.inj htext
      exact hblank
  | number hrun =>
      cases hrun with
      | mk hc =>
          rw [List.cons_append] at htext
          obtain ⟨rfl, -⟩ := List.cons.inj htext
          exact Text.isBlank_of_isDigit hc

/-! ## Tails of words -/

theorem GoesOn.append (h : GoesOn c cs) (rest : List Char) : GoesOn c (cs ++ rest) := by
  obtain h | ⟨rfl, hpoint⟩ := h
  · exact .inl h
  · exact .inr ⟨rfl, by simp [List.head?_append, hpoint]⟩

theorem WordTail.append (h : WordTail cs) (hrest : WordTail rest) : WordTail (cs ++ rest) := by
  induction h with
  | nil => exact hrest
  | cons hc _ ih => exact .cons (hc.append rest) ih

theorem WordTail.of_append (h : WordTail (cs ++ rest)) : WordTail rest := by
  induction cs with
  | nil => exact h
  | cons c cs ih =>
      cases h with
      | cons _ htail => exact ih htail

/-- The text does not go on a word that stands in front of it. -/
def EndsWord (rest : List Char) : Prop := ∀ c cs, rest = c :: cs → ¬ GoesOn c cs

theorem goesOn_iff :
    (isWordChar c || (c == '?' && cs.head? == some '.')) = true ↔ GoesOn c cs := by
  simp [GoesOn]

theorem wordRest_cons_of_goesOn (h : GoesOn c cs) : wordRest (c :: cs) = c :: wordRest cs := by
  rw [wordRest, if_pos (goesOn_iff.2 h)]

theorem wordRest_of_endsWord (h : EndsWord rest) : wordRest rest = [] := by
  cases rest with
  | nil => rfl
  | cons c cs => rw [wordRest, if_neg (mt goesOn_iff.1 (h c cs rfl))]

/-- What the lexer takes for the rest of a word is all that goes on the word. -/
theorem exists_wordRest_append (cs : List Char) :
    ∃ rest, cs = wordRest cs ++ rest ∧ WordTail (wordRest cs) ∧ EndsWord rest := by
  induction cs with
  | nil => exact ⟨[], rfl, .nil, nofun⟩
  | cons c cs ih =>
      obtain ⟨rest, hcs, htail, hends⟩ := ih
      by_cases hc : GoesOn c cs
      · have hgoes : GoesOn c (wordRest cs) := by
          obtain hword | ⟨hmark, hpoint⟩ := hc
          · exact .inl hword
          · obtain ⟨more, rfl⟩ := List.head?_eq_some_iff.1 hpoint
            have hfirst : GoesOn '.' more := .inl (by decide)
            rw [wordRest_cons_of_goesOn hfirst]
            exact .inr ⟨hmark, rfl⟩
        rw [wordRest_cons_of_goesOn hc]
        exact ⟨rest, by rw [List.cons_append, ← hcs], .cons hgoes htail, hends⟩
      · have hends : EndsWord (c :: cs) := by
          rintro _ _ ⟨rfl, rfl⟩
          exact hc
        rw [wordRest_of_endsWord hends]
        exact ⟨c :: cs, rfl, .nil, hends⟩

/-- The lexer takes no more than that. -/
theorem wordRest_append (h : WordTail cs) (hends : EndsWord rest) :
    wordRest (cs ++ rest) = cs := by
  induction h with
  | nil => exact wordRest_of_endsWord hends
  | cons hc _ ih => rw [List.cons_append, wordRest_cons_of_goesOn (hc.append rest), ih]

/-! ## The longest spelling -/

/-- A text starts with one longest spelling at most. -/
theorem Longest.unique (h : Longest cs v) (h' : Longest cs w) : v = w := by
  have hlength : v.length = w.length :=
    Nat.le_antisymm (h'.longest h.spelling h.front) (h.longest h'.spelling h'.front)
  exact (List.prefix_of_prefix_length_le h.front h'.front (Nat.le_of_eq hlength)).eq_of_length
    hlength

/-- What is longest in a text is so in any part of it that it stands in. -/
theorem Longest.of_prefix (h : Longest rest w) (hcs : cs <+: rest) (hw : w <+: cs) :
    Longest cs w :=
  ⟨h.spelling, hw, fun hv hstarts => h.longest hv (hstarts.trans hcs)⟩

/-- Nothing goes on the longest spelling. -/
theorem Longest.not_longer (h : Longest cs w) (hlonger : Spelling (w ++ c :: v)) :
    ¬ w ++ c :: v <+: cs := by
  intro hstarts
  have hlength := h.longest hlonger hstarts
  rw [List.length_append, List.length_cons] at hlength
  omega

/-- A longer part of a text goes on where a shorter one ends. -/
theorem exists_of_longer (h : v <+: w ++ rest) (hlength : w.length < v.length) :
    ∃ c cs, v = w ++ c :: cs ∧ c :: cs <+: rest := by
  have hw : w <+: v :=
    List.prefix_of_prefix_length_le (List.prefix_append w rest) h (Nat.le_of_lt hlength)
  obtain ⟨more, rfl⟩ := hw
  cases more with
  | nil => simp at hlength
  | cons c cs => exact ⟨c, cs, rfl, (List.prefix_append_right_inj w).1 h⟩

/-- No spelling starts a text whose first characters start none. -/
theorem no_spelling_iff : (∀ w, Spelling w → ¬ w <+: c :: cs) ↔
    cs.head?.bind (pair? c) = none ∧ single? c = none ∧ ¬ c.isDigit = true ∧
      ¬ isWordStart c = true := by
  constructor
  · intro hnone
    have hfirst : ¬ Spelling [c] := fun h => hnone [c] h ⟨cs, rfl⟩
    have hpair : cs.head?.bind (pair? c) = none := by
      cases hpair : cs.head?.bind (pair? c) with
      | none => rfl
      | some kind =>
          obtain ⟨d, more, rfl, hkind⟩ := exists_of_bind_pair? hpair
          exact absurd ⟨more, rfl⟩ (hnone [c, d] (.pair hkind))
    have hsingle : single? c = none :=
      Option.eq_none_iff_forall_ne_some.2 fun _ h => hfirst (.single h)
    exact ⟨hpair, hsingle, fun h => hfirst (.number (.mk h nofun)),
      fun h => hfirst (.word (.mk h .nil))⟩
  · rintro ⟨hpair, hsingle, hdigit, hstart⟩ w hw hstarts
    cases w with
    | nil => exact hw.ne_nil rfl
    | cons c' ds =>
        obtain ⟨rfl, hds⟩ := List.cons_prefix_cons.1 hstarts
        obtain ⟨d, kind, rfl, hkind⟩ | ⟨kind, rfl, hkind⟩ | ⟨h, -⟩ | ⟨h, -⟩ := hw.cons_cases
        · obtain ⟨more, rfl⟩ := hds
          simp [hkind] at hpair
        · simp [hkind] at hsingle
        · exact hdigit h
        · exact hstart h

/-- An operator of two characters is never shorter. -/
theorem longest_pair (h : pair? c d = some kind) (rest : List Char) :
    Longest (c :: d :: rest) [c, d] := by
  refine ⟨.pair h, ⟨rest, rfl⟩, fun {v} hv hstarts => ?_⟩
  obtain ⟨-, hdigit, hletter⟩ := first_of_pair? h
  cases v with
  | nil => exact Nat.zero_le _
  | cons c' v =>
      obtain ⟨rfl, -⟩ := List.cons_prefix_cons.1 hstarts
      obtain ⟨d, kind, rfl, -⟩ | ⟨kind, rfl, -⟩ | ⟨hc, -⟩ | ⟨hc, -⟩ := hv.cons_cases
      · exact Nat.le_refl 2
      · exact Nat.le_succ 1
      · simp [hdigit] at hc
      · simp [hletter] at hc

/-- An operator of one character is not the first character of one of two. -/
theorem longest_single_iff (h : single? c = some kind) :
    Longest (c :: rest) [c] ↔ rest.head?.bind (pair? c) = none := by
  obtain ⟨-, hdigit, hletter⟩ := first_of_single? h
  constructor
  · intro hlongest
    cases hpair : rest.head?.bind (pair? c) with
    | none => rfl
    | some kind =>
        obtain ⟨d, more, rfl, hkind⟩ := exists_of_bind_pair? hpair
        exact absurd ⟨more, rfl⟩ (hlongest.not_longer (.pair hkind))
  · intro hpair
    refine ⟨.single h, ⟨rest, rfl⟩, fun {v} hv hstarts => ?_⟩
    cases v with
    | nil => exact Nat.zero_le _
    | cons c' v =>
        obtain ⟨rfl, hv'⟩ := List.cons_prefix_cons.1 hstarts
        obtain ⟨d, kind, rfl, hd⟩ | ⟨kind, rfl, -⟩ | ⟨hc, -⟩ | ⟨hc, -⟩ := hv.cons_cases
        · obtain ⟨more, rfl⟩ := hv'
          simp [hd] at hpair
        · exact Nat.le_refl 1
        · simp [hdigit] at hc
        · simp [hletter] at hc

/-- A number ends where no digit and no point follows. -/
theorem longest_number_iff (h : NumberRun run) :
    Longest (run ++ rest) run ↔ ∀ d ∈ rest.head?, isNumberChar d = false := by
  obtain ⟨hc, hcs⟩ := h
  next c cs =>
  constructor
  · intro hlongest d hd
    by_contra hnumber
    obtain ⟨more, rfl⟩ := List.head?_eq_some_iff.1 hd
    have hlonger : NumberRun (c :: (cs ++ [d])) := by
      refine .mk hc (List.forall_mem_append.2 ⟨hcs, ?_⟩)
      simpa using hnumber
    exact hlongest.not_longer (.number hlonger) ⟨more, by simp⟩
  · intro hends
    refine ⟨.number (.mk hc hcs), List.prefix_append _ _, fun {v} hv hstarts => ?_⟩
    by_contra hlength
    obtain ⟨d, more, rfl, hmore⟩ := exists_of_longer hstarts (Nat.lt_of_not_le hlength)
    have hnumber : isNumberChar d = true := by
      obtain ⟨_, _, -, hpair⟩ | ⟨_, -, hsingle⟩ | ⟨-, hrun⟩ | ⟨hstart, -⟩ := hv.cons_cases
      · simp [(first_of_pair? hpair).2.1] at hc
      · simp [(first_of_single? hsingle).2.1] at hc
      · exact hrun d (by simp)
      · simp [isWordStart_of_isDigit hc] at hstart
    obtain ⟨after, rfl⟩ := hmore
    have hend := hends d rfl
    simp [hnumber] at hend

/-- A word ends where nothing follows that goes on it. -/
theorem longest_word_iff (h : Word w) : Longest (w ++ rest) w ↔ EndsWord rest := by
  obtain ⟨hc, hcs⟩ := h
  next c cs =>
  constructor
  · rintro hlongest d more rfl hgoes
    -- A mark is followed by its point.
    obtain hd | ⟨rfl, hpoint⟩ := hgoes
    · have hlonger : Word (c :: (cs ++ [d])) := .mk hc (hcs.append (.cons (.inl hd) .nil))
      exact hlongest.not_longer (.word hlonger) ⟨more, by simp⟩
    · obtain ⟨more, rfl⟩ := List.head?_eq_some_iff.1 hpoint
      have hlonger : Word (c :: (cs ++ ['?', '.'])) :=
        .mk hc (hcs.append (.cons (.inr ⟨rfl, rfl⟩) (.cons (.inl (by decide)) .nil)))
      exact hlongest.not_longer (.word hlonger) ⟨more, by simp⟩
  · intro hends
    refine ⟨.word (.mk hc hcs), List.prefix_append _ _, fun {v} hv hstarts => ?_⟩
    by_contra hlength
    obtain ⟨d, more, rfl, hmore⟩ := exists_of_longer hstarts (Nat.lt_of_not_le hlength)
    have hgoes : GoesOn d more := by
      obtain ⟨_, _, -, hpair⟩ | ⟨_, -, hsingle⟩ | ⟨hdigit, -⟩ | ⟨-, htail⟩ := hv.cons_cases
      · simp [(first_of_pair? hpair).2.2] at hc
      · simp [(first_of_single? hsingle).2.2] at hc
      · simp [isWordStart_of_isDigit hdigit] at hc
      · cases htail.of_append with
        | cons hgoes _ => exact hgoes
    obtain ⟨after, rfl⟩ := hmore
    exact hends d (more ++ after) rfl (hgoes.append after)

/-! ## What the lexer takes -/

/-- No operator starts with a digit or a letter. -/
theorem no_operator (h : c.isDigit = true ∨ isWordStart c = true) (cs : List Char) :
    cs.head?.bind (pair? c) = none ∧ single? c = none := by
  constructor
  · cases hpair : cs.head?.bind (pair? c) with
    | none => rfl
    | some kind =>
        obtain ⟨d, more, -, hkind⟩ := exists_of_bind_pair? hpair
        obtain ⟨-, hdigit, hletter⟩ := first_of_pair? hkind
        simp [hdigit, hletter] at h
  · cases hsingle : single? c with
    | none => rfl
    | some kind =>
        obtain ⟨-, hdigit, hletter⟩ := first_of_single? hsingle
        simp [hdigit, hletter] at h

theorem lexeme_of_wordStart (pos : Nat) (h : isWordStart c = true) (cs : List Char) :
    lexeme pos c cs =
      .ok (.ofWord (String.ofList (unmarked (c :: wordRest cs))), (wordRest cs).length) := by
  obtain ⟨hpair, hsingle⟩ := no_operator (.inr h) cs
  have hdigit : c.isDigit = false := by
    by_contra hdigit
    simp [isWordStart_of_isDigit (by simpa using hdigit)] at h
  have hmark : c ≠ '?' := by
    rintro rfl
    contradiction
  simp [lexeme, hpair, hsingle, hdigit, h, unmarked, hmark]

/-- What has a property at the front of a text ends where the next character lacks it. -/
theorem takeWhile_append_of_ends {p : Char → Bool} (h : ∀ d ∈ cs, p d = true)
    (hends : ∀ d ∈ rest.head?, p d = false) : (cs ++ rest).takeWhile p = cs := by
  rw [List.takeWhile_append_of_pos h]
  cases rest with
  | nil => simp
  | cons d rest => simp [hends d rfl]

theorem lexeme_of_run (pos : Nat) (h : NumberRun (c :: cs))
    (hends : ∀ d ∈ rest.head?, isNumberChar d = false) :
    (∀ x, numberOf? (c :: cs) = some x →
      lexeme pos c (cs ++ rest) = .ok (.number x, cs.length)) ∧
    (numberOf? (c :: cs) = none →
      lexeme pos c (cs ++ rest) = .error (.invalidNumber (String.ofList (c :: cs)) pos)) := by
  obtain ⟨hc, hcs⟩ := h
  obtain ⟨hpair, hsingle⟩ := no_operator (.inl hc) (cs ++ rest)
  have htaken := takeWhile_append_of_ends hcs hends
  constructor
  · intro x hx
    simp only [lexeme, hpair, hsingle, hc, htaken, hx, ↓reduceIte]
  · intro hx
    simp only [lexeme, hpair, hsingle, hc, htaken, hx, ↓reduceIte]

/-- A run is a number unless it has two points or more. -/
theorem numberOf?_eq_none_iff : numberOf? run = none ↔ 1 < run.count '.' := by
  unfold numberOf?
  split <;> simp_all

/-- **A token is taken** where its spelling is the longest one. -/
theorem lexeme_of_spells (pos : Nat) (h : Spells (c :: cs) kind)
    (hlongest : Longest (c :: (cs ++ rest)) (c :: cs)) :
    lexeme pos c (cs ++ rest) = .ok (kind, cs.length) := by
  cases h with
  | pair hpair => simp [lexeme, hpair]
  | single hsingle =>
      have hbind := (longest_single_iff hsingle).1 hlongest
      rw [List.nil_append] at hbind ⊢
      simp [lexeme, hbind, hsingle]
  | number hrun _ hx =>
      have hends := (longest_number_iff hrun).1 hlongest
      exact (lexeme_of_run pos hrun hends).1 _ hx
  | word hword =>
      have hends := (longest_word_iff hword).1 hlongest
      obtain ⟨hc, hcs⟩ := hword
      rw [lexeme_of_wordStart pos hc, wordRest_append hcs hends]

/-- **The lexer is stuck** where no token can be read, and says why. -/
theorem lexeme_of_stuck {pos : Nat} {e : CompileError} (h : Stuck pos (c :: cs) e) :
    lexeme pos c cs = .error e := by
  generalize htext : c :: cs = text at h
  cases h with
  | char _ hnone =>
      obtain ⟨rfl, rfl⟩ := List.cons.inj htext
      obtain ⟨hpair, hsingle, hdigit, hstart⟩ := no_spelling_iff.1 hnone
      simp [lexeme, hpair, hsingle, hdigit, hstart]
  | @number run rest hrun hlongest hpoints =>
      have hends := (longest_number_iff hrun).1 hlongest
      have hnone := numberOf?_eq_none_iff.2 hpoints
      cases hrun with
      | mk hc hcs =>
          rw [List.cons_append] at htext
          obtain ⟨rfl, rfl⟩ := List.cons.inj htext
          exact (lexeme_of_run pos (.mk hc hcs) hends).2 hnone

/-- A digit starts a number, or a run that is none. -/
theorem spells_or_stuck_of_digit (pos : Nat) (h : c.isDigit = true) (cs : List Char) :
    (∃ ds rest kind, cs = ds ++ rest ∧ Spells (c :: ds) kind ∧
      Longest (c :: (ds ++ rest)) (c :: ds)) ∨ ∃ e, Stuck pos (c :: cs) e := by
  obtain ⟨ds, rest, rfl, hds, hends⟩ : ∃ ds rest, cs = ds ++ rest ∧
      (∀ d ∈ ds, isNumberChar d = true) ∧ ∀ d ∈ rest.head?, isNumberChar d = false := by
    refine ⟨cs.takeWhile isNumberChar, cs.dropWhile isNumberChar,
      List.takeWhile_append_dropWhile.symm, fun d hd => List.mem_takeWhile_imp hd, ?_⟩
    intro d hd
    have hnot := List.head?_dropWhile_not isNumberChar cs
    rw [Option.mem_def.1 hd] at hnot
    simpa using hnot
  have hrun : NumberRun (c :: ds) := .mk h hds
  have hlongest : Longest (c :: (ds ++ rest)) (c :: ds) := (longest_number_iff hrun).2 hends
  cases hx : numberOf? (c :: ds) with
  | none => exact .inr ⟨_, .number hrun hlongest (numberOf?_eq_none_iff.1 hx)⟩
  | some x =>
      have hpoints : (c :: ds).count '.' ≤ 1 := by
        by_contra hpoints
        rw [numberOf?_eq_none_iff.2 (Nat.lt_of_not_le hpoints)] at hx
        contradiction
      exact .inl ⟨ds, rest, _, rfl, .number hrun hpoints hx, hlongest⟩

/-- Where there is a character that is no white space, there is a token, or the lexer is stuck. -/
theorem spells_or_stuck (pos : Nat) (hblank : Text.isBlank c = false) (cs : List Char) :
    (∃ ds rest kind, cs = ds ++ rest ∧ Spells (c :: ds) kind ∧
      Longest (c :: (ds ++ rest)) (c :: ds)) ∨ ∃ e, Stuck pos (c :: cs) e := by
  cases hpair : cs.head?.bind (pair? c) with
  | some kind =>
      obtain ⟨d, rest, rfl, hkind⟩ := exists_of_bind_pair? hpair
      exact .inl ⟨[d], rest, kind, rfl, .pair hkind, longest_pair hkind rest⟩
  | none =>
  cases hsingle : single? c with
  | some kind =>
      exact .inl ⟨[], cs, kind, rfl, .single hsingle, (longest_single_iff hsingle).2 hpair⟩
  | none =>
  by_cases hdigit : c.isDigit = true
  · exact spells_or_stuck_of_digit pos hdigit cs
  by_cases hstart : isWordStart c = true
  · obtain ⟨rest, hcs, htail, hends⟩ := exists_wordRest_append cs
    generalize wordRest cs = ds at hcs htail
    subst hcs
    have hword : Word (c :: ds) := .mk hstart htail
    exact .inl ⟨ds, rest, _, rfl, .word hword, (longest_word_iff hword).2 hends⟩
  · exact .inr ⟨_, .char hblank (no_spelling_iff.2 ⟨hpair, hsingle, hdigit, hstart⟩)⟩

end

end Lexer

end Grimace
