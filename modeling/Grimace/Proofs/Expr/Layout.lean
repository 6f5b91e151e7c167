import Grimace.Proofs.Expr.Spelling
import Grimace.Proofs.Expr.Walk

/-!
# Grimace.Proofs.Expr.Layout

How the tokens of a text lie in it.

A text is pieces, each of them a token with the white space before it, and what is left over.  In a
*laid* text each token is spelled by the longest spelling that starts at its place.  If no more than
white space is left over, the lexer returns the tokens; otherwise it stops where no token can be
read, and by then it has got past all of the pieces.

* `Piece`, `text`, `placed`, `Laid` — texts in pieces, their tokens, and where these stand;
* `exists_laid` — every text is laid up to its end, or up to where the lexer gets stuck;
* `tokenize_eq_ok_iff`, `tokenize_eq_error_iff` — the lexer finds out which;
* `scan_eq` — a scan of the text comes to its end, and finds the tokens and the mark of the end;
* `loses_nothing` — all of it about one text.
-/

namespace Grimace

namespace Lexer

open Text (Blank isBlank)

/-- A token of a text: the white space before it, its spelling, and which token it is. -/
structure Piece where
  gap : List Char
  spelling : List Char
  kind : Token.Kind

/-- All that the pieces take of a text. -/
def text (ps : List Piece) : List Char := ps.flatMap fun p => p.gap ++ p.spelling

/-- The tokens of pieces that start at a place. -/
def placed (pos : Nat) : List Piece → List Token
  | [] => []
  | p :: ps => ⟨p.kind, pos + p.gap.length⟩ :: placed (pos + (p.gap ++ p.spelling).length) ps

/-- The pieces lie in front of the rest: white space separates them, and each token has the longest
spelling that starts at its place. -/
inductive Laid (rest : List Char) : List Piece → Prop where
  | nil : Laid rest []
  | cons {p : Piece} {ps : List Piece} : Blank p.gap → Spells p.spelling p.kind →
    Longest (p.spelling ++ (text ps ++ rest)) p.spelling → Laid rest ps → Laid rest (p :: ps)

/-! ## Texts and places -/

section

variable {pos : Nat} {gap w cs rest rest' : List Char} {p : Piece} {ps : List Piece} {t : Token}
  {kind : Token.Kind} {e : CompileError} {ts : List Token}

@[simp] theorem text_nil : text [] = [] := rfl

@[simp] theorem text_cons : text (p :: ps) = p.gap ++ (p.spelling ++ text ps) := by
  simp [text]

theorem map_kind_placed (pos : Nat) (ps : List Piece) :
    (placed pos ps).map Token.kind = ps.map Piece.kind := by
  induction ps generalizing pos with
  | nil => rfl
  | cons p ps ih => rw [placed, List.map_cons, ih, List.map_cons]

/-- What lies in front of a text lies in front of a part of it. -/
theorem Laid.of_prefix (h : Laid rest ps) (hstarts : rest' <+: rest) : Laid rest' ps := by
  induction h with
  | nil => exact .nil
  | @cons p ps hgap hspells hlongest _ ih =>
      have hshorter : p.spelling ++ (text ps ++ rest') <+: p.spelling ++ (text ps ++ rest) :=
        (List.prefix_append_right_inj _).2 ((List.prefix_append_right_inj _).2 hstarts)
      exact .cons hgap hspells (hlongest.of_prefix hshorter (List.prefix_append _ _)) ih

/-- The tokens stand in what the pieces take, one behind the other. -/
theorem mem_placed (h : Laid rest ps) (ht : t ∈ placed pos ps) :
    pos ≤ t.pos ∧ t.pos < pos + (text ps).length := by
  induction h generalizing pos with
  | nil => cases ht
  | @cons p ps _ hspells _ _ ih =>
      have hpos := List.length_pos_iff.2 hspells.spelling.ne_nil
      rw [text_cons, List.length_append, List.length_append]
      rw [placed, List.mem_cons] at ht
      obtain rfl | ht := ht
      · constructor
        · exact Nat.le_add_right _ _
        · show pos + p.gap.length < _
          omega
      · obtain ⟨hlow, hhigh⟩ := ih ht
        rw [List.length_append] at hlow hhigh
        omega

theorem pairwise_placed (h : Laid rest ps) (pos : Nat) :
    (placed pos ps).Pairwise fun t u => t.pos < u.pos := by
  induction h generalizing pos with
  | nil => exact .nil
  | @cons p ps _ hspells _ hlaid ih =>
      refine List.pairwise_cons.2 ⟨fun u hu => ?_, ih _⟩
      have hpos := List.length_pos_iff.2 hspells.spelling.ne_nil
      obtain ⟨hlow, -⟩ := mem_placed hlaid hu
      rw [List.length_append] at hlow
      show pos + p.gap.length < u.pos
      omega

/-- At the place of a token the text goes on with its spelling. -/
theorem exists_longest (h : Laid rest ps) (before : List Char) (ht : t ∈ placed before.length ps) :
    ∃ w, Spells w t.kind ∧ Longest ((before ++ (text ps ++ rest)).drop t.pos) w := by
  induction h generalizing before with
  | nil => cases ht
  | @cons p ps _ hspells hlongest _ ih =>
      rw [placed, List.mem_cons] at ht
      obtain rfl | ht := ht
      · have hbefore : before ++ (text (p :: ps) ++ rest) =
            (before ++ p.gap) ++ (p.spelling ++ (text ps ++ rest)) := by
          simp
        rw [hbefore, List.drop_left' List.length_append]
        exact ⟨p.spelling, hspells, hlongest⟩
      · rw [← List.length_append] at ht
        have hbefore : before ++ (text (p :: ps) ++ rest) =
            (before ++ (p.gap ++ p.spelling)) ++ (text ps ++ rest) := by
          simp
        rw [hbefore]
        exact ih _ ht

/-! ## A walk over the pieces -/

/-- The lexer counts down what is left of a spelling. -/
theorem tokens_skip (ds : List Char) (pos : Nat) (rest : List Char) :
    tokens ds.length pos (ds ++ rest) = tokens 0 (pos + ds.length) rest := by
  induction ds generalizing pos with
  | nil => rfl
  | cons d ds ih =>
      rw [List.length_cons, List.cons_append, tokens, ih, Nat.add_assoc, Nat.add_comm 1]

theorem tokens_gap (h : Blank gap) (pos : Nat) (rest : List Char) :
    tokens 0 pos (gap ++ rest) = tokens 0 (pos + gap.length) rest := by
  induction gap generalizing pos with
  | nil => rfl
  | cons c gap ih =>
      have hgap : Blank gap := fun d hd => h d (List.mem_cons_of_mem c hd)
      rw [List.cons_append, tokens, if_pos (h c List.mem_cons_self), ih hgap, List.length_cons,
        Nat.add_assoc, Nat.add_comm 1]

theorem tokens_blank (h : Blank gap) (pos : Nat) : tokens 0 pos gap = .ok [] := by
  have hgap := tokens_gap h pos []
  rw [List.append_nil] at hgap
  exact hgap

theorem tokens_spelling (h : Spells w kind) (hlongest : Longest (w ++ rest) w) (pos : Nat) :
    tokens 0 pos (w ++ rest) = (tokens 0 (pos + w.length) rest).map (⟨kind, pos⟩ :: ·) := by
  cases w with
  | nil => exact absurd rfl h.spelling.ne_nil
  | cons c cs =>
      have hblank : ¬ isBlank c = true := by
        simp [h.spelling.isBlank_first]
      rw [List.cons_append, tokens, if_neg hblank, lexeme_of_spells pos h hlongest,
        List.length_cons, Nat.add_comm cs.length, ← Nat.add_assoc, ← tokens_skip]
      rfl

/-- The lexer gets past the pieces. -/
theorem tokens_laid (h : Laid rest ps) (pos : Nat) :
    tokens 0 pos (text ps ++ rest) =
      (tokens 0 (pos + (text ps).length) rest).map (placed pos ps ++ ·) := by
  induction h generalizing pos with
  | nil =>
      cases htokens : tokens 0 pos rest <;> simp [placed, htokens, Except.map]
  | @cons p ps hgap hspells hlongest _ ih =>
      have hlength : pos + (text (p :: ps)).length =
          pos + p.gap.length + p.spelling.length + (text ps).length := by
        simp [Nat.add_assoc]
      rw [hlength, text_cons, List.append_assoc, List.append_assoc, tokens_gap hgap,
        tokens_spelling hspells hlongest, ih, placed, List.length_append, ← Nat.add_assoc]
      cases tokens 0 (pos + p.gap.length + p.spelling.length + (text ps).length) rest <;> rfl

theorem tokens_stuck (hgap : Blank gap) (h : Stuck (pos + gap.length) rest e) :
    tokens 0 pos (gap ++ rest) = .error e := by
  rw [tokens_gap hgap]
  generalize pos + gap.length = place at h
  cases rest with
  | nil => exact absurd rfl h.ne_nil
  | cons c cs =>
      have hblank : ¬ isBlank c = true := by
        simp [h.isBlank_first]
      rw [tokens, if_neg hblank, lexeme_of_stuck h]
      rfl

/-! ## Every text is laid as far as it goes -/

/-- The longest spellings in front of a text come to its end, or to where the lexer is stuck. -/
theorem exists_laid (pos : Nat) (cs : List Char) :
    (∃ ps tail, cs = text ps ++ tail ∧ Laid tail ps ∧ Blank tail) ∨
      ∃ ps gap rest e, cs = text ps ++ (gap ++ rest) ∧ Laid (gap ++ rest) ps ∧ Blank gap ∧
        Stuck (pos + (text ps ++ gap).length) rest e := by
  -- By induction on what is left of the text: each spelling takes a character at least.
  induction hlength : cs.length using Nat.strong_induction_on generalizing pos cs with
  | _ n ih =>
  obtain ⟨⟨gap, hgap, hcs⟩, hfirst⟩ := Text.exists_append_trimStart cs
  generalize Text.trimStart cs = rest at hcs hfirst
  subst hcs
  cases rest with
  | nil => exact .inl ⟨[], gap, by simp, .nil, hgap⟩
  | cons c cs =>
  obtain ⟨ds, rest, kind, rfl, hspells, hlongest⟩ | ⟨e, hstuck⟩ :=
    spells_or_stuck (pos + gap.length) (hfirst c rfl) cs
  · let p : Piece := ⟨gap, c :: ds, kind⟩
    have hshorter : rest.length < n := by
      rw [← hlength, List.length_append, List.length_cons, List.length_append]
      omega
    obtain ⟨ps, tail, rfl, hlaid, htail⟩ | ⟨ps, gap', rest, e, rfl, hlaid, hgap', hstuck⟩ :=
      ih _ hshorter (pos + (gap ++ c :: ds).length) rest rfl
    · exact .inl ⟨p :: ps, tail, by simp [p], .cons hgap hspells hlongest hlaid, htail⟩
    · refine .inr ⟨p :: ps, gap', rest, e, by simp [p], .cons hgap hspells hlongest hlaid, hgap',
        ?_⟩
      rw [Nat.add_assoc, ← List.length_append] at hstuck
      simpa [p] using hstuck
  · exact .inr ⟨[], gap, c :: cs, e, rfl, .nil, hgap, hstuck⟩

end

section

variable {source : List Char}

/-- The lexer returns the tokens of a text that is laid up to its end, but for white space. -/
theorem tokenize_laid {ps : List Piece} {tail : List Char} (h : Laid tail ps) (htail : Blank tail) :
    tokenize (text ps ++ tail) = .ok (placed 0 ps) := by
  rw [tokenize, tokens_laid h, tokens_blank htail]
  simp [Except.map]

/-- It stops where it gets stuck behind a laid text. -/
theorem tokenize_stuck {ps : List Piece} {gap rest : List Char} {e : CompileError}
    (h : Laid (gap ++ rest) ps) (hgap : Blank gap) (hstuck : Stuck (text ps ++ gap).length rest e) :
    tokenize (text ps ++ (gap ++ rest)) = .error e := by
  rw [List.length_append, ← Nat.zero_add (text ps).length] at hstuck
  rw [tokenize, tokens_laid h, tokens_stuck hgap hstuck]
  rfl

theorem tokenize_eq_ok_iff {ts : List Token} :
    tokenize source = .ok ts ↔
      ∃ ps tail, source = text ps ++ tail ∧ Laid tail ps ∧ Blank tail ∧ ts = placed 0 ps := by
  constructor
  · intro h
    obtain ⟨ps, tail, rfl, hlaid, htail⟩ | ⟨ps, gap, rest, e, rfl, hlaid, hgap, hstuck⟩ :=
      exists_laid 0 source
    · rw [tokenize_laid hlaid htail] at h
      exact ⟨ps, tail, rfl, hlaid, htail, (Except.ok.inj h).symm⟩
    · rw [Nat.zero_add] at hstuck
      rw [tokenize_stuck hlaid hgap hstuck] at h
      contradiction
  · rintro ⟨ps, tail, rfl, hlaid, htail, rfl⟩
    exact tokenize_laid hlaid htail

theorem tokenize_eq_error_iff {e : CompileError} :
    tokenize source = .error e ↔
      ∃ ps gap rest, source = text ps ++ (gap ++ rest) ∧ Laid (gap ++ rest) ps ∧ Blank gap ∧
        Stuck (text ps ++ gap).length rest e := by
  constructor
  · intro h
    obtain ⟨ps, tail, rfl, hlaid, htail⟩ | ⟨ps, gap, rest, e', rfl, hlaid, hgap, hstuck⟩ :=
      exists_laid 0 source
    · rw [tokenize_laid hlaid htail] at h
      contradiction
    · rw [Nat.zero_add] at hstuck
      rw [tokenize_stuck hlaid hgap hstuck] at h
      obtain rfl := Except.error.inj h
      exact ⟨ps, gap, rest, rfl, hlaid, hgap, hstuck⟩
  · rintro ⟨ps, gap, rest, rfl, hlaid, hgap, hstuck⟩
    exact tokenize_stuck hlaid hgap hstuck

/-- What stands before the place where the lexer gets stuck is a text that it reads. -/
theorem exists_stuck_drop {e : CompileError} (h : tokenize source = .error e) :
    ∃ pos, Stuck pos (source.drop pos) e ∧ ∃ ts, tokenize (source.take pos) = .ok ts := by
  obtain ⟨ps, gap, rest, rfl, hlaid, hgap, hstuck⟩ := tokenize_eq_error_iff.1 h
  have hbefore : Laid gap ps := hlaid.of_prefix (List.prefix_append gap rest)
  refine ⟨(text ps ++ gap).length, ?_, placed 0 ps, ?_⟩
  · rwa [← List.append_assoc, List.drop_left]
  · rw [← List.append_assoc, List.take_left]
    exact tokenize_laid hbefore hgap

/-! ## Scans -/

section

variable {gap w rest : List Char} {ps : List Piece} {kind : Token.Kind} {e : CompileError}

/-- A scan goes past white space. -/
theorem next_gap (before : List Char) (hgap : Blank gap)
    (hfirst : ∀ c ∈ rest.head?, isBlank c = false) :
    Scan.next (before ++ (gap ++ rest)) before.length =
      Scan.front (before ++ gap).length rest := by
  have hbehind : (before ++ (gap ++ rest)).drop before.length = gap ++ rest := List.drop_left
  have hrest : (before ++ (gap ++ rest)).drop (before ++ gap).length = rest := by
    rw [← List.append_assoc, List.drop_left]
  rw [Scan.next, hbehind, takeWhile_append_of_ends hgap hfirst, ← List.length_append, hrest]

theorem next_mark (before : List Char) (hgap : Blank gap) :
    Scan.next (before ++ gap) before.length =
      .ok (⟨none, (before ++ gap).length⟩, (before ++ gap).length) := by
  have hmark : Scan.next (before ++ (gap ++ [])) before.length =
      Scan.front (before ++ gap).length [] := next_gap before hgap nofun
  rwa [List.append_nil] at hmark

theorem next_spelling (before : List Char) (hgap : Blank gap) (h : Spells w kind)
    (hlongest : Longest (w ++ rest) w) :
    Scan.next (before ++ (gap ++ (w ++ rest))) before.length =
      .ok (⟨some kind, (before ++ gap).length⟩, (before ++ (gap ++ w)).length) := by
  cases w with
  | nil => exact absurd rfl h.spelling.ne_nil
  | cons c cs =>
      have hlength :
          (before ++ gap).length + 1 + cs.length = (before ++ (gap ++ c :: cs)).length := by
        simp only [List.length_append, List.length_cons]
        omega
      rw [next_gap before hgap (by rintro _ ⟨⟩; exact h.spelling.isBlank_first), List.cons_append,
        Scan.front, lexeme_of_spells _ h hlongest, ← hlength]
      rfl

theorem next_stuck (before : List Char) (hgap : Blank gap)
    (h : Stuck (before ++ gap).length rest e) :
    Scan.next (before ++ (gap ++ rest)) before.length = .error e := by
  cases rest with
  | nil => exact absurd rfl h.ne_nil
  | cons c cs =>
      rw [next_gap before hgap (by rintro _ ⟨⟩; exact h.isBlank_first), Scan.front,
        lexeme_of_stuck h]
      rfl

/-- A round is enough for each piece. -/
theorem entries_laid (h : Laid rest ps) (before : List Char) (bound : Nat) (found : List Entry) :
    Scan.entries (before ++ (text ps ++ rest)) (ps.length + bound) found before.length =
      Scan.entries (before ++ (text ps ++ rest)) bound
        (found ++ (placed before.length ps).map Walk.entryOf) (before ++ text ps).length := by
  -- The place moves behind each piece, so the rest of them is scanned behind a longer text.
  induction h generalizing before found with
  | nil => simp [placed]
  | @cons p ps hgap hspells hlongest _ ih =>
      have hrounds : (p :: ps).length + bound = ps.length + bound + 1 := by
        rw [List.length_cons, Nat.add_right_comm]
      have hcs : before ++ (text (p :: ps) ++ rest) =
          before ++ (p.gap ++ (p.spelling ++ (text ps ++ rest))) := by
        simp
      have hbehind : before ++ (text (p :: ps) ++ rest) =
          (before ++ (p.gap ++ p.spelling)) ++ (text ps ++ rest) := by
        simp
      have hnext := next_spelling before hgap hspells hlongest
      rw [← hcs] at hnext
      rw [hrounds, Scan.entries, hnext]
      dsimp only
      rw [hbehind, ih]
      simp [placed, Walk.entryOf]

/-- Each piece takes a character at least. -/
theorem length_le_text (h : Laid rest ps) : ps.length ≤ (text ps).length := by
  induction h with
  | nil => exact Nat.le_refl 0
  | @cons p ps _ hspells _ _ ih =>
      have hpos := List.length_pos_iff.2 hspells.spelling.ne_nil
      rw [text_cons, List.length_append, List.length_append, List.length_cons]
      omega

/-- Behind the pieces of a text a scan has a round left. -/
theorem scan_laid (h : Laid rest ps) :
    ∃ bound, scan (text ps ++ rest) = Scan.entries (text ps ++ rest) (bound + 1)
      ((placed 0 ps).map Walk.entryOf) (text ps).length := by
  have hlength := length_le_text h
  obtain ⟨bound, hbound⟩ : ∃ bound, (text ps ++ rest).length + 1 = ps.length + (bound + 1) := by
    rw [List.length_append]
    exact ⟨(text ps).length + rest.length - ps.length, by omega⟩
  refine ⟨bound, ?_⟩
  rw [scan, hbound]
  exact entries_laid h [] (bound + 1) []

/-- **A scan** never panics, and finds the tokens of the text and the mark of the end. -/
theorem scan_eq (source : List Char) :
    scan source = .ok ((tokenize source).map (Walk.entries source.length)) := by
  obtain ⟨ps, tail, rfl, hlaid, htail⟩ | ⟨ps, gap, rest, e, rfl, hlaid, hgap, hstuck⟩ :=
    exists_laid 0 source
  · obtain ⟨bound, hscan⟩ := scan_laid hlaid
    rw [hscan, Scan.entries, next_mark (text ps) htail, tokenize_laid hlaid htail]
    rfl
  · rw [Nat.zero_add] at hstuck
    obtain ⟨bound, hscan⟩ := scan_laid hlaid
    rw [hscan, Scan.entries, next_stuck (text ps) hgap hstuck, tokenize_stuck hlaid hgap hstuck]
    rfl

end

/-! ## All texts -/

/-- **The lexer loses nothing** and points at the right place.

It returns tokens where the text is laid up to its end, but for white space; then they are the
tokens of the pieces.  A scan of the text finds these and the mark of the end, which stands behind
the last character.  All places increase, and at each token's the text goes on with its spelling,
which is the longest one there.

It fails where it gets stuck behind a laid text: at a character that starts no spelling, or at a run
of digits and points that has two points or more.  It reports that character or run and where it
stands, and all that stands before it is a text with tokens. -/
theorem loses_nothing (source : List Char) :
    (∀ ts, tokenize source = .ok ts ↔
      ∃ ps tail, source = text ps ++ tail ∧ Laid tail ps ∧ Blank tail ∧ ts = placed 0 ps) ∧
    (∀ ts, tokenize source = .ok ts →
      ∃ es, scan source = .ok (.ok es) ∧ es = Walk.entries source.length ts ∧
        (∃ front, es = front ++ [⟨none, source.length⟩] ∧ ∀ entry ∈ front, entry.kind ≠ none) ∧
        es.Pairwise (fun a b => a.pos < b.pos) ∧
        ∀ t ∈ ts, ∃ w, Spells w t.kind ∧ Longest (source.drop t.pos) w) ∧
    (∀ e, tokenize source = .error e ↔
      ∃ ps gap rest, source = text ps ++ (gap ++ rest) ∧ Laid (gap ++ rest) ps ∧ Blank gap ∧
        Stuck (text ps ++ gap).length rest e) ∧
    ∀ e, tokenize source = .error e → scan source = .ok (.error e) ∧
      ∃ pos, Stuck pos (source.drop pos) e ∧ ∃ ts, tokenize (source.take pos) = .ok ts := by
  refine ⟨fun _ => tokenize_eq_ok_iff, fun ts h => ?returned, fun _ => tokenize_eq_error_iff,
    fun e h => ⟨?_, exists_stuck_drop h⟩⟩
  case returned =>
    obtain ⟨ps, tail, rfl, hlaid, -, rfl⟩ := tokenize_eq_ok_iff.1 h
    have hinside : ∀ t ∈ placed 0 ps, t.pos < (text ps).length + tail.length := fun t ht => by
      obtain ⟨-, hlt⟩ := mem_placed hlaid ht
      omega
    have hscan : scan (text ps ++ tail) =
        .ok (.ok (Walk.entries (text ps ++ tail).length (placed 0 ps))) := by
      rw [scan_eq, h]
      rfl
    refine ⟨_, hscan, rfl, ⟨_, rfl, ?_⟩, ?_, fun t ht => exists_longest hlaid [] ht⟩
    · rintro _ hentry
      obtain ⟨t, -, rfl⟩ := List.mem_map.1 hentry
      exact Option.some_ne_none _
    · simpa [Walk.entries, Walk.entryOf, List.pairwise_append, List.pairwise_map] using
        ⟨pairwise_placed hlaid 0, hinside⟩
  · rw [scan_eq, h]
    rfl

/-- A mark is part of the word that it stands in, and a word may end with a point.  In the second
text the number is reported, and not the mark behind it. -/
theorem loses_nothing_marks :
    let good := "a?.b<=c.!".toList
    let bad := "a?.b 1.2.3?".toList
    let ts : List Token := [⟨.name "a.b", 0⟩, ⟨.op .le, 4⟩, ⟨.name "c.", 6⟩, ⟨.kwNot, 8⟩]
    tokenize good = .ok ts ∧ scan good = .ok (.ok (ts.map Walk.entryOf ++ [⟨none, 9⟩])) ∧
      (∀ t ∈ ts, ∃ w, Spells w t.kind ∧ Longest (good.drop t.pos) w) ∧
      tokenize bad = .error (.invalidNumber "1.2.3" 5) ∧
      scan bad = .ok (.error (.invalidNumber "1.2.3" 5)) ∧
      ∃ pos, Stuck pos (bad.drop pos) (.invalidNumber "1.2.3" 5) ∧
        ∃ ts, tokenize (bad.take pos) = .ok ts := by
  intro good bad ts
  have hgood : tokenize good = .ok ts := by rfl
  have hbad : tokenize bad = .error (.invalidNumber "1.2.3" 5) := by rfl
  obtain ⟨-, htokens, -, -⟩ := loses_nothing good
  obtain ⟨-, -, -, hfails⟩ := loses_nothing bad
  obtain ⟨_, hscan, rfl, -, -, hlongest⟩ := htokens ts hgood
  exact ⟨hgood, hscan, hlongest, hbad, hfails _ hbad⟩

end

end Lexer

end Grimace
