import Grimace.Proofs.Expr.Layout

/-!
# Grimace.Proofs.Expr.Continued

Texts that break off in front of a token and go on otherwise.

A text may be cut in front of any of its tokens: those before it stay as they are.  No spelling goes
over white space, so behind a blank anything may follow, such as other words, each with a blank
before it.

* `Longest.append_blank`, `Laid.append_blank` — what follows white space makes no difference;
* `exists_take_place` — the text in front of a token is laid, with the tokens before that one;
* `exists_continued` — it can be continued by any words that have a spelling.
-/

namespace Grimace

namespace Lexer

open Text (Blank isBlank)

variable {c : Char} {cs w rest gap : List Char} {ps qs : List Piece} {pos : Nat}
  {front back : List Token} {source : List Char}

/-! ## White space ends a spelling -/

theorem isBlank_of_isNumberChar (h : isNumberChar c = true) : isBlank c = false := by
  simp only [isNumberChar, Bool.or_eq_true, beq_iff_eq] at h
  obtain hdigit | rfl := h
  · exact Text.isBlank_of_isDigit hdigit
  · decide

theorem isBlank_of_goesOn (h : GoesOn c cs) : isBlank c = false := by
  obtain hword | ⟨rfl, -⟩ := h
  · simp only [isWordChar, Char.isAlphanum, Bool.or_eq_true, beq_iff_eq] at hword
    obtain ((halpha | hdigit) | rfl) | rfl := hword
    · exact isBlank_of_isWordStart (by simp [isWordStart, halpha])
    · exact Text.isBlank_of_isDigit hdigit
    · decide
    · decide
  · decide

theorem WordTail.isBlank_of_mem (h : WordTail cs) : ∀ c ∈ cs, isBlank c = false := by
  induction h with
  | nil => exact nofun
  | cons hgoes _ ih => exact List.forall_mem_cons.2 ⟨isBlank_of_goesOn hgoes, ih⟩

/-- There is no white space in a spelling. -/
theorem Spelling.isBlank_of_mem (h : Spelling w) : ∀ c ∈ w, isBlank c = false := by
  cases w with
  | nil => exact nofun
  | cons c cs =>
      refine List.forall_mem_cons.2 ⟨h.isBlank_first, ?_⟩
      obtain ⟨d, kind, rfl, hpair⟩ | ⟨kind, rfl, -⟩ | ⟨-, hrun⟩ | ⟨-, htail⟩ := h.cons_cases
      · unfold pair? at hpair
        split at hpair
        all_goals first | contradiction | exact List.forall_mem_singleton.2 rfl
      · exact nofun
      · exact fun d hd => isBlank_of_isNumberChar (hrun d hd)
      · exact htail.isBlank_of_mem

/-- The longest spelling stays so, whatever comes behind white space. -/
theorem Longest.append_blank (h : Longest cs w) (hc : isBlank c = true) :
    Longest (cs ++ c :: rest) w := by
  refine ⟨h.spelling, h.front.trans (List.prefix_append cs _), fun {v} hv hstarts => ?_⟩
  by_cases hlength : v.length ≤ cs.length
  · exact h.longest hv (List.prefix_of_prefix_length_le hstarts (List.prefix_append cs _) hlength)
  · -- A spelling that goes over the end of the text has the white space in it.
    obtain ⟨d, more, rfl, hmore⟩ := exists_of_longer hstarts (Nat.lt_of_not_le hlength)
    obtain ⟨rfl, -⟩ := List.cons_prefix_cons.1 hmore
    have hblank := hv.isBlank_of_mem d (by simp)
    rw [hc] at hblank
    contradiction

theorem Laid.append_blank (h : Laid [] ps) (hc : isBlank c = true) : Laid (c :: rest) ps := by
  induction h with
  | nil => exact .nil
  | cons hgap hspells hlongest _ ih =>
      refine .cons hgap hspells ?_ ih
      simpa using hlongest.append_blank hc

/-- What lies in front of a text that is empty or starts with white space. -/
theorem Laid.before (h : Laid [] ps) (hcs : ∀ c ∈ cs.head?, isBlank c = true) : Laid cs ps := by
  cases cs with
  | nil => exact h
  | cons c cs => exact h.append_blank (hcs c rfl)

/-! ## Texts cut in front of a token -/

@[simp] theorem text_append (ps qs : List Piece) : text (ps ++ qs) = text ps ++ text qs :=
  List.flatMap_append

theorem placed_append (pos : Nat) (ps qs : List Piece) :
    placed pos (ps ++ qs) = placed pos ps ++ placed (pos + (text ps).length) qs := by
  induction ps generalizing pos with
  | nil => simp [placed]
  | cons p ps ih => simp [placed, ih, Nat.add_assoc]

theorem length_placed (pos : Nat) (ps : List Piece) : (placed pos ps).length = ps.length := by
  induction ps generalizing pos with
  | nil => rfl
  | cons p ps ih => rw [placed, List.length_cons, ih, List.length_cons]

/-- Tokens in two parts are those of pieces in two parts. -/
theorem exists_placed_eq_append (h : placed pos ps = front ++ back) :
    ∃ before after, ps = before ++ after ∧ front = placed pos before ∧
      back = placed (pos + (text before).length) after := by
  have hcut : placed pos (ps.take front.length ++ ps.drop front.length) = front ++ back := by
    rw [List.take_append_drop, h]
  rw [placed_append] at hcut
  have hlength : (placed pos (ps.take front.length)).length = front.length := by
    have hle : front.length ≤ ps.length := by
      rw [← length_placed pos ps, h, List.length_append]
      exact Nat.le_add_right _ _
    rw [length_placed, List.length_take, Nat.min_eq_left hle]
  obtain ⟨hfront, hback⟩ := List.append_inj hcut hlength
  exact ⟨_, _, (List.take_append_drop front.length ps).symm, hfront.symm, hback.symm⟩

/-- Pieces in two parts lie one behind the other. -/
theorem laid_append : Laid rest (ps ++ qs) ↔ Laid (text qs ++ rest) ps ∧ Laid rest qs := by
  induction ps with
  | nil => exact ⟨fun h => ⟨.nil, h⟩, fun h => h.2⟩
  | cons p ps ih =>
      have htext : text (ps ++ qs) ++ rest = text ps ++ (text qs ++ rest) := by simp
      constructor
      · intro h
        cases h with
        | cons hgap hspells hlongest hlaid =>
            rw [List.append_eq, htext] at hlongest
            exact ⟨.cons hgap hspells hlongest (ih.1 hlaid).1, (ih.1 hlaid).2⟩
      · rintro ⟨h, hqs⟩
        cases h with
        | cons hgap hspells hlongest hlaid =>
            rw [← htext] at hlongest
            exact .cons hgap hspells hlongest (ih.2 ⟨hlaid, hqs⟩)

/-- In front of a token, or of the end, there lie the tokens before it. -/
theorem exists_take_place (h : tokenize source = .ok (front ++ back)) :
    ∃ ps gap, source.take (Parser.place source.length back) = text ps ++ gap ∧ Laid [] ps ∧
      Blank gap ∧ front = placed 0 ps := by
  obtain ⟨ps, tail, rfl, hlaid, htail, hplaced⟩ := tokenize_eq_ok_iff.1 h
  obtain ⟨before, after, rfl, rfl, rfl⟩ := exists_placed_eq_append hplaced.symm
  obtain ⟨hbefore, hafter⟩ := laid_append.1 hlaid
  have hfront : Laid [] before := hbefore.of_prefix List.nil_prefix
  cases hafter with
  | nil =>
      refine ⟨before, tail, ?_, hfront, htail, rfl⟩
      simp [placed, Parser.place, List.take_of_length_le]
  | @cons p after hgap =>
      refine ⟨before, p.gap, ?_, hfront, hgap, rfl⟩
      have hcut : text (before ++ p :: after) ++ tail =
          (text before ++ p.gap) ++ (p.spelling ++ (text after ++ tail)) := by simp
      rw [hcut]
      exact List.take_left' (by simp [placed, Parser.place])

/-! ## Texts continued -/

/-- Each of the words can be written. -/
def Spellable (ts : List Token.Kind) : Prop := ∀ k ∈ ts, ∃ w, Spells w k

theorem spellable_nil : Spellable [] := nofun

theorem Spellable.append {ts us : List Token.Kind} (hts : Spellable ts) (hus : Spellable us) :
    Spellable (ts ++ us) := List.forall_mem_append.2 ⟨hts, hus⟩

/-- Words that can be written lie behind each other with a blank in front of each. -/
theorem exists_pieces {ts : List Token.Kind} (h : Spellable ts) :
    ∃ ps, ps.map Piece.kind = ts ∧ Laid [] ps ∧ ∀ c ∈ (text ps).head?, isBlank c = true := by
  induction ts with
  | nil => exact ⟨[], rfl, .nil, nofun⟩
  | cons k ts ih =>
      obtain ⟨⟨w, hw⟩, hts⟩ := List.forall_mem_cons.1 h
      obtain ⟨ps, hkinds, hlaid, hblank⟩ := ih hts
      have hself : Longest w w := ⟨hw.spelling, List.prefix_rfl, fun _ hv => hv.length_le⟩
      have hlongest : Longest (w ++ text ps) w := by
        cases htext : text ps with
        | nil => simpa using hself
        | cons c cs => exact hself.append_blank (hblank c (by rw [htext]; rfl))
      have hgap : Blank [' '] := List.forall_mem_singleton.2 rfl
      refine ⟨⟨[' '], w, k⟩ :: ps, by rw [List.map_cons, hkinds], ?_, by simp; decide⟩
      exact .cons hgap hw (by simpa using hlongest) hlaid

/-- **A text is continued** in front of any of its tokens, by words that can be written. -/
theorem exists_continued (h : tokenize source = .ok (front ++ back)) {more : List Token.Kind}
    (hmore : Spellable more) :
    ∃ cs ts, tokenize (source.take (Parser.place source.length back) ++ cs) = .ok (front ++ ts) ∧
      ts.map Token.kind = more := by
  obtain ⟨ps, gap, htake, hlaid, hgap, rfl⟩ := exists_take_place h
  obtain ⟨qs, rfl, hqs, hblank⟩ := exists_pieces hmore
  have hfirst : ∀ c ∈ (gap ++ text qs).head?, isBlank c = true := by
    cases gap with
    | nil => exact hblank
    | cons c gap => simpa using hgap c List.mem_cons_self
  have htokens := tokens_laid (hlaid.before hfirst) 0
  have hlast := tokens_laid hqs (0 + (text ps).length + gap.length)
  rw [tokens_gap hgap] at htokens
  rw [List.append_nil] at hlast
  refine ⟨text qs, placed (0 + (text ps).length + gap.length) qs, ?_, map_kind_placed _ _⟩
  rw [htake, List.append_assoc, tokenize, htokens, hlast]
  simp [tokens, Except.map]

end Lexer

end Grimace
