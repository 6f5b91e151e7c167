import Grimace.Proofs.Expr.Layout
import Grimace.Proofs.Expr.Checked
import Grimace.Proofs.Expr.Stack
import Grimace.Proofs.Expr.TooDeep

/-!
# Grimace.Proofs.Expr.SafeNavigation

A `?` before a point is decoration.

The marks of a text stand in its words.  No token starts with one, so where they are left out each
spelling stays the longest at its place, and the pieces of the text spell the same tokens; the
places of these do not matter to the tree.

* `Spells.plain`, `Longest.plain` — one token without its marks;
* `Laid.plain` — and a whole text;
* `Navigates` — where a mark may stand;
* `marks_decorate` — a text with marks compares to the text without them.
-/

namespace Grimace

namespace Lexer

open Text (Blank)

section

variable {c d : Char} {cs w run rest after before : List Char} {p : Piece} {ps : List Piece}
  {kind : Token.Kind}

/-! ## One token -/

@[simp] theorem unmarked_append (cs ds : List Char) :
    unmarked (cs ++ ds) = unmarked cs ++ unmarked ds := List.filter_append cs ds

theorem unmarked_of_not_mem (h : '?' ∉ cs) : unmarked cs = cs :=
  List.filter_eq_self.2 fun _ hc => bne_iff_ne.2 fun hmark => h (hmark ▸ hc)

theorem unmarked_unmarked (cs : List Char) : unmarked (unmarked cs) = unmarked cs := by
  simp [unmarked]

theorem not_mem_of_pair? (h : pair? c d = some kind) : '?' ∉ [c, d] := by
  unfold pair? at h
  split at h
  all_goals first | contradiction | decide

theorem not_mem_of_single? (h : single? c = some kind) : '?' ∉ [c] := by
  unfold single? at h
  split at h
  all_goals first | contradiction | decide

theorem NumberRun.not_mem (h : NumberRun run) : '?' ∉ run := by
  obtain ⟨hc, hcs⟩ := h
  rw [List.mem_cons, not_or]
  constructor
  · rintro rfl
    contradiction
  · intro hmark
    exact absurd (hcs '?' hmark) (by decide)

theorem not_mem_of_blank (h : Blank cs) : '?' ∉ cs := by
  intro hmark
  exact absurd (h '?' hmark) (by decide)

/-- A token with marks is a word. -/
theorem Spells.not_mem_or_word (h : Spells w kind) : '?' ∉ w ∨ Word w := by
  cases h with
  | pair h => exact .inl (not_mem_of_pair? h)
  | single h => exact .inl (not_mem_of_single? h)
  | number h => exact .inl h.not_mem
  | word h => exact .inr h

theorem WordTail.plain (h : WordTail cs) : WordTail (unmarked cs) := by
  induction h with
  | nil => exact .nil
  | @cons c cs hgoes _ ih =>
      by_cases hc : c = '?'
      · subst hc
        exact ih
      · have hkept : unmarked (c :: cs) = c :: unmarked cs := by
          simp [unmarked, hc]
        rw [hkept]
        exact .cons (.inl (hgoes.resolve_right fun hmark => hc hmark.1)) ih

theorem Word.plain (h : Word w) : Word (unmarked w) := by
  obtain ⟨hc, hcs⟩ := h
  next c cs =>
  have hkept : unmarked (c :: cs) = c :: unmarked cs := by
    have hmark : c ≠ '?' := by
      rintro rfl
      contradiction
    simp [unmarked, hmark]
  rw [hkept]
  exact .mk hc hcs.plain

/-- A token is the same without its marks. -/
theorem Spells.plain (h : Spells w kind) : Spells (unmarked w) kind := by
  cases h with
  | pair hpair =>
      rw [unmarked_of_not_mem (not_mem_of_pair? hpair)]
      exact .pair hpair
  | single hsingle =>
      rw [unmarked_of_not_mem (not_mem_of_single? hsingle)]
      exact .single hsingle
  | number hrun hpoints hx =>
      rw [unmarked_of_not_mem hrun.not_mem]
      exact .number hrun hpoints hx
  | word hword =>
      have hspells := Spells.word hword.plain
      rwa [unmarked_unmarked] at hspells

/-! ## What stands behind a token -/

theorem head?_unmarked (h : rest.head? ≠ some '?') : (unmarked rest).head? = rest.head? := by
  cases rest with
  | nil => rfl
  | cons c cs =>
      have hc : c ≠ '?' := fun hmark => h (hmark ▸ rfl)
      simp [unmarked, hc]

theorem endsWord_iff (h : rest.head? ≠ some '?') :
    EndsWord rest ↔ ∀ c ∈ rest.head?, isWordChar c = false := by
  cases rest with
  | nil => exact ⟨nofun, nofun⟩
  | cons c cs =>
      have hc : c ≠ '?' := fun hmark => h (hmark ▸ rfl)
      simp [EndsWord, GoesOn, hc]

/-- Where no mark stands behind a token, it stays the longest without marks. -/
theorem Longest.plain (hlongest : Longest (w ++ rest) w) (h : Spells w kind)
    (hrest : rest.head? ≠ some '?') :
    Longest (unmarked w ++ unmarked rest) (unmarked w) := by
  have hhead := head?_unmarked hrest
  cases h with
  | pair hpair =>
      rw [unmarked_of_not_mem (not_mem_of_pair? hpair)]
      exact longest_pair hpair _
  | single hsingle =>
      rw [unmarked_of_not_mem (not_mem_of_single? hsingle)]
      rw [List.singleton_append, longest_single_iff hsingle] at hlongest ⊢
      rwa [hhead]
  | number hrun =>
      rw [unmarked_of_not_mem hrun.not_mem, longest_number_iff hrun, hhead]
      exact (longest_number_iff hrun).1 hlongest
  | word hword =>
      rw [longest_word_iff hword.plain, endsWord_iff (hhead ▸ hrest), hhead, ← endsWord_iff hrest]
      exact (longest_word_iff hword).1 hlongest

/-! ## A whole text -/

/-- The piece without marks. -/
def Piece.plain (p : Piece) : Piece := { p with spelling := unmarked p.spelling }

theorem Spelling.first_ne (h : Spelling (c :: cs)) : c ≠ '?' := by
  rintro rfl
  obtain ⟨d, kind, -, h⟩ | ⟨kind, -, h⟩ | ⟨h, -⟩ | ⟨h, -⟩ := h.cons_cases
  · exact not_mem_of_pair? h List.mem_cons_self
  · exact not_mem_of_single? h List.mem_cons_self
  · contradiction
  · contradiction

/-- No mark stands in front of a laid text. -/
theorem Laid.head?_ne (h : Laid rest ps) (hrest : Blank rest) :
    (text ps ++ rest).head? ≠ some '?' := by
  cases h with
  | nil => exact fun hmark => not_mem_of_blank hrest (List.mem_of_mem_head? hmark)
  | @cons p ps hgap hspells =>
      rw [text_cons, List.append_assoc]
      cases hp : p.gap with
      | cons c gap =>
          have hc := not_mem_of_blank hgap
          intro hmark
          obtain rfl := Option.some.inj hmark
          exact hc (hp ▸ List.mem_cons_self)
      | nil =>
          cases hw : p.spelling with
          | nil => exact absurd hw hspells.spelling.ne_nil
          | cons c w =>
              have hfirst : Spelling (c :: w) := hw ▸ hspells.spelling
              exact fun hmark => hfirst.first_ne (Option.some.inj hmark)

theorem Laid.unmarked_text (h : Laid rest ps) (hrest : Blank rest) :
    unmarked (text ps ++ rest) = text (ps.map Piece.plain) ++ rest := by
  induction h with
  | nil => exact unmarked_of_not_mem (not_mem_of_blank hrest)
  | @cons p ps hgap _ _ _ ih =>
      rw [text_cons, List.append_assoc, List.append_assoc, unmarked_append, unmarked_append, ih,
        unmarked_of_not_mem (not_mem_of_blank hgap)]
      simp [Piece.plain]

/-- Without marks, the pieces lie as they did. -/
theorem Laid.plain (h : Laid rest ps) (hrest : Blank rest) : Laid rest (ps.map Piece.plain) := by
  induction h with
  | nil => exact .nil
  | @cons p ps hgap hspells hlongest hlaid ih =>
      refine .cons hgap hspells.plain ?_ ih
      rw [← hlaid.unmarked_text hrest]
      exact hlongest.plain hspells (hlaid.head?_ne hrest)

/-! ## Where a mark may stand -/

/-- In a text of two parts with a mark between them, the mark stands inside a word that the lexer
comes to, directly before a point. -/
inductive Navigates : List Char → List Char → Prop where
  | mk {ps : List Piece} {gap front back rest : List Char} {kind : Token.Kind} :
    Laid rest (ps ++ [⟨gap, front ++ '?' :: '.' :: back, kind⟩]) →
    Word (front ++ '?' :: '.' :: back) →
    Navigates (text ps ++ (gap ++ front)) ('.' :: (back ++ rest))

/-- A text in two parts has its mark in the second one or in the first one. -/
theorem mem_either (h : cs ++ rest = before ++ '?' :: after) :
    (∃ more, before = cs ++ more ∧ rest = more ++ '?' :: after) ∨
      ∃ more, cs = before ++ '?' :: more ∧ after = more ++ rest := by
  obtain ⟨more, hbefore, hrest⟩ | ⟨more, hcs, hafter⟩ := List.append_eq_append_iff.1 h
  · exact .inl ⟨more, hbefore, hrest⟩
  · cases more with
    | nil => exact .inl ⟨[], by simpa using hcs.symm, hafter.symm⟩
    | cons c more =>
        obtain ⟨rfl, rfl⟩ := List.cons.inj hafter
        exact .inr ⟨more, hcs, rfl⟩

/-- In a word, a mark is followed by a point. -/
theorem Word.point_after (h : Word (before ++ '?' :: after)) : ∃ back, after = '.' :: back := by
  have hgoes : GoesOn '?' after := by
    cases before with
    | nil => cases h; contradiction
    | cons c front =>
        obtain ⟨-, htail⟩ := h
        cases htail.of_append with
        | cons hgoes => exact hgoes
  obtain hword | ⟨-, hpoint⟩ := hgoes
  · exact absurd hword (by decide)
  · exact List.head?_eq_some_iff.1 hpoint

theorem Navigates.point_after (h : Navigates before after) : ∃ more, after = '.' :: more := by
  obtain ⟨-, -⟩ := h
  exact ⟨_, rfl⟩

/-- What is said of the rest of a text is said of the text with a piece in front. -/
theorem Navigates.cons (h : Navigates before after) (hgap : Blank p.gap)
    (hspells : Spells p.spelling p.kind)
    (hlongest : Longest (p.spelling ++ (before ++ '?' :: after)) p.spelling) :
    Navigates (p.gap ++ (p.spelling ++ before)) after := by
  obtain ⟨hlaid, hword⟩ := h
  next ps gap front back rest kind =>
  have htext : text ps ++ (gap ++ front) ++ '?' :: '.' :: (back ++ rest) =
      text (ps ++ [⟨gap, front ++ '?' :: '.' :: back, kind⟩]) ++ rest := by
    simp [text]
  rw [htext] at hlongest
  have hfront : Laid rest ((p :: ps) ++ [⟨gap, front ++ '?' :: '.' :: back, kind⟩]) :=
    .cons hgap hspells hlongest hlaid
  have hnavigates := Navigates.mk hfront hword
  rwa [text_cons, List.append_assoc, List.append_assoc] at hnavigates

/-- Every mark of a laid text stands so. -/
theorem Laid.navigates (h : Laid rest ps) (hrest : Blank rest)
    (htext : text ps ++ rest = before ++ '?' :: after) : Navigates before after := by
  induction h generalizing before with
  | nil =>
      have hmark : '?' ∈ rest := by
        rw [← List.nil_append rest, ← text_nil, htext]
        simp
      exact absurd hmark (not_mem_of_blank hrest)
  | @cons p ps hgap hspells hlongest hlaid ih =>
      rw [text_cons, List.append_assoc, List.append_assoc] at htext
      obtain ⟨before, rfl, hbehind⟩ | ⟨more, hmark, -⟩ := mem_either htext
      · obtain ⟨before, rfl, hafter⟩ | ⟨more, hmark, rfl⟩ := mem_either hbehind
        · rw [hafter] at hlongest
          exact (ih hafter).cons hgap hspells hlongest
        · have hword : Word p.spelling := by
            refine hspells.not_mem_or_word.resolve_left (not_not_intro ?_)
            rw [hmark]
            simp
          rw [hmark] at hword hspells hlongest
          obtain ⟨back, rfl⟩ := hword.point_after
          have hfront : Laid (text ps ++ rest)
              ([] ++ [⟨p.gap, before ++ '?' :: '.' :: back, p.kind⟩]) :=
            .cons hgap hspells hlongest .nil
          exact .mk hfront hword
      · refine absurd ?_ (not_mem_of_blank hgap)
        rw [hmark]
        simp

end

end Lexer

/-! ## Texts and conditions -/

section

open Lexer (unmarked Navigates)

variable {source : String}

theorem tokenize_unmarked {cs : List Char} {ts : List Token} (h : tokenize cs = .ok ts) :
    ∃ ts', tokenize (unmarked cs) = .ok ts' ∧ ts'.map Token.kind = ts.map Token.kind := by
  obtain ⟨ps, tail, rfl, hlaid, htail, rfl⟩ := Lexer.tokenize_eq_ok_iff.1 h
  refine ⟨Lexer.placed 0 (ps.map Lexer.Piece.plain), ?_, ?_⟩
  · rw [hlaid.unmarked_text htail]
    exact Lexer.tokenize_laid (hlaid.plain htail) htail
  · rw [Lexer.map_kind_placed, Lexer.map_kind_placed, List.map_map]
    rfl

theorem utf8ByteSize_unmarked_le (cs : List Char) :
    (String.ofList (unmarked cs)).utf8ByteSize ≤ (String.ofList cs).utf8ByteSize := by
  induction cs with
  | nil => exact Nat.le_refl _
  | cons c cs ih =>
      rw [unmarked, List.filter_cons, utf8ByteSize_ofList_cons]
      split
      · rw [utf8ByteSize_ofList_cons]
        exact Nat.add_le_add_left ih _
      · exact Nat.le_trans ih (Nat.le_add_left _ _)

/-- What is read as a tree is read as the same tree without its marks. -/
theorem parse_unmarked {e : Expr} (h : parse source = .ok e) :
    parse (String.ofList (unmarked source.toList)) = .ok e := by
  obtain ⟨ts, htokens, hderives⟩ := derives_of_parse h
  obtain ⟨ts', htokens', hkinds⟩ := tokenize_unmarked htokens
  have hlength : (String.ofList (unmarked source.toList)).utf8ByteSize ≤ maxLength := by
    have hsize := utf8ByteSize_unmarked_le source.toList
    rw [String.ofList_toList] at hsize
    exact Nat.le_trans hsize (length_of_parse h)
  have htext : (String.ofList (unmarked source.toList)).toList = unmarked source.toList :=
    String.toList_ofList
  rw [← htext] at htokens'
  rw [parse_of_tokenize hlength htokens', parseTokens_eq_ok_iff, hkinds]
  exact hderives

/-- **Safe navigation is decoration.**  A text that has tokens has the same tokens, at other places,
if all its marks are left out; and if it compiles, that text compiles to the same condition.

A mark that does not stand inside a word directly before a point is an error. -/
theorem safe_navigation_decorates (source : String) :
    (∀ ts, tokenize source.toList = .ok ts →
      ∃ ts', tokenize (unmarked source.toList) = .ok ts' ∧
        ts'.map Token.kind = ts.map Token.kind) ∧
    (∀ c, compile source = .ok c →
      compile (String.ofList (unmarked source.toList)) = .ok c) ∧
    ∀ before after, source.toList = before ++ '?' :: after → ¬ Navigates before after →
      (∃ e, tokenize source.toList = .error e) ∧ ∃ e, compile source = .error e := by
  refine ⟨fun _ => tokenize_unmarked, fun c h => ?_, fun before after hmark hnone => ?_⟩
  · obtain ⟨e, hparse, hc⟩ := compile_eq_ok_iff.1 h
    exact compile_eq_ok_iff.2 ⟨e, parse_unmarked hparse, hc⟩
  · have htokens : ∀ ts, tokenize source.toList ≠ .ok ts := by
      intro ts h
      obtain ⟨ps, tail, htext, hlaid, htail, -⟩ := Lexer.tokenize_eq_ok_iff.1 h
      exact hnone (hlaid.navigates htail (htext.symm.trans hmark))
    constructor
    · cases h : tokenize source.toList with
      | error e => exact ⟨e, rfl⟩
      | ok ts => exact absurd h (htokens ts)
    · cases h : compile source with
      | error e => exact ⟨e, rfl⟩
      | ok c =>
          obtain ⟨ts, h, -⟩ := derives_of_parse (parse_of_compile h)
          exact absurd h (htokens ts)

/-- A word that starts like a keyword, with a mark before each of its points, and a word with a mark
at its end. -/
theorem safe_navigation_decorates_word :
    let tree : Expr := .or (.var "not.a..b") (.boolean true)
    tokenize "x*not?.a?.?.b".toList = .ok [⟨.name "x", 0⟩, ⟨.op .mul, 1⟩, ⟨.name "not.a..b", 2⟩] ∧
      (∃ ts, tokenize "x*not.a..b".toList = .ok ts ∧
        ts.map Token.kind = [.name "x", .op .mul, .name "not.a..b"]) ∧
      compile "not?.a?.?.b or true" = .ok (.ofExpr tree) ∧
      compile "not.a..b or true" = .ok (.ofExpr tree) ∧
      (∃ e, tokenize "a?".toList = .error e) ∧ ∃ e, compile "a?" = .error e := by
  intro tree
  have hparse : parse "not?.a?.?.b or true" = .ok tree := by rfl
  have hunseen : Scores.sample.get? "not.a..b" = none :=
    (Scores.get?_sample "not.a..b").trans (if_neg (by decide))
  have hholds : (Condition.ofExpr tree).holds Scores.sample = .ok true := by
    simp [tree, Condition.holds, Condition.ofExpr, Expr.eval, hunseen, Value.truthy]
  have hcompile := compile_eq_ok_iff.2 ⟨tree, hparse, rfl, true, hholds⟩
  have hmarked : tokenize "x*not?.a?.?.b".toList =
      .ok [⟨.name "x", 0⟩, ⟨.op .mul, 1⟩, ⟨.name "not.a..b", 2⟩] := by rfl
  have hend : ¬ Navigates ['a'] [] := fun h => by
    obtain ⟨more, hmore⟩ := h.point_after
    cases hmore
  obtain ⟨hkinds, -, -⟩ := safe_navigation_decorates "x*not?.a?.?.b"
  obtain ⟨-, hcondition, -⟩ := safe_navigation_decorates "not?.a?.?.b or true"
  obtain ⟨-, -, herror⟩ := safe_navigation_decorates "a?"
  exact ⟨hmarked, hkinds _ hmarked, hcompile, hcondition _ hcompile, herror ['a'] [] rfl hend⟩

end

end Grimace
