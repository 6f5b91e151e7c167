import Grimace.Proofs.Expr.Continued
import Grimace.Proofs.Expr.Stack
import Grimace.Proofs.Expr.TooDeep

/-!
# Grimace.Proofs.Expr.ViablePrefix

Where a syntax error is reported.

A reader that meets a token which cannot stand where it is points at this token.  By then it has
gone over words that *begin* what it reads: others can be put behind them, and together they are
derived.  How deep they nest does not matter here, nor how many arguments a function has.

The section is layered like the reader.  Each level points right if the readers one level further
in do (`Nested.Points`).  What is read before the failure is a phrase by soundness, what is read at
the failure begins one, and the words that are still to come close both (`Begins.within`).

* `Parser.nested_points` — the readers point behind words that begin their phrase;
* `spellable_of_closing` — the words that close it have a spelling, so the text in front of the
  token goes on with them (`Lexer.exists_continued`);
* `syntax_errors_placed` — all of it about one text.
-/

namespace Grimace

open Lexer (Spellable)

/-! ## Words that begin a phrase -/

/-- Functions of any number of arguments. -/
def anyCount (_ : Func) (_ : Nat) : Bool := true

/-- The words are a phrase. -/
def IsPhrase (p : Phrase) (ts : List Token.Kind) : Prop :=
  ∃ n e, Derives anyCount p n ts e

/-- The words are a list of expressions behind its opening parenthesis. -/
def IsList (ts : List Token.Kind) : Prop :=
  ∃ pieces, ts = listing pieces ∧ ∀ piece ∈ pieces, IsPhrase .expr piece

/-- The words become what is wanted if others are put behind them. -/
def Begins (Wanted : List Token.Kind → Prop) (ts : List Token.Kind) : Prop :=
  ∃ more, Spellable more ∧ Wanted (ts ++ more)

section

variable {takes : Func → Nat → Bool} {p q : Phrase} {n : Nat} {e : Expr}
  {ts us vs front behind : List Token.Kind} {Wanted Part : List Token.Kind → Prop}

/-- With fewer arguments refused, no less is derived. -/
theorem Derives.anyCount (h : Derives takes p n ts e) : Derives Grimace.anyCount p n ts e := by
  induction h with
  | cond _ _ _ htest hyes hno => exact .cond htest hyes hno
  | ofOr _ ih => exact .ofOr ih
  | or _ _ ha hb => exact .or ha hb
  | ofAnd _ ih => exact .ofAnd ih
  | and _ _ ha hb => exact .and ha hb
  | ofNot _ ih => exact .ofNot ih
  | not _ ih => exact .not ih
  | ofComparison _ ih => exact .ofComparison ih
  | relation op hop _ _ ha hb => exact .relation op hop ha hb
  | member negated items _ _ ha hitems => exact .member negated items ha hitems
  | ofAdditive _ ih => exact .ofAdditive ih
  | sum op hop _ _ ha hb => exact .sum op hop ha hb
  | ofMultiplicative _ ih => exact .ofMultiplicative ih
  | product op hop _ _ ha hb => exact .product op hop ha hb
  | ofUnary _ ih => exact .ofUnary ih
  | neg _ ih => exact .neg ih
  | ofPower _ ih => exact .ofPower ih
  | pow _ _ ha hb => exact .pow ha hb
  | ofPrimary _ ih => exact .ofPrimary ih
  | number x => exact .number x
  | boolean b => exact .boolean b
  | var s => exact .var s
  | call args hname _ _ hargs => exact .call args hname rfl hargs
  | paren _ ih => exact .paren ih

theorem Derives.isPhrase (h : Derives takes p n ts e) : IsPhrase p ts := ⟨n, e, h.anyCount⟩

namespace IsPhrase

/-- Two phrases are derived with the same nesting left. -/
theorem both (ha : IsPhrase p ts) (hb : IsPhrase q us) :
    ∃ n a b, Derives anyCount p n ts a ∧ Derives anyCount q n us b := by
  obtain ⟨n, a, ha⟩ := ha
  obtain ⟨m, b, hb⟩ := hb
  exact ⟨max n m, a, b, ha.mono (Nat.le_max_left n m), hb.mono (Nat.le_max_right n m)⟩

theorem loosen (h : IsPhrase q ts) (hrank : q.rank + 1 = p.rank) : IsPhrase p ts := by
  obtain ⟨n, e, h⟩ := h
  exact ⟨_, e, h.loosen hrank⟩

/-- The word `x`, for whatever phrase is missing. -/
theorem filler (p : Phrase) : IsPhrase p [.name "x"] := by
  have hvar : Nests anyCount .primary [(.name "x", 0)] (.var "x") := .var "x"
  obtain ⟨n, h⟩ := (hvar.widen (p := p) (Nat.zero_le _)).exists_derives
  exact ⟨n, _, h⟩

theorem cond (htest : IsPhrase .expr ts) (hyes : IsPhrase .expr us) (hno : IsPhrase .expr vs) :
    IsPhrase .expr (.kwIf :: ts ++ .kwThen :: us ++ .kwElse :: vs) := by
  obtain ⟨n, a, b, htest, hyes⟩ := htest.both hyes
  obtain ⟨m, c, hno⟩ := hno
  exact ⟨_, _, .cond (htest.mono (Nat.le_max_left n m)) (hyes.mono (Nat.le_max_left n m))
    (hno.mono (Nat.le_max_right n m))⟩

theorem or (ha : IsPhrase .or ts) (hb : IsPhrase .and us) : IsPhrase .or (ts ++ .kwOr :: us) := by
  obtain ⟨n, a, b, ha, hb⟩ := ha.both hb
  exact ⟨n, _, .or ha hb⟩

theorem and (ha : IsPhrase .and ts) (hb : IsPhrase .not us) :
    IsPhrase .and (ts ++ .kwAnd :: us) := by
  obtain ⟨n, a, b, ha, hb⟩ := ha.both hb
  exact ⟨n, _, .and ha hb⟩

theorem not (h : IsPhrase .not ts) : IsPhrase .not (.kwNot :: ts) := by
  obtain ⟨n, e, h⟩ := h
  exact ⟨n + 1, _, .not h⟩

theorem binary (op : Operator) (hop : op.phrase = p) (hp : p ≠ .power)
    (hq : q.rank + 1 = p.rank) (ha : IsPhrase p ts) (hb : IsPhrase q us) :
    IsPhrase p (ts ++ .op op :: us) := by
  obtain ⟨n, a, b, ha, hb⟩ := ha.both hb
  exact ⟨n, _, .binary op hop hp hq ha hb⟩

theorem neg (h : IsPhrase .unary ts) : IsPhrase .unary (.op .sub :: ts) := by
  obtain ⟨n, e, h⟩ := h
  exact ⟨n + 1, _, .neg h⟩

theorem pow (ha : IsPhrase .primary ts) (hb : IsPhrase .unary us) :
    IsPhrase .power (ts ++ .op .pow :: us) := by
  obtain ⟨n, a, b, ha, hb⟩ := ha.both hb
  exact ⟨n + 1, _, .pow (ha.mono (Nat.le_succ n)) hb⟩

theorem paren (h : IsPhrase .expr ts) : IsPhrase .primary (.openParen :: ts ++ [.closeParen]) := by
  obtain ⟨n, e, h⟩ := h
  exact ⟨n, e, .paren h⟩

end IsPhrase

/-- Phrases of one list are derived with the same nesting left. -/
theorem exists_items {pieces : List (List Token.Kind)}
    (h : ∀ piece ∈ pieces, IsPhrase .expr piece) :
    ∃ n, ∃ items : List (List Token.Kind × Expr), items.map (·.1) = pieces ∧
      ∀ i ∈ items, Derives anyCount .expr n i.1 i.2 := by
  induction pieces with
  | nil => exact ⟨0, [], rfl, nofun⟩
  | cons piece pieces ih =>
      obtain ⟨⟨n, e, hpiece⟩, hpieces⟩ := List.forall_mem_cons.1 h
      obtain ⟨m, items, rfl, hitems⟩ := ih hpieces
      refine ⟨max n m, (piece, e) :: items, rfl, List.forall_mem_cons.2 ⟨?_, fun i hi => ?_⟩⟩
      · exact hpiece.mono (Nat.le_max_left n m)
      · exact (hitems i hi).mono (Nat.le_max_right n m)

theorem IsList.call {s : String} {f : Func} (h : IsList ts) (hname : Func.ofName? s = some f) :
    IsPhrase .primary (.name s :: .openParen :: ts) := by
  obtain ⟨pieces, rfl, hpieces⟩ := h
  obtain ⟨n, items, rfl, hitems⟩ := exists_items hpieces
  exact ⟨n, _, .call items hname rfl hitems⟩

theorem IsList.member (negated : Bool) (ha : IsPhrase .comparison ts) (h : IsList us) :
    IsPhrase .comparison (ts ++ membershipWords negated ++ .openParen :: us) := by
  obtain ⟨n, a, ha⟩ := ha
  obtain ⟨pieces, rfl, hpieces⟩ := h
  obtain ⟨m, items, rfl, hitems⟩ := exists_items hpieces
  exact ⟨max n m, _, .member negated items (ha.mono (Nat.le_max_left n m))
    fun i hi => (hitems i hi).mono (Nat.le_max_right n m)⟩

theorem IsList.one (h : IsPhrase .expr ts) : IsList (ts ++ [.closeParen]) :=
  ⟨[ts], rfl, by simpa using h⟩

/-- Behind the first items of a list there is its end, or a comma and another item. -/
theorem Parser.ListSoFar.isList {es : List Expr} (h : Parser.ListSoFar n ts es) :
    IsList (ts ++ [.closeParen]) ∧
      ∀ us, IsPhrase .expr us → IsList (ts ++ .comma :: us ++ [.closeParen]) := by
  obtain ⟨hne, items, hts, rfl, hitems⟩ := h
  have hpieces : ∀ piece ∈ items.map (·.1), IsPhrase .expr piece :=
    List.forall_mem_map.2 fun i hi => (hitems i hi).isPhrase
  have hne' : items.map (·.1) ≠ [] := by simpa using hne
  obtain ⟨vs, hvs, hmore⟩ := Parser.exists_listing_eq hne'
  obtain rfl : ts = vs := List.append_cancel_right (hts.trans hvs)
  exact ⟨⟨_, hts, hpieces⟩, fun us hus =>
    ⟨_, (hmore us).symm, List.forall_mem_append.2 ⟨hpieces, List.forall_mem_singleton.2 hus⟩⟩⟩

/-! ## Words to come -/

/-- The words that close a phrase can be written. -/
theorem spellable_closing : Spellable
    [.name "x", .kwThen, .kwElse, .openParen, .closeParen] := by
  have hword (w : List Char) (hw : Lexer.Word w) {k : Token.Kind}
      (hk : .ofWord (String.ofList (Lexer.unmarked w)) = k) : ∃ w, Lexer.Spells w k :=
    ⟨w, hk ▸ .word hw⟩
  have htail {cs : List Char} (h : cs.all Lexer.isWordChar = true) : Lexer.WordTail cs := by
    induction cs with
    | nil => exact .nil
    | cons c cs ih =>
        obtain ⟨hc, hcs⟩ := Bool.and_eq_true_iff.1 h
        exact .cons (.inl hc) (ih hcs)
  simp only [Spellable, List.forall_mem_cons, List.not_mem_nil, false_imp_iff, implies_true,
    and_true]
  refine ⟨hword ['x'] (.mk (by decide) .nil) rfl, ?_, ?_, ⟨['('], .single rfl⟩,
    ⟨[')'], .single rfl⟩⟩
  · exact hword ['t', 'h', 'e', 'n'] (.mk (by decide) (htail rfl)) rfl
  · exact hword ['e', 'l', 's', 'e'] (.mk (by decide) (htail rfl)) rfl

theorem spellable_of_closing
    (h : ∀ k ∈ ts, k ∈ [.name "x", .kwThen, .kwElse, .openParen, .closeParen]) : Spellable ts :=
  fun k hk => spellable_closing k (h k hk)

/-- What is complete begins itself. -/
theorem Begins.of_wanted (h : Wanted ts) : Begins Wanted ts :=
  ⟨[], Lexer.spellable_nil, by rwa [List.append_nil]⟩

/-- A part that is begun begins the whole, if words that stand behind the part are put there. -/
theorem Begins.within (Wanted : List Token.Kind → Prop) (front behind : List Token.Kind)
    (h : Begins Part us) (hbehind : Spellable behind)
    (hwhole : ∀ vs, Part vs → Wanted (front ++ vs ++ behind)) : Begins Wanted (front ++ us) := by
  obtain ⟨more, hmore, hpart⟩ := h
  refine ⟨more ++ behind, hmore.append hbehind, ?_⟩
  simpa using hwhole _ hpart

/-- A part at the end of the whole. -/
theorem Begins.last (Wanted : List Token.Kind → Prop) (front : List Token.Kind)
    (h : Begins Part us) (hwhole : ∀ vs, Part vs → Wanted (front ++ vs)) :
    Begins Wanted (front ++ us) :=
  h.within Wanted front [] Lexer.spellable_nil fun vs hvs => by simpa using hwhole vs hvs

theorem Begins.loosen (h : Begins (IsPhrase q) ts) (hrank : q.rank + 1 = p.rank) :
    Begins (IsPhrase p) ts :=
  h.last _ [] fun _ hvs => hvs.loosen hrank

/-- No word begins a phrase as well. -/
theorem begins_nil (p : Phrase) : Begins (IsPhrase p) [] :=
  ⟨[.name "x"], spellable_of_closing (by simp), .filler p⟩

end

namespace Parser

/-! ## Pointing at a token -/

/-- A failure at a token is at the first one behind words that make it right. -/
def PointsAt {α : Type} (stop : Nat) (result : Except CompileError α) (us : List Token)
    (Right : List Token.Kind → Prop) : Prop :=
  ∀ expected found pos, result = .error (.unexpectedToken expected found pos) →
    ∃ front back, us = front ++ back ∧ found = back.head?.map (·.kind) ∧ pos = place stop back ∧
      Right (front.map (·.kind))

/-- The reader points at the first token behind words that make it right. -/
def Points {α : Type} (stop : Nat) (read : Reader α) (Right : List Token.Kind → Prop) : Prop :=
  ∀ us, PointsAt stop (read us) us Right

/-- The readers of the phrases one level further in point right. -/
structure Nested.Points (stop : Nat) (inner : Nested) : Prop where
  expr : Parser.Points stop inner.expr (Begins (IsPhrase .expr))
  not : Parser.Points stop inner.not (Begins (IsPhrase .not))
  unary : Parser.Points stop inner.unary (Begins (IsPhrase .unary))

variable {stop n : Nat} {inner : Nested} {α β : Type} {us rest : List Token}
  {Right Right' : List Token.Kind → Prop}

namespace PointsAt

theorem ok {a : α} : PointsAt stop (.ok a) us Right := fun _ _ _ h => nomatch h

/-- The failure is at the first token of all. -/
theorem here {expected : Expectation} (h : Right []) :
    PointsAt stop (α := α) (.error (unexpected stop expected us)) us Right := by
  intro expected' found pos heq
  obtain ⟨-, rfl, rfl⟩ : expected = expected' ∧ _ = found ∧ _ = pos := by
    simpa [unexpected] using heq
  exact ⟨[], us, rfl, rfl, rfl, h⟩

/-- A failure of another kind points at nothing. -/
theorem other {e : CompileError}
    (h : ∀ expected found pos, e ≠ .unexpectedToken expected found pos) :
    PointsAt stop (α := α) (.error e) us Right :=
  fun expected found pos heq => absurd (Except.error.inj heq) (h expected found pos)

theorem mono {result : Except CompileError α} (h : PointsAt stop result us Right)
    (hright : ∀ ts, Right ts → Right' ts) : PointsAt stop result us Right' := by
  intro expected found pos heq
  obtain ⟨front, back, hus, hfound, hpos, hfront⟩ := h expected found pos heq
  exact ⟨front, back, hus, hfound, hpos, hright _ hfront⟩

/-- What points inside a part points inside the whole, if words that stand behind the part are put
there. -/
theorem within {result : Except CompileError α} {Part : List Token.Kind → Prop}
    (Wanted : List Token.Kind → Prop) (front behind : List Token.Kind)
    (h : PointsAt stop result us (Begins Part)) (hbehind : Spellable behind)
    (hwhole : ∀ vs, Part vs → Wanted (front ++ vs ++ behind)) :
    PointsAt stop result us fun ts => Begins Wanted (front ++ ts) :=
  h.mono fun _ hts => hts.within Wanted front behind hbehind hwhole

/-- The same of a part at the end of the whole. -/
theorem last {result : Except CompileError α} {Part : List Token.Kind → Prop}
    (Wanted : List Token.Kind → Prop) (front : List Token.Kind)
    (h : PointsAt stop result us (Begins Part)) (hwhole : ∀ vs, Part vs → Wanted (front ++ vs)) :
    PointsAt stop result us fun ts => Begins Wanted (front ++ ts) :=
  h.mono fun _ hts => hts.last Wanted front hwhole

/-- What points right behind some tokens points right behind them and those before. -/
theorem append {result : Except CompileError α} (front : List Token)
    (h : PointsAt stop result rest fun ts => Right (front.map (·.kind) ++ ts)) :
    PointsAt stop result (front ++ rest) Right := by
  intro expected found pos heq
  obtain ⟨middle, back, rfl, hfound, hpos, hright⟩ := h expected found pos heq
  exact ⟨front ++ middle, back, by simp, hfound, hpos, by simpa using hright⟩

theorem cons {result : Except CompileError α} {t : Token}
    (h : PointsAt stop result us fun ts => Right (t.kind :: ts)) :
    PointsAt stop result (t :: us) Right := h.append [t]

/-- The first of two readers points right, and so does the second one behind what the first one
read. -/
theorem bind {read : Reader α} {next : α → Reader β} {D : List Token.Kind → α → Prop}
    (hread : PointsAt stop (read us) us Right) (hsound : SoundAt read us D)
    (hnext : ∀ ts a, D ts a → Points stop (next a) fun vs => Right (ts ++ vs)) :
    PointsAt stop ((read >>= next) us) us Right := by
  intro expected found pos heq
  rcases bind_eq_error_iff.1 heq with hfirst | ⟨a, rest, hok, hsecond⟩
  · exact hread expected found pos hfirst
  · obtain ⟨front, rfl, ha⟩ := hsound _ _ hok
    exact (hnext _ a ha rest).append front expected found pos hsecond

end PointsAt

/-! ## Steps -/

theorem Points.bind {read : Reader α} {next : α → Reader β} {D : List Token.Kind → α → Prop}
    (hread : Points stop read Right) (hsound : Sound read D)
    (hnext : ∀ ts a, D ts a → Points stop (next a) fun vs => Right (ts ++ vs)) :
    Points stop (read >>= next) Right :=
  fun us => (hread us).bind (hsound us) hnext

theorem Points.mono {read : Reader α} (h : Points stop read Right)
    (hright : ∀ ts, Right ts → Right' ts) : Points stop read Right' :=
  fun us => (h us).mono hright

theorem pure_points (a : α) : Points stop (pure a) Right := fun _ => .ok

/-- Looking for a word does not fail. -/
theorem eat_points (word : Word) : Points stop ((steps stop).eat word) Right := by
  intro us
  rw [eat_apply]
  split <;> exact .ok

/-- A word that is missing is missed where it would be right. -/
theorem expect_points (word : Word) (expected : Expectation) (h : Right []) :
    Points stop ((steps stop).expect word expected) Right := by
  intro us
  rw [expect_apply]
  split
  · exact .ok
  · exact .here h

/-- A chain points right behind what it is given, if each round of it does. -/
theorem chain_points {γ : Type} {next? : Token.Kind → Option Token.Kind → Option γ}
    {more : α → γ → Reader α} {D : List Token.Kind → α → Prop}
    (hsound : ∀ ts a k us how, D ts a → next? k (us.head?.map (·.kind)) = some how →
      SoundAt (more a how) us fun vs b => D (ts ++ k :: vs) b)
    (hmore : ∀ ts a k us how, D ts a → next? k (us.head?.map (·.kind)) = some how →
      PointsAt stop (more a how us) us fun vs => Right (ts ++ k :: vs))
    {ts : List Token.Kind} {a : α} (h : D ts a) :
    Points stop ((steps stop).chain next? more a) fun us => Right (ts ++ us) := by
  have hbound (bound : Nat) {ts : List Token.Kind} {a : α} (h : D ts a) :
      Points stop (chain next? more bound a) fun us => Right (ts ++ us) := by
    induction bound generalizing ts a with
    | zero => exact pure_points a
    | succ bound ih =>
        intro us
        cases us with
        | nil => exact .ok
        | cons t us =>
            cases hhow : next? t.kind (us.head?.map (·.kind)) with
            | none =>
                rw [chain_of_none (fun _ _ heq => by cases heq; exact hhow)]
                exact .ok
            | some how =>
                rw [chain_of_some hhow]
                have hround := hsound ts a t.kind us how h hhow
                refine .cons ((hmore ts a t.kind us how h hhow).bind hround fun vs b hb => ?_)
                simpa using ih hb
  exact fun us => hbound us.length h us

/-- A level points behind words that begin it, if its operands do and its operators join. -/
theorem level_points {join? : Token.Kind → Option (Expr → Expr → Expr)} {operand : Reader Expr}
    {p q : Phrase} (hsound : Sound operand (Derives Func.accepts q n))
    (hoperand : Points stop operand (Begins (IsPhrase q)))
    (hjoin : ∀ k join, join? k = some join → ∀ {ts us}, IsPhrase p ts → IsPhrase q us →
      IsPhrase p (ts ++ k :: us)) (hrank : q.rank + 1 = p.rank) :
    Points stop ((steps stop).level join? operand) (Begins (IsPhrase p)) := by
  refine .bind (hoperand.mono fun _ hts => hts.loosen hrank) hsound fun ts left hleft => ?_
  refine chain_points (D := fun ts _ => IsPhrase p ts) (fun ts a k us join hts hk => ?_)
    (fun ts a k us join hts hk => ?_) (hleft.isPhrase.loosen hrank)
  · exact (hsound us).bind fun vs b hb =>
      pure_sound (by simpa using hjoin k join hk hts hb.isPhrase)
  · have hright := (hoperand us).last (IsPhrase p) (ts ++ [k]) fun ws hws => by
      simpa using hjoin k join hk hts hws
    exact .bind (by simpa using hright) (hsound us) fun _ _ _ => pure_points _

/-! ## Lists and calls -/

section

variable (hsound : inner.Sound n) (hinner : inner.Points stop)

include hsound hinner

theorem list_points : Points stop ((steps stop).list inner) (Begins IsList) := by
  refine .bind (eat_points .closeParen) (eat_sound .closeParen) fun ts b hts => ?_
  subst hts
  cases b with
  | true => exact pure_points []
  | false =>
      have hfirst : Points stop inner.expr (Begins IsList) := fun us =>
        (hinner.expr us).within IsList [] [.closeParen] (spellable_of_closing (by simp))
          fun _ hts => .one hts
      refine .bind hfirst hsound.expr fun ts first hts => ?_
      have hitem (us : List Token.Kind) (es : List Expr) (k : Token.Kind) (vs : List Token)
          (how : Unit) (hes : ListSoFar n us es)
          (hk : Steps.comma? k (vs.head?.map (·.kind)) = some how) :
          PointsAt stop ((do return es ++ [← inner.expr] : Reader (List Expr)) vs) vs fun ws =>
            Begins IsList (us ++ k :: ws) := by
        rw [comma?_eq_some hk]
        have hinside := (hinner.expr vs).within IsList (us ++ [.comma]) [.closeParen]
          (spellable_of_closing (by simp)) fun ws hws => by simpa using hes.isList.2 ws hws
        exact .bind (by simpa using hinside) (hsound.expr vs) fun _ _ _ => pure_points _
      have hsounds (us : List Token.Kind) (es : List Expr) (k : Token.Kind) (vs : List Token)
          (how : Unit) (hes : ListSoFar n us es)
          (hk : Steps.comma? k (vs.head?.map (·.kind)) = some how) := item_sound hsound hes hk
      refine .bind (chain_points hsounds hitem (.one hts)) (chain_sound hsounds (.one hts))
        fun us items hus => ?_
      have hclose : Begins IsList (ts ++ us ++ []) :=
        ⟨[.closeParen], spellable_of_closing (by simp), by simpa using hus.isList.1⟩
      exact .bind (expect_points .closeParen .commaOrClose (by simpa using hclose))
        (expect_sound .closeParen _) fun _ _ _ => pure_points items

theorem call_points (name : String) : Points stop ((steps stop).call inner name) fun ts =>
    Begins (IsPhrase .primary) (.name name :: .openParen :: ts) := by
  cases hname : Func.ofName? name with
  | none =>
      intro us
      simp only [Steps.call, hname]
      exact .other (by simp)
  | some f =>
      have hargs : Points stop ((steps stop).list inner) fun ts =>
          Begins (IsPhrase .primary) (.name name :: .openParen :: ts) := fun us =>
        (list_points hsound hinner us).last (IsPhrase .primary) [.name name, .openParen]
          fun _ hvs => hvs.call hname
      rw [call_of_name hname]
      refine .bind hargs (list_sound hsound) fun _ args _ => ?_
      split
      · exact pure_points _
      · exact fun us => .other (by simp)

/-! ## The levels -/

theorem primary_points :
    Points stop ((steps stop).primary inner) (Begins (IsPhrase .primary)) := by
  intro us
  cases us with
  | nil => exact .here (begins_nil .primary)
  | cons t us =>
      obtain ⟨k, pos⟩ := t
      cases k with
      | number x => exact .ok
      | boolean b => exact .ok
      | openParen =>
          rw [primary_openParen]
          have hinside := (hinner.expr us).within (IsPhrase .primary) [.openParen] [.closeParen]
            (spellable_of_closing (by simp)) fun _ hvs => hvs.paren
          refine .cons (.bind hinside (hsound.expr us) fun ts e hts => ?_)
          have hclose : Begins (IsPhrase .primary) (.openParen :: (ts ++ [])) :=
            ⟨[.closeParen], spellable_of_closing (by simp), by simpa using hts.isPhrase.paren⟩
          exact .bind (expect_points .closeParen .closeParen hclose)
            (expect_sound .closeParen _) fun _ _ _ => pure_points e
      | name name =>
          rw [primary_name]
          refine .cons (.bind (eat_points .openParen us) (eat_sound .openParen us)
            fun ts b hts => ?_)
          subst hts
          cases b with
          | true => exact call_points hsound hinner name
          | false => exact pure_points _
      | _ => exact .here (begins_nil .primary)

theorem power_points : Points stop ((steps stop).power inner) (Begins (IsPhrase .power)) := by
  refine .bind ((primary_points hsound hinner).mono fun _ hts => hts.loosen rfl)
    (primary_sound hsound) fun ts base hts => ?_
  refine .bind (eat_points .caret) (eat_sound .caret) fun us b hus => ?_
  subst hus
  cases b with
  | true =>
      have hexponent : Points stop inner.unary fun vs =>
          Begins (IsPhrase .power) (ts ++ [.op .pow] ++ vs) := fun us =>
        (hinner.unary us).last (IsPhrase .power) (ts ++ [.op .pow]) fun vs hvs => by
          simpa using hts.isPhrase.pow hvs
      exact .bind (by simpa [Word.kind?] using hexponent) hsound.unary fun _ _ _ => pure_points _
  | false => exact pure_points base

theorem unary_points : Points stop ((steps stop).unary inner) (Begins (IsPhrase .unary)) := by
  refine .bind (eat_points .minus) (eat_sound .minus) fun ts b hts => ?_
  subst hts
  cases b with
  | true =>
      have hoperand : Points stop inner.unary fun vs =>
          Begins (IsPhrase .unary) ([.op .sub] ++ vs) := fun us =>
        (hinner.unary us).last (IsPhrase .unary) [.op .sub] fun _ hvs => hvs.neg
      exact .bind hoperand hsound.unary fun _ _ _ => pure_points _
  | false => exact (power_points hsound hinner).mono fun _ hts => hts.loosen rfl

theorem multiplicative_points :
    Points stop ((steps stop).multiplicative inner) (Begins (IsPhrase .multiplicative)) := by
  refine level_points (unary_sound hsound) (unary_points hsound hinner) (fun k join hk => ?_) rfl
  unfold Steps.product? at hk
  split at hk <;> cases hk <;> exact .binary _ rfl (by decide) rfl

theorem additive_points :
    Points stop ((steps stop).additive inner) (Begins (IsPhrase .additive)) := by
  refine level_points (multiplicative_sound hsound) (multiplicative_points hsound hinner)
    (fun k join hk => ?_) rfl
  unfold Steps.sum? at hk
  split at hk <;> cases hk <;> exact .binary _ rfl (by decide) rfl

theorem membership_points (negated : Bool) {ts : List Token.Kind}
    (hneedle : IsPhrase .comparison ts) (needle : Expr) :
    Points stop ((steps stop).membership inner needle negated) fun us =>
      Begins (IsPhrase .comparison) (ts ++ membershipWords negated ++ us) := by
  have hlist (ws : List Token.Kind) (hws : IsList ws) :
      IsPhrase .comparison (ts ++ membershipWords negated ++ .openParen :: ws) :=
    hws.member negated hneedle
  have hempty : IsList [.closeParen] := ⟨[], rfl, nofun⟩
  have hopen : Begins (IsPhrase .comparison) (ts ++ membershipWords negated ++ []) :=
    ⟨[.openParen, .closeParen], spellable_of_closing (by simp), by simpa using hlist _ hempty⟩
  refine .bind (expect_points .openParen .listAfterIn hopen) (expect_sound .openParen _)
    fun us _ hus => ?_
  obtain rfl : us = [.openParen] := hus
  have hitems : Points stop ((steps stop).list inner) fun ws =>
      Begins (IsPhrase .comparison) (ts ++ membershipWords negated ++ [.openParen] ++ ws) :=
    fun us => (list_points hsound hinner us).last (IsPhrase .comparison)
      (ts ++ membershipWords negated ++ [.openParen]) fun ws hws => by simpa using hlist ws hws
  exact .bind (by simpa using hitems) (list_sound hsound) fun _ _ _ => pure_points _

/-- A test points behind words that, with the comparison on its left, begin one. -/
theorem test_points {ts : List Token.Kind} {left : Expr} {k : Token.Kind} {how : Steps.Test}
    (hleft : Derives Func.accepts .comparison n ts left)
    (hhow : Steps.test? k (us.head?.map (·.kind)) = some how) :
    PointsAt stop ((steps stop).test inner left how us) us fun vs =>
      Begins (IsPhrase .comparison) (ts ++ k :: vs) := by
  obtain ⟨op, rfl, rfl, hop⟩ | ⟨rfl, rfl⟩ | ⟨rfl, rfl, hsecond⟩ := test?_eq_some hhow
  · have hright := (additive_points hsound hinner us).last (IsPhrase .comparison) (ts ++ [.op op])
      fun ws hws => by simpa using hleft.isPhrase.binary op hop (by decide) rfl hws
    exact .bind (by simpa using hright) (additive_sound hsound us) fun _ _ _ => pure_points _
  · exact (membership_points hsound hinner false hleft.isPhrase left us).mono fun vs hvs => by
      simpa [membershipWords] using hvs
  · cases us with
    | nil => contradiction
    | cons t us =>
        obtain ⟨k, pos⟩ := t
        obtain rfl : k = .kwIn := Option.some.inj hsecond
        exact .cons ((membership_points hsound hinner true hleft.isPhrase left us).mono
          fun vs hvs => by simpa [membershipWords] using hvs)

theorem comparison_points :
    Points stop ((steps stop).comparison inner) (Begins (IsPhrase .comparison)) := by
  refine .bind ((additive_points hsound hinner).mono fun _ hts => hts.loosen rfl)
    (additive_sound hsound) fun ts left hts => ?_
  exact chain_points (fun _ _ _ _ _ hleft hhow => test_sound hsound hleft hhow)
    (fun _ _ _ _ _ hleft hhow => test_points hsound hinner hleft hhow) (.ofAdditive hts)

theorem not_points : Points stop ((steps stop).not inner) (Begins (IsPhrase .not)) := by
  intro us
  obtain ⟨pos, us, rfl, hnot⟩ | hnot := not_cases stop inner us
  · rw [hnot]
    have hoperand := (hinner.not us).last (IsPhrase .not) [.kwNot] fun _ hvs => hvs.not
    exact .cons (.bind hoperand (hsound.not us) fun _ _ _ => pure_points _)
  · rw [hnot]
    exact (comparison_points hsound hinner us).mono fun _ hts => hts.loosen rfl

theorem and_points : Points stop ((steps stop).and inner) (Begins (IsPhrase .and)) := by
  refine level_points (not_sound hsound) (not_points hsound hinner) (fun k join hk => ?_) rfl
  unfold Steps.and? at hk
  split at hk <;> cases hk
  exact .and

theorem or_points : Points stop ((steps stop).or inner) (Begins (IsPhrase .or)) := by
  refine level_points (and_sound hsound) (and_points hsound hinner) (fun k join hk => ?_) rfl
  unfold Steps.or? at hk
  split at hk <;> cases hk
  exact .or

theorem expr_points : Points stop ((steps stop).expr inner) (Begins (IsPhrase .expr)) := by
  have hx := IsPhrase.filler .expr
  refine .bind (eat_points .kwIf) (eat_sound .kwIf) fun ts b hts => ?_
  subst hts
  cases b with
  | true =>
      -- What is still to come of the three parts is `x`.
      have htest : Points stop inner.expr fun vs => Begins (IsPhrase .expr) ([.kwIf] ++ vs) :=
        fun us => (hinner.expr us).within (IsPhrase .expr) [.kwIf]
          [.kwThen, .name "x", .kwElse, .name "x"] (spellable_of_closing (by simp)) fun vs hvs => by
            simpa using hvs.cond hx hx
      refine .bind htest hsound.expr fun ts test hts => ?_
      have hthen : Begins (IsPhrase .expr) (.kwIf :: (ts ++ [])) :=
        ⟨[.kwThen, .name "x", .kwElse, .name "x"], spellable_of_closing (by simp),
          by simpa using hts.isPhrase.cond hx hx⟩
      refine .bind (expect_points .kwThen .kwThen hthen) (expect_sound .kwThen _)
        fun _ _ hwords => ?_
      obtain rfl : _ = [Token.Kind.kwThen] := hwords
      have hyes : Points stop inner.expr fun vs =>
          Begins (IsPhrase .expr) (.kwIf :: ts ++ [.kwThen] ++ vs) := fun us =>
        (hinner.expr us).within (IsPhrase .expr) (.kwIf :: ts ++ [.kwThen])
          [.kwElse, .name "x"] (spellable_of_closing (by simp)) fun vs hvs => by
            simpa using hts.isPhrase.cond hvs hx
      refine .bind (by simpa [Word.kind?] using hyes) hsound.expr fun us yes hus => ?_
      have helse : Begins (IsPhrase .expr) (.kwIf :: (ts ++ .kwThen :: (us ++ []))) :=
        ⟨[.kwElse, .name "x"], spellable_of_closing (by simp),
          by simpa using hts.isPhrase.cond hus.isPhrase hx⟩
      refine .bind (expect_points .kwElse .kwElse helse) (expect_sound .kwElse _)
        fun _ _ hwords => ?_
      obtain rfl : _ = [Token.Kind.kwElse] := hwords
      have hno : Points stop inner.expr fun vs =>
          Begins (IsPhrase .expr) (.kwIf :: ts ++ .kwThen :: us ++ [.kwElse] ++ vs) := fun rest =>
        (hinner.expr rest).last (IsPhrase .expr) (.kwIf :: ts ++ .kwThen :: us ++ [.kwElse])
          fun ws hws => by simpa using hts.isPhrase.cond hus.isPhrase hws
      exact .bind (by simpa [Word.kind?] using hno) hsound.expr fun _ _ _ => pure_points _
  | false => exact (or_points hsound hinner).mono fun _ hts => hts.loosen rfl

end

/-- **The prefix is viable**: whatever the readers went over when they point at a token begins
their phrase. -/
theorem nested_points (stop n : Nat) : (nested stop n).Points stop := by
  induction n with
  | zero =>
      have hrefuse {Right : List Token.Kind → Prop} :
          Points (α := Expr) stop (fun ts => .error (.tooDeep (place stop ts))) Right :=
        fun _ => .other nofun
      exact ⟨hrefuse, hrefuse, hrefuse⟩
  | succ n ih =>
      have hsound := nested_sound stop n
      exact ⟨expr_points hsound ih, not_points hsound ih, unary_points hsound ih⟩

end Parser

/-! ## Texts -/

section

variable {stop pos : Nat} {ts : List Token} {source : String} {expected : Expectation}
  {found : Option Token.Kind} {e : CompileError}

theorem parseTokens_points (stop : Nat) (ts : List Token) :
    Parser.PointsAt stop (parseTokens stop ts) ts (Begins (IsPhrase .expr)) := by
  have hpoints := (Parser.nested_points stop maxNesting).expr ts
  cases hread : (Parser.nested stop maxNesting).expr ts with
  | error e =>
      rw [Parser.parseTokens_of_error hread]
      rw [hread] at hpoints
      exact fun expected found pos heq =>
        hpoints expected found pos (congrArg _ (Except.error.inj heq))
  | ok r =>
      obtain ⟨e, rest⟩ := r
      obtain ⟨front, rfl, he⟩ := (Parser.nested_sound stop maxNesting).expr _ _ _ hread
      have hwhole : Begins (IsPhrase .expr) (front.map (·.kind) ++ []) :=
        .of_wanted (by simpa using he.isPhrase)
      rw [Parser.parseTokens_of_ok hread]
      cases rest with
      | nil => exact .ok
      | cons t rest => exact (Parser.PointsAt.here hwhole).append front

/-- The lexer fails at a character or at a number. -/
def CompileError.IsLexical : CompileError → Prop
  | unexpectedChar _ _ | invalidNumber _ _ => True
  | _ => False

theorem isLexical_of_tokenize {cs : List Char} (h : tokenize cs = .error e) : e.IsLexical := by
  obtain ⟨_, _, _, -, -, -, hstuck⟩ := Lexer.tokenize_eq_error_iff.1 h
  cases hstuck with
  | char | number => trivial

theorem parse_of_tokenize_error (hlength : source.utf8ByteSize ≤ maxLength)
    (htokens : tokenize source.toList = .error e) : parse source = .error e := by
  unfold parse
  rw [if_neg (Nat.not_lt.2 hlength), htokens]
  rfl

/-- A text that is refused for a token is short enough and has tokens. -/
theorem exists_tokens_of_unexpected
    (h : parse source = .error (.unexpectedToken expected found pos)) :
    ∃ ts, tokenize source.toList = .ok ts ∧
      parseTokens source.toList.length ts = .error (.unexpectedToken expected found pos) := by
  unfold parse at h
  split at h
  · cases h
  · rcases Except.bind_eq_error_iff.1 h with h | ⟨ts, htokens, h⟩
    · exact (isLexical_of_tokenize h).elim
    · exact ⟨ts, htokens, h⟩

/-- **Syntax errors are placed where the text stops making sense.**  A token that cannot stand where
it is is reported as the first one, or the end of the text, behind tokens that begin an expression:
with other words behind them the grammar derives them, to some depth and with functions of any
number of arguments, and so the text in front of the place can be continued to a text of these
words.

A text with a character or a number that is no token is reported for that, whatever else is wrong
with it, and a text that is too long is only reported as such. -/
theorem syntax_errors_placed (source : String) :
    (∀ expected found pos, parse source = .error (.unexpectedToken expected found pos) →
      ∃ front back, tokenize source.toList = .ok (front ++ back) ∧
        pos = Parser.place source.toList.length back ∧ found = back.head?.map (·.kind) ∧
        foundText found = (back.head?.map (·.kind.text)).getD "end of input" ∧
        ∃ more n e, Derives anyCount .expr n (front.map (·.kind) ++ more) e ∧
          ∃ cs ts, tokenize (source.toList.take pos ++ cs) = .ok (front ++ ts) ∧
            ts.map (·.kind) = more) ∧
    (source.utf8ByteSize ≤ maxLength → ∀ e, tokenize source.toList = .error e →
      parse source = .error e ∧ e.IsLexical) ∧
    (maxLength < source.utf8ByteSize → parse source = .error (.tooLong source.utf8ByteSize)) := by
  refine ⟨fun expected found pos h => ?_, fun hlength e htokens => ?_, fun hlong => if_pos hlong⟩
  · obtain ⟨ts, htokens, hparse⟩ := exists_tokens_of_unexpected h
    obtain ⟨front, back, rfl, rfl, rfl, more, hmore, n, e, hderives⟩ :=
      parseTokens_points source.toList.length ts expected found pos hparse
    refine ⟨front, back, htokens, rfl, rfl, ?_, more, n, e, hderives,
      Lexer.exists_continued htokens hmore⟩
    cases back <;> rfl
  · exact ⟨parse_of_tokenize_error hlength htokens, isLexical_of_tokenize htokens⟩

/-- A list breaks off in the middle of a test; a character that is no token stands behind two
operators; and a text is longer than allowed, with nothing in it but such characters. -/
theorem syntax_errors_placed_list :
    let broken := "if abs(a) not in (b, then c"
    let strange := "a + * $"
    let long := String.ofList (List.replicate (maxLength + 1) '$')
    parse broken = .error (.unexpectedToken .expression (some .kwThen) 21) ∧
      (∃ front back, tokenize broken.toList = .ok (front ++ back) ∧
        21 = Parser.place broken.toList.length back ∧
        ∃ more n e, Derives anyCount .expr n (front.map (·.kind) ++ more) e) ∧
      strange.utf8ByteSize ≤ maxLength ∧ tokenize strange.toList = .error (.unexpectedChar '$' 6) ∧
      parse strange = .error (.unexpectedChar '$' 6) ∧
      maxLength < long.utf8ByteSize ∧ parse long = .error (.tooLong long.utf8ByteSize) := by
  have hbroken : parse "if abs(a) not in (b, then c" =
      .error (.unexpectedToken .expression (some .kwThen) 21) := by rfl
  have hstrange : tokenize "a + * $".toList = .error (.unexpectedChar '$' 6) := by rfl
  intro broken strange long
  have hlong : maxLength < long.utf8ByteSize := by
    have hle := length_toList_le long
    rwa [String.toList_ofList, List.length_replicate] at hle
  obtain ⟨hplaced, -, -⟩ := syntax_errors_placed broken
  obtain ⟨-, hlexical, -⟩ := syntax_errors_placed strange
  obtain ⟨-, -, hlength⟩ := syntax_errors_placed long
  obtain ⟨front, back, htokens, hplace, -, -, more, n, e, hderives, -⟩ := hplaced _ _ _ hbroken
  exact ⟨hbroken, ⟨front, back, htokens, hplace, more, n, e, hderives⟩, by decide, hstrange,
    (hlexical (by decide) _ hstrange).1, hlong, hlength hlong⟩

end

end Grimace
