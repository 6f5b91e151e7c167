import Grimace.Proofs.Expr.Grammar
import Grimace.Proofs.Expr.Reader

/-!
# Grimace.Proofs.Expr.Sound

Whatever the reader of expressions takes is derived by the grammar: when a reader of a
phrase succeeds, the words it went over are that phrase and stand for the tree it returns.

The section is layered like the grammar.  One reader after another is sound for the words
of both (`Sound.bind`), and a chain for what each of its rounds keeps (`chain_sound`).  Each
level is sound if the readers one level further in are (`Nested.Sound`), and these are by
induction on the nesting that is left (`nested_sound`).
-/

namespace Grimace

namespace Parser

/-- Whatever the reader takes off the front of these tokens is derived as what it returns. -/
def SoundAt {α : Type} (read : Reader α) (us : List Token) (D : List Token.Kind → α → Prop) :
    Prop :=
  ∀ a rest, read us = .ok (a, rest) → ∃ front, us = front ++ rest ∧ D (front.map (·.kind)) a

/-- Whatever the reader takes off the front of any tokens is derived as what it returns. -/
def Sound {α : Type} (read : Reader α) (D : List Token.Kind → α → Prop) : Prop :=
  ∀ us, SoundAt read us D

/-- The phrase is derived one level further in. -/
def Deeper (p : Phrase) (n : Nat) (ts : List Token.Kind) (e : Expr) : Prop :=
  ∃ m, n = m + 1 ∧ Derives Func.accepts p m ts e

/-- The readers of the phrases one level further in are sound. -/
structure Nested.Sound (inner : Nested) (n : Nat) : Prop where
  expr : Parser.Sound inner.expr (Derives Func.accepts .expr n)
  not : Parser.Sound inner.not (Deeper .not n)
  unary : Parser.Sound inner.unary (Deeper .unary n)

/-- The words are a list of expressions behind its opening parenthesis. -/
def Lists (n : Nat) (ts : List Token.Kind) (es : List Expr) : Prop :=
  ∃ items : List (List Token.Kind × Expr), ts = listing (items.map (·.1)) ∧
    es = items.map (·.2) ∧ ∀ i ∈ items, Derives Func.accepts .expr n i.1 i.2

/-- The words are the first items of such a list, up to where a comma or its end is. -/
def ListSoFar (n : Nat) (ts : List Token.Kind) (es : List Expr) : Prop :=
  es ≠ [] ∧ Lists n (ts ++ [.closeParen]) es

variable {α β γ : Type} {stop n : Nat} {inner : Nested} {us : List Token}

/-! ## One reader after another -/

section

variable {read : Reader α} {D D' : List Token.Kind → α → Prop} {E : List Token.Kind → β → Prop}

theorem SoundAt.mono (h : SoundAt read us D) (hmono : ∀ ts a, D ts a → D' ts a) :
    SoundAt read us D' := by
  intro a rest hread
  obtain ⟨front, hus, ha⟩ := h a rest hread
  exact ⟨front, hus, hmono _ a ha⟩

theorem Sound.mono (h : Sound read D) (hmono : ∀ ts a, D ts a → D' ts a) : Sound read D' :=
  fun us => (h us).mono hmono

/-- What the first of two readers takes is in front of what the second one takes. -/
theorem SoundAt.bind {next : α → Reader β} (h : SoundAt read us D)
    (hnext : ∀ ts a, D ts a → Sound (next a) fun vs b => E (ts ++ vs) b) :
    SoundAt (read >>= next) us E := by
  intro b rest hread
  obtain ⟨a, vs, hfirst, hsecond⟩ := bind_eq_ok_iff.1 hread
  obtain ⟨front, rfl, ha⟩ := h a vs hfirst
  obtain ⟨front', rfl, hb⟩ := hnext _ a ha vs b rest hsecond
  exact ⟨front ++ front', by simp, by simpa using hb⟩

theorem Sound.bind {next : α → Reader β} (h : Sound read D)
    (hnext : ∀ ts a, D ts a → Sound (next a) fun vs b => E (ts ++ vs) b) :
    Sound (read >>= next) E :=
  fun us => (h us).bind hnext

theorem pure_sound {a : α} (h : D [] a) : Sound (pure a) D := by
  intro us b rest hread
  obtain ⟨rfl, rfl⟩ := of_ok_eq_ok hread
  exact ⟨[], rfl, h⟩

/-- A reader that always fails takes nothing. -/
theorem sound_of_error {err : List Token → CompileError} (h : ∀ us, read us = .error (err us)) :
    Sound read D := by
  intro us a rest hread
  rw [h] at hread
  contradiction

/-- A token at hand, and what is taken behind it. -/
theorem SoundAt.cons {t : Token} (next : Reader α) (hread : read (t :: us) = next us)
    (h : SoundAt next us fun ts a => D (t.kind :: ts) a) : SoundAt read (t :: us) D := by
  intro a rest hok
  obtain ⟨front, rfl, ha⟩ := h a rest (hread.symm.trans hok)
  exact ⟨t :: front, rfl, ha⟩

end

/-! ## Words and chains -/

theorem eat_sound (word : Word) : Sound ((steps stop).eat word) fun ts b =>
    ts = if b then word.kind?.toList else [] := by
  intro us b rest h
  rw [eat_apply] at h
  split at h
  · next hfits =>
    obtain ⟨rfl, rfl⟩ := of_ok_eq_ok h
    have hkind := Word.fits_eq_true_iff.1 hfits
    cases us with
    | nil => exact ⟨[], rfl, (congrArg Option.toList hkind).symm⟩
    | cons t us => exact ⟨[t], rfl, (congrArg Option.toList hkind).symm⟩
  · obtain ⟨rfl, rfl⟩ := of_ok_eq_ok h
    exact ⟨[], rfl, rfl⟩

theorem expect_sound (word : Word) (expected : Expectation) :
    Sound ((steps stop).expect word expected) fun ts _ => ts = word.kind?.toList := by
  refine (eat_sound word).bind fun ts b hts => ?_
  subst hts
  cases b with
  | true => exact pure_sound (List.append_nil _)
  | false => exact sound_of_error fun _ => rfl

/-- A chain goes on with the phrase that it is given, if each round of it does. -/
theorem chain_sound {next? : Token.Kind → Option Token.Kind → Option γ} {more : α → γ → Reader α}
    {D : List Token.Kind → α → Prop}
    (hmore : ∀ ts a k us how, D ts a → next? k (us.head?.map (·.kind)) = some how →
      SoundAt (more a how) us fun vs b => D (ts ++ k :: vs) b)
    {ts : List Token.Kind} {a : α} (h : D ts a) :
    Sound ((steps stop).chain next? more a) fun us b => D (ts ++ us) b := by
  have hbound (bound : Nat) {ts : List Token.Kind} {a : α} (h : D ts a) :
      Sound (chain next? more bound a) fun us b => D (ts ++ us) b := by
    have hdone {ts : List Token.Kind} {a : α} (h : D ts a) :
        Sound (pure a) fun us b => D (ts ++ us) b := pure_sound (by simpa using h)
    induction bound generalizing ts a with
    | zero => exact hdone h
    | succ bound ih =>
        intro us
        cases us with
        | nil => exact hdone h []
        | cons t us =>
            cases hhow : next? t.kind (us.head?.map (·.kind)) with
            | none =>
                intro b rest hread
                rw [chain_of_none (fun _ _ heq => by cases heq; exact hhow)] at hread
                exact hdone h _ b rest hread
            | some how =>
                refine .cons (more a how >>= chain next? more bound)
                  (chain_of_some hhow bound a) ?_
                exact (hmore ts a t.kind us how h hhow).bind fun vs b hb => by simpa using ih hb
  exact fun us => hbound us.length h us

section

variable {join? : Token.Kind → Option (Expr → Expr → Expr)} {operand : Reader Expr}
  {p q : Phrase}

/-- A level is sound if its operands are and belong to it, and its operators join. -/
theorem level_sound (hoperand : Sound operand (Derives Func.accepts q n))
    (hjoin : ∀ k join, join? k = some join → ∀ {ts us a b}, Derives Func.accepts p n ts a →
      Derives Func.accepts q n us b → Derives Func.accepts p n (ts ++ k :: us) (join a b))
    (hof : ∀ {ts e}, Derives Func.accepts q n ts e → Derives Func.accepts p n ts e) :
    Sound ((steps stop).level join? operand) (Derives Func.accepts p n) := by
  refine hoperand.bind fun ts left hleft => chain_sound (fun ts a k us join ha hk => ?_) (hof hleft)
  exact (hoperand us).bind fun vs b hb => pure_sound (by simpa using hjoin k join hk ha hb)

end

/-! ## Lists and calls -/

theorem ListSoFar.one {ts : List Token.Kind} {e : Expr} (h : Derives Func.accepts .expr n ts e) :
    ListSoFar n ts [e] :=
  ⟨List.cons_ne_nil _ _, [(ts, e)], rfl, rfl, by simpa using h⟩

/-- Behind the first pieces of a list there is its end, or a comma and another piece. -/
theorem exists_listing_eq {pieces : List (List Token.Kind)} (hne : pieces ≠ []) :
    ∃ ts, listing pieces = ts ++ [.closeParen] ∧
      ∀ us, listing (pieces ++ [us]) = ts ++ .comma :: us ++ [.closeParen] := by
  induction pieces with
  | nil => contradiction
  | cons ts more ih =>
      cases more with
      | nil => exact ⟨ts, rfl, fun us => by simp [listing]⟩
      | cons us more =>
          obtain ⟨vs, hvs, hmore⟩ := ih (List.cons_ne_nil _ _)
          refine ⟨ts ++ .comma :: vs, ?_, fun ws => ?_⟩
          · rw [listing, hvs]
            simp
          · have hws := hmore ws
            simp only [List.cons_append, listing] at hws ⊢
            rw [hws]
            simp

/-- A comma is followed by another item. -/
theorem ListSoFar.concat {ts us : List Token.Kind} {es : List Expr} {e : Expr}
    (h : ListSoFar n ts es) (he : Derives Func.accepts .expr n us e) :
    ListSoFar n (ts ++ .comma :: us) (es ++ [e]) := by
  obtain ⟨hne, items, hts, rfl, hitems⟩ := h
  have hne' : items.map (·.1) ≠ [] := by simpa using hne
  obtain ⟨vs, hvs, hmore⟩ := exists_listing_eq hne'
  obtain rfl : ts = vs := List.append_cancel_right (hts.trans hvs)
  refine ⟨by simp, items ++ [(us, e)], ?_, by simp, ?_⟩
  · simpa using (hmore us).symm
  · exact List.forall_mem_append.2 ⟨hitems, List.forall_mem_singleton.2 he⟩

theorem comma?_eq_some {k : Token.Kind} {second : Option Token.Kind} {how : Unit}
    (h : Steps.comma? k second = some how) : k = .comma := by
  unfold Steps.comma? at h
  split at h <;> first | rfl | contradiction

/-- A comma goes on with the items in front of it. -/
theorem item_sound (hinner : inner.Sound n) {ts : List Token.Kind} {es : List Expr}
    {k : Token.Kind} {how : Unit} (hes : ListSoFar n ts es)
    (hk : Steps.comma? k (us.head?.map (·.kind)) = some how) :
    SoundAt (do return es ++ [← inner.expr]) us fun vs es' => ListSoFar n (ts ++ k :: vs) es' := by
  rw [comma?_eq_some hk]
  exact (hinner.expr us).bind fun vs e he => pure_sound (by simpa using hes.concat he)

theorem list_sound (hinner : inner.Sound n) : Sound ((steps stop).list inner) (Lists n) := by
  refine (eat_sound .closeParen).bind fun ts b hts => ?_
  subst hts
  cases b with
  | true => exact pure_sound ⟨[], rfl, rfl, by simp⟩
  | false =>
      refine hinner.expr.bind fun ts first hfirst => ?_
      refine (chain_sound (fun _ _ _ _ _ hes hk => item_sound hinner hes hk) (.one hfirst)).bind
        fun us items hus => ?_
      refine (expect_sound .closeParen _).bind fun vs _ hvs => pure_sound ?_
      obtain rfl : vs = [.closeParen] := hvs
      simpa using hus.2

theorem call_sound (hinner : inner.Sound n) (name : String) :
    Sound ((steps stop).call inner name) fun ts e =>
      Derives Func.accepts .primary n (.name name :: .openParen :: ts) e := by
  unfold Steps.call
  cases hname : Func.ofName? name with
  | none => exact sound_of_error fun _ => rfl
  | some f =>
      refine (list_sound hinner).bind fun ts args hargs => ?_
      split
      · next hcount =>
        obtain ⟨items, rfl, rfl, hitems⟩ := hargs
        rw [List.length_map] at hcount
        exact pure_sound (by simpa using Derives.call items hname hcount hitems)
      · exact sound_of_error fun _ => rfl

/-! ## The levels -/

theorem primary_sound (hinner : inner.Sound n) :
    Sound ((steps stop).primary inner) (Derives Func.accepts .primary n) := by
  intro us
  cases us with
  | nil => exact sound_of_error (fun _ => rfl) []
  | cons t us =>
      obtain ⟨k, pos⟩ := t
      cases k with
      | number x => exact .cons (pure (.number x)) rfl (pure_sound (.number x) us)
      | boolean b => exact .cons (pure (.boolean b)) rfl (pure_sound (.boolean b) us)
      | openParen =>
          refine .cons _ (primary_openParen stop inner pos us) ?_
          refine (hinner.expr us).bind fun ts e he => ?_
          refine (expect_sound .closeParen _).bind fun vs _ hvs => pure_sound ?_
          obtain rfl : vs = [.closeParen] := hvs
          simpa using Derives.paren he
      | name name =>
          refine .cons _ (primary_name stop inner name pos us) ?_
          refine (eat_sound .openParen us).bind fun ts b hts => ?_
          subst hts
          cases b with
          | true => exact call_sound hinner name
          | false => exact pure_sound (.var name)
      | _ =>
          intro a rest h
          contradiction

theorem power_sound (hinner : inner.Sound n) :
    Sound ((steps stop).power inner) (Derives Func.accepts .power n) := by
  refine (primary_sound hinner).bind fun ts base hbase => ?_
  refine (eat_sound .caret).bind fun us b hus => ?_
  subst hus
  cases b with
  | true =>
      refine hinner.unary.bind fun vs exponent hexponent => pure_sound ?_
      obtain ⟨m, rfl, hexponent⟩ := hexponent
      simpa [Word.kind?] using Derives.pow hbase hexponent
  | false => exact pure_sound (by simpa using .ofPrimary hbase)

theorem unary_sound (hinner : inner.Sound n) :
    Sound ((steps stop).unary inner) (Derives Func.accepts .unary n) := by
  refine (eat_sound .minus).bind fun ts b hts => ?_
  subst hts
  cases b with
  | true =>
      refine hinner.unary.bind fun us e he => pure_sound ?_
      obtain ⟨m, rfl, he⟩ := he
      simpa [Word.kind?] using Derives.neg he
  | false => exact (power_sound hinner).mono fun _ _ he => .ofPower he

theorem multiplicative_sound (hinner : inner.Sound n) :
    Sound ((steps stop).multiplicative inner) (Derives Func.accepts .multiplicative n) := by
  refine level_sound (unary_sound hinner) (fun k join hk => ?_) .ofUnary
  unfold Steps.product? at hk
  split at hk <;> cases hk <;> exact .product _ rfl

theorem additive_sound (hinner : inner.Sound n) :
    Sound ((steps stop).additive inner) (Derives Func.accepts .additive n) := by
  refine level_sound (multiplicative_sound hinner) (fun k join hk => ?_) .ofMultiplicative
  unfold Steps.sum? at hk
  split at hk <;> cases hk <;> exact .sum _ rfl

theorem relation?_eq_some {k : Token.Kind} {op : Operator} (h : Steps.relation? k = some op) :
    k = .op op ∧ op.phrase = .comparison := by
  unfold Steps.relation? at h
  split at h <;> cases h <;> exact ⟨rfl, rfl⟩

/-- The words that a test starts with are an operator that compares, or those of a membership
test. -/
theorem test?_eq_some {k : Token.Kind} {second : Option Token.Kind} {how : Steps.Test}
    (h : Steps.test? k second = some how) :
    (∃ op, how = .relation op ∧ k = .op op ∧ op.phrase = .comparison) ∨
      how = .member false ∧ k = .kwIn ∨
      how = .member true ∧ k = .kwNot ∧ second = some .kwIn := by
  unfold Steps.test? at h
  split at h
  · exact .inr (.inl ⟨(Option.some.inj h).symm, rfl⟩)
  · exact .inr (.inr ⟨(Option.some.inj h).symm, rfl, rfl⟩)
  · obtain ⟨op, hop, rfl⟩ := Option.map_eq_some_iff.1 h
    exact .inl ⟨op, rfl, relation?_eq_some hop⟩

theorem membership_sound (hinner : inner.Sound n) (negated : Bool) {ts : List Token.Kind}
    {needle : Expr} (hneedle : Derives Func.accepts .comparison n ts needle) :
    Sound ((steps stop).membership inner needle negated) fun us e =>
      Derives Func.accepts .comparison n (ts ++ membershipWords negated ++ us) e := by
  refine (expect_sound .openParen _).bind fun us _ hus => ?_
  obtain rfl : us = [.openParen] := hus
  refine (list_sound hinner).bind fun us hay hhay => pure_sound ?_
  obtain ⟨items, rfl, rfl, hitems⟩ := hhay
  simpa using Derives.member negated items hneedle hitems

/-- A test goes on with the comparison on its left. -/
theorem test_sound (hinner : inner.Sound n) {ts : List Token.Kind} {left : Expr} {k : Token.Kind}
    {how : Steps.Test} (hleft : Derives Func.accepts .comparison n ts left)
    (hhow : Steps.test? k (us.head?.map (·.kind)) = some how) :
    SoundAt ((steps stop).test inner left how) us fun vs e =>
      Derives Func.accepts .comparison n (ts ++ k :: vs) e := by
  obtain ⟨op, rfl, rfl, hop⟩ | ⟨rfl, rfl⟩ | ⟨rfl, rfl, hsecond⟩ := test?_eq_some hhow
  · exact (additive_sound hinner us).bind fun vs right hright =>
      pure_sound (by simpa using Derives.relation op hop hleft hright)
  · exact (membership_sound hinner false hleft us).mono fun vs e he => by
      simpa [membershipWords] using he
  · -- The second word of the test is at hand.
    cases us with
    | nil => contradiction
    | cons t us =>
        obtain ⟨k, pos⟩ := t
        obtain rfl : k = .kwIn := Option.some.inj hsecond
        refine .cons ((steps stop).membership inner left true) rfl ?_
        exact (membership_sound hinner true hleft us).mono fun vs e he => by
          simpa [membershipWords] using he

theorem comparison_sound (hinner : inner.Sound n) :
    Sound ((steps stop).comparison inner) (Derives Func.accepts .comparison n) :=
  (additive_sound hinner).bind fun _ _ hleft =>
    chain_sound (fun _ _ _ _ _ hleft hhow => test_sound hinner hleft hhow) (.ofAdditive hleft)

theorem not_sound (hinner : inner.Sound n) :
    Sound ((steps stop).not inner) (Derives Func.accepts .not n) := by
  have hcomparison (us : List Token) :
      SoundAt ((steps stop).comparison inner) us (Derives Func.accepts .not n) :=
    (comparison_sound hinner us).mono fun _ _ he => .ofComparison he
  intro us
  obtain ⟨pos, us, rfl, hnot⟩ | hnot := not_cases stop inner us
  · refine .cons _ hnot ((hinner.not us).bind fun ts e he => pure_sound ?_)
    obtain ⟨m, rfl, he⟩ := he
    simpa using Derives.not he
  · intro e rest h
    exact hcomparison us e rest (hnot.symm.trans h)

theorem and_sound (hinner : inner.Sound n) :
    Sound ((steps stop).and inner) (Derives Func.accepts .and n) := by
  refine level_sound (not_sound hinner) (fun k join hk => ?_) .ofNot
  unfold Steps.and? at hk
  split at hk <;> cases hk
  exact .and

theorem or_sound (hinner : inner.Sound n) :
    Sound ((steps stop).or inner) (Derives Func.accepts .or n) := by
  refine level_sound (and_sound hinner) (fun k join hk => ?_) .ofAnd
  unfold Steps.or? at hk
  split at hk <;> cases hk
  exact .or

theorem expr_sound (hinner : inner.Sound n) :
    Sound ((steps stop).expr inner) (Derives Func.accepts .expr (n + 1)) := by
  refine (eat_sound .kwIf).bind fun ts b hts => ?_
  subst hts
  cases b with
  | true =>
      refine hinner.expr.bind fun ts test htest => ?_
      refine (expect_sound .kwThen _).bind fun _ _ hthen => ?_
      refine hinner.expr.bind fun us yes hyes => ?_
      refine (expect_sound .kwElse _).bind fun _ _ helse => ?_
      refine hinner.expr.bind fun vs no hno => pure_sound ?_
      obtain rfl : _ = [Token.Kind.kwThen] := hthen
      obtain rfl : _ = [Token.Kind.kwElse] := helse
      simpa [Word.kind?] using Derives.cond htest hyes hno
  | false => exact (or_sound hinner).mono fun _ _ he => .ofOr he

/-- **Soundness**: whatever the readers take is derived, with as much nesting as they have
left. -/
theorem nested_sound (stop n : Nat) : (nested stop n).Sound n := by
  induction n with
  | zero =>
      have hrefuse {D : List Token.Kind → Expr → Prop} :
          Sound (fun ts => .error (.tooDeep (place stop ts))) D := sound_of_error fun _ => rfl
      exact ⟨hrefuse, hrefuse, hrefuse⟩
  | succ n ih =>
      exact ⟨expr_sound ih, (not_sound ih).mono fun _ _ he => ⟨n, rfl, he⟩,
        (unary_sound ih).mono fun _ _ he => ⟨n, rfl, he⟩⟩

end Parser

end Grimace
