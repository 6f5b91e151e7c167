import Grimace.Proofs.Expr.Complete
import Grimace.Proofs.Expr.Nesting

/-!
# Grimace.Proofs.Expr.TooDeep

Where the reader gives up on nesting.

Words that nest are read from the left.  All that stands before the first word that is too deep
is read as the grammar has it, so the reader gets there, and then refuses to go further in.

* `Nests.refuses` — words of which one stands too deep are refused for it, whatever is behind;
* `nesting_limit` — a text that the grammar derives, to any depth, is refused for its nesting
  exactly if one of its words stands in `maxNesting` levels or more;
* `limit_is_too_deep` — that is one level earlier than the limit says: the expression as a whole
  takes a level of its own.
-/

namespace Grimace

namespace Parser

/-- The words, with any tokens behind them, are refused for their nesting. -/
def Refuses (stop n : Nat) (p : Phrase) (ts : List Token.Kind) : Prop :=
  ∀ us, us.map (·.kind) = ts → ∀ rest, ∃ pos, read stop n p (us ++ rest) = .error (.tooDeep pos)

variable {stop n m : Nat} {p q : Phrase} {ts us : List Token.Kind} {a e : Expr}

/-! ## Parts of a phrase -/

/-- What is refused at the front is refused. -/
theorem Refuses.append (h : Refuses stop n p ts) (us : List Token.Kind) :
    Refuses stop n p (ts ++ us) := by
  intro toks htoks rest
  obtain ⟨front, back, rfl, hfront, -⟩ := List.map_eq_append_iff.1 htoks
  rw [List.append_assoc]
  exact h front hfront (back ++ rest)

/-- A phrase of the next looser kind starts with the one that is refused. -/
theorem Refuses.loosen (hrank : q.rank + 1 = p.rank) (hderives : Derives Func.accepts q m ts e)
    (h : Refuses stop n q ts) : Refuses stop (n + p.entry) p ts := by
  intro us hus rest
  obtain ⟨pos, hread⟩ := h us hus rest
  obtain ⟨t, us, rfl, ht⟩ := exists_first_token hderives hus
  refine ⟨pos, ?_⟩
  cases p with
  | primary => exact absurd hrank (Nat.succ_ne_zero _)
  | expr =>
      obtain rfl : q = .or := Phrase.eq_of_rank_eq (Nat.succ.inj hrank)
      exact (expr_of_starts ht _).trans hread
  | or =>
      obtain rfl : q = .and := Phrase.eq_of_rank_eq (Nat.succ.inj hrank)
      exact bind_of_error hread _
  | and =>
      obtain rfl : q = .not := Phrase.eq_of_rank_eq (Nat.succ.inj hrank)
      exact bind_of_error hread _
  | not =>
      obtain rfl : q = .comparison := Phrase.eq_of_rank_eq (Nat.succ.inj hrank)
      exact (not_of_starts ht _).trans hread
  | comparison =>
      obtain rfl : q = .additive := Phrase.eq_of_rank_eq (Nat.succ.inj hrank)
      exact bind_of_error hread _
  | additive =>
      obtain rfl : q = .multiplicative := Phrase.eq_of_rank_eq (Nat.succ.inj hrank)
      exact bind_of_error hread _
  | multiplicative =>
      obtain rfl : q = .unary := Phrase.eq_of_rank_eq (Nat.succ.inj hrank)
      exact bind_of_error hread _
  | unary =>
      obtain rfl : q = .power := Phrase.eq_of_rank_eq (Nat.succ.inj hrank)
      exact (unary_of_starts ht _).trans hread
  | power =>
      obtain rfl : q = .primary := Phrase.eq_of_rank_eq (Nat.succ.inj hrank)
      exact bind_of_error hread _

/-- Behind a left operand that was read, the right one is refused. -/
theorem Refuses.join {k : Token.Kind} {join : Expr → Expr → Expr}
    (hk : ∀ pos rest, p.Admits (⟨k, pos⟩ :: rest))
    (hresume : ∀ bound left pos ts, resume stop n p (bound + 1) left (⟨k, pos⟩ :: ts) =
      (do resume stop n p bound (join left (← read stop n q)) : Reader Expr) ts)
    (ha : Completes stop n p ts a) (hb : Refuses stop n q us) :
    Refuses stop n p (ts ++ k :: us) := by
  intro toks htoks rest
  obtain ⟨front, pos, back, rfl, hfront, hus⟩ := exists_of_map_eq_append_cons htoks
  obtain ⟨bound, hbound, hread⟩ := ha front hfront (⟨k, pos⟩ :: back ++ rest) (hk pos _)
  obtain ⟨deep, hdeep⟩ := hb back hus rest
  cases bound with
  | zero => simp at hbound
  | succ bound =>
      refine ⟨deep, ?_⟩
      rw [List.append_assoc, hread, List.cons_append, hresume, bind_of_error hdeep]

/-- At a repeated level an operator is followed by an operand. -/
theorem resume_op {op : Operator} (hop : op.phrase = p) (hp : p ≠ .power)
    (hq : q.rank + 1 = p.rank) (bound : Nat) (left : Expr) (pos : Nat) (ts : List Token) :
    resume stop n p (bound + 1) left (⟨.op op, pos⟩ :: ts) =
      (do resume stop n p bound (.binary op left (← read stop n q)) : Reader Expr) ts := by
  cases p with
  | comparison =>
      obtain rfl : q = .additive := Phrase.eq_of_rank_eq (Nat.succ.inj hq)
      refine (chain_of_some (test?_of_phrase hop _) bound left).trans ?_
      simp only [Steps.test, bind_assoc, pure_bind]
      rfl
  | additive =>
      obtain rfl : q = .multiplicative := Phrase.eq_of_rank_eq (Nat.succ.inj hq)
      exact joined_of_some (sum?_of_phrase hop) bound left
  | multiplicative =>
      obtain rfl : q = .unary := Phrase.eq_of_rank_eq (Nat.succ.inj hq)
      exact joined_of_some (product?_of_phrase hop) bound left
  | power => contradiction
  | _ => exact absurd hop (by cases op <;> decide)

/-! ## One level further in -/

/-- Where no more levels are allowed, an expression is refused. -/
theorem refuses_zero (ts : List Token.Kind) : Refuses stop 0 .expr ts :=
  fun us _ rest => ⟨place stop (us ++ rest), rfl⟩

/-- The operand of `not`, which is refused where no more levels are allowed. -/
theorem not_refuses (hderives : Derives Func.accepts .not m ts e)
    (h : ∀ n', n = n' + 1 → Refuses stop n' .not ts) :
    Refuses stop n .not (.kwNot :: ts) := by
  intro us hus rest
  obtain ⟨pos, us, rfl, hus'⟩ := exists_of_map_eq_cons hus
  obtain ⟨deep, hdeep⟩ : ∃ deep, (nested stop n).not (us ++ rest) = .error (.tooDeep deep) := by
    cases n with
    | zero => exact ⟨place stop (us ++ rest), rfl⟩
    | succ n' => exact h n' rfl us hus' rest
  obtain ⟨t, us, rfl, ht⟩ := exists_first_token hderives hus'
  exact ⟨deep, (not_kwNot ht pos (us ++ rest)).trans (bind_of_error hdeep _)⟩

/-- What is read where an operand of a minus sign or an exponent is expected. -/
theorem exists_unary_tooDeep (h : ∀ n', n = n' + 1 → Refuses stop n' .unary ts) {us : List Token}
    (hus : us.map (·.kind) = ts) (rest : List Token) :
    ∃ deep, (nested stop n).unary (us ++ rest) = .error (.tooDeep deep) := by
  cases n with
  | zero => exact ⟨place stop (us ++ rest), rfl⟩
  | succ n' => exact h n' rfl us hus rest

theorem neg_refuses (h : ∀ n', n = n' + 1 → Refuses stop n' .unary ts) :
    Refuses stop n .unary (.op .sub :: ts) := by
  intro us hus rest
  obtain ⟨pos, us, rfl, hus'⟩ := exists_of_map_eq_cons hus
  obtain ⟨deep, hdeep⟩ := exists_unary_tooDeep h hus' rest
  exact ⟨deep, (unary_sub stop _ pos (us ++ rest)).trans (bind_of_error hdeep _)⟩

theorem pow_refuses (ha : Completes stop n .primary ts a)
    (h : ∀ n', n = n' + 1 → Refuses stop n' .unary us) :
    Refuses stop n .power (ts ++ .op .pow :: us) := by
  intro toks htoks rest
  obtain ⟨front, pos, back, rfl, hfront, hus⟩ := exists_of_map_eq_append_cons htoks
  have hbase := ha.read_eq_ok hfront (⟨.op .pow, pos⟩ :: (back ++ rest)) (Nat.le_refl _)
    fun _ => rfl
  obtain ⟨deep, hdeep⟩ := exists_unary_tooDeep h hus rest
  refine ⟨deep, ?_⟩
  rw [List.append_assoc, List.cons_append]
  refine (bind_of_ok hbase _).trans ?_
  rw [bind_of_ok (eat_cons rfl), if_pos rfl, bind_of_error hdeep]

theorem paren_refuses (h : Refuses stop n .expr ts) :
    Refuses stop n .primary (.openParen :: ts ++ [.closeParen]) := by
  intro us hus rest
  obtain ⟨front, pos', back, rfl, hfront, -⟩ := exists_of_map_eq_append_cons hus
  obtain ⟨pos, front, rfl, hts⟩ := exists_of_map_eq_cons hfront
  obtain ⟨deep, hdeep⟩ := h front hts (⟨.closeParen, pos'⟩ :: back ++ rest)
  rw [List.append_assoc]
  exact ⟨deep, (primary_openParen stop _ pos _).trans (bind_of_error hdeep _)⟩

/-- The first part of an `if` that is refused, behind those that were read. -/
theorem cond_refuses {ts us vs : List Token.Kind} (test yes : Expr)
    (h : Refuses stop n .expr ts ∨ Completes stop n .expr ts test ∧
      (Refuses stop n .expr us ∨ Completes stop n .expr us yes ∧ Refuses stop n .expr vs)) :
    Refuses stop (n + 1) .expr (.kwIf :: ts ++ .kwThen :: us ++ .kwElse :: vs) := by
  intro toks htoks rest
  obtain ⟨front, pos', back, rfl, hfront, hvs⟩ := exists_of_map_eq_append_cons htoks
  obtain ⟨front, pos, middle, rfl, hfront, hus⟩ := exists_of_map_eq_append_cons hfront
  obtain ⟨first, front, rfl, hts⟩ := exists_of_map_eq_cons hfront
  simp only [List.append_assoc, List.cons_append]
  rcases h with htest | ⟨htest, hyes | ⟨hyes, hno⟩⟩
  · obtain ⟨deep, hdeep⟩ := htest front hts
      (⟨.kwThen, pos⟩ :: (middle ++ ⟨.kwElse, pos'⟩ :: (back ++ rest)))
    exact ⟨deep, (expr_kwIf stop (nested stop n) first _).trans (bind_of_error hdeep _)⟩
  · have hreadTest := htest.expr_eq_ok hts
      (⟨.kwThen, pos⟩ :: (middle ++ ⟨.kwElse, pos'⟩ :: (back ++ rest))) trivial
    obtain ⟨deep, hdeep⟩ := hyes middle hus (⟨.kwElse, pos'⟩ :: (back ++ rest))
    refine ⟨deep, (expr_kwIf stop (nested stop n) first _).trans ?_⟩
    rw [bind_of_ok hreadTest, bind_of_ok (expect_cons rfl)]
    exact bind_of_error hdeep _
  · have hreadTest := htest.expr_eq_ok hts
      (⟨.kwThen, pos⟩ :: (middle ++ ⟨.kwElse, pos'⟩ :: (back ++ rest))) trivial
    have hreadYes := hyes.expr_eq_ok hus (⟨.kwElse, pos'⟩ :: (back ++ rest)) trivial
    obtain ⟨deep, hdeep⟩ := hno back hvs rest
    refine ⟨deep, (expr_kwIf stop (nested stop n) first _).trans ?_⟩
    rw [bind_of_ok hreadTest, bind_of_ok (expect_cons rfl), bind_of_ok hreadYes,
      bind_of_ok (expect_cons rfl)]
    exact bind_of_error hdeep _

/-! ## Lists -/

/-- Items are read up to the first that is refused. -/
theorem items_refuse (before : List (List Token.Kind)) (ts : List Token.Kind)
    (after : List (List Token.Kind)) (hbefore : ∀ ts ∈ before, ∃ e, Completes stop n .expr ts e)
    (hdeep : Refuses stop n .expr ts) (bound : Nat) (hbound : before.length < bound)
    (there : List Expr) (us : List Token) (hus : us.map (·.kind) = behind (before ++ ts :: after))
    (rest : List Token) :
    ∃ pos, items stop (nested stop n) bound there (us ++ rest) = .error (.tooDeep pos) := by
  obtain ⟨bound, rfl⟩ := Nat.exists_eq_add_of_le' (Nat.one_le_of_lt hbound)
  induction before generalizing bound there us with
  | nil =>
      obtain ⟨pos, us, rfl, hlisting⟩ := exists_of_map_eq_cons hus
      obtain ⟨deep, hread⟩ :=
        hdeep.append (behind after) us (hlisting.trans (listing_cons ts after)) rest
      rw [List.cons_append, items_comma]
      exact ⟨deep, bind_of_error hread _⟩
  | cons item more ih =>
      obtain ⟨⟨e, hitem⟩, hmore⟩ := List.forall_mem_cons.1 hbefore
      obtain ⟨pos, us, rfl, hlisting⟩ := exists_of_map_eq_cons hus
      obtain ⟨front, back, rfl, hfront, hback⟩ :=
        List.map_eq_append_iff.1 (hlisting.trans (listing_cons _ _))
      obtain ⟨bound, rfl⟩ : ∃ b, bound = b + 1 :=
        ⟨bound - 1, by simp only [List.length_cons] at hbound; omega⟩
      have hread := hitem.expr_eq_ok hfront (back ++ rest) (admits_behind hback rest)
      obtain ⟨deep, hrest⟩ := ih hmore (there ++ [e]) back hback bound (by simpa using hbound)
      refine ⟨deep, ?_⟩
      rw [List.cons_append, List.append_assoc, items_comma, bind_of_ok hread, hrest]

/-- The words of a list behind its opening parenthesis are refused for their nesting. -/
def RefusesList (stop n : Nat) (ts : List Token.Kind) : Prop :=
  ∀ us, us.map (·.kind) = ts → ∀ rest, ∃ pos,
    (steps stop).list (nested stop n) (us ++ rest) = .error (.tooDeep pos)

/-- A list is refused for the first of its items that is. -/
theorem list_refuses (before : List (List Token.Kind)) (ts : List Token.Kind)
    (after : List (List Token.Kind)) (hbefore : ∀ ts ∈ before, ∃ e, Completes stop n .expr ts e)
    (hdeep : Refuses stop n .expr ts)
    (hderives : ∀ us ∈ before ++ ts :: after, ∃ m e, Derives Func.accepts .expr m us e) :
    RefusesList stop n (listing (before ++ ts :: after)) := by
  intro us hus rest
  cases before with
  | nil =>
      obtain ⟨m, e, hfirst⟩ := hderives ts List.mem_cons_self
      obtain ⟨front, back, rfl, hfront, -⟩ :=
        List.map_eq_append_iff.1 (hus.trans (listing_cons ts after))
      obtain ⟨deep, hread⟩ := hdeep front hfront (back ++ rest)
      rw [List.append_assoc, list_of_derives hfirst hfront]
      exact ⟨deep, bind_of_error hread _⟩
  | cons first before =>
      obtain ⟨m, e, hfirst⟩ := hderives first List.mem_cons_self
      obtain ⟨⟨e', hitem⟩, hmore⟩ := List.forall_mem_cons.1 hbefore
      obtain ⟨front, back, rfl, hfront, hback⟩ :=
        List.map_eq_append_iff.1 (hus.trans (listing_cons first (before ++ ts :: after)))
      have hlength : before.length < (back ++ rest).length := by
        have hle := length_le_behind (before ++ ts :: after)
        rw [← hback] at hle
        simp only [List.length_append, List.length_map, List.length_cons] at hle ⊢
        omega
      have hread := hitem.expr_eq_ok hfront (back ++ rest) (admits_behind hback rest)
      obtain ⟨deep, hitems⟩ :=
        items_refuse before ts after hmore hdeep _ hlength [e'] back hback rest
      refine ⟨deep, ?_⟩
      rw [List.append_assoc, list_of_derives hfirst hfront, bind_of_ok hread, hitems]

theorem call_refuses {s : String} {f : Func} (hname : Func.ofName? s = some f)
    (h : RefusesList stop n ts) : Refuses stop n .primary (.name s :: .openParen :: ts) := by
  intro us hus rest
  obtain ⟨pos, us, rfl, hopen⟩ := exists_of_map_eq_cons hus
  obtain ⟨pos', us, rfl, hlisting⟩ := exists_of_map_eq_cons hopen
  obtain ⟨deep, hdeep⟩ := h us hlisting rest
  refine ⟨deep, ?_⟩
  simp only [List.cons_append]
  refine (primary_name stop _ s pos _).trans ((bind_of_ok (eat_cons rfl) _).trans ?_)
  rw [if_pos rfl, call_of_name hname, bind_of_error hdeep]

theorem member_refuses (negated : Bool) (ha : Completes stop n .comparison ts a)
    (h : RefusesList stop n us) :
    Refuses stop n .comparison (ts ++ membershipWords negated ++ .openParen :: us) := by
  intro toks htoks rest
  obtain ⟨front, pos, back, rfl, hfront, hlisting⟩ := exists_of_map_eq_append_cons htoks
  obtain ⟨front, words, rfl, hts, hwords⟩ := List.map_eq_append_iff.1 hfront
  obtain ⟨deep, hdeep⟩ := h back hlisting rest
  obtain ⟨hpos, hleft, htests⟩ :=
    tests_of_words stop (nested stop n) hwords (⟨.openParen, pos⟩ :: back ++ rest)
  obtain ⟨bound, hbound, hread⟩ := ha front hts _ hleft
  cases bound with
  | zero =>
      simp only [List.length_append] at hbound
      omega
  | succ bound =>
      refine ⟨deep, ?_⟩
      rw [List.append_assoc, List.append_assoc, hread]
      refine (htests bound a).trans ?_
      have hlist : (steps stop).membership (nested stop n) a negated
          (⟨.openParen, pos⟩ :: (back ++ rest)) = .error (.tooDeep deep) :=
        (bind_of_ok (expect_cons rfl) _).trans (bind_of_error hdeep _)
      exact bind_of_error hlist _

end Parser

/-! ## Words too deep -/

section

variable {stop n : Nat} {p : Phrase} {ws : List (Token.Kind × Nat)} {e : Expr}

theorem Nests.completes (stop : Nat) (h : Nests Func.accepts p ws e) (hfits : Fits n p ws) :
    Parser.Completes stop n p (ws.map Prod.fst) e :=
  Parser.completes_of_derives stop (h.derives hfits)

/-- A list of which an item is too deep is refused. -/
theorem Nests.refusesList {items : List (List (Token.Kind × Nat) × Expr)}
    (hitems : ∀ i ∈ items, Nests Func.accepts .expr i.1 i.2)
    (hrefuses : ∀ i ∈ items, ¬ Fits n .expr i.1 →
      Parser.Refuses stop n .expr (i.1.map Prod.fst))
    (hdeep : ¬ ∀ i ∈ items, Fits n .expr i.1) :
    Parser.RefusesList stop n (listing ((items.map (·.1)).map (·.map Prod.fst))) := by
  have hderives : ∀ us ∈ (items.map (·.1)).map (·.map Prod.fst),
      ∃ m e, Derives Func.accepts .expr m us e := by
    simp only [List.forall_mem_map]
    intro i hi
    obtain ⟨m, hderives⟩ := (hitems i hi).exists_derives
    exact ⟨m, i.2, hderives⟩
  obtain ⟨i, hi⟩ : ∃ i, items.find? (fun i => ¬ Fits n .expr i.1) = some i :=
    Option.isSome_iff_exists.1 (List.find?_isSome.2 (by simpa using hdeep))
  obtain ⟨hunfit, before, after, rfl, hbefore⟩ := List.find?_eq_some_iff_append.1 hi
  simp only [List.map_append, List.map_cons] at hderives ⊢
  refine Parser.list_refuses _ _ _ ?_ (hrefuses i (by simp) (by simpa using hunfit)) hderives
  simp only [List.forall_mem_map]
  intro j hj
  have hfits : Fits n .expr j.1 := by simpa using hbefore j hj
  exact ⟨j.2, (hitems j (List.mem_append_left _ hj)).completes stop hfits⟩

/-- Two phrases with a word between them are refused for the first of the two that is. -/
theorem Nests.refuses_join {q : Phrase} {ts us : List (Token.Kind × Nat)} {k : Token.Kind}
    {a : Expr} {join : Expr → Expr → Expr} (hp : p.entry = 0) (hq : q.entry = 0)
    (hk : ∀ pos rest, p.Admits (⟨k, pos⟩ :: rest))
    (hresume : ∀ bound left pos toks,
      Parser.resume stop n p (bound + 1) left (⟨k, pos⟩ :: toks) =
        (do Parser.resume stop n p bound (join left (← Parser.read stop n q)) :
          Parser.Reader Expr) toks)
    (ha : Nests Func.accepts p ts a)
    (iha : ¬ Fits n p ts → Parser.Refuses stop n p (ts.map Prod.fst))
    (ihb : ¬ Fits n q us → Parser.Refuses stop n q (us.map Prod.fst))
    (hdeep : ¬ Fits n p (ts ++ (k, 0) :: us)) :
    Parser.Refuses stop n p ((ts ++ (k, 0) :: us).map Prod.fst) := by
  rw [List.map_append, List.map_cons]
  by_cases hfits : Fits n p ts
  · refine .join hk hresume (ha.completes stop hfits) (ihb fun hright => hdeep ?_)
    exact (fits_join hp hq).2 ⟨hfits, hright⟩
  · exact (iha hfits).append _

/-- Where an operand is one level further in, the level inside refuses it. -/
theorem Nests.refuses_further {k : Token.Kind} (hp : p.entry = 0) (hne : ws ≠ [])
    (ih : ∀ {m}, ¬ Fits m p ws → Parser.Refuses stop m p (ws.map Prod.fst))
    (hdeep : ¬ Fits n p ((k, 0) :: deeper ws)) (m : Nat) (hm : n = m + 1) :
    Parser.Refuses stop m p (ws.map Prod.fst) :=
  ih fun hfits => hdeep ((fits_further hp hne).2 ⟨m, hm, hfits⟩)

/-- **Words of which one stands too deep are refused for it**, whatever is behind them. -/
theorem Nests.refuses (stop : Nat) (h : Nests Func.accepts p ws e) (hdeep : ¬ Fits n p ws) :
    Parser.Refuses stop n p (ws.map Prod.fst) := by
  induction h generalizing n with
  | @cond ts us vs test yes no htest hyes hno ihtest ihyes ihno =>
      cases n with
      | zero => exact Parser.refuses_zero _
      | succ n =>
          simp only [List.map_append, List.map_cons, words_deeper]
          refine Parser.cond_refuses test yes ?_
          by_cases hfitsTest : Fits n .expr ts
          · refine .inr ⟨htest.completes stop hfitsTest, ?_⟩
            by_cases hfitsYes : Fits n .expr us
            · refine .inr ⟨hyes.completes stop hfitsYes, ihno fun hfitsNo => hdeep ?_⟩
              exact fits_cond.2 ⟨n, rfl, hfitsTest, hfitsYes, hfitsNo⟩
            · exact .inl (ihyes hfitsYes)
          · exact .inl (ihtest hfitsTest)
  | @loosen p q ws e hrank hws ih =>
      obtain ⟨m, hderives⟩ := hws.exists_derives
      by_cases hentry : p.entry ≤ n
      · obtain ⟨n, rfl⟩ := Nat.exists_eq_add_of_le' hentry
        refine (ih fun hfits => hdeep ?_).loosen hrank hderives
        exact (fits_loosen (Phrase.entry_of_rank hrank) hws.ne_nil).2 ⟨n, rfl, hfits⟩
      · -- Not even the expression itself has a level.
        cases p with
        | expr =>
            obtain rfl : n = 0 := by simpa using hentry
            exact Parser.refuses_zero _
        | _ => exact absurd (Nat.zero_le n) hentry
  | or ha _ iha ihb =>
      exact ha.refuses_join rfl rfl (fun _ _ => Nat.le_refl _)
        (fun bound left _ _ => Parser.joined_of_some rfl bound left) iha ihb hdeep
  | and ha _ iha ihb =>
      exact ha.refuses_join rfl rfl (fun _ _ => Nat.le_refl _)
        (fun bound left _ _ => Parser.joined_of_some rfl bound left) iha ihb hdeep
  | not hws ih =>
      obtain ⟨m, hderives⟩ := hws.exists_derives
      rw [List.map_cons, words_deeper]
      exact Parser.not_refuses hderives (Nests.refuses_further rfl hws.ne_nil ih hdeep)
  | binary op hop hp hq ha _ iha ihb =>
      exact ha.refuses_join (hop ▸ op.entry_phrase) (Phrase.entry_of_rank hq)
        (Phrase.admits_op hop hp) (Parser.resume_op hop hp hq) iha ihb hdeep
  | @member ts a negated items ha hitems iha ihitems =>
      rw [words_member]
      by_cases hfits : Fits n .comparison ts
      · refine Parser.member_refuses negated (ha.completes stop hfits)
          (Nests.refusesList hitems (fun i hi h => ihitems i hi h) fun hall => hdeep ?_)
        exact fits_member.2 ⟨hfits, List.forall_mem_map.2 hall⟩
      · rw [List.append_assoc]
        exact (iha hfits).append _
  | neg hws ih =>
      rw [List.map_cons, words_deeper]
      exact Parser.neg_refuses (Nests.refuses_further rfl hws.ne_nil ih hdeep)
  | @pow ts us a b ha hb iha ihb =>
      rw [List.map_append, List.map_cons, words_deeper]
      by_cases hfits : Fits n .primary ts
      · exact Parser.pow_refuses (ha.completes stop hfits) (Nests.refuses_further rfl hb.ne_nil ihb
          fun hexponent => hdeep (fits_append.2 ⟨hfits, hexponent⟩))
      · obtain ⟨m, hderives⟩ := ha.exists_derives
        exact ((iha hfits).loosen (p := .power) rfl hderives).append _
  | number | boolean | var => exact absurd (by simp [Fits, Phrase.entry]) hdeep
  | call args hname hcount hargs ih =>
      rw [List.map_cons, List.map_cons, words_nestedListing]
      refine Parser.call_refuses hname (Nests.refusesList hargs (fun a ha h => ih a ha h) ?_)
      exact fun hfits => hdeep (fits_call.2 (List.forall_mem_map.2 hfits))
  | @paren ws e hws ih =>
      rw [List.map_append, List.map_cons, words_deeper]
      exact Parser.paren_refuses (ih fun hfits => hdeep (fits_paren.2 hfits))

/-- Tokens of which one stands too deep are refused for it. -/
theorem Nests.parseTokens_tooDeep {ts : List Token} (h : Nests Func.accepts .expr ws e)
    (hwords : ws.map Prod.fst = ts.map Token.kind) (hdeep : ¬ Fits maxNesting .expr ws) :
    ∃ pos, parseTokens stop ts = .error (.tooDeep pos) := by
  obtain ⟨pos, hread⟩ := h.refuses stop hdeep ts hwords.symm []
  rw [List.append_nil] at hread
  exact ⟨pos, Parser.parseTokens_of_error hread⟩

end

theorem parse_of_tokenize {source : String} {ts : List Token}
    (hlength : source.utf8ByteSize ≤ maxLength) (htokens : tokenize source.toList = .ok ts) :
    parse source = parseTokens source.toList.length ts := by
  unfold parse
  rw [if_neg (Nat.not_lt.2 hlength), htokens]
  rfl

/-! ## Words in parentheses -/

/-- The words in so many parentheses. -/
def inParens (ws : List (Token.Kind × Nat)) : Nat → List (Token.Kind × Nat)
  | 0 => ws
  | count + 1 => (.openParen, 0) :: deeper (inParens ws count) ++ [(.closeParen, 0)]

theorem Nests.inParens {takes : Func → Nat → Bool} {ws : List (Token.Kind × Nat)} {e : Expr}
    (h : Nests takes .primary ws e) (count : Nat) :
    Nests takes .primary (inParens ws count) e := by
  induction count with
  | zero => exact h
  | succ count ih => exact .paren (ih.widen (by decide))

/-- A word in no level of its own is in as many as there are parentheses around it. -/
theorem level_le_of_mem_inParens {ws : List (Token.Kind × Nat)} (h : ∀ w ∈ ws, w.2 = 0)
    (count : Nat) : ∀ w ∈ inParens ws count, w.2 ≤ count := by
  induction count with
  | zero => exact fun w hw => Nat.le_of_eq (h w hw)
  | succ count ih =>
      simp only [inParens, deeper, List.forall_mem_append, List.forall_mem_cons,
        List.forall_mem_map, List.not_mem_nil, false_imp_iff, implies_true, and_true]
      exact ⟨⟨Nat.zero_le _, fun w hw => Nat.succ_le_succ (ih w hw)⟩, Nat.zero_le _⟩

theorem mem_inParens {ws : List (Token.Kind × Nat)} {k : Token.Kind} {level : Nat}
    (h : (k, level) ∈ ws) (count : Nat) : (k, level + count) ∈ inParens ws count := by
  induction count with
  | zero => exact h
  | succ count ih =>
      have hdeeper : (k, level + count + 1) ∈ deeper (inParens ws count) :=
        List.mem_map_of_mem (f := fun w => (w.1, w.2 + 1)) ih
      exact List.mem_append_left _ (List.mem_cons_of_mem _ hdeeper)

/-! ## The limit -/

/-- **The limit on nesting.**  The words of a text that the grammar derives stand in so many
levels each.  The text is refused as too deep exactly if one of them stands in `maxNesting`
levels or more, and is otherwise read as its tree.  Where no word stands in just `maxNesting`
levels, that is what a limit which allows for so many would do. -/
theorem nesting_limit {source : String} {ts : List Token} {n : Nat} {e : Expr}
    (hlength : source.utf8ByteSize ≤ maxLength) (htokens : tokenize source.toList = .ok ts)
    (hderives : Derives Func.accepts .expr n (ts.map Token.kind) e) :
    (∃ ws, ws.map Prod.fst = ts.map Token.kind ∧ Nests Func.accepts .expr ws e) ∧
      ∀ ws, ws.map Prod.fst = ts.map Token.kind → Nests Func.accepts .expr ws e →
        ((∃ pos, parse source = .error (.tooDeep pos)) ↔ ∃ w ∈ ws, maxNesting ≤ w.2) ∧
        (parse source = .ok e ↔ ∀ w ∈ ws, w.2 < maxNesting) ∧
        ((∀ w ∈ ws, w.2 ≠ maxNesting) →
          ((∃ pos, parse source = .error (.tooDeep pos)) ↔ ∃ w ∈ ws, maxNesting < w.2)) := by
  obtain ⟨ws, hwords, hnests, -⟩ := hderives.exists_nests
  refine ⟨⟨ws, hwords, hnests⟩, fun ws hwords hnests => ?_⟩
  have hread (hfits : ∀ w ∈ ws, w.2 < maxNesting) : parse source = .ok e := by
    rw [parse_of_tokenize hlength htokens, parseTokens_eq_ok_iff, ← hwords]
    exact hnests.derives hfits
  have hrefused (hdeep : ∃ w ∈ ws, maxNesting ≤ w.2) :
      ∃ pos, parse source = .error (.tooDeep pos) := by
    rw [parse_of_tokenize hlength htokens]
    refine hnests.parseTokens_tooDeep hwords fun hfits => ?_
    obtain ⟨w, hw, hlevel⟩ := hdeep
    exact absurd (hfits w hw) (Nat.not_lt.2 hlevel)
  -- The two cases exclude each other, and so do the two answers.
  have hlimit : (∃ pos, parse source = .error (.tooDeep pos)) ↔ ∃ w ∈ ws, maxNesting ≤ w.2 := by
    refine ⟨fun ⟨pos, herror⟩ => ?_, hrefused⟩
    refine Classical.byContradiction fun hnone => ?_
    have hok := hread fun w hw => Nat.lt_of_not_le fun hlevel => hnone ⟨w, hw, hlevel⟩
    rw [hok] at herror
    contradiction
  refine ⟨hlimit, ⟨fun hok w hw => Nat.lt_of_not_le fun hlevel => ?_, hread⟩, fun hne => ?_⟩
  · obtain ⟨pos, herror⟩ := hrefused ⟨w, hw, hlevel⟩
    rw [hok] at herror
    contradiction
  · rw [hlimit]
    exact exists_congr fun w => and_congr_right fun hw =>
      ⟨fun hlevel => Nat.lt_of_le_of_ne hlevel (hne w hw).symm, Nat.le_of_lt⟩

set_option maxRecDepth 20000 in
/-- The sign is in no level, the power in that of the sign, and the parentheses in that of the
exponent and of those around them: the name inside is in as many as there is room for. -/
theorem nesting_limit_power :
    let source := String.ofList ("-a ^ ".toList ++ List.replicate (maxNesting - 3) '(' ++ ['b'] ++
      List.replicate (maxNesting - 3) ')')
    let ws : List (Token.Kind × Nat) := (.op .sub, 0) :: deeper
      ([(.name "a", 0)] ++ (.op .pow, 0) :: deeper (inParens [(.name "b", 0)] (maxNesting - 3)))
    let tree : Expr := .neg (.binary .pow (.var "a") (.var "b"))
    Nests Func.accepts .expr ws tree ∧ (.name "b", maxNesting - 1) ∈ ws ∧
      (∀ w ∈ ws, w.2 < maxNesting) ∧ parse source = .ok tree := by
  intro source ws tree
  have hpower : Nests Func.accepts .unary _ (.binary .pow (.var "a") (.var "b")) :=
    (Nests.pow (.var "a") (((Nests.var "b").inParens (maxNesting - 3)).widen (by decide))).widen
      (by decide)
  have hnests : Nests Func.accepts .expr ws tree := (Nests.neg hpower).widen (by decide)
  have hinside : ∀ w ∈ inParens [(.name "b", 0)] (maxNesting - 3), w.2 + 2 < maxNesting :=
    fun w hw =>
      have hlevel := level_le_of_mem_inParens (by simp) (maxNesting - 3) w hw
      Nat.lt_of_le_of_lt (Nat.add_le_add_right hlevel 2) (by decide)
  have hroom : ∀ w ∈ ws, w.2 < maxNesting := by
    simp only [ws, deeper, List.cons_append, List.nil_append, List.map_cons, List.forall_mem_cons,
      List.forall_mem_map]
    exact ⟨by decide, by decide, by decide, hinside⟩
  have hname : (.name "b", maxNesting - 1) ∈ ws :=
    List.mem_cons_of_mem _ (List.mem_map_of_mem (List.mem_append_right _
      (List.mem_cons_of_mem _ (List.mem_map_of_mem
        (mem_inParens List.mem_cons_self (maxNesting - 3))))))
  have hlength : source.utf8ByteSize ≤ maxLength := by decide
  obtain ⟨ts, htokens, hwords⟩ : ∃ ts, tokenize source.toList = .ok ts ∧
      ws.map Prod.fst = ts.map Token.kind := by
    rw [String.toList_ofList]
    exact ⟨_, by rfl, by rfl⟩
  have hderives := hnests.derives (n := maxNesting) hroom
  obtain ⟨-, h⟩ := nesting_limit hlength htokens (hwords ▸ hderives)
  exact ⟨hnests, hname, hroom, ((h ws hwords hnests).2.1).2 hroom⟩

set_option maxRecDepth 20000 in
/-- **As many levels as the limit says are refused.**  A name in `maxNesting` parentheses stands
in no more levels than that, and is too deep. -/
theorem limit_is_too_deep :
    let source := String.ofList (List.replicate maxNesting '(' ++ "jawOpen".toList ++
      List.replicate maxNesting ')')
    source.utf8ByteSize ≤ maxLength ∧ ∃ ts ws n e, tokenize source.toList = .ok ts ∧
      Derives Func.accepts .expr n (ts.map Token.kind) e ∧
      ws.map Prod.fst = ts.map Token.kind ∧ Nests Func.accepts .expr ws e ∧
      (∀ w ∈ ws, w.2 ≤ maxNesting) ∧ ∃ pos, parse source = .error (.tooDeep pos) := by
  intro source
  have hlength : source.utf8ByteSize ≤ maxLength := by decide
  have hnests : Nests Func.accepts .expr (inParens [(.name "jawOpen", 0)] maxNesting)
      (.var "jawOpen") := ((Nests.var "jawOpen").inParens maxNesting).widen (by decide)
  obtain ⟨n, hderives⟩ := hnests.exists_derives
  obtain ⟨ts, htokens, hwords, hread⟩ : ∃ ts, tokenize source.toList = .ok ts ∧
      (inParens [(.name "jawOpen", 0)] maxNesting).map Prod.fst = ts.map Token.kind ∧
      parseTokens source.toList.length ts = .error (.tooDeep 64) := by
    rw [String.toList_ofList]
    exact ⟨_, by rfl, by rfl, by rfl⟩
  exact ⟨hlength, ts, _, n, _, htokens, hwords ▸ hderives, hwords, hnests,
    level_le_of_mem_inParens (by simp) maxNesting, 64,
    (parse_of_tokenize hlength htokens).trans hread⟩

end Grimace
