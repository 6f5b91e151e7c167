import Grimace.Proofs.Expr.Sound

/-!
# Grimace.Proofs.Expr.Complete

Whatever the grammar derives is read, as the tree that it stands for.

A derivation is followed from the inside out, with more tokens behind its words.  What may
stand behind a phrase is `Phrase.Admits`: nothing that the phrase could take for a part of
itself, except at a repeated level, which is left in its loop (`resume`).

* `Parser.completes_of_derives` — the readers follow every derivation;
* `Derives.unique` — the grammar is unambiguous;
* `parse_eq_ok_iff_conforms` — a text is read exactly if it is derived, and then as the one tree.
-/

namespace Grimace

/-! ## What may follow a phrase -/

/-- The phrase on the left of an operator. -/
def Operator.left : Operator → Phrase
  | .pow => .primary
  | op => op.phrase

/-- The phrase may stand before the tokens, at a repeated level with its loop still open. -/
def Phrase.Admits (p : Phrase) : List Token → Prop
  | ⟨.openParen, _⟩ :: _ => False
  | ⟨.op o, _⟩ :: _ => p.rank ≤ o.left.rank
  | ⟨.kwIn, _⟩ :: _ | ⟨.kwNot, _⟩ :: ⟨.kwIn, _⟩ :: _ => p.rank ≤ Phrase.comparison.rank
  | ⟨.kwAnd, _⟩ :: _ => p.rank ≤ Phrase.and.rank
  | ⟨.kwOr, _⟩ :: _ => p.rank ≤ Phrase.or.rank
  | _ => True

/-- At a repeated level the operator may stand behind what it joins. -/
theorem Phrase.admits_op {p : Phrase} {op : Operator} (h : op.phrase = p) (hp : p ≠ .power)
    (pos : Nat) (rest : List Token) : p.Admits (⟨.op op, pos⟩ :: rest) := by
  subst h
  cases op <;> first | exact Nat.le_refl _ | exact absurd rfl hp

theorem Phrase.Admits.mono {p q : Phrase} {rest : List Token} (h : p.Admits rest)
    (hle : q.rank ≤ p.rank) : q.Admits rest := by
  unfold Admits at h ⊢
  split at h
  case h_1 => contradiction
  case h_7 => trivial
  all_goals exact Nat.le_trans hle h

theorem Phrase.Admits.unary {rest : List Token} (h : Phrase.power.Admits rest) :
    Phrase.unary.Admits rest := by
  unfold Admits at h ⊢
  split at h
  case h_2 o _ _ => cases o <;> first | contradiction | decide
  all_goals first | contradiction | trivial

namespace Parser

/-- The reader of a phrase where `n` more levels of nesting are allowed. -/
def read (stop n : Nat) : Phrase → Reader Expr
  | .expr => (nested stop n).expr
  | p => (steps stop).production (nested stop n) p

/-- What is left to do behind a phrase, with a bound for the chain of a repeated level. -/
def resume (stop n : Nat) : Phrase → (bound : Nat) → Expr → Reader Expr
  | .or, bound => joined Steps.or? (read stop n .and) bound
  | .and, bound => joined Steps.and? (read stop n .not) bound
  | .comparison, bound => chain Steps.test? ((steps stop).test (nested stop n)) bound
  | .additive, bound => joined Steps.sum? (read stop n .multiplicative) bound
  | .multiplicative, bound => joined Steps.product? (read stop n .unary) bound
  | _, _ => pure

/-- The words, with tokens behind them that the phrase admits, are read as the tree. -/
def Completes (stop n : Nat) (p : Phrase) (ts : List Token.Kind) (e : Expr) : Prop :=
  ∀ us, us.map (·.kind) = ts → ∀ rest, p.Admits rest →
    ∃ bound, rest.length ≤ bound ∧ read stop n p (us ++ rest) = resume stop n p bound e rest

variable {stop n : Nat} {p q : Phrase} {ts us : List Token.Kind} {a b e : Expr}

/-! ## Tokens of words -/

theorem exists_of_map_eq_cons {toks : List Token} {k : Token.Kind}
    (h : toks.map (·.kind) = k :: ts) :
    ∃ pos back, toks = ⟨k, pos⟩ :: back ∧ back.map (·.kind) = ts := by
  obtain ⟨⟨k', pos⟩, back, rfl, rfl, hback⟩ := List.map_eq_cons_iff.1 h
  exact ⟨pos, back, rfl, hback⟩

theorem exists_of_map_eq_append_cons {toks : List Token} {k : Token.Kind}
    (h : toks.map (·.kind) = ts ++ k :: us) :
    ∃ front pos back, toks = front ++ ⟨k, pos⟩ :: back ∧ front.map (·.kind) = ts ∧
      back.map (·.kind) = us := by
  obtain ⟨front, back, rfl, hfront, hback⟩ := List.map_eq_append_iff.1 h
  obtain ⟨pos, back, rfl, hus⟩ := exists_of_map_eq_cons hback
  exact ⟨front, pos, back, rfl, hfront, hus⟩

/-- A phrase has a first token. -/
theorem exists_first_token {takes : Func → Nat → Bool} (h : Derives takes p n ts e)
    {toks : List Token} (htoks : toks.map (·.kind) = ts) :
    ∃ t back, toks = t :: back ∧ p.Starts t.kind := by
  obtain ⟨k, ts, rfl, hk⟩ := h.exists_first
  obtain ⟨pos, back, rfl, -⟩ := exists_of_map_eq_cons htoks
  exact ⟨⟨k, pos⟩, back, rfl, hk⟩

/-! ## Repeated levels -/

/-- A chain ends before tokens that a looser phrase admits. -/
theorem resume_eq_ok {rest : List Token} (h : p.Admits rest) (hlt : q.rank < p.rank)
    (bound : Nat) (e : Expr) : resume stop n q bound e rest = .ok (e, rest) := by
  -- A token that would go on with the chain is admitted by no phrase looser than `q`.
  cases q with
  | or =>
      refine chain_of_none (fun ⟨k, pos⟩ rest' heq => ?_) bound e
      subst heq
      cases k <;> first | rfl | exact absurd h (Nat.not_le.2 hlt)
  | and =>
      refine chain_of_none (fun ⟨k, pos⟩ rest' heq => ?_) bound e
      subst heq
      cases k <;> first | rfl | exact absurd h (Nat.not_le.2 hlt)
  | additive =>
      refine chain_of_none (fun ⟨k, pos⟩ rest' heq => ?_) bound e
      subst heq
      cases k with
      | op o => cases o <;> first | rfl | exact absurd h (Nat.not_le.2 hlt)
      | _ => rfl
  | multiplicative =>
      refine chain_of_none (fun ⟨k, pos⟩ rest' heq => ?_) bound e
      subst heq
      cases k with
      | op o => cases o <;> first | rfl | exact absurd h (Nat.not_le.2 hlt)
      | _ => rfl
  | comparison =>
      refine chain_of_none (fun ⟨k, pos⟩ rest' heq => ?_) bound e
      subst heq
      cases k with
      | kwIn => exact absurd h (Nat.not_le.2 hlt)
      | kwNot =>
          cases rest' with
          | nil => rfl
          | cons t rest' =>
              obtain ⟨k, pos'⟩ := t
              cases k <;> first | rfl | exact absurd h (Nat.not_le.2 hlt)
      | op o => cases o <;> first | rfl | exact absurd h (Nat.not_le.2 hlt)
      | _ => rfl
  | _ => rfl

/-- At a level that is not repeated nothing is left to do. -/
theorem Completes.of_read (hresume : ∀ bound e rest, resume stop n p bound e rest = .ok (e, rest))
    (h : ∀ us : List Token, us.map (·.kind) = ts → ∀ rest, p.Admits rest →
      read stop n p (us ++ rest) = .ok (e, rest)) : Completes stop n p ts e :=
  fun us hus rest hadmits =>
    ⟨rest.length, Nat.le_refl _, (h us hus rest hadmits).trans (hresume _ e rest).symm⟩

/-- The reader of a phrase that leaves nothing to do reads the phrase. -/
theorem Completes.read_eq_ok (h : Completes stop n p ts e) {us : List Token}
    (hus : us.map (·.kind) = ts) (rest : List Token) (hadmits : p.Admits rest)
    (hresume : ∀ bound, resume stop n p bound e rest = .ok (e, rest)) :
    read stop n p (us ++ rest) = .ok (e, rest) := by
  obtain ⟨bound, -, hread⟩ := h us hus rest hadmits
  rw [hread, hresume]

/-- The reader of a part stops where the whole may stand. -/
theorem Completes.part_eq_ok (h : Completes stop n q ts e) {us rest : List Token}
    (hus : us.map (·.kind) = ts) (hadmits : p.Admits rest) (hlt : q.rank < p.rank) :
    read stop n q (us ++ rest) = .ok (e, rest) :=
  h.read_eq_ok hus rest (hadmits.mono (Nat.le_of_lt hlt)) fun bound =>
    resume_eq_ok hadmits hlt bound e

/-- An expression is read as such where nothing could go on with it. -/
theorem Completes.expr_eq_ok (h : Completes stop n .expr ts e) {us : List Token}
    (hus : us.map (·.kind) = ts) (rest : List Token) (hadmits : Phrase.expr.Admits rest) :
    (nested stop n).expr (us ++ rest) = .ok (e, rest) :=
  h.read_eq_ok hus rest hadmits fun _ => rfl

section

variable {join? : Token.Kind → Option (Expr → Expr → Expr)} (hlt : q.rank < p.rank)
  (hresume : resume stop n p = joined join? (read stop n q))

include hlt hresume

/-- A level starts with one of its operands. -/
theorem level_of_operand (hread : read stop n p = (steps stop).level join? (read stop n q))
    (h : Completes stop n q ts e) : Completes stop n p ts e := by
  intro us hus rest hadmits
  refine ⟨rest.length, Nat.le_refl _, ?_⟩
  rw [hread, hresume, level_eq, bind_of_ok (h.part_eq_ok hus hadmits hlt)]

/-- A level goes on with an operator and another operand. -/
theorem level_join {k : Token.Kind} {join : Expr → Expr → Expr} (hjoin : join? k = some join)
    (hk : ∀ pos rest, p.Admits (⟨k, pos⟩ :: rest)) (ha : Completes stop n p ts a)
    (hb : Completes stop n q us b) : Completes stop n p (ts ++ k :: us) (join a b) := by
  intro toks htoks rest hadmits
  obtain ⟨front, pos, back, rfl, hfront, hus⟩ := exists_of_map_eq_append_cons htoks
  -- The left operand stops in the chain at `k`, and the bound covers `k`: one more round is left.
  obtain ⟨bound, hbound, hread⟩ := ha front hfront (⟨k, pos⟩ :: back ++ rest) (hk pos _)
  cases bound with
  | zero => simp at hbound
  | succ bound =>
      refine ⟨bound, ?_, ?_⟩
      · simp only [List.cons_append, List.length_cons, List.length_append] at hbound
        omega
      · rw [List.append_assoc, hread, hresume, List.cons_append, joined_of_some hjoin,
          bind_of_ok (hb.part_eq_ok hus hadmits hlt)]

end

/-! ## Words and lists -/

/-- The words of a list behind its first item, from those of the other items. -/
def behind : List (List Token.Kind) → List Token.Kind
  | [] => [.closeParen]
  | ts :: more => .comma :: listing (ts :: more)

theorem listing_cons (ts : List Token.Kind) (pieces : List (List Token.Kind)) :
    listing (ts :: pieces) = ts ++ behind pieces := by
  cases pieces <;> rfl

theorem length_le_behind (pieces : List (List Token.Kind)) :
    pieces.length ≤ (behind pieces).length := by
  induction pieces with
  | nil => exact Nat.zero_le _
  | cons ts more ih =>
      rw [behind, listing_cons, List.length_cons, List.length_cons, List.length_append]
      omega

/-- Behind an item of a list there is nothing that could go on with it. -/
theorem admits_behind {pieces : List (List Token.Kind)} {us : List Token}
    (hus : us.map (·.kind) = behind pieces) (rest : List Token) :
    Phrase.expr.Admits (us ++ rest) := by
  cases pieces with
  | nil =>
      obtain ⟨pos, back, rfl, -⟩ := exists_of_map_eq_cons hus
      trivial
  | cons ts more =>
      obtain ⟨pos, back, rfl, -⟩ := exists_of_map_eq_cons hus
      trivial

/-- The items of a list are read behind those that are there already. -/
theorem items_complete (items : List (List Token.Kind × Expr))
    (hitems : ∀ i ∈ items, Completes stop n .expr i.1 i.2) (bound : Nat)
    (hbound : items.length ≤ bound) (there : List Expr) (us : List Token)
    (hus : us.map (·.kind) = behind (items.map (·.1))) (rest : List Token) :
    Parser.items stop (nested stop n) bound there (us ++ rest) =
      .ok (there ++ items.map (·.2), rest) := by
  induction items generalizing bound there us with
  | nil =>
      obtain ⟨pos, back, rfl, hnil⟩ := exists_of_map_eq_cons hus
      obtain rfl := List.map_eq_nil_iff.1 hnil
      simpa using items_closeParen bound there
  | cons item more ih =>
      obtain ⟨bound, rfl⟩ := Nat.exists_eq_add_of_le' (Nat.one_le_of_lt hbound)
      obtain ⟨hitem, hmore⟩ := List.forall_mem_cons.1 hitems
      obtain ⟨pos, us, rfl, hlisting⟩ := exists_of_map_eq_cons hus
      obtain ⟨front, back, rfl, hfront, hback⟩ :=
        List.map_eq_append_iff.1 (hlisting.trans (listing_cons _ _))
      have hread := hitem.expr_eq_ok hfront (back ++ rest) (admits_behind hback rest)
      have hrest := ih hmore bound (Nat.le_of_succ_le_succ hbound) (there ++ [item.2]) back hback
      rw [List.cons_append, List.append_assoc, items_comma, bind_of_ok hread, hrest]
      simp

/-- A list that starts with an expression is not empty: no expression starts with its end. -/
theorem list_of_derives {m : Nat} {inner : Nested} (h : Derives Func.accepts .expr m ts e)
    {us : List Token} (hus : us.map (·.kind) = ts) (rest : List Token) :
    (steps stop).list inner (us ++ rest) =
      (inner.expr >>= fun first us => items stop inner us.length [first] us) (us ++ rest) := by
  obtain ⟨⟨k, pos⟩, us, rfl, hk⟩ := exists_first_token h hus
  refine list_of_ne stop inner fun hclose => ?_
  obtain rfl : .closeParen = k := Option.some.inj hclose
  contradiction

/-- A list is read if its items are. -/
theorem list_complete (items : List (List Token.Kind × Expr))
    (hderives : ∀ i ∈ items, Derives Func.accepts .expr n i.1 i.2)
    (hitems : ∀ i ∈ items, Completes stop n .expr i.1 i.2) (us : List Token)
    (hus : us.map (·.kind) = listing (items.map (·.1))) (rest : List Token) :
    (steps stop).list (nested stop n) (us ++ rest) = .ok (items.map (·.2), rest) := by
  cases items with
  | nil =>
      obtain ⟨pos, back, rfl, hnil⟩ := exists_of_map_eq_cons hus
      obtain rfl := List.map_eq_nil_iff.1 hnil
      exact list_closeParen stop _ pos rest
  | cons item more =>
      obtain ⟨hitem, hmore⟩ := List.forall_mem_cons.1 hitems
      obtain ⟨front, back, rfl, hfront, hback⟩ :=
        List.map_eq_append_iff.1 (hus.trans (listing_cons _ _))
      have hlength : more.length ≤ (back ++ rest).length := by
        have hle := length_le_behind (more.map (·.1))
        rw [← hback, List.length_map, List.length_map] at hle
        rw [List.length_append]
        omega
      have hread := hitem.expr_eq_ok hfront (back ++ rest) (admits_behind hback rest)
      rw [List.append_assoc, list_of_derives (hderives item List.mem_cons_self) hfront,
        bind_of_ok hread, items_complete more hmore _ hlength [item.2] back hback]
      rfl

/-! ## First words -/

theorem unary_of_starts {inner : Nested} {t : Token} (h : Phrase.power.Starts t.kind)
    (ts : List Token) :
    (steps stop).unary inner (t :: ts) = (steps stop).power inner (t :: ts) := by
  refine bind_of_ok (eat_of_ne fun hminus => ?_) _
  obtain ⟨k, pos⟩ := t
  obtain rfl : .op .sub = k := Option.some.inj hminus
  simp [Phrase.Starts, Phrase.rank] at h

theorem not_of_starts {inner : Nested} {t : Token} (h : Phrase.comparison.Starts t.kind)
    (ts : List Token) :
    (steps stop).not inner (t :: ts) = (steps stop).comparison inner (t :: ts) := by
  obtain ⟨pos, rest, heq, -⟩ | hnot := not_cases stop inner (t :: ts)
  · cases heq
    simp [Phrase.Starts, Phrase.rank] at h
  · exact hnot

theorem expr_of_starts {inner : Nested} {t : Token} (h : Phrase.or.Starts t.kind)
    (ts : List Token) :
    (steps stop).expr inner (t :: ts) = (steps stop).or inner (t :: ts) := by
  refine bind_of_ok (eat_of_ne fun hif => ?_) _
  obtain ⟨k, pos⟩ := t
  obtain rfl : .kwIf = k := Option.some.inj hif
  simp [Phrase.Starts, Phrase.rank] at h

/-- A `not` in front of what starts a phrase starts a negation. -/
theorem not_kwNot {inner : Nested} {t : Token} (h : p.Starts t.kind) (pos : Nat)
    (ts : List Token) : (steps stop).not inner (⟨.kwNot, pos⟩ :: t :: ts) =
      (do return .not (← inner.not) : Reader Expr) (t :: ts) := by
  rw [not_apply_kwNot, if_neg]
  intro hin
  obtain ⟨k, pos'⟩ := t
  obtain rfl : .kwIn = k := Option.some.inj (Word.fits_eq_true_iff.1 hin)
  contradiction

/-! ## Levels -/

theorem cond_complete {ts us vs : List Token.Kind} {test yes no : Expr}
    (htest : Completes stop n .expr ts test) (hyes : Completes stop n .expr us yes)
    (hno : Completes stop n .expr vs no) :
    Completes stop (n + 1) .expr (.kwIf :: ts ++ .kwThen :: us ++ .kwElse :: vs)
      (.cond test yes no) := by
  refine .of_read (fun _ _ _ => rfl) fun toks htoks rest hadmits => ?_
  obtain ⟨front, pos', back, rfl, hfront, hvs⟩ := exists_of_map_eq_append_cons htoks
  obtain ⟨front, pos, middle, rfl, hfront, hus⟩ := exists_of_map_eq_append_cons hfront
  obtain ⟨start, front, rfl, hts⟩ := exists_of_map_eq_cons hfront
  have hreadTest := htest.expr_eq_ok hts
    (⟨.kwThen, pos⟩ :: (middle ++ ⟨.kwElse, pos'⟩ :: (back ++ rest))) trivial
  have hreadYes := hyes.expr_eq_ok hus (⟨.kwElse, pos'⟩ :: (back ++ rest)) trivial
  have hreadNo := hno.expr_eq_ok hvs rest hadmits
  simp only [List.append_assoc, List.cons_append]
  refine (expr_kwIf stop (nested stop n) start _).trans ?_
  rw [bind_of_ok hreadTest, bind_of_ok (expect_cons rfl), bind_of_ok hreadYes,
    bind_of_ok (expect_cons rfl), bind_of_ok hreadNo]
  rfl

theorem expr_complete (hderives : Derives Func.accepts .or n ts e)
    (h : Completes stop n .or ts e) : Completes stop (n + 1) .expr ts e := by
  refine .of_read (fun _ _ _ => rfl) fun us hus rest hadmits => ?_
  have hread := h.part_eq_ok hus hadmits (by decide)
  obtain ⟨t, us, rfl, ht⟩ := exists_first_token hderives hus
  exact (expr_of_starts ht _).trans hread

theorem not_complete (hderives : Derives Func.accepts .not n ts e)
    (h : Completes stop n .not ts e) : Completes stop (n + 1) .not (.kwNot :: ts) (.not e) := by
  refine .of_read (fun _ _ _ => rfl) fun us hus rest hadmits => ?_
  obtain ⟨pos, us, rfl, hus'⟩ := exists_of_map_eq_cons hus
  have hread := h.read_eq_ok hus' rest hadmits fun _ => rfl
  obtain ⟨t, us, rfl, ht⟩ := exists_first_token hderives hus'
  exact (not_kwNot ht pos (us ++ rest)).trans (bind_of_ok hread _)

theorem not_of_comparison (hderives : Derives Func.accepts .comparison n ts e)
    (h : Completes stop n .comparison ts e) : Completes stop n .not ts e := by
  refine .of_read (fun _ _ _ => rfl) fun us hus rest hadmits => ?_
  have hread := h.part_eq_ok hus hadmits (by decide)
  obtain ⟨t, us, rfl, ht⟩ := exists_first_token hderives hus
  exact (not_of_starts ht _).trans hread

theorem neg_complete (h : Completes stop n .unary ts e) :
    Completes stop (n + 1) .unary (.op .sub :: ts) (.neg e) := by
  refine .of_read (fun _ _ _ => rfl) fun us hus rest hadmits => ?_
  obtain ⟨pos, us, rfl, hus'⟩ := exists_of_map_eq_cons hus
  have hread := h.read_eq_ok hus' rest hadmits fun _ => rfl
  exact (unary_sub stop _ pos (us ++ rest)).trans (bind_of_ok hread _)

theorem unary_of_power (hderives : Derives Func.accepts .power n ts e)
    (h : Completes stop n .power ts e) : Completes stop n .unary ts e := by
  refine .of_read (fun _ _ _ => rfl) fun us hus rest hadmits => ?_
  have hread := h.part_eq_ok hus hadmits (by decide)
  obtain ⟨t, us, rfl, ht⟩ := exists_first_token hderives hus
  exact (unary_of_starts ht _).trans hread

theorem pow_complete (ha : Completes stop (n + 1) .primary ts a)
    (hb : Completes stop n .unary us b) :
    Completes stop (n + 1) .power (ts ++ .op .pow :: us) (.binary .pow a b) := by
  refine .of_read (fun _ _ _ => rfl) fun toks htoks rest hadmits => ?_
  obtain ⟨front, pos, back, rfl, hfront, hus⟩ := exists_of_map_eq_append_cons htoks
  have hbase := ha.read_eq_ok hfront (⟨.op .pow, pos⟩ :: (back ++ rest)) (Nat.le_refl _)
    fun _ => rfl
  have hexponent := hb.read_eq_ok hus rest hadmits.unary fun _ => rfl
  rw [List.append_assoc, List.cons_append]
  refine (bind_of_ok hbase _).trans ?_
  rw [bind_of_ok (eat_cons rfl), if_pos rfl]
  exact bind_of_ok hexponent _

theorem power_of_primary (h : Completes stop n .primary ts e) : Completes stop n .power ts e := by
  refine .of_read (fun _ _ _ => rfl) fun us hus rest hadmits => ?_
  have hread := h.part_eq_ok hus hadmits (by decide)
  refine (bind_of_ok hread _).trans ?_
  rw [bind_of_ok (eat_of_ne fun hcaret => ?_)]
  · rfl
  · obtain ⟨⟨k, pos⟩, rest, rfl, rfl⟩ : ∃ t rest', rest = t :: rest' ∧ .op .pow = t.kind := by
      cases rest with
      | nil => contradiction
      | cons t rest => exact ⟨t, rest, rfl, Option.some.inj hcaret⟩
    simp [Phrase.Admits, Operator.left, Phrase.rank] at hadmits

/-- A word that is a phrase of its own. -/
theorem word_complete {k : Token.Kind} (h : ∀ pos rest, Phrase.primary.Admits rest →
      (steps stop).primary (nested stop n) (⟨k, pos⟩ :: rest) = .ok (e, rest)) :
    Completes stop n .primary [k] e := by
  refine .of_read (fun _ _ _ => rfl) fun us hus rest hadmits => ?_
  obtain ⟨pos, us, rfl, hnil⟩ := exists_of_map_eq_cons hus
  obtain rfl := List.map_eq_nil_iff.1 hnil
  exact h pos rest hadmits

/-- A name is a variable if it is not the name of a call. -/
theorem var_complete (s : String) : Completes stop n .primary [.name s] (.var s) := by
  refine word_complete fun pos rest hadmits => ?_
  rw [primary_name, bind_of_ok (eat_of_ne fun hopen => ?_)]
  · rfl
  · cases rest with
    | nil => contradiction
    | cons t rest =>
        obtain ⟨k, pos'⟩ := t
        obtain rfl : .openParen = k := Option.some.inj hopen
        contradiction

theorem paren_complete (h : Completes stop n .expr ts e) :
    Completes stop n .primary (.openParen :: ts ++ [.closeParen]) e := by
  refine .of_read (fun _ _ _ => rfl) fun us hus rest hadmits => ?_
  obtain ⟨front, pos', back, rfl, hfront, hnil⟩ := exists_of_map_eq_append_cons hus
  obtain ⟨pos, front, rfl, hts⟩ := exists_of_map_eq_cons hfront
  obtain rfl := List.map_eq_nil_iff.1 hnil
  have hread := h.expr_eq_ok hts (⟨.closeParen, pos'⟩ :: rest) trivial
  simp only [List.append_assoc, List.cons_append, List.nil_append]
  refine (primary_openParen stop _ pos _).trans ?_
  rw [bind_of_ok hread, bind_of_ok (expect_cons rfl)]
  rfl

theorem call_complete {s : String} {f : Func} (args : List (List Token.Kind × Expr))
    (hname : Func.ofName? s = some f) (hcount : f.accepts args.length = true)
    (hderives : ∀ a ∈ args, Derives Func.accepts .expr n a.1 a.2)
    (hargs : ∀ a ∈ args, Completes stop n .expr a.1 a.2) :
    Completes stop n .primary (.name s :: .openParen :: listing (args.map (·.1)))
      (.call f (args.map (·.2))) := by
  refine .of_read (fun _ _ _ => rfl) fun us hus rest hadmits => ?_
  obtain ⟨pos, us, rfl, hopen⟩ := exists_of_map_eq_cons hus
  obtain ⟨pos', us, rfl, hlisting⟩ := exists_of_map_eq_cons hopen
  have hlist := list_complete args hderives hargs us hlisting rest
  simp only [List.cons_append]
  refine (primary_name stop _ s pos _).trans ((bind_of_ok (eat_cons rfl) _).trans ?_)
  rw [if_pos rfl, call_of_name hname, bind_of_ok hlist, List.length_map, if_pos hcount]
  rfl

theorem test?_of_phrase {op : Operator} (h : op.phrase = .comparison)
    (second : Option Token.Kind) : Steps.test? (.op op) second = some (.relation op) := by
  cases op <;> first | rfl | cases h

theorem relation_complete {op : Operator} (hop : op.phrase = .comparison)
    (ha : Completes stop n .comparison ts a) (hb : Completes stop n .additive us b) :
    Completes stop n .comparison (ts ++ .op op :: us) (.binary op a b) := by
  intro toks htoks rest hadmits
  obtain ⟨front, pos, back, rfl, hfront, hus⟩ := exists_of_map_eq_append_cons htoks
  have hleft := Phrase.admits_op hop (by decide) pos (back ++ rest)
  obtain ⟨bound, hbound, hread⟩ := ha front hfront _ hleft
  have hright := hb.part_eq_ok hus hadmits (by decide)
  cases bound with
  | zero => simp at hbound
  | succ bound =>
      refine ⟨bound, ?_, ?_⟩
      · simp only [List.length_cons, List.length_append] at hbound
        omega
      · rw [List.append_assoc, List.cons_append, hread]
        refine (chain_of_some (test?_of_phrase hop _) bound a).trans ?_
        rw [bind_of_ok (bind_of_ok hright _)]
        rfl

/-- Behind a comparison the words of a membership test start one. -/
theorem tests_of_words (stop : Nat) (inner : Nested) {negated : Bool} {words : List Token}
    (h : words.map (·.kind) = membershipWords negated) (ts : List Token) :
    0 < words.length ∧ Phrase.comparison.Admits (words ++ ts) ∧
      ∀ bound left, chain Steps.test? ((steps stop).test inner) (bound + 1) left (words ++ ts) =
        ((steps stop).membership inner left negated >>=
          chain Steps.test? ((steps stop).test inner) bound) ts := by
  cases negated with
  | false =>
      obtain ⟨pos, words, rfl, hnil⟩ := exists_of_map_eq_cons h
      obtain rfl := List.map_eq_nil_iff.1 hnil
      exact ⟨Nat.one_pos, Nat.le_refl _, fun _ _ => rfl⟩
  | true =>
      obtain ⟨pos, words, rfl, hin⟩ := exists_of_map_eq_cons h
      obtain ⟨pos', words, rfl, hnil⟩ := exists_of_map_eq_cons hin
      obtain rfl := List.map_eq_nil_iff.1 hnil
      exact ⟨Nat.two_pos, Nat.le_refl _, fun _ _ => rfl⟩

theorem member_complete (negated : Bool) (items : List (List Token.Kind × Expr))
    (ha : Completes stop n .comparison ts a)
    (hderives : ∀ i ∈ items, Derives Func.accepts .expr n i.1 i.2)
    (hitems : ∀ i ∈ items, Completes stop n .expr i.1 i.2) :
    Completes stop n .comparison
      (ts ++ membershipWords negated ++ .openParen :: listing (items.map (·.1)))
      (.member a (items.map (·.2)) negated) := by
  intro toks htoks rest hadmits
  obtain ⟨front, pos, back, rfl, hfront, hlisting⟩ := exists_of_map_eq_append_cons htoks
  obtain ⟨front, words, rfl, hts, hwords⟩ := List.map_eq_append_iff.1 hfront
  have hlist := list_complete items hderives hitems back hlisting rest
  obtain ⟨hpos, hleft, htests⟩ :=
    tests_of_words stop (nested stop n) hwords (⟨.openParen, pos⟩ :: back ++ rest)
  obtain ⟨bound, hbound, hread⟩ := ha front hts _ hleft
  cases bound with
  | zero =>
      simp only [List.length_append] at hbound
      omega
  | succ bound =>
      refine ⟨bound, ?_, ?_⟩
      · simp only [List.length_append, List.length_cons] at hbound
        omega
      · rw [List.append_assoc, List.append_assoc, hread]
        refine (htests bound a).trans ?_
        have hread : (steps stop).membership (nested stop n) a negated
            (⟨.openParen, pos⟩ :: (back ++ rest)) =
              .ok (.member a (items.map (·.2)) negated, rest) :=
          (bind_of_ok (expect_cons rfl) _).trans (bind_of_ok hlist _)
        exact bind_of_ok hread _

theorem comparison_of_additive (h : Completes stop n .additive ts e) :
    Completes stop n .comparison ts e := by
  intro us hus rest hadmits
  refine ⟨rest.length, Nat.le_refl _, ?_⟩
  exact bind_of_ok (h.part_eq_ok hus hadmits (by decide)) _

theorem sum?_of_phrase {op : Operator} (h : op.phrase = .additive) :
    Steps.sum? (.op op) = some (.binary op) := by
  cases op <;> first | rfl | cases h

theorem product?_of_phrase {op : Operator} (h : op.phrase = .multiplicative) :
    Steps.product? (.op op) = some (.binary op) := by
  cases op <;> first | rfl | cases h

/-- **Completeness**: whatever is derived is read. -/
theorem completes_of_derives (stop : Nat) (h : Derives Func.accepts p n ts e) :
    Completes stop n p ts e := by
  induction h with
  | cond _ _ _ htest hyes hno => exact cond_complete htest hyes hno
  | ofOr h ih => exact expr_complete h ih
  | or _ _ ha hb => exact level_join (by decide) rfl rfl (fun _ _ => Nat.le_refl _) ha hb
  | ofAnd _ ih => exact level_of_operand (by decide) rfl rfl ih
  | and _ _ ha hb => exact level_join (by decide) rfl rfl (fun _ _ => Nat.le_refl _) ha hb
  | ofNot _ ih => exact level_of_operand (by decide) rfl rfl ih
  | not h ih => exact not_complete h ih
  | ofComparison h ih => exact not_of_comparison h ih
  | relation op hop _ _ ha hb => exact relation_complete hop ha hb
  | member negated items _ h ha hitems => exact member_complete negated items ha h hitems
  | ofAdditive _ ih => exact comparison_of_additive ih
  | sum op hop _ _ ha hb =>
      exact level_join (by decide) rfl (sum?_of_phrase hop) (Phrase.admits_op hop (by decide)) ha hb
  | ofMultiplicative _ ih => exact level_of_operand (by decide) rfl rfl ih
  | product op hop _ _ ha hb =>
      exact level_join (by decide) rfl (product?_of_phrase hop) (Phrase.admits_op hop (by decide))
        ha hb
  | ofUnary _ ih => exact level_of_operand (by decide) rfl rfl ih
  | neg _ ih => exact neg_complete ih
  | ofPower h ih => exact unary_of_power h ih
  | pow _ _ ha hb => exact pow_complete ha hb
  | ofPrimary _ ih => exact power_of_primary ih
  | number x => exact word_complete fun _ _ _ => rfl
  | boolean b => exact word_complete fun _ _ _ => rfl
  | var s => exact var_complete s
  | call args hname hcount h hargs => exact call_complete args hname hcount h hargs
  | paren _ ih => exact paren_complete ih

/-- At the end of the tokens nothing is left to do. -/
theorem resume_nil (bound : Nat) (e : Expr) : resume stop n p bound e [] = .ok (e, []) := by
  have hadmits : Phrase.expr.Admits [] := trivial
  cases p with
  | expr => rfl
  | _ => exact resume_eq_ok hadmits (by decide) bound e

end Parser

/-! ## Texts -/

/-- **The grammar is unambiguous**: words that are a phrase stand for one tree, however
deeply they may be nested. -/
theorem Derives.unique {p : Phrase} {n m : Nat} {ts : List Token.Kind} {e e' : Expr}
    (h : Derives Func.accepts p n ts e) (h' : Derives Func.accepts p m ts e') : e = e' := by
  -- Where tokens stand does not matter for what they are read as.
  let us : List Token := ts.map fun k => ⟨k, 0⟩
  have hus : us.map (·.kind) = ts := by simp [us, Function.comp_def]
  have hadmits : p.Admits [] := trivial
  have hread := (Parser.completes_of_derives 0 (h.mono (Nat.le_max_left n m))).read_eq_ok hus []
    hadmits fun bound => Parser.resume_nil bound e
  have hread' := (Parser.completes_of_derives 0 (h'.mono (Nat.le_max_right n m))).read_eq_ok hus []
    hadmits fun bound => Parser.resume_nil bound e'
  exact (Parser.of_ok_eq_ok (hread.symm.trans hread')).1

/-- Tokens are read as a tree exactly if their kinds are derived as the tree. -/
theorem parseTokens_eq_ok_iff {stop : Nat} {ts : List Token} {e : Expr} :
    parseTokens stop ts = .ok e ↔
      Derives Func.accepts .expr maxNesting (ts.map (·.kind)) e := by
  constructor
  · intro h
    cases hread : (Parser.nested stop maxNesting).expr ts with
    | error err =>
        rw [Parser.parseTokens_of_error hread] at h
        contradiction
    | ok r =>
        obtain ⟨e', rest⟩ := r
        rw [Parser.parseTokens_of_ok hread] at h
        obtain ⟨front, rfl, he⟩ := (Parser.nested_sound stop maxNesting).expr _ _ _ hread
        cases rest with
        | nil =>
            obtain rfl : e' = e := Except.ok.inj h
            rwa [List.append_nil]
        | cons t rest => contradiction
  · intro h
    have hread := (Parser.completes_of_derives stop h).expr_eq_ok rfl [] trivial
    rw [List.append_nil] at hread
    rw [Parser.parseTokens_of_ok hread]

/-- The text is short enough, it splits into tokens, and the grammar derives these as the
tree. -/
def Conforms (source : String) (e : Expr) : Prop :=
  source.utf8ByteSize ≤ maxLength ∧ ∃ ts, tokenize source.toList = .ok ts ∧
    Derives Func.accepts .expr maxNesting (ts.map (·.kind)) e

/-- **The grammar is what is read.**  A text is read as a tree exactly if it conforms to
the grammar as that tree, and it conforms as at most one. -/
theorem parse_eq_ok_iff_conforms (source : String) :
    (∀ e, parse source = .ok e ↔ Conforms source e) ∧
      ∀ e e', Conforms source e → Conforms source e' → e = e' := by
  refine ⟨fun e => ?_, fun e e' ⟨_, ts, hts, he⟩ ⟨_, ts', hts', he'⟩ => ?_⟩
  · unfold parse Conforms
    split
    · next hlong => simp [Nat.not_le.2 hlong]
    · next hshort =>
      rw [Except.bind_eq_ok_iff]
      simp only [parseTokens_eq_ok_iff, Nat.not_lt.1 hshort, true_and]
  · obtain rfl : ts = ts' := Except.ok.inj (hts.symm.trans hts')
    exact he.unique he'

/-- A minus binds looser than a power and tighter than a difference, and that tighter than
a membership test. -/
theorem parse_eq_ok_iff_conforms_minus :
    let tree : Expr := .member
      (.binary .sub (.binary .sub (.neg (.binary .pow (.var "a") (.var "b"))) (.var "c"))
        (.var "d")) [] true
    Conforms "-a ^ b - c - d not in ()" tree ∧
      ∀ e, Conforms "-a ^ b - c - d not in ()" e → e = tree := by
  intro tree
  have hparse : parse "-a ^ b - c - d not in ()" = .ok tree := by rfl
  obtain ⟨hiff, hunique⟩ := parse_eq_ok_iff_conforms "-a ^ b - c - d not in ()"
  have hconforms := (hiff tree).1 hparse
  exact ⟨hconforms, fun e he => hunique e tree he hconforms⟩

end Grimace
