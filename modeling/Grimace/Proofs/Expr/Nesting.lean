import Grimace.Proofs.Expr.Grammar

/-!
# Grimace.Proofs.Expr.Nesting

How deep each word of an expression stands.

`Derives` bounds the nesting of a phrase by a number.  `Nests` is the same grammar without a
bound, where every word carries the number of parentheses, argument lists, lists of a membership
test, parts of an `if`, operands of `not`, operands of a minus sign and exponents that it stands
in.  An expression as a whole counts as a level of its own for `Derives` and as none here, so a
bound of `n` levels there leaves room for words that stand in `n - 1`.

* `Nests.derives` — words that nest are derived with `n` levels if there is room for all of them
  (`Fits`);
* `Derives.exists_nests` — whatever is derived nests, with room for all of its words.
-/

namespace Grimace

/-! ## Words with their levels -/

/-- The words one level further in. -/
def deeper (ws : List (Token.Kind × Nat)) : List (Token.Kind × Nat) :=
  ws.map fun w => (w.1, w.2 + 1)

/-- The words of a list behind its opening parenthesis, from those of its items. -/
def nestedListing : List (List (Token.Kind × Nat)) → List (Token.Kind × Nat)
  | [] => [(.closeParen, 0)]
  | [ws] => deeper ws ++ [(.closeParen, 0)]
  | ws :: us :: more => deeper ws ++ (.comma, 0) :: nestedListing (us :: more)

/-- The words stand for a tree as a phrase, each at its level. -/
inductive Nests (takes : Func → Nat → Bool) :
    Phrase → List (Token.Kind × Nat) → Expr → Prop where
  | cond {ts us vs : List (Token.Kind × Nat)} {test yes no : Expr} :
    Nests takes .expr ts test → Nests takes .expr us yes → Nests takes .expr vs no →
      Nests takes .expr
        ((.kwIf, 0) :: deeper ts ++ (.kwThen, 0) :: deeper us ++ (.kwElse, 0) :: deeper vs)
        (.cond test yes no)
  /-- A phrase is one of the next looser kind. -/
  | loosen {p q : Phrase} {ws : List (Token.Kind × Nat)} {e : Expr} (h : q.rank + 1 = p.rank) :
    Nests takes q ws e → Nests takes p ws e
  | or {ts us : List (Token.Kind × Nat)} {a b : Expr} :
    Nests takes .or ts a → Nests takes .and us b →
      Nests takes .or (ts ++ (.kwOr, 0) :: us) (.or a b)
  | and {ts us : List (Token.Kind × Nat)} {a b : Expr} :
    Nests takes .and ts a → Nests takes .not us b →
      Nests takes .and (ts ++ (.kwAnd, 0) :: us) (.and a b)
  | not {ws : List (Token.Kind × Nat)} {e : Expr} :
    Nests takes .not ws e → Nests takes .not ((.kwNot, 0) :: deeper ws) (.not e)
  /-- Any operator but the power, whose right operand is of the next tighter kind. -/
  | binary {p q : Phrase} {ts us : List (Token.Kind × Nat)} {a b : Expr} (op : Operator)
      (hop : op.phrase = p) (hp : p ≠ .power) (hq : q.rank + 1 = p.rank) :
    Nests takes p ts a → Nests takes q us b →
      Nests takes p (ts ++ (.op op, 0) :: us) (.binary op a b)
  | member {ts : List (Token.Kind × Nat)} {a : Expr} (negated : Bool)
      (items : List (List (Token.Kind × Nat) × Expr)) :
    Nests takes .comparison ts a → (∀ i ∈ items, Nests takes .expr i.1 i.2) →
      Nests takes .comparison
        (ts ++ (membershipWords negated).map (·, 0) ++
          (.openParen, 0) :: nestedListing (items.map (·.1)))
        (.member a (items.map (·.2)) negated)
  | neg {ws : List (Token.Kind × Nat)} {e : Expr} :
    Nests takes .unary ws e → Nests takes .unary ((.op .sub, 0) :: deeper ws) (.neg e)
  | pow {ts us : List (Token.Kind × Nat)} {a b : Expr} :
    Nests takes .primary ts a → Nests takes .unary us b →
      Nests takes .power (ts ++ (.op .pow, 0) :: deeper us) (.binary .pow a b)
  | number (x : Float) : Nests takes .primary [(.number x, 0)] (.number x)
  | boolean (b : Bool) : Nests takes .primary [(.boolean b, 0)] (.boolean b)
  | var (s : String) : Nests takes .primary [(.name s, 0)] (.var s)
  | call {s : String} {f : Func} (args : List (List (Token.Kind × Nat) × Expr))
      (hname : Func.ofName? s = some f) (hcount : takes f args.length = true) :
    (∀ a ∈ args, Nests takes .expr a.1 a.2) →
      Nests takes .primary ((.name s, 0) :: (.openParen, 0) :: nestedListing (args.map (·.1)))
        (.call f (args.map (·.2)))
  | paren {ws : List (Token.Kind × Nat)} {e : Expr} :
    Nests takes .expr ws e →
      Nests takes .primary ((.openParen, 0) :: deeper ws ++ [(.closeParen, 0)]) e

/-- How many levels a phrase takes for itself. -/
def Phrase.entry : Phrase → Nat
  | .expr => 1
  | _ => 0

@[simp] theorem Phrase.entry_expr : Phrase.expr.entry = 1 := rfl

/-- There is room for all the words where `n` more levels are allowed. -/
def Fits (n : Nat) (p : Phrase) (ws : List (Token.Kind × Nat)) : Prop :=
  ∀ w ∈ ws, w.2 + p.entry ≤ n

instance (n : Nat) (p : Phrase) (ws : List (Token.Kind × Nat)) : Decidable (Fits n p ws) :=
  inferInstanceAs (Decidable (∀ w ∈ ws, w.2 + p.entry ≤ n))

section

variable {ts us vs ws : List (Token.Kind × Nat)} {n m : Nat} {p q : Phrase} {k : Token.Kind}

theorem words_deeper (ws : List (Token.Kind × Nat)) :
    (deeper ws).map Prod.fst = ws.map Prod.fst := by
  simp [deeper, Function.comp_def]

theorem words_nestedListing (pieces : List (List (Token.Kind × Nat))) :
    (nestedListing pieces).map Prod.fst = listing (pieces.map (·.map Prod.fst)) := by
  induction pieces with
  | nil => rfl
  | cons ws more ih =>
      cases more with
      | nil => simp [nestedListing, listing, words_deeper]
      | cons us more =>
          simp only [nestedListing, List.map_append, List.map_cons, words_deeper, ih]
          rfl

theorem words_member (negated : Bool) (pieces : List (List (Token.Kind × Nat))) :
    (ts ++ (membershipWords negated).map (·, 0) ++
        (Token.Kind.openParen, 0) :: nestedListing pieces).map Prod.fst =
      ts.map Prod.fst ++ membershipWords negated ++
        .openParen :: listing (pieces.map (·.map Prod.fst)) := by
  simp [words_nestedListing, Function.comp_def]

/-! ## Room for a phrase -/

theorem fits_append : Fits n p (ws ++ us) ↔ Fits n p ws ∧ Fits n p us :=
  List.forall_mem_append

theorem fits_cons {w : Token.Kind × Nat} :
    Fits n p (w :: us) ↔ w.2 + p.entry ≤ n ∧ Fits n p us :=
  List.forall_mem_cons

theorem fits_deeper (h : ∀ l, l + 1 + p.entry ≤ n ↔ l + q.entry ≤ m) :
    Fits n p (deeper ws) ↔ Fits m q ws := by
  unfold Fits deeper
  rw [List.forall_mem_map]
  exact forall₂_congr fun w _ => h w.2

theorem fits_congr (h : p.entry = q.entry) : Fits n p ws ↔ Fits n q ws := by
  unfold Fits
  rw [h]

/-- A looser phrase takes its own level, and has no other words. -/
theorem fits_loosen (h : q.entry = 0) (hne : ws ≠ []) :
    Fits n p ws ↔ ∃ m, n = m + p.entry ∧ Fits m q ws := by
  constructor
  · intro hfits
    obtain ⟨w, hw⟩ := List.exists_mem_of_ne_nil ws hne
    have hroom := hfits w hw
    refine ⟨n - p.entry, by omega, fun u hu => ?_⟩
    have hroom' := hfits u hu
    omega
  · rintro ⟨m, rfl, hfits⟩ w hw
    have hroom := hfits w hw
    omega

/-- Two phrases joined by a word. -/
theorem fits_join (hp : p.entry = 0) (hq : q.entry = 0) :
    Fits n p (ts ++ (k, 0) :: us) ↔ Fits n p ts ∧ Fits n q us := by
  have hright : Fits n p us ↔ Fits n q us := fits_congr (hp.trans hq.symm)
  rw [fits_append, fits_cons, hright]
  simp [hp]

/-- A word with an operand one level further in. -/
theorem fits_further (hp : p.entry = 0) (hne : ws ≠ []) :
    Fits n p ((k, 0) :: deeper ws) ↔ ∃ m, n = m + 1 ∧ Fits m p ws := by
  rw [fits_cons]
  constructor
  · rintro ⟨-, hfits⟩
    cases ws with
    | nil => contradiction
    | cons w ws =>
        have hroom := hfits (w.1, w.2 + 1) List.mem_cons_self
        obtain ⟨m, rfl⟩ : ∃ m, n = m + 1 := ⟨n - 1, by omega⟩
        exact ⟨m, rfl, (fits_deeper fun l => by omega).1 hfits⟩
  · rintro ⟨m, rfl, hfits⟩
    exact ⟨by simp [hp], (fits_deeper fun l => by omega).2 hfits⟩

theorem fits_cond :
    Fits n .expr
        ((.kwIf, 0) :: deeper ts ++ (.kwThen, 0) :: deeper us ++ (.kwElse, 0) :: deeper vs) ↔
      ∃ m, n = m + 1 ∧ Fits m .expr ts ∧ Fits m .expr us ∧ Fits m .expr vs := by
  have hdeeper {m : Nat} {ws : List (Token.Kind × Nat)} :
      Fits (m + 1) .expr (deeper ws) ↔ Fits m .expr ws := fits_deeper fun l => by simp
  constructor
  · intro hfits
    obtain ⟨m, rfl⟩ : ∃ m, n = m + 1 := by
      have hroom := hfits (.kwIf, 0) (by simp)
      exact ⟨n - 1, by simp at hroom; omega⟩
    simp only [fits_append, fits_cons, hdeeper, List.cons_append] at hfits
    exact ⟨m, rfl, hfits.2.1.1, hfits.2.1.2.2, hfits.2.2.2⟩
  · rintro ⟨m, rfl, htest, hyes, hno⟩
    simp [fits_append, fits_cons, hdeeper, htest, hyes, hno]

/-- The items of a list are one level further in, which is the level that an expression takes. -/
theorem fits_nestedListing {pieces : List (List (Token.Kind × Nat))} (hp : p.entry = 0) :
    Fits n p (nestedListing pieces) ↔ ∀ ws ∈ pieces, Fits n .expr ws := by
  have hdeeper (ws : List (Token.Kind × Nat)) : Fits n p (deeper ws) ↔ Fits n .expr ws :=
    fits_deeper fun l => by rw [hp, Phrase.entry_expr]
  have hnil : Fits n p [] := List.forall_mem_nil _
  induction pieces with
  | nil => simp [nestedListing, fits_cons, hnil, hp]
  | cons ws more ih =>
      cases more with
      | nil => simp [nestedListing, fits_append, fits_cons, hdeeper, hnil, hp]
      | cons us more =>
          simp only [nestedListing, fits_append, fits_cons, hdeeper, ih, hp, Nat.add_zero,
            Nat.zero_le, true_and, List.forall_mem_cons]

theorem fits_member {negated : Bool} {pieces : List (List (Token.Kind × Nat))} :
    Fits n .comparison
        (ts ++ (membershipWords negated).map (·, 0) ++ (.openParen, 0) :: nestedListing pieces) ↔
      Fits n .comparison ts ∧ ∀ ws ∈ pieces, Fits n .expr ws := by
  have hwords : Fits n .comparison ((membershipWords negated).map (·, 0)) := by
    simp [Fits, Phrase.entry]
  rw [fits_append, fits_append, fits_cons, fits_nestedListing rfl]
  simp [hwords, Phrase.entry]

theorem fits_call {s : String} {pieces : List (List (Token.Kind × Nat))} :
    Fits n .primary ((.name s, 0) :: (.openParen, 0) :: nestedListing pieces) ↔
      ∀ ws ∈ pieces, Fits n .expr ws := by
  rw [fits_cons, fits_cons, fits_nestedListing rfl]
  simp [Phrase.entry]

theorem fits_paren :
    Fits n .primary ((.openParen, 0) :: deeper ws ++ [(.closeParen, 0)]) ↔ Fits n .expr ws := by
  have hdeeper : Fits n .primary (deeper ws) ↔ Fits n .expr ws := fits_deeper fun l => Iff.rfl
  have hclose : Fits n .primary [(.closeParen, 0)] := by simp [Fits, Phrase.entry]
  rw [fits_append, fits_cons, hdeeper]
  simp [hclose, Phrase.entry]

end

theorem Phrase.eq_of_rank_eq {p q : Phrase} (h : p.rank = q.rank) : p = q := by
  cases p <;> cases q <;> first | rfl | exact absurd h (by decide)

/-- Only an expression takes a level for itself. -/
theorem Phrase.entry_of_rank {p q : Phrase} (h : q.rank + 1 = p.rank) : q.entry = 0 := by
  cases q with
  | expr => cases p <;> simp [rank] at h
  | _ => rfl

theorem Operator.entry_phrase (op : Operator) : op.phrase.entry = 0 := by cases op <;> rfl

/-! ## Nesting and derivations -/

section

variable {takes : Func → Nat → Bool} {p : Phrase} {n : Nat} {ws : List (Token.Kind × Nat)}
  {ts : List Token.Kind} {e : Expr}

theorem Nests.ne_nil (h : Nests takes p ws e) : ws ≠ [] := by
  induction h with
  | loosen _ _ ih => exact ih
  | _ => simp

/-- A phrase is one of every looser kind. -/
theorem Nests.widen {q : Phrase} (h : Nests takes q ws e) (hle : q.rank ≤ p.rank) :
    Nests takes p ws e := by
  obtain ⟨steps, hsteps⟩ := Nat.exists_eq_add_of_le hle
  induction steps generalizing p with
  | zero => exact Phrase.eq_of_rank_eq hsteps ▸ h
  | succ steps ih =>
      obtain ⟨r, hr⟩ : ∃ r : Phrase, r.rank + 1 = p.rank := by
        cases p with
        | primary => simp [Phrase.rank] at hsteps
        | power => exact ⟨.primary, rfl⟩
        | unary => exact ⟨.power, rfl⟩
        | multiplicative => exact ⟨.unary, rfl⟩
        | additive => exact ⟨.multiplicative, rfl⟩
        | comparison => exact ⟨.additive, rfl⟩
        | not => exact ⟨.comparison, rfl⟩
        | and => exact ⟨.not, rfl⟩
        | or => exact ⟨.and, rfl⟩
        | expr => exact ⟨.or, rfl⟩
      exact .loosen hr (ih (by omega) (by omega))

/-- A phrase is derived as the next looser kind with the levels that this takes. -/
theorem Derives.loosen {q : Phrase} (h : q.rank + 1 = p.rank) (hderives : Derives takes q n ts e) :
    Derives takes p (n + p.entry) ts e := by
  cases q <;> cases p <;> simp [Phrase.rank] at h
  · exact .ofOr hderives
  · exact .ofAnd hderives
  · exact .ofNot hderives
  · exact .ofComparison hderives
  · exact .ofAdditive hderives
  · exact .ofMultiplicative hderives
  · exact .ofUnary hderives
  · exact .ofPower hderives
  · exact .ofPrimary hderives

/-- An operator but the power joins its operands. -/
theorem Derives.binary {q : Phrase} {us : List Token.Kind} {a b : Expr} (op : Operator)
    (hop : op.phrase = p) (hp : p ≠ .power) (hq : q.rank + 1 = p.rank)
    (ha : Derives takes p n ts a) (hb : Derives takes q n us b) :
    Derives takes p n (ts ++ .op op :: us) (.binary op a b) := by
  cases p with
  | comparison =>
      obtain rfl : q = .additive := Phrase.eq_of_rank_eq (Nat.succ.inj hq)
      exact .relation op hop ha hb
  | additive =>
      obtain rfl : q = .multiplicative := Phrase.eq_of_rank_eq (Nat.succ.inj hq)
      exact .sum op hop ha hb
  | multiplicative =>
      obtain rfl : q = .unary := Phrase.eq_of_rank_eq (Nat.succ.inj hq)
      exact .product op hop ha hb
  | power => contradiction
  | _ => exact absurd hop (by cases op <;> decide)

/-- Words that nest, with room for all of them, are derived. -/
theorem Nests.derives (h : Nests takes p ws e) (hfits : Fits n p ws) :
    Derives takes p n (ws.map Prod.fst) e := by
  induction h generalizing n with
  | cond _ _ _ ihtest ihyes ihno =>
      obtain ⟨m, rfl, htest, hyes, hno⟩ := fits_cond.1 hfits
      simp only [List.map_append, List.map_cons, words_deeper]
      exact .cond (ihtest htest) (ihyes hyes) (ihno hno)
  | loosen hrank hws ih =>
      obtain ⟨m, rfl, hpart⟩ := (fits_loosen (Phrase.entry_of_rank hrank) hws.ne_nil).1 hfits
      exact (ih hpart).loosen hrank
  | or _ _ iha ihb =>
      obtain ⟨ha, hb⟩ := (fits_join (q := .and) rfl rfl).1 hfits
      rw [List.map_append, List.map_cons]
      exact .or (iha ha) (ihb hb)
  | and _ _ iha ihb =>
      obtain ⟨ha, hb⟩ := (fits_join (q := .not) rfl rfl).1 hfits
      rw [List.map_append, List.map_cons]
      exact .and (iha ha) (ihb hb)
  | not hws ih =>
      obtain ⟨m, rfl, hoperand⟩ := (fits_further rfl hws.ne_nil).1 hfits
      rw [List.map_cons, words_deeper]
      exact .not (ih hoperand)
  | binary op hop hp hq _ _ iha ihb =>
      obtain ⟨ha, hb⟩ := (fits_join (hop ▸ op.entry_phrase) (Phrase.entry_of_rank hq)).1 hfits
      rw [List.map_append, List.map_cons]
      exact .binary op hop hp hq (iha ha) (ihb hb)
  | member negated items _ _ iha ihitems =>
      obtain ⟨ha, hitems⟩ := fits_member.1 hfits
      have hmember := Derives.member negated (items.map fun i => (i.1.map Prod.fst, i.2)) (iha ha)
        (List.forall_mem_map.2 fun i hi => ihitems i hi (hitems i.1 (List.mem_map_of_mem hi)))
      simpa [words_nestedListing, Function.comp_def] using hmember
  | neg hws ih =>
      obtain ⟨m, rfl, hoperand⟩ := (fits_further rfl hws.ne_nil).1 hfits
      rw [List.map_cons, words_deeper]
      exact .neg (ih hoperand)
  | pow _ hus iha ihb =>
      obtain ⟨ha, hexponent⟩ := fits_append.1 hfits
      obtain ⟨m, rfl, hb⟩ := (fits_further rfl hus.ne_nil).1 hexponent
      rw [List.map_append, List.map_cons, words_deeper]
      exact .pow (iha ha) (ihb hb)
  | number x => exact .number x
  | boolean b => exact .boolean b
  | var s => exact .var s
  | call args hname hcount _ ih =>
      have hargs := fits_call.1 hfits
      have hcall := Derives.call (args.map fun a => (a.1.map Prod.fst, a.2)) hname
        (by rwa [List.length_map])
        (List.forall_mem_map.2 fun a ha => ih a ha (hargs a.1 (List.mem_map_of_mem ha)))
      simpa [words_nestedListing, Function.comp_def] using hcall
  | paren _ ih =>
      rw [List.map_append, List.map_cons, words_deeper]
      exact .paren (ih (fits_paren.1 hfits))

/-- There is a bound that leaves room for all the words. -/
theorem exists_fits (p : Phrase) (ws : List (Token.Kind × Nat)) : ∃ n, Fits n p ws := by
  induction ws with
  | nil => exact ⟨0, List.forall_mem_nil _⟩
  | cons w ws ih =>
      obtain ⟨n, hn⟩ := ih
      refine ⟨n + w.2 + p.entry, fits_cons.2 ⟨by omega, fun u hu => ?_⟩⟩
      have hroom := hn u hu
      omega

/-- Words that nest are derived with as many levels as it takes. -/
theorem Nests.exists_derives (h : Nests takes p ws e) :
    ∃ n, Derives takes p n (ws.map Prod.fst) e := by
  obtain ⟨n, hfits⟩ := exists_fits p ws
  exact ⟨n, h.derives hfits⟩

/-- Items that nest one by one are items that nest. -/
theorem exists_nested_items {items : List (List Token.Kind × Expr)}
    (h : ∀ i ∈ items, ∃ ws, ws.map Prod.fst = i.1 ∧ Nests takes .expr ws i.2 ∧
      Fits n .expr ws) :
    ∃ nested : List (List (Token.Kind × Nat) × Expr),
      nested.map (fun i => (i.1.map Prod.fst, i.2)) = items ∧
        ∀ i ∈ nested, Nests takes .expr i.1 i.2 ∧ Fits n .expr i.1 := by
  induction items with
  | nil => exact ⟨[], rfl, List.forall_mem_nil _⟩
  | cons item more ih =>
      obtain ⟨⟨ws, hws, hitem⟩, hmore⟩ := List.forall_mem_cons.1 h
      obtain ⟨nested, rfl, hnested⟩ := ih hmore
      refine ⟨(ws, item.2) :: nested, ?_, List.forall_mem_cons.2 ⟨hitem, hnested⟩⟩
      rw [List.map_cons, hws]

/-- **Whatever is derived nests**, with room for all of its words. -/
theorem Derives.exists_nests (h : Derives takes p n ts e) :
    ∃ ws, ws.map Prod.fst = ts ∧ Nests takes p ws e ∧ Fits n p ws := by
  induction h with
  | cond _ _ _ ihtest ihyes ihno =>
      obtain ⟨ts, rfl, htest, hfitsTest⟩ := ihtest
      obtain ⟨us, rfl, hyes, hfitsYes⟩ := ihyes
      obtain ⟨vs, rfl, hno, hfitsNo⟩ := ihno
      refine ⟨_, ?_, .cond htest hyes hno, fits_cond.2 ⟨_, rfl, hfitsTest, hfitsYes, hfitsNo⟩⟩
      simp only [List.map_append, List.map_cons, words_deeper]
  | ofOr _ ih | ofAnd _ ih | ofNot _ ih | ofComparison _ ih | ofAdditive _ ih
  | ofMultiplicative _ ih | ofUnary _ ih | ofPower _ ih | ofPrimary _ ih =>
      obtain ⟨ws, rfl, hws, hfits⟩ := ih
      exact ⟨ws, rfl, .loosen rfl hws, (fits_loosen rfl hws.ne_nil).2 ⟨_, rfl, hfits⟩⟩
  | or _ _ iha ihb =>
      obtain ⟨ts, rfl, ha, hfitsA⟩ := iha
      obtain ⟨us, rfl, hb, hfitsB⟩ := ihb
      exact ⟨_, List.map_append, .or ha hb, (fits_join rfl rfl).2 ⟨hfitsA, hfitsB⟩⟩
  | and _ _ iha ihb =>
      obtain ⟨ts, rfl, ha, hfitsA⟩ := iha
      obtain ⟨us, rfl, hb, hfitsB⟩ := ihb
      exact ⟨_, List.map_append, .and ha hb, (fits_join rfl rfl).2 ⟨hfitsA, hfitsB⟩⟩
  | not _ ih =>
      obtain ⟨ws, rfl, hws, hfits⟩ := ih
      refine ⟨_, ?_, .not hws, (fits_further rfl hws.ne_nil).2 ⟨_, rfl, hfits⟩⟩
      rw [List.map_cons, words_deeper]
  | relation op hop _ _ iha ihb | sum op hop _ _ iha ihb | product op hop _ _ iha ihb =>
      obtain ⟨ts, rfl, ha, hfitsA⟩ := iha
      obtain ⟨us, rfl, hb, hfitsB⟩ := ihb
      exact ⟨_, List.map_append, .binary op hop (by decide) rfl ha hb,
        (fits_join rfl rfl).2 ⟨hfitsA, hfitsB⟩⟩
  | member negated items _ _ iha ihitems =>
      obtain ⟨ts, rfl, ha, hfitsA⟩ := iha
      obtain ⟨nested, rfl, hnested⟩ := exists_nested_items ihitems
      simp only [List.map_map, Function.comp_def]
      refine ⟨_, ?_, .member negated nested ha fun i hi => (hnested i hi).1,
        fits_member.2 ⟨hfitsA, List.forall_mem_map.2 fun i hi => (hnested i hi).2⟩⟩
      rw [words_member, List.map_map]
      rfl
  | neg _ ih =>
      obtain ⟨ws, rfl, hws, hfits⟩ := ih
      refine ⟨_, ?_, .neg hws, (fits_further rfl hws.ne_nil).2 ⟨_, rfl, hfits⟩⟩
      rw [List.map_cons, words_deeper]
  | pow _ _ iha ihb =>
      obtain ⟨ts, rfl, ha, hfitsA⟩ := iha
      obtain ⟨us, rfl, hb, hfitsB⟩ := ihb
      refine ⟨_, ?_, .pow ha hb,
        fits_append.2 ⟨hfitsA, (fits_further rfl hb.ne_nil).2 ⟨_, rfl, hfitsB⟩⟩⟩
      rw [List.map_append, List.map_cons, words_deeper]
  | number x => exact ⟨_, rfl, .number x, by simp [Fits, Phrase.entry]⟩
  | boolean b => exact ⟨_, rfl, .boolean b, by simp [Fits, Phrase.entry]⟩
  | var s => exact ⟨_, rfl, .var s, by simp [Fits, Phrase.entry]⟩
  | call args hname hcount _ ih =>
      obtain ⟨nested, rfl, hnested⟩ := exists_nested_items ih
      rw [List.length_map] at hcount
      simp only [List.map_map, Function.comp_def]
      refine ⟨_, ?_, .call nested hname hcount fun a ha => (hnested a ha).1,
        fits_call.2 (List.forall_mem_map.2 fun a ha => (hnested a ha).2)⟩
      simp [words_nestedListing, Function.comp_def]
  | paren _ ih =>
      obtain ⟨ws, rfl, hws, hfits⟩ := ih
      refine ⟨_, ?_, .paren hws, fits_paren.2 hfits⟩
      rw [List.map_append, List.map_cons, words_deeper]
      rfl

end

end Grimace
