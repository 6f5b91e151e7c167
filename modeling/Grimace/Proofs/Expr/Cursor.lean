import Grimace.Proofs.Expr.Layout
import Grimace.Proofs.Expr.Reader
import Grimace.Proofs.Expr.Related

/-!
# Grimace.Proofs.Expr.Cursor

Where a walk over tokens stands, and that it never looks beyond them.

A walk *reads* what a reader of `Parser` reads if it does the same from every index: it succeeds
with the same result where the reader's rest of the tokens begins, no deeper than it was, or fails
with the same cause.  One walk after another does so if both do, and so does each step, hence each
production.

* `Walk.peek_apply`, `Walk.advance_apply` — what is looked up at an index of the list is there;
* `Walk.chain_answers` — a chain ends before its rounds are used up;
* `Walk.levels_reads` — all productions, by induction on the nesting that is left;
* `Walk.source_eq` — no text makes a walk panic.
-/

namespace Grimace

namespace Walk

/-! ## Where a walk stands -/

/-- The tokens from an index on, which is one of the list with its end. -/
structure At (toks : List Token) (k : Nat) (us : List Token) : Prop where
  le : k ≤ toks.length
  drop_eq : toks.drop k = us

/-- The entry that stands for the front of tokens. -/
def first (stop : Nat) : List Token → Entry
  | [] => ⟨none, stop⟩
  | t :: _ => ⟨some t.kind, t.pos⟩

namespace At

variable {toks us : List Token} {t : Token} {k stop : Nat}

theorem start (toks : List Token) : At toks 0 toks := ⟨Nat.zero_le _, rfl⟩

theorem length_eq (h : At toks k us) : us.length = toks.length - k := by
  rw [← h.drop_eq, List.length_drop]

theorem lt (h : At toks k (t :: us)) : k < toks.length := by
  have hlength := h.length_eq
  rw [List.length_cons] at hlength
  omega

theorem next (h : At toks k (t :: us)) : At toks (k + 1) us :=
  ⟨h.lt, by rw [← List.drop_drop, h.drop_eq, List.drop_one, List.tail_cons]⟩

theorem eq_length (h : At toks k []) : k = toks.length := by
  have hlength := h.length_eq
  have hle := h.le
  rw [List.length_nil] at hlength
  omega

theorem getElem?_entries (h : At toks k us) : (entries stop toks)[k]? = some (first stop us) := by
  cases us with
  | nil => simp [entries, h.eq_length, first]
  | cons t us =>
      have ht : toks[k]? = some t := by
        rw [← Nat.add_zero k, ← List.getElem?_drop, h.drop_eq]
        rfl
      rw [entries, List.getElem?_append_left (by simpa using h.lt), List.getElem?_map, ht]
      rfl

end At

section

variable {α β : Type} {toks us : List Token} {k d stop : Nat}

theorem length_entries (stop : Nat) (toks : List Token) :
    (entries stop toks).length = toks.length + 1 := by
  simp [entries]

theorem entryAt_apply (h : At toks k us) (c : Cursor) :
    entryAt (entries stop toks) k c = .ok (.ok (first stop us), c) := by
  simp only [entryAt, h.getElem?_entries]
  rfl

/-- What is looked up at the cursor is the front of the tokens. -/
theorem peek_apply (h : At toks k us) :
    peek (entries stop toks) ⟨k, d⟩ = .ok (.ok (first stop us), ⟨k, d⟩) := by
  have hindex : min k ((entries stop toks).length - 1) = k := by
    rw [length_entries]
    exact Nat.min_eq_left h.le
  rw [peek, hindex, entryAt_apply h]

theorem peekSecond_apply (h : At toks k us) :
    peekSecond (entries stop toks) ⟨k, d⟩ = .ok (.ok (first stop us.tail), ⟨k, d⟩) := by
  cases us with
  | nil =>
      have hindex : min (k + 1) ((entries stop toks).length - 1) = k := by
        rw [length_entries, h.eq_length]
        omega
      rw [peekSecond, hindex, entryAt_apply h]
      rfl
  | cons t us =>
      have hindex : min (k + 1) ((entries stop toks).length - 1) = k + 1 := by
        rw [length_entries]
        exact Nat.min_eq_left h.lt
      rw [peekSecond, hindex, entryAt_apply h.next]
      rfl

theorem advance_apply {t : Token} (h : At toks k (t :: us)) :
    advance (entries stop toks) ⟨k, d⟩ = .ok (.ok (), ⟨k + 1, d⟩) := by
  have hlt : k < (entries stop toks).length - 1 := by
    rw [length_entries]
    exact h.lt
  simp only [advance, bind, peek_apply h, hlt, if_true]

theorem advance_apply_end (h : At toks k []) :
    advance (entries stop toks) ⟨k, d⟩ = .ok (.ok (), ⟨k, d⟩) := by
  have hnot : ¬ k < (entries stop toks).length - 1 := by
    rw [length_entries, h.eq_length]
    omega
  simp only [advance, bind, peek_apply h, hnot, if_false]

theorem kind_first (stop : Nat) (us : List Token) :
    (first stop us).kind = us.head?.map (·.kind) := by
  cases us <;> rfl

end

/-! ## Walks that read -/

section

variable {α β : Type} {toks us : List Token} {k d stop : Nat}

/-- What becomes of a walk from an index is what a reader answers: it stands where the rest of the
tokens begins, not before that index, and is as deep as it was. -/
inductive Answers (toks : List Token) (k d : Nat) :
    Except Panic (Except CompileError α × Cursor) →
      Except CompileError (α × List Token) → Prop where
  | ok {a : α} {k' : Nat} {rest : List Token} (hle : k ≤ k') (h : At toks k' rest) :
    Answers toks k d (.ok (.ok a, ⟨k', d⟩)) (.ok (a, rest))
  | error {e : CompileError} {k' : Nat} : Answers toks k d (.ok (.error e, ⟨k', d⟩)) (.error e)

/-- The walk does what the reader does, wherever in the tokens it begins. -/
def Reads (toks : List Token) (d : Nat) (w : Walk α) (read : Parser.Reader α) : Prop :=
  ∀ k us, At toks k us → Answers toks k d (w ⟨k, d⟩) (read us)

namespace Answers

variable {x : Except Panic (Except CompileError α × Cursor)}
  {y : Except CompileError (α × List Token)}

theorem mono {k' : Nat} (hle : k ≤ k') (h : Answers toks k' d x y) : Answers toks k d x y := by
  cases h with
  | ok hle' h => exact .ok (Nat.le_trans hle hle') h
  | error => exact .error

/-- One walk after another answers what one reader after another does. -/
theorem bind {w : Walk α} {f : α → Walk β} {c : Cursor} {read : Parser.Reader α}
    {g : α → Parser.Reader β} (hw : Answers toks k d (w c) (read us))
    (hf : ∀ a k' us, k ≤ k' → At toks k' us → Answers toks k' d (f a ⟨k', d⟩) (g a us)) :
    Answers toks k d ((w >>= f) c) ((read >>= g) us) := by
  rw [Parser.bind_apply]
  simp only [Bind.bind]
  generalize w c = x at hw
  generalize read us = y at hw
  cases hw with
  | ok hle h => exact (hf _ _ _ hle h).mono hle
  | error => exact .error

theorem map_fst (h : Answers toks k d x y) : x.map Prod.fst = .ok (y.map Prod.fst) := by
  cases h <;> rfl

end Answers

theorem bind_apply {w : Walk α} {c c' : Cursor} {a : α} (h : w c = .ok (.ok a, c'))
    (f : α → Walk β) : (w >>= f) c = f a c' := by
  simp only [bind, h]

/-! ## Steps -/

theorem kind_apply (h : At toks k us) : kind (entries stop toks) ⟨k, d⟩ =
    .ok (.ok (us.head?.map (·.kind)), ⟨k, d⟩) := by
  rw [kind, bind_apply (peek_apply h), kind_first]
  rfl

theorem kindSecond_apply (h : At toks k us) : kindSecond (entries stop toks) ⟨k, d⟩ =
    .ok (.ok (us.tail.head?.map (·.kind)), ⟨k, d⟩) := by
  rw [kindSecond, bind_apply (peekSecond_apply h), kind_first]
  rfl

theorem pure_reads (a : α) : Reads toks d (pure a) (pure a) :=
  fun _ _ h => .ok (Nat.le_refl _) h

theorem bind_reads {w : Walk α} {read : Parser.Reader α} {f : α → Walk β}
    {g : α → Parser.Reader β} (hw : Reads toks d w read) (hf : ∀ a, Reads toks d (f a) (g a)) :
    Reads toks d (w >>= f) (read >>= g) :=
  fun k us h => (hw k us h).bind fun a k' us' _ h' => hf a k' us' h'

theorem peek_reads : Reads toks d (steps (entries stop toks)).peek (Parser.steps stop).peek := by
  intro k us h
  change Answers toks k d (kind (entries stop toks) ⟨k, d⟩) _
  rw [kind_apply h]
  exact .ok (Nat.le_refl k) h

theorem peekSecond_reads :
    Reads toks d (steps (entries stop toks)).peekSecond (Parser.steps stop).peekSecond := by
  intro k us h
  change Answers toks k d (kindSecond (entries stop toks) ⟨k, d⟩) _
  rw [kindSecond_apply h]
  exact .ok (Nat.le_refl k) h

theorem advance_reads :
    Reads toks d (steps (entries stop toks)).advance (Parser.steps stop).advance := by
  intro k us h
  change Answers toks k d (advance (entries stop toks) ⟨k, d⟩) _
  cases us with
  | nil =>
      rw [advance_apply_end h]
      exact .ok (Nat.le_refl k) h
  | cons t us =>
      rw [advance_apply h]
      exact .ok (Nat.le_succ k) h.next

theorem unexpected_reads (expected : Expectation) :
    Reads (α := α) toks d ((steps (entries stop toks)).unexpected expected)
      ((Parser.steps stop).unexpected expected) := by
  intro k us h
  have hfail : (steps (entries stop toks)).unexpected (α := α) expected ⟨k, d⟩ =
      .ok (.error (Parser.unexpected stop expected us), ⟨k, d⟩) := by
    refine (bind_apply (peek_apply h) _).trans ?_
    cases us <;> rfl
  rw [hfail]
  exact .error

/-- One level further in there is a level less to go. -/
theorem nested_reads {w : Walk α} {read : Parser.Reader α} (hd : d < maxNesting)
    (h : Reads toks (d + 1) w read) : Reads toks d (nested (entries stop toks) w) read := by
  intro k us hat
  have hanswers := h k us hat
  rw [nested, if_neg (Nat.not_le.2 hd)]
  generalize w ⟨k, d + 1⟩ = x at hanswers
  generalize read us = y at hanswers ⊢
  cases hanswers with
  | ok hle h => exact .ok hle h
  | error => exact .error

/-- Where no level is left, none is gone in. -/
theorem nested_refuses (w : Walk α) (hd : maxNesting ≤ d) :
    Reads toks d (nested (entries stop toks) w)
      fun us => .error (.tooDeep (Parser.place stop us)) := by
  intro k us h
  rw [nested, if_pos hd, bind_apply (peek_apply h)]
  cases us <;> exact .error

/-- A chain is gone through within as many rounds as there are tokens left, and one. -/
theorem chain_answers {γ : Type} {next? : Token.Kind → Option Token.Kind → Option γ}
    {more : α → γ → Walk α} {readMore : α → γ → Parser.Reader α}
    (hmore : ∀ a how, Reads toks d (more a how) (readMore a how)) {bound bound' : Nat}
    (h : At toks k us) (hbound : us.length < bound) (hbound' : us.length ≤ bound') (a : α) :
    Answers toks k d (chain (entries stop toks) next? more bound a ⟨k, d⟩)
      (Parser.chain next? readMore bound' a us) := by
  induction bound generalizing k us bound' a with
  | zero => omega
  | succ bound ih =>
      rw [chain, Steps.rounds, bind_apply (kind_apply h)]
      cases us with
      | nil =>
          have hread : Parser.chain next? readMore bound' a [] = .ok (a, []) := by
            cases bound' <;> rfl
          rw [hread]
          exact pure_reads a k [] h
      | cons t us =>
          rw [List.length_cons] at hbound hbound'
          obtain ⟨bound', rfl⟩ : ∃ n, bound' = n + 1 := ⟨bound' - 1, by omega⟩
          dsimp only [List.head?_cons, Option.map_some]
          rw [bind_apply (kindSecond_apply h), List.tail_cons]
          cases hhow : next? t.kind (us.head?.map (·.kind)) with
          | none =>
              rw [Parser.chain_of_none (fun _ _ heq => by cases heq; exact hhow)]
              exact pure_reads a k (t :: us) h
          | some how =>
              rw [Parser.chain_of_some hhow]
              dsimp only
              rw [bind_apply (advance_apply h)]
              refine ((hmore a how _ _ h.next).bind fun b k' rest hle hrest => ?_).mono
                (Nat.le_succ k)
              have hlength := hrest.length_eq
              have hlength' := h.next.length_eq
              exact ih hrest (by omega) (by omega) b

/-- **The steps** of a walk do what those of a reader do. -/
theorem steps_related (stop : Nat) (toks : List Token) (d : Nat) :
    Steps.Related (fun {_} => Reads toks d) (steps (entries stop toks)) (Parser.steps stop) where
  pure := pure_reads
  bind := bind_reads
  peek := peek_reads
  peekSecond := peekSecond_reads
  advance := advance_reads
  fail _ _ _ _ := .error
  unexpected := unexpected_reads
  chain hmore a k us h := by
    refine chain_answers hmore h ?_ (Nat.le_refl _) a
    have hlength := h.length_eq
    rw [length_entries]
    omega

end

/-! ## Whole texts -/

variable {toks : List Token} {stop : Nat}

/-- **The productions** read what their readers read: the deeper the cursor, the fewer levels are
left, until the depth refuses another one. -/
theorem levels_reads (stop : Nat) (toks : List Token) {n d : Nat} (h : n + d = maxNesting) :
    (levels (entries stop toks) n).Related (fun {_} => Reads toks d) (Parser.nested stop n) := by
  induction n generalizing d with
  | zero =>
      have hd : maxNesting ≤ d := by omega
      exact ⟨nested_refuses _ hd, nested_refuses _ hd, nested_refuses _ hd⟩
  | succ n ih =>
      have hd : d < maxNesting := by omega
      have hinner := ih (d := d + 1) (by omega)
      have hsteps := steps_related stop toks (d + 1)
      exact ⟨nested_reads hd (hsteps.expr hinner), nested_reads hd (hsteps.not hinner),
        nested_reads hd (hsteps.unary hinner)⟩

/-- Going over all tokens from the first, a walk answers what reading them answers. -/
theorem whole_apply (stop : Nat) (toks : List Token) :
    (whole (entries stop toks) ⟨0, 0⟩).map Prod.fst = .ok (parseTokens stop toks) :=
  ((steps_related stop toks 0).whole (levels_reads stop toks rfl) 0 toks (.start toks)).map_fst

/-- **No text makes a walk panic**, and the walk of a text is `parse`. -/
theorem source_eq (text : String) : source text = .ok (parse text) := by
  unfold source parse
  split
  · rfl
  · rw [Lexer.scan_eq]
    cases tokenize text.toList with
    | error e => rfl
    | ok ts => exact whole_apply text.toList.length ts

end Walk

end Grimace
