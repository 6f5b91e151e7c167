import Grimace.Proofs.Expr.Counter
import Grimace.Proofs.Expr.Reads

/-!
# Grimace.Proofs.Expr.Stack

How much of a stack an expression takes.

The nesting of a text does not bound its tree: a chain of operators is a tree as deep as the chain
is long.  What bounds the tree is the text.  Every node has a token of its own, every token a
character, and every character a byte.

An evaluation with so many *levels* of stack takes one of them for each node that it is in, and
panics where none is left.

* `Derives.size_le` — a tree has no more nodes than words, by induction on its derivation;
* `Expr.evalOn_eq`, `Expr.readsOn_eq` — as many levels as a tree has nodes are enough;
* `accepted_fits_stack` — what is read fits the limit on texts, and the counter of nesting that
  the reader holds keeps its own.
-/

namespace Grimace

/-! ## Nodes -/

namespace Expr

mutual

/-- How many nodes a tree has. -/
def size : Expr → Nat
  | .number _ | .boolean _ | .var _ => 1
  | .neg e | .not e => size e + 1
  | .binary _ a b | .and a b | .or a b => size a + size b + 1
  | .member needle items _ => size needle + sizeAll items + 1
  | .cond test yes no => size test + size yes + size no + 1
  | .call _ args => sizeAll args + 1

/-- How many nodes the trees of a list have. -/
def sizeAll : List Expr → Nat
  | [] => 0
  | e :: es => size e + sizeAll es

end

theorem size_eq (e : Expr) : e.size = sizeAll e.children + 1 := by
  cases e <;> simp only [size, children, sizeAll] <;> omega

theorem size_le_sizeAll {e : Expr} {es : List Expr} (h : e ∈ es) : e.size ≤ sizeAll es := by
  induction h with
  | head es => exact Nat.le_add_right _ _
  | tail e' _ ih => exact Nat.le_trans ih (Nat.le_add_left _ _)

theorem size_lt_of_mem_children {e child : Expr} (h : child ∈ e.children) :
    child.size < e.size := by
  rw [size_eq e]
  exact Nat.lt_succ_of_le (size_le_sizeAll h)

/-- The items of a list have no more nodes than words, and neither has the list. -/
theorem sizeAll_le_listing {items : List (List Token.Kind × Expr)}
    (h : ∀ i ∈ items, i.2.size ≤ i.1.length) :
    sizeAll (items.map (·.2)) ≤ (listing (items.map (·.1))).length := by
  induction items with
  | nil => exact Nat.zero_le _
  | cons item more ih =>
      obtain ⟨hitem, hmore⟩ := List.forall_mem_cons.1 h
      have hrest := ih hmore
      cases more with
      | nil => simpa [sizeAll, listing] using Nat.le_succ_of_le hitem
      | cons next more =>
          simp only [List.map_cons, sizeAll, listing, List.length_append,
            List.length_cons] at hrest ⊢
          omega

end Expr

/-- **Every node has a word of its own**: a tree has no more nodes than it has words. -/
theorem Derives.size_le {takes : Func → Nat → Bool} {p : Phrase} {n : Nat} {ts : List Token.Kind}
    {e : Expr} (h : Derives takes p n ts e) : e.size ≤ ts.length := by
  induction h with
  | ofOr _ ih | ofAnd _ ih | ofNot _ ih | ofComparison _ ih | ofAdditive _ ih
  | ofMultiplicative _ ih | ofUnary _ ih | ofPower _ ih | ofPrimary _ ih => exact ih
  | number | boolean | var => exact Nat.le_refl 1
  | not _ ih | neg _ ih => exact Nat.succ_le_succ ih
  | cond _ _ _ ihtest ihyes ihno =>
      simp only [Expr.size, List.length_append, List.length_cons]
      omega
  | or _ _ iha ihb | and _ _ iha ihb | relation _ _ _ _ iha ihb | sum _ _ _ _ iha ihb
  | product _ _ _ _ iha ihb | pow _ _ iha ihb =>
      simp only [Expr.size, List.length_append, List.length_cons]
      omega
  | member _ _ _ _ iha ihitems =>
      have hitems := Expr.sizeAll_le_listing ihitems
      simp only [Expr.size, List.length_append, List.length_cons]
      omega
  | call _ _ _ _ ih =>
      have hargs := Expr.sizeAll_le_listing ih
      simp only [Expr.size, List.length_cons]
      omega
  | paren _ ih =>
      simp only [List.length_append, List.length_cons]
      omega

/-! ## Tokens -/

/-- Every token has a character of its own. -/
theorem Lexer.length_tokens_le {skip pos : Nat} {cs : List Char} {ts : List Token}
    (h : Lexer.tokens skip pos cs = .ok ts) : ts.length ≤ cs.length := by
  induction cs generalizing skip pos ts with
  | nil =>
      cases skip <;> cases h <;> exact Nat.le_refl 0
  | cons c cs ih =>
      cases skip with
      | succ skip => exact Nat.le_succ_of_le (ih h)
      | zero =>
          unfold Lexer.tokens at h
          split at h
          · exact Nat.le_succ_of_le (ih h)
          · obtain ⟨⟨kind, width⟩, -, hrest⟩ := Except.bind_eq_ok_iff.1 h
            obtain ⟨rest, htokens, hts⟩ := Except.bind_eq_ok_iff.1 hrest
            cases hts
            exact Nat.succ_le_succ (ih htokens)

theorem utf8ByteSize_ofList_cons (c : Char) (cs : List Char) :
    (String.ofList (c :: cs)).utf8ByteSize = c.utf8Size + (String.ofList cs).utf8ByteSize := by
  have hchar : (String.ofList [c]).utf8ByteSize = c.utf8Size := by
    rw [← String.size_toByteArray, String.toByteArray_ofList, List.utf8Encode_singleton,
      List.size_toByteArray, String.length_utf8EncodeChar]
  rw [← hchar, ← String.utf8ByteSize_append, ← String.ofList_append, List.singleton_append]

/-- Every character has a byte of its own. -/
theorem length_toList_le (source : String) : source.toList.length ≤ source.utf8ByteSize := by
  suffices h : ∀ cs : List Char, cs.length ≤ (String.ofList cs).utf8ByteSize by
    simpa only [String.ofList_toList] using h source.toList
  intro cs
  induction cs with
  | nil => exact Nat.zero_le _
  | cons c cs ih =>
      have hc := c.utf8Size_pos
      rw [utf8ByteSize_ofList_cons, List.length_cons]
      omega

/-! ## Levels of stack -/

/-- What does not panic, followed by what does not. -/
theorem Checked.lift_bind {ε α β : Type} {x : Except ε α} {f : α → Checked ε β}
    {g : α → Except ε β} (h : ∀ a, f a = .lift (g a)) :
    (Checked.lift x >>= f) = .lift (x >>= g) := by
  cases x with
  | error e => rfl
  | ok a => exact h a

namespace Expr

open Checked (lift_bind)

section

variable (scores : Scores) (self : Expr → Checked EvalError Value)

/-- Whether a value equals one of the items, each evaluated on the level below. -/
def memberWith (x : Value) : List Expr → Checked EvalError Bool
  | [] => return false
  | item :: items => do
    let y ← self item
    if x.looselyEq y then return true else memberWith x items

/-- The arguments of the function named `op`, each evaluated on the level below. -/
def argsWith (op : String) : List Expr → Checked EvalError (List Float)
  | [] => return []
  | arg :: args => do
    let x ← .lift ((← self arg).toNumber op)
    let xs ← argsWith op args
    return x :: xs

/-- One level of an evaluation, which puts what is below a node to `self`. -/
def evalWith : Expr → Checked EvalError Value
  | .number x => return .number x
  | .boolean b => return .boolean b
  | .var name => return match scores.get? name with
    | some s => .number s.toFloat
    | none => .absent
  | .neg e => do
    let x ← .lift ((← self e).toNumber "-")
    return .number (-x)
  | .not e => do return .boolean (!(← self e).truthy)
  | .binary op a b => do
    let x ← self a
    let y ← self b
    .lift (op.apply x y)
  | .and a b => do
    if (← self a).truthy then return .boolean (← self b).truthy else return .boolean false
  | .or a b => do
    if (← self a).truthy then return .boolean true else return .boolean (← self b).truthy
  | .member needle items negated => do
    let x ← self needle
    let found ← memberWith self x items
    return .boolean (found != negated)
  | .cond test yes no => do if (← self test).truthy then self yes else self no
  | .call f args => do
    let xs ← argsWith self f.name args
    return .number (← .lift (f.apply xs))

end

/-- The value of an expression on a frame, with so many levels of stack; without one it panics. -/
def evalOn (scores : Scores) : (levels : Nat) → Expr → Checked EvalError Value
  | 0, _ => .stuck .unreachable
  | levels + 1, e => evalWith scores (evalOn scores levels) e

/-- The names that an expression reads, with so many levels of stack; without one there are
none to tell. -/
def readsOn : (levels : Nat) → Expr → Option (List String)
  | 0, _ => none
  | levels + 1, e => do
    let below ← e.children.mapM (readsOn levels)
    match e with
    | .var name => return [name]
    | _ => return below.flatten

section

variable {scores : Scores} {self : Expr → Checked EvalError Value}

theorem memberWith_eq (x : Value) {items : List Expr}
    (h : ∀ item ∈ items, self item = .lift (item.eval scores)) :
    memberWith self x items = .lift (evalMember scores x items) := by
  induction items with
  | nil => rfl
  | cons item items ih =>
      obtain ⟨hitem, hitems⟩ := List.forall_mem_cons.1 h
      rw [memberWith, evalMember, hitem]
      refine lift_bind fun y => ?_
      split
      · rfl
      · exact ih hitems

theorem argsWith_eq (op : String) {args : List Expr}
    (h : ∀ arg ∈ args, self arg = .lift (arg.eval scores)) :
    argsWith self op args = .lift (evalArgs scores op args) := by
  induction args with
  | nil => rfl
  | cons arg args ih =>
      obtain ⟨harg, hargs⟩ := List.forall_mem_cons.1 h
      rw [argsWith, evalArgs, harg]
      refine lift_bind fun v => lift_bind fun x => ?_
      rw [ih hargs]
      exact lift_bind fun xs => rfl

/-- A level answers what the evaluation does, if the levels below answer for the trees there. -/
theorem evalWith_eq {e : Expr} (h : ∀ child ∈ e.children, self child = .lift (child.eval scores)) :
    evalWith scores self e = .lift (e.eval scores) := by
  cases e with
  | number x => rfl
  | boolean b => rfl
  | var name => rfl
  | neg e =>
      rw [evalWith, eval, h e List.mem_cons_self]
      exact lift_bind fun v => lift_bind fun x => rfl
  | not e =>
      rw [evalWith, eval, h e List.mem_cons_self]
      exact lift_bind fun v => rfl
  | binary op a b =>
      simp only [children, List.forall_mem_cons] at h
      obtain ⟨ha, hb, -⟩ := h
      rw [evalWith, eval, ha]
      refine lift_bind fun x => ?_
      rw [hb]
      exact lift_bind fun y => rfl
  | and a b =>
      simp only [children, List.forall_mem_cons] at h
      obtain ⟨ha, hb, -⟩ := h
      rw [evalWith, eval, ha]
      refine lift_bind fun x => ?_
      split
      · rw [hb]
        exact lift_bind fun y => rfl
      · rfl
  | or a b =>
      simp only [children, List.forall_mem_cons] at h
      obtain ⟨ha, hb, -⟩ := h
      rw [evalWith, eval, ha]
      refine lift_bind fun x => ?_
      split
      · rfl
      · rw [hb]
        exact lift_bind fun y => rfl
  | member needle items negated =>
      obtain ⟨hneedle, hitems⟩ := List.forall_mem_cons.1 h
      rw [evalWith, eval, hneedle]
      refine lift_bind fun x => ?_
      rw [memberWith_eq x hitems]
      exact lift_bind fun found => rfl
  | cond test yes no =>
      simp only [children, List.forall_mem_cons] at h
      obtain ⟨htest, hyes, hno, -⟩ := h
      rw [evalWith, eval, htest]
      refine lift_bind fun x => ?_
      split
      · exact hyes
      · exact hno
  | call f args =>
      have hargs : ∀ arg ∈ args, self arg = .lift (arg.eval scores) := h
      rw [evalWith, eval, argsWith_eq f.name hargs]
      exact lift_bind fun xs => lift_bind fun x => rfl

end

/-- **As many levels as a tree has nodes** are enough to evaluate it. -/
theorem evalOn_eq (scores : Scores) {levels : Nat} {e : Expr} (h : e.size ≤ levels) :
    e.evalOn scores levels = .lift (e.eval scores) := by
  induction levels generalizing e with
  | zero =>
      rw [size_eq] at h
      contradiction
  | succ levels ih =>
      refine evalWith_eq fun child hchild => ih ?_
      have hlt := size_lt_of_mem_children hchild
      omega

theorem readsAll_eq_flatten (es : List Expr) : readsAll es = (es.map reads).flatten := by
  induction es with
  | nil => rfl
  | cons e es ih => rw [readsAll, ih, List.map_cons, List.flatten_cons]

/-- A node reads its own name, if it is one, and otherwise what is below it, in order. -/
theorem reads_eq_children (e : Expr) :
    e.reads = match e with
      | .var name => [name]
      | e => (e.children.map reads).flatten := by
  cases e <;> simp [reads, children, readsAll_eq_flatten]

theorem mapM_eq_some {es : List Expr} {names : Expr → Option (List String)}
    (h : ∀ e ∈ es, names e = some e.reads) : es.mapM names = some (es.map reads) := by
  induction es with
  | nil => rfl
  | cons e es ih =>
      obtain ⟨he, hes⟩ := List.forall_mem_cons.1 h
      rw [List.mapM_cons, he, ih hes]
      rfl

/-- **As many levels as a tree has nodes** are enough to find the names that it reads. -/
theorem readsOn_eq {levels : Nat} {e : Expr} (h : e.size ≤ levels) :
    e.readsOn levels = some e.reads := by
  induction levels generalizing e with
  | zero =>
      rw [size_eq] at h
      contradiction
  | succ levels ih =>
      have hbelow : ∀ child ∈ e.children, readsOn levels child = some child.reads := by
        intro child hchild
        have hlt := size_lt_of_mem_children hchild
        exact ih (by omega)
      rw [readsOn, mapM_eq_some hbelow, reads_eq_children]
      cases e <;> rfl

end Expr

/-! ## All texts -/

/-- What is read is short enough. -/
theorem length_of_parse {source : String} {e : Expr} (h : parse source = .ok e) :
    source.utf8ByteSize ≤ maxLength := by
  unfold parse at h
  split at h
  · contradiction
  · next hshort => exact Nat.not_lt.1 hshort

theorem length_tokens_le_maxLength {source : String} {ts : List Token}
    (hlength : source.utf8ByteSize ≤ maxLength) (h : tokenize source.toList = .ok ts) :
    ts.length ≤ maxLength := by
  have hchars := Lexer.length_tokens_le h
  have hbytes := length_toList_le source
  omega

/-- **No rule takes more of a stack than the limits allow.**

A text that is read has at least as many words as its tree has nodes, and no more than it has
bytes.  So the evaluation of the tree, on whatever scores, and the search for the names that it
reads, are done with `maxLength` levels of stack.

The counter of the nesting that is read is at each step of the walk through any text within
`0` and `maxNesting`, or the watched walk would panic.  And every production, with whatever tokens
and from whatever cursor it is entered, returns with the counter as it was, be that a success or a
failure. -/
theorem accepted_fits_stack (source : String) :
    (∀ e, parse source = .ok e → ∃ ts, tokenize source.toList = .ok ts ∧
      e.size ≤ ts.length ∧ ts.length ≤ maxLength ∧
      (∀ scores, e.evalOn scores maxLength = .lift (e.eval scores)) ∧
      e.readsOn maxLength = some e.reads) ∧
    Watched.source source = .ok (parse source) ∧
    ∀ es n, let inner := Walk.levels es n
      (∀ p, ((Walk.steps es).production inner p).Keeps) ∧
      inner.expr.Keeps ∧ inner.not.Keeps ∧ inner.unary.Keeps ∧
      ((Walk.steps es).list inner).Keeps ∧ (∀ name, ((Walk.steps es).call inner name).Keeps) ∧
      ∀ needle negated, ((Walk.steps es).membership inner needle negated).Keeps := by
  refine ⟨fun e he => ?_, Watched.source_eq source, fun es n => ?_⟩
  · obtain ⟨ts, htokens, hderives⟩ := derives_of_parse he
    have hnodes : e.size ≤ ts.length := by simpa using hderives.size_le
    have hwords := length_tokens_le_maxLength (length_of_parse he) htokens
    have hsize := Nat.le_trans hnodes hwords
    exact ⟨ts, htokens, hnodes, hwords, fun scores => e.evalOn_eq scores hsize,
      Expr.readsOn_eq hsize⟩
  · have hsteps := Watched.steps_related es
    have hinner := Watched.levels_steady es n
    exact ⟨fun p => (hsteps.production hinner p).keeps, hinner.expr.keeps, hinner.not.keeps,
      hinner.unary.keeps, (hsteps.list hinner).keeps, fun name => (hsteps.call hinner name).keeps,
      fun needle negated => (hsteps.membership hinner needle negated).keeps⟩

/-- A chain of two operators in no parentheses has five nodes, of which the evaluation is in three
at once. -/
theorem accepted_fits_stack_chain :
    let tree : Expr := .binary .add (.binary .add (.var "a") (.var "b")) (.var "c")
    parse "a + b + c" = .ok tree ∧ tree.size = 5 ∧
      (∀ scores, tree.evalOn scores maxLength = .lift (tree.eval scores)) ∧
      (∀ scores, tree.evalOn scores 2 = .stuck .unreachable) ∧
      tree.readsOn maxLength = some ["a", "b", "c"] := by
  intro tree
  have hparse : parse "a + b + c" = .ok tree := by rfl
  obtain ⟨hread, -, -⟩ := accepted_fits_stack "a + b + c"
  obtain ⟨ts, -, -, -, heval, hreads⟩ := hread tree hparse
  exact ⟨hparse, rfl, heval, fun _ => rfl, hreads⟩

end Grimace
