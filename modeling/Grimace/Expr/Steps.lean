import Grimace.Expr.Error

/-!
# Grimace.Expr.Steps

The grammar of expressions, loosest binding first:

```
expr           := "if" expr "then" expr "else" expr | or
or             := and ("or" and)*
and            := not ("and" not)*
not            := "not" not | comparison
comparison     := additive (relation additive | ["not"] "in" "(" list ")")*
additive       := multiplicative (("+" | "-") multiplicative)*
multiplicative := unary (("*" | "/" | "%") unary)*
unary          := "-" unary | power
power          := primary ("^" unary)?
primary        := number | "true" | "false" | name | name "(" list ")" | "(" expr ")"
```

A repeated level groups to the left.  A `not` directly before `in` belongs to the
membership test and starts no negation.

The productions are written once, over the steps of whoever goes through a text:
they look at the token at hand and the one behind it, go on to the next, and fail.
An expression, the operand of `not`, the operand of unary minus and the exponent of
`^` each stand one level further in.  `Inner` holds what reads these phrases where a
production asks for them, and `levels` what does so where a number of levels is
allowed; how a level is gone into is not said here either.
-/

namespace Grimace

/-- The words that the grammar has fixed places for, and the end. -/
inductive Word where
  | kwIf | kwThen | kwElse | kwNot | kwIn | openParen | closeParen | comma | minus | caret
  | endOfText

namespace Word

/-- The kind of the word; the end has none. -/
def kind? : Word → Option Token.Kind
  | kwIf => some .kwIf
  | kwThen => some .kwThen
  | kwElse => some .kwElse
  | kwNot => some .kwNot
  | kwIn => some .kwIn
  | openParen => some .openParen
  | closeParen => some .closeParen
  | comma => some .comma
  | minus => some (.op .sub)
  | caret => some (.op .pow)
  | endOfText => none

/-- The word is of the kind. -/
def fits : Word → Option Token.Kind → Bool
  | kwIf, some .kwIf | kwThen, some .kwThen | kwElse, some .kwElse
  | kwNot, some .kwNot | kwIn, some .kwIn
  | openParen, some .openParen | closeParen, some .closeParen | comma, some .comma
  | minus, some (.op .sub) | caret, some (.op .pow) | endOfText, none => true
  | _, _ => false

theorem fits_eq_true_iff {word : Word} {k : Option Token.Kind} :
    word.fits k = true ↔ word.kind? = k := by
  constructor
  · intro h
    unfold fits at h
    split at h <;> first | rfl | contradiction
  · rintro rfl
    cases word <;> rfl

end Word

/-- What somebody does at a time who reads an expression. -/
structure Steps (m : Type → Type) where
  /-- Looks at the token at hand; at the end of the text there is none. -/
  peek : m (Option Token.Kind)
  /-- Looks at the token behind the one at hand. -/
  peekSecond : m (Option Token.Kind)
  /-- Goes on to the next token, but not beyond the end. -/
  advance : m Unit
  /-- Fails. -/
  fail {α : Type} (e : CompileError) : m α
  /-- Fails at the token at hand. -/
  unexpected {α : Type} (expected : Expectation) : m α
  /-- As long as the token at hand and the one behind it tell how, goes on to the next
  token and from what there is to `more`. -/
  chain {α γ : Type} (next? : Token.Kind → Option Token.Kind → Option γ) (more : α → γ → m α)
    (a : α) : m α

namespace Steps

/-- What reads the phrases that stand one level further in. -/
structure Inner (m : Type → Type) where
  expr : m Expr
  not : m Expr
  unary : m Expr

/-! ## Operators -/

/-- The operators of a product. -/
def product? : Token.Kind → Option (Expr → Expr → Expr)
  | .op .mul => some (.binary .mul)
  | .op .div => some (.binary .div)
  | .op .mod => some (.binary .mod)
  | _ => none

/-- The operators of a sum. -/
def sum? : Token.Kind → Option (Expr → Expr → Expr)
  | .op .add => some (.binary .add)
  | .op .sub => some (.binary .sub)
  | _ => none

/-- The operators that compare. -/
def relation? : Token.Kind → Option Operator
  | .op .eq => some .eq
  | .op .ne => some .ne
  | .op .lt => some .lt
  | .op .le => some .le
  | .op .gt => some .gt
  | .op .ge => some .ge
  | _ => none

/-- What a comparison goes on with. -/
inductive Test where
  | relation (op : Operator)
  | member (negated : Bool)

/-- The words that a test starts with. -/
def test? : Token.Kind → Option Token.Kind → Option Test
  | .kwIn, _ => some (.member false)
  | .kwNot, some .kwIn => some (.member true)
  | k, _ => (relation? k).map .relation

/-- The operator of a conjunction. -/
def and? : Token.Kind → Option (Expr → Expr → Expr)
  | .kwAnd => some .and
  | _ => none

/-- The operator of a disjunction. -/
def or? : Token.Kind → Option (Expr → Expr → Expr)
  | .kwOr => some .or
  | _ => none

/-- What stands between the items of a list. -/
def comma? : Token.Kind → Option Token.Kind → Option Unit
  | .comma, _ => some ()
  | _, _ => none

section

variable {m : Type → Type} [Monad m] (s : Steps m)

/-! ## Words -/

/-- Goes on if the token at hand is a word. -/
def eat (word : Word) : m Bool := do
  if word.fits (← s.peek) then
    s.advance
    return true
  else return false

/-- Goes on over a word, and fails at anything else. -/
def expect (word : Word) (expected : Expectation) : m Unit := do
  if ← s.eat word then return () else s.unexpected expected

/-! ## Productions -/

/-- Operands joined by operators of one level, grouped to the left. -/
def level (join? : Token.Kind → Option (Expr → Expr → Expr)) (operand : m Expr) : m Expr := do
  let left ← operand
  s.chain (fun k _ => join? k) (fun left join => do return join left (← operand)) left

variable (inner : Inner m)

/-- A list behind its opening parenthesis, up to and including the closing one. -/
def list : m (List Expr) := do
  if ← s.eat .closeParen then return []
  else
    let first ← inner.expr
    let items ← s.chain comma? (fun items _ => do return items ++ [← inner.expr]) [first]
    s.expect .closeParen .commaOrClose
    return items

/-- The arguments of the function that is called `name`. -/
def call (name : String) : m Expr :=
  match Func.ofName? name with
  | none => s.fail (.unknownFunction name)
  | some f => do
    let args ← s.list inner
    if f.accepts args.length then return .call f args else s.fail (.arity f args.length)

/-- A phrase that no operator splits. -/
def primary : m Expr := do
  match ← s.peek with
  | some (.number x) =>
    s.advance
    return .number x
  | some (.boolean b) =>
    s.advance
    return .boolean b
  | some .openParen =>
    s.advance
    let e ← inner.expr
    s.expect .closeParen .closeParen
    return e
  | some (.name name) =>
    s.advance
    if ← s.eat .openParen then s.call inner name else return .var name
  | _ => s.unexpected .expression

/-- A power; the exponent may carry a sign and a power of its own. -/
def power : m Expr := do
  let base ← s.primary inner
  if ← s.eat .caret then return .binary .pow base (← inner.unary) else return base

/-- A power behind any number of minus signs. -/
def unary : m Expr := do
  if ← s.eat .minus then return .neg (← inner.unary) else s.power inner

/-- A product. -/
def multiplicative : m Expr := s.level product? (s.unary inner)

/-- A sum. -/
def additive : m Expr := s.level sum? (s.multiplicative inner)

/-- The list of a membership test, behind its `in`. -/
def membership (needle : Expr) (negated : Bool) : m Expr := do
  s.expect .openParen .listAfterIn
  return .member needle (← s.list inner) negated

/-- A test behind its first word. -/
def test (left : Expr) : Test → m Expr
  | .relation op => do return .binary op left (← s.additive inner)
  | .member false => s.membership inner left false
  | .member true => do
    s.advance
    s.membership inner left true

/-- Comparisons and membership tests, grouped to the left. -/
def comparison : m Expr := do
  let left ← s.additive inner
  s.chain test? (s.test inner) left

/-- A comparison behind any number of negations. -/
def not : m Expr := do
  if Word.kwNot.fits (← s.peek) then
    if Word.kwIn.fits (← s.peekSecond) then s.comparison inner
    else
      s.advance
      return .not (← inner.not)
  else s.comparison inner

/-- A conjunction. -/
def and : m Expr := s.level and? (s.not inner)

/-- A disjunction. -/
def or : m Expr := s.level or? (s.and inner)

/-- An expression. -/
def expr : m Expr := do
  if ← s.eat .kwIf then
    let test ← inner.expr
    s.expect .kwThen .kwThen
    let yes ← inner.expr
    s.expect .kwElse .kwElse
    return .cond test yes (← inner.expr)
  else s.or inner

/-- A whole text as one expression. -/
def whole : m Expr := do
  let e ← inner.expr
  s.expect .endOfText .endOfText
  return e

/-- What reads the phrases one level further in, where `n` more levels are allowed.  Each
of them is gone into by `enter`, and below the last one there is nothing but `floor`. -/
def levels (enter : m Expr → m Expr) (floor : m Expr) : (n : Nat) → Inner m
  | 0 => ⟨enter floor, enter floor, enter floor⟩
  | n + 1 =>
    let inner := levels enter floor n
    ⟨enter (s.expr inner), enter (s.not inner), enter (s.unary inner)⟩

end

end Steps

end Grimace
