import Grimace.Decimal.Shortest
import Grimace.Expr.Basic

/-!
# Grimace.Expr.Token

The words of the expression language, each with the place where it starts.
Places count characters from 0.

A kind keeps what the grammar needs: `and` and `&&` are one kind, and a name has
lost the `?` of its `?.`.
-/

namespace Grimace

namespace Token

/-- What a token is. -/
inductive Kind where
  | number (x : Float)
  | name (s : String)
  | boolean (b : Bool)
  | kwAnd
  | kwOr
  | kwNot
  | kwIn
  | kwIf
  | kwThen
  | kwElse
  | openParen
  | closeParen
  | comma
  | op (o : Operator)

namespace Kind

/-- The kind of a word: one of the reserved words, or a name. -/
def ofWord (s : String) : Kind :=
  match s with
  | "true" => boolean true
  | "false" => boolean false
  | "and" => kwAnd
  | "or" => kwOr
  | "not" => kwNot
  | "in" => kwIn
  | "if" => kwIf
  | "then" => kwThen
  | "else" => kwElse
  | s => name s

/-- How a message names the kind.  An operator with two spellings goes by its word. -/
def text : Kind → String
  | number x => "number " ++ Decimal.plainText x
  | name s => "'" ++ s ++ "'"
  | boolean b => if b then "'true'" else "'false'"
  | kwAnd => "'and'"
  | kwOr => "'or'"
  | kwNot => "'not'"
  | kwIn => "'in'"
  | kwIf => "'if'"
  | kwThen => "'then'"
  | kwElse => "'else'"
  | openParen => "'('"
  | closeParen => "')'"
  | comma => "','"
  | op o => "'" ++ o.symbol ++ "'"

end Kind

end Token

/-- A token and the place of its first character. -/
structure Token where
  kind : Token.Kind
  pos : Nat

end Grimace
