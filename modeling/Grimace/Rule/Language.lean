import Grimace.Expr.Compile

/-!
# Grimace.Rule.Language

What a rule's text may be written in.

A language makes a text into a predicate and puts a predicate to frames.  The rest
of the library is written for any language, with predicates of any type `π`.  Two
are given: the expressions, and the flags, in which a text is the name of a switch
that is set from outside.
-/

namespace Grimace

/-- A language of conditions with predicates of type `π`. -/
structure RuleLanguage (π : Type) where
  compile : String → Except CompileError π
  /-- The names that a predicate reads. -/
  reads : π → List String
  evaluate : π → Scores → Except EvalError Bool

namespace RuleLanguage

/-- The language of expressions over scores. -/
def expressions : RuleLanguage Condition where
  compile := Grimace.compile
  reads := Condition.reads
  evaluate := Condition.holds

/-- Switches by name; the first entry of a name counts, and a name without one is off. -/
abbrev Flags := List (String × Bool)

/-- The language of flags.  Any text names one, unless it starts with `!`. -/
def flags (switches : Flags) : RuleLanguage String where
  compile source :=
    if source.toList.head? = some '!' then .error (.unexpectedChar '!' 0) else .ok source
  reads _ := []
  evaluate name _ := .ok ((switches.lookup name).getD false)

end RuleLanguage

end Grimace
