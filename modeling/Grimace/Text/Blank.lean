/-!
# Grimace.Text.Blank

White space as Unicode's property `White_Space` has it, and cutting it off the
ends of a text.

The property holds twenty-five characters.  The class of core
(`Char.isWhitespace`) is a proper part of it (`isBlank_of_isWhitespace`), so a
text that looks blank on a screen counts as blank here.
-/

namespace Grimace.Text

/-- The characters with the property `White_Space`. -/
def isBlank (c : Char) : Bool :=
  let n := c.toNat
  (0x09 ≤ n && n ≤ 0x0D) || n == 0x20 || n == 0x85 || n == 0xA0 || n == 0x1680 ||
    (0x2000 ≤ n && n ≤ 0x200A) || n == 0x2028 || n == 0x2029 || n == 0x202F ||
    n == 0x205F || n == 0x3000

/-- A text without its white space at the front. -/
def trimStart (cs : List Char) : List Char := cs.dropWhile isBlank

/-- A text without its white space at the end. -/
def trimEnd (cs : List Char) : List Char := (cs.reverse.dropWhile isBlank).reverse

/-- A text without its white space at either end. -/
def trim (cs : List Char) : List Char := trimEnd (trimStart cs)

/-- A text without its white space at either end. -/
def trimmed (s : String) : String := String.ofList (trim s.toList)

/-- Nothing but white space, or nothing at all. -/
def isBlankText (s : String) : Bool := s.toList.all isBlank

/-- Core's white space is white space here. -/
theorem isBlank_of_isWhitespace {c : Char} (h : c.isWhitespace = true) : isBlank c = true := by
  simp only [Char.isWhitespace, Bool.or_eq_true, decide_eq_true_eq] at h
  rcases h with ((h | h) | h) | h <;> subst h <;> decide

end Grimace.Text
