import Grimace.Text.Blank

/-!
# Grimace.Text.Lines

Bytes cut into lines of text.  A line ends with a line feed, before which a carriage
return goes too; the last line may lack its end.  Each line is read as UTF-8 on its
own, so bytes that are no text spoil their line and no other.
-/

namespace Grimace.Text

/-- Bytes up to and behind the first line feed, which is cut out. -/
def splitLine : List UInt8 → List UInt8 × Option (List UInt8)
  | [] => ([], none)
  | b :: bs =>
    if b = 10 then ([], some bs)
    else
      let (line, rest) := splitLine bs
      (b :: line, rest)

/-- A line without a carriage return at its end. -/
def dropReturn (line : List UInt8) : List UInt8 :=
  if line.getLast? = some 13 then line.dropLast else line

/-- Bytes cut into lines; `fuel` is at least the number of bytes. -/
def byteLines : (fuel : Nat) → List UInt8 → List (List UInt8)
  | 0, _ => []
  | _ + 1, [] => []
  | fuel + 1, bs =>
    match splitLine bs with
    | (line, some rest) => dropReturn line :: byteLines fuel rest
    | (line, none) => [line]

/-- The lines of a sequence of bytes; a line that is no text is `none`. -/
def lines (bytes : ByteArray) : List (Option String) :=
  (byteLines bytes.size bytes.toList).map fun line => String.fromUTF8? ⟨line.toArray⟩

end Grimace.Text
