import Grimace.Json.Draft

/-!
# Grimace.Json.Decode

Values read out of drafts.

A draft is looked at from front to back and the first fault is the answer: the text
is no JSON there (`malformed`), or it is JSON of another shape than is asked for
(`mismatched`).  A value that nobody asks for is passed over; it only has to be free
of broken places.

A record is written as an object of its fields in any order, or as a list of them in
their own order.  A key that no field has is passed over, and a key that comes twice
is a mismatch.
-/

namespace Grimace.Json

/-- Why no value is read. -/
inductive Fault where
  /-- The text is no JSON. -/
  | malformed
  /-- The text is JSON of another shape. -/
  | mismatched
deriving Repr, DecidableEq

/-- Reads a value of one type. -/
abbrev Decoder (α : Type) := Draft → Except Fault α

/-! ## Drafts as a whole -/

mutual

/-- The draft has no broken place. -/
def Draft.isWhole : Draft → Bool
  | .broken => false
  | .array items => items.isWhole
  | .object members => members.isWhole
  | _ => true
termination_by structural d => d

/-- The list has no broken place. -/
def Draft.Items.isWhole : Draft.Items → Bool
  | .closed => true
  | .broken => false
  | .cons item rest => item.isWhole && rest.isWhole
termination_by structural d => d

/-- The object has no broken place. -/
def Draft.Members.isWhole : Draft.Members → Bool
  | .closed => true
  | .broken => false
  | .cons _ value rest => value.isWhole && rest.isWhole
termination_by structural d => d

end

/-- The deepest nesting of lists and objects in a value that is asked for. -/
def maxDepth : Nat := 127

mutual

/-- The draft stands for a value: whole, with numbers in range and strings of
characters, and nested in at most `room` levels. -/
def Draft.isSound (room : Nat) : Draft → Bool
  | .broken => false
  | .number l => l.float?.isSome
  | .string s => s.isSome
  | .array items => room != 0 && items.isSound (room - 1)
  | .object members => room != 0 && members.isSound (room - 1)
  | _ => true
termination_by structural d => d

/-- Every item stands for a value. -/
def Draft.Items.isSound (room : Nat) : Draft.Items → Bool
  | .closed => true
  | .broken => false
  | .cons item rest => item.isSound room && rest.isSound room
termination_by structural d => d

/-- Every member stands for a value under a key of characters. -/
def Draft.Members.isSound (room : Nat) : Draft.Members → Bool
  | .closed => true
  | .broken => false
  | .cons key value rest => key.isSome && value.isSound room && rest.isSound room
termination_by structural d => d

end

namespace Decode

/-! ## Single values -/

/-- The fault of a value of another kind than is asked for.  A leaf is read before its
kind counts. -/
def misfit : Draft → Fault
  | .broken => .malformed
  | .string none => .malformed
  | .number l => if l.float?.isSome then .mismatched else .malformed
  | _ => .mismatched

/-- A text. -/
def string : Decoder String
  | .string (some s) => .ok s
  | d => .error (misfit d)

/-- A truth value. -/
def boolean : Decoder Bool
  | .boolean b => .ok b
  | d => .error (misfit d)

/-- A number as a double. -/
def float : Decoder Float
  | .number l =>
    match l.float? with
    | some x => .ok x
    | none => .error .malformed
  | d => .error (misfit d)

/-- A whole number from `low` to below `high`. -/
def integer (low high : Int) : Decoder Int
  | .number l =>
    match l.integer? with
    | some n => if low ≤ n ∧ n < high then .ok n else .error .mismatched
    | none => .error (misfit (.number l))
  | d => .error (misfit d)

/-- A number of eight bits. -/
def uint8 : Decoder UInt8 := fun d => do return UInt8.ofNat (← integer 0 UInt8.size d).toNat

/-- A number of sixty-four bits. -/
def uint64 : Decoder UInt64 := fun d => do return UInt64.ofNat (← integer 0 UInt64.size d).toNat

/-- An index. -/
def index : Decoder Nat := fun d => do return (← integer 0 UInt64.size d).toNat

/-- A number of thirty-two bits with a sign. -/
def int32 : Decoder Int32 := fun d => do
  return Int32.ofInt (← integer Int32.minValue.toInt (Int32.maxValue.toInt + 1) d)

/-- A value, or `null` for none. -/
def optional {α : Type} (decode : Decoder α) : Decoder (Option α)
  | .null => .ok none
  | d => some <$> decode d

/-- One of several names.  The name may also stand as the only key of an object, with
`null`. -/
def oneOf {α : Type} (name? : String → Option α) : Decoder α
  | .string (some s) =>
    match name? s with
    | some a => .ok a
    | none => .error .mismatched
  | .object (.cons (some s) .null .closed) =>
    match name? s with
    | some a => .ok a
    | none => .error .mismatched
  | d => .error (misfit d)

/-! ## Lists -/

/-- The items of a list. -/
def items {α : Type} (decode : Decoder α) : Draft.Items → Except Fault (List α)
  | .closed => .ok []
  | .broken => .error .malformed
  | .cons item rest => do
    let a ← decode item
    let as ← items decode rest
    return a :: as

/-- A list. -/
def list {α : Type} (decode : Decoder α) : Decoder (List α)
  | .array rest => items decode rest
  | d => .error (misfit d)

/-- The members of an object, in order. -/
def members {α : Type} (decode : Decoder α) : Draft.Members → Except Fault (List (String × α))
  | .closed => .ok []
  | .broken | .cons none _ _ => .error .malformed
  | .cons (some key) value rest => do
    let a ← decode value
    let as ← members decode rest
    return (key, a) :: as

/-- An object of any keys. -/
def object {α : Type} (decode : Decoder α) : Decoder (List (String × α))
  | .object rest => members decode rest
  | d => .error (misfit d)

/-! ## Records -/

/-- A field of records of type `α`. -/
structure RecordField (α : Type) where
  key : String
  /-- The field may be missing in an object. -/
  optional : Bool
  /-- The field may be missing at the end of a list. -/
  droppable : Bool
  /-- Reads the field's value into a record. -/
  put : Draft → α → Except Fault α

namespace RecordField

variable {α β : Type}

/-- Reads a value and puts it into a record. -/
def putting (decode : Decoder β) (set : β → α → α) : Draft → α → Except Fault α := fun d a => do
  return set (← decode d) a

/-- A field that has to be there. -/
def required (key : String) (decode : Decoder β) (set : β → α → α) : RecordField α :=
  ⟨key, false, false, putting decode set⟩

/-- A field that may be missing, and then keeps the value of a blank record. -/
def defaulted (key : String) (decode : Decoder β) (set : β → α → α) : RecordField α :=
  ⟨key, true, true, putting decode set⟩

/-- A field that may be missing in an object but not in a list. -/
def nullable (key : String) (decode : Decoder β) (set : Option β → α → α) : RecordField α :=
  ⟨key, true, false, putting (Decode.optional decode) set⟩

end RecordField

section Record

variable {α : Type}

/-- Reads members into a record; `seen` are the keys of the fields that came so far. -/
def readMembers (fields : List (RecordField α)) :
    (seen : List String) → α → Draft.Members → Except Fault (List String × α)
  | seen, a, .closed => .ok (seen, a)
  | _, _, .broken => .error .malformed
  | _, _, .cons none _ _ => .error .malformed
  | seen, a, .cons (some key) value rest =>
    match fields.find? fun f => f.key == key with
    | none => if value.isWhole then readMembers fields seen a rest else .error .malformed
    | some f =>
      if seen.contains key then .error .mismatched
      else do readMembers fields (key :: seen) (← f.put value a) rest

/-- Reads items into the fields of a record, in order. -/
def readItems : List (RecordField α) → α → Draft.Items → Except Fault α
  | f :: fields, a, .cons item rest => do readItems fields (← f.put item a) rest
  | fields, a, .closed =>
    if fields.all RecordField.droppable then .ok a else .error .mismatched
  | _, _, _ => .error .malformed

/-- Reads a record, starting with a blank one. -/
def record (fields : List (RecordField α)) (blank : α) : Decoder α
  | .object rest => do
    let (seen, a) ← readMembers fields [] blank rest
    if fields.all fun f => f.optional || seen.contains f.key then return a
    else .error .mismatched
  | .array rest => readItems fields blank rest
  | d => .error (misfit d)

end Record

/-! ## Texts -/

/-- Reads a text that holds one value and nothing behind it. -/
def ofText {α : Type} (decode : Decoder α) (text : String) : Except Fault α := do
  let (d, rest) := Draft.read text
  let a ← decode d
  if (Draft.skip rest).isEmpty then return a else .error .malformed

/-- Reads the value at the front of a text, whatever stands behind it. -/
def ofFront {α : Type} (decode : Decoder α) (text : String) : Except Fault α :=
  decode (Draft.read text).1

end Decode

end Grimace.Json
