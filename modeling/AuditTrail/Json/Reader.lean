import AuditTrail.Decimal.Reading
import AuditTrail.Json.Basic
import AuditTrail.Json.Node

/-!
# Reading JSON values

The value that a JSON text stands for. An integer literal in the range of signed
or unsigned 64 bit numbers is an integer; every other number is the nearest
double, and one that is too large for a double has no value. Minus zero is a
double, since no integer has its sign. Of members with one name the last counts.
Containers nest at most 127 deep.
-/

namespace AuditTrail.Json

/-- The number of containers within each other that a value may not reach. -/
def depthLimit : Nat := 128

/-- The exponent that a numeral writes. -/
def Numeral.power (n : Numeral) : Int :=
  match n.exponent with
  | none => 0
  | some (true, ds) => -(Digits.value 10 ds : Int)
  | some (false, ds) => Digits.value 10 ds

/-- The nearest double of a numeral, if it is finite. -/
def Numeral.float? (n : Numeral) : Option Json :=
  let magnitude :=
    (Decimal.ofDigits n.whole (n.fraction.getD []) n.power).toFloat
  let f := if n.negative then -magnitude else magnitude
  if f.isFinite then some (.float f) else none

/-- The number that a numeral stands for. -/
def Numeral.value? (n : Numeral) : Option Json :=
  match n.fraction, n.exponent with
  | none, none =>
    let magnitude := Digits.value 10 n.whole
    if n.negative then
      if 0 < magnitude ∧ magnitude ≤ Nat.pow 2 63 then
        some (.int (-(magnitude : Int)))
      else
        n.float?
    else if magnitude < Nat.pow 2 64 then some (.int magnitude)
    else n.float?
  | _, _ => n.float?

mutual

/-- The value of a tree, within the given depth. -/
def Node.value? (depth : Nat) : Node → Option Json
  | .null => some .null
  | .bool b => some (.bool b)
  | .number n => n.value?
  | .string pieces => (textOfPieces? pieces).map .string
  | .array items =>
    if depth ≤ 1 then none else (Node.values? (depth - 1) items).map .array
  | .object members =>
    if depth ≤ 1 then none
    else (Node.namedValues? (depth - 1) members).map ofMembers

/-- The values of the items of an array. -/
def Node.values? (depth : Nat) : List Node → Option (List Json)
  | [] => some []
  | item :: rest => do
    let value ← Node.value? depth item
    let values ← Node.values? depth rest
    return value :: values

/-- The names and values of the members of an object, in the order of the
text. -/
def Node.namedValues? (depth : Nat) :
    List (List Piece × Node) → Option (List (String × Json))
  | [] => some []
  | (name, item) :: rest => do
    let name ← textOfPieces? name
    let value ← Node.value? depth item
    let values ← Node.namedValues? depth rest
    return (name, value) :: values

end

/-- The value of a whole text. -/
def ofChars? (cs : List Char) : Option Json := do
  let node ← nodeOfChars? cs
  node.value? depthLimit

/-- The value of a whole text. -/
def ofText? (s : String) : Option Json := ofChars? s.toList

end AuditTrail.Json
