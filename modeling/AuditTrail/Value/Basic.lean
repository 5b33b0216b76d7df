import AuditTrail.Calendar.Instant
import AuditTrail.Json.Printer
import AuditTrail.Text.Base64
import AuditTrail.Uuid

/-!
# Field values

What a property of a tracked entity holds. A field value has two texts: its key
text, which names a row, and its JSON, which goes into the record. Null has no
key text, so a row without a key has no name.
-/

namespace AuditTrail

/-- The value of a property. -/
inductive FieldValue where
  | null
  | bool (b : Bool)
  | int (i : Int64)
  | float (f : Float)
  | text (s : String)
  | bytes (bs : List UInt8)
  | timestamp (t : Instant)
  | uuid (u : Uuid)
  | json (j : Json)

namespace FieldValue

instance : Inhabited FieldValue := ⟨null⟩

/-- The name of the kind of a value, as error messages give it. -/
def typeName : FieldValue → String
  | null => "null"
  | bool _ => "bool"
  | int _ => "int"
  | float _ => "float"
  | text _ => "text"
  | bytes _ => "bytes"
  | timestamp _ => "timestamp"
  | uuid _ => "uuid"
  | json _ => "json"

/-- Whether there is no value. -/
def isNull : FieldValue → Bool
  | null => true
  | _ => false

/-- Equality of values of one kind. Doubles compare as numbers, so the value
that is not a number differs from itself. -/
def same : FieldValue → FieldValue → Bool
  | null, null => true
  | bool a, bool b => a == b
  | int a, int b => a == b
  | float a, float b => a == b
  | text a, text b => a == b
  | bytes a, bytes b => a == b
  | timestamp a, timestamp b => a == b
  | uuid a, uuid b => a == b
  | json a, json b => a == b
  | _, _ => false

instance : BEq FieldValue := ⟨same⟩

/-- The text that names a row by this value, or none for a row without a key. -/
def keyText? : FieldValue → Option String
  | null => none
  | bool true => some "true"
  | bool false => some "false"
  | int i => some (String.ofList (Digits.ofInt i.toInt))
  | float f => some (String.ofList (floatKeyText f))
  | text s => some s
  | bytes bs => some (String.ofList (Base64.encode bs))
  | timestamp t => some t.text
  | uuid u => some u.text
  | json j => some j.text

/-- The value as JSON: numbers, booleans and null as themselves, JSON unchanged,
and everything else as its key text. A double without a number is null. -/
def toJson : FieldValue → Json
  | null => .null
  | bool b => .bool b
  | int i => .int i.toInt
  | float f => if f.isFinite then .float f else .null
  | text s => .string s
  | bytes bs => .string (String.ofList (Base64.encode bs))
  | timestamp t => .string t.text
  | uuid u => .string u.text
  | json j => j

/-- The JSON text that a value is written as. It is produced from the value
directly, without its JSON in between. -/
def jsonChars : FieldValue → List Char
  | null => ['n', 'u', 'l', 'l']
  | bool true => ['t', 'r', 'u', 'e']
  | bool false => ['f', 'a', 'l', 's', 'e']
  | int i => Digits.ofInt i.toInt
  | float f => Json.floatChars f
  | text s => Json.quoted s
  | bytes bs => Json.quoted (String.ofList (Base64.encode bs))
  | timestamp t => Json.quoted t.text
  | uuid u => Json.quoted u.text
  | json j => j.chars

/-- The JSON text that a value is written as. -/
def jsonText (v : FieldValue) : String := String.ofList v.jsonChars

end FieldValue
end AuditTrail
