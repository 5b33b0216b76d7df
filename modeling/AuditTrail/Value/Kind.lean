import AuditTrail.Value.Basic

/-!
# Kinds of values

The types that a rule may ask a value for, and what it then gets. A value
answers only for its own kind, with two exceptions: an integer also answers as a
double, and every value answers as JSON.
-/

namespace AuditTrail

/-- A type that a value may be asked for. -/
inductive ValueKind where
  | bool
  | int
  | float
  | text
  | bytes
  | timestamp
  | uuid
  | json
  deriving DecidableEq, Repr

namespace ValueKind

/-- The values of a kind. -/
abbrev Carrier : ValueKind → Type
  | bool => Bool
  | int => Int64
  | float => Float
  | text => String
  | bytes => List UInt8
  | timestamp => Instant
  | uuid => Uuid
  | json => Json

/-- A value of a kind as a field value. -/
def toField : (kind : ValueKind) → kind.Carrier → FieldValue
  | bool, b => .bool b
  | int, i => .int i
  | float, f => .float f
  | text, s => .text s
  | bytes, bs => .bytes bs
  | timestamp, t => .timestamp t
  | uuid, u => .uuid u
  | json, j => .json j

/-- A value of a kind, if there is one, as a field value, which is null
otherwise. -/
def toField? (kind : ValueKind) : Option kind.Carrier → FieldValue
  | none => .null
  | some a => kind.toField a

end ValueKind

/-- What a field value answers when it is asked for a kind. -/
def FieldValue.cast? : (kind : ValueKind) → FieldValue → Option kind.Carrier
  | .bool, .bool b => some b
  | .int, .int i => some i
  | .float, .float f => some f
  | .float, .int i => some i.toFloat
  | .text, .text s => some s
  | .bytes, .bytes bs => some bs
  | .timestamp, .timestamp t => some t
  | .uuid, .uuid u => some u
  | .json, v => some v.toJson
  | _, _ => none

end AuditTrail
