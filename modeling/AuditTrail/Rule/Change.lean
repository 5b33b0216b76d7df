import AuditTrail.Rule.Basic

/-!
# Ready-made rules

Changes of a value that need no more than what the value answers for a kind, and
a few rules of a host: one that only leaves a mark in the account of a run, one
that notes where it was run, and one that refuses every property.
-/

namespace AuditTrail

namespace ValueChange

/-- The value itself, as what it answered. -/
def echo (kind : ValueKind) : Option kind.Carrier → FieldValue := kind.toField?

/-- Whether there was an answer. -/
def presence {α : Type} : Option α → FieldValue
  | some _ => .text "cast"
  | none => .text "absent"

/-- The same value for every answer. -/
def constant {α : Type} (v : FieldValue) : Option α → FieldValue := fun _ => v

/-- Twice the number. -/
def doubled : Option Float → FieldValue
  | some f => .float (f * 2)
  | none => .null

/-- The nearest whole number; a half goes away from zero. -/
def rounded : Option Float → FieldValue
  | some f => .float f.round
  | none => .null

/-- The number after; the greatest is followed by the least. -/
def incremented : Option Int64 → FieldValue
  | some i => .int (i + 1)
  | none => .null

/-- The text with the letters of ASCII in upper case. -/
def upperCased : Option String → FieldValue
  | some s => .text (s.map Char.toUpper)
  | none => .null

end ValueChange

namespace SingleRule

/-- Hands everything on and leaves a mark in the account of the run. -/
def marking (label : String) : SingleRule :=
  .custom label fun _ input => .ok (some input)

/-- Replaces the value by where the rule was run: the entity type, the property,
and the name it then had. -/
def noting : SingleRule :=
  .custom "note" fun context input =>
    .ok (some ⟨input.name,
      .text (context.entityType ++ "/" ++ context.property ++ "/" ++
        input.name)⟩)

/-- Refuses every property with a reason. -/
def refusing (reason : String) : SingleRule :=
  .custom "refuse" fun _ _ => .error (.config (.reported reason))

/-- Whether this is a rule of the host with the given label. -/
def isLabelled (label : String) : SingleRule → Bool
  | custom l _ => l == label
  | _ => false

end SingleRule

/-- How often a run ran a rule of the host with the given label. -/
def RuleRun.count (run : RuleRun) (label : String) : Nat :=
  (run.ran.filter (SingleRule.isLabelled label)).length

namespace Decryption

/-- Decrypts by looking the bytes up; bytes that are not in the table have no
plain text. -/
def ofTable (table : List (List UInt8 × String)) : Decryption :=
  ⟨fun bytes _ => .ok (bytes.bind fun bs => table.lookup bs)⟩

/-- Fails on everything, also on no bytes. -/
def failing (reason : String) : Decryption :=
  ⟨fun _ _ => .error (.decryption (.reported reason))⟩

end Decryption
end AuditTrail
