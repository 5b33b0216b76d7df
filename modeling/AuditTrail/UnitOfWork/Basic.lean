import AuditTrail.Entity
import AuditTrail.Value.Basic

/-!
# What a unit of work reports

The snapshot of tracked entities that a host gives, whatever does the tracking.
-/

namespace AuditTrail

/-- A property of a tracked entity: its value, whether the unit of work changed
it, and whether it belongs to the key. -/
structure PropertyEntry where
  name : String
  value : FieldValue
  isModified : Bool
  isPrimaryKey : Bool

/-- A tracked entity. -/
structure TrackedEntry where
  entity : EntityRef
  entityType : String
  state : EntityState
  properties : List PropertyEntry

end AuditTrail
