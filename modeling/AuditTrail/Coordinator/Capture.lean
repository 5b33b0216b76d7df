import AuditTrail.Coordinator.Exchange

/-!
# Capturing changes

What a snapshot amounts to under the rules. An entry is *audited* if its type
has rules in any scope and it is not unchanged. Each audited entry must be in a
state that is written, must have rules in the scope of the coordinator, and its
properties must pass the rules; the first entry that fails, in this order of
reasons, fails the whole capture.

A creation records all properties, any other change those that were changed, and
none records the key. The key of an entity is asked for now unless it is only
about to be created, since a deleted row may lose it once it is written.
-/

namespace AuditTrail

/-- What is recorded of an entry, before anyone is asked for its key. -/
structure PlannedCapture where
  action : AuditAction
  entityName : String
  permission : String
  properties : TrackedProperties

namespace CoordinatorSettings

/-- Whether an entry is audited. -/
def audits (settings : CoordinatorSettings) (entry : TrackedEntry) : Bool :=
  settings.registry.isTracked entry.entityType && entry.state != .unchanged

end CoordinatorSettings

namespace EntityRule

/-- Whether a property of an entry is recorded. -/
def isEligible (action : AuditAction) (property : PropertyEntry) : Bool :=
  !property.isPrimaryKey && (action == .create || property.isModified)

/-- Records properties one after the other, up to the first failure. -/
def recordAll (rule : EntityRule) :
    List PropertyEntry → TrackedProperties → Except AuditError TrackedProperties
  | [], recorded => .ok recorded
  | property :: rest, recorded =>
    match rule.record property.name property.value recorded with
    | .ok recorded => rule.recordAll rest recorded
    | .error e => .error e

end EntityRule

/-- What is recorded of an audited entry, or why it fails. -/
def CoordinatorSettings.plan (settings : CoordinatorSettings)
    (entry : TrackedEntry) : Except AuditError PlannedCapture := do
  let action ← AuditAction.ofState entry.state entry.entityType
  let rule ← settings.registry.resolve entry.entityType settings.scope
  let properties ←
    rule.recordAll (entry.properties.filter (EntityRule.isEligible action))
      TrackedProperties.empty
  return ⟨action, rule.displayName.getD entry.entityType, rule.permission,
    properties⟩

namespace Coordinating

/-- The key text of an entity at this moment. -/
def keyText (entity : EntityRef) : Coordinating (Option String) := do
  let key ← ask (.primaryKey entity)
  return key.bind FieldValue.keyText?

/-- The capture of an entry that passed the rules. -/
def captureEntry (entry : TrackedEntry) (planned : PlannedCapture) :
    Coordinating Capture := do
  let entityId ← match planned.action with
    | .create => pure none
    | .update => keyText entry.entity
    | .delete => keyText entry.entity
  let id ← ask .freshRecordId
  let timestamp ← ask .now
  return ⟨⟨id, entry.entity, planned.action, planned.entityName,
    planned.properties, planned.properties.jsonText, planned.permission,
    timestamp⟩, entityId⟩

/-- The captures of the audited entries of a snapshot, or the first failure. -/
def captureAll (settings : CoordinatorSettings) :
    List TrackedEntry → Coordinating (Except AuditError (List Capture))
  | [] => return .ok []
  | entry :: rest =>
    if settings.audits entry then
      match settings.plan entry with
      | .error e => return .error e
      | .ok planned => do
        let capture ← captureEntry entry planned
        match ← captureAll settings rest with
        | .error e => return .error e
        | .ok captures => return .ok (capture :: captures)
    else captureAll settings rest

/-- The captures of the snapshot that the unit of work reports now. -/
def capture (settings : CoordinatorSettings) :
    Coordinating (Except AuditError (List Capture)) := do
  let entries ← ask .entries
  captureAll settings entries

/-- The record that a capture becomes. The key of a created entity is asked
for. -/
def promote (capture : Capture) : Coordinating AuditRecord := do
  match capture.action with
  | .create =>
    let key ← keyText capture.entity
    return capture.promote key
  | .update => return capture.promote none
  | .delete => return capture.promote none

/-- The records that captures become, in their order. -/
def promoteAll : List Capture → Coordinating (List AuditRecord)
  | [] => return []
  | capture :: rest => do
    let record ← promote capture
    let records ← promoteAll rest
    return record :: records

end Coordinating
end AuditTrail
