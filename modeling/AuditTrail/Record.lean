import AuditTrail.Entity
import AuditTrail.Value.Properties

/-!
# Audit records

A record tells what happened to one entity. It comes into being in two steps. A
*capture* is taken before the physical write, when the changed values are known
but a new row has no key yet; an *audit record* is what becomes of the capture
after the write. Both tell the same change; they differ in the entity's key text
alone, which a record of a creation takes from the row just written, and any
other record from the capture.
-/

namespace AuditTrail

/-- The identity of a record, which its capture already has. -/
structure RecordId where
  uuid : Uuid
  deriving DecidableEq

/-- What happened to an entity, apart from its key. -/
structure Change where
  id : RecordId
  entity : EntityRef
  action : AuditAction
  entityName : String
  properties : TrackedProperties
  dataJson : String
  permission : String
  timestamp : Instant

/-- A change before the physical write, with the key text the entity has by
then. A creation has none. -/
structure Capture extends Change where
  entityId : Option String

/-- A change after the physical write, with the key text of the entity. -/
structure AuditRecord extends Change where
  entityId : Option String

/-- The record that a capture becomes, given the key text that the entity has
after the write. -/
def Capture.promote (capture : Capture) (written : Option String) :
    AuditRecord :=
  { capture.toChange with
    entityId := match capture.action with
      | .create => written
      | .update => capture.entityId
      | .delete => capture.entityId }

/-- A member of a JSON object: its name and the text of its value. -/
def jsonMember (name : String) (value : List Char) : List Char :=
  Json.quoted name ++ ':' :: value

/-- A text that may be missing, as JSON. -/
def jsonTextOrNull : Option String → List Char
  | none => ['n', 'u', 'l', 'l']
  | some s => Json.quoted s

/-- The JSON text of a change with a key text. The reference to the entity means
nothing outside its unit of work and is left out. -/
def Change.jsonChars (change : Change) (entityId : Option String) : List Char :=
  '\x7b' :: jsonMember "uniqueId" (Json.quoted change.id.uuid.text)
    ++ ',' :: jsonMember "action" (Json.quoted change.action.name)
    ++ ',' :: jsonMember "entityName" (Json.quoted change.entityName)
    ++ ',' :: jsonMember "entityId" (jsonTextOrNull entityId)
    ++ ',' :: jsonMember "modifiedProperties" change.properties.jsonChars
    ++ ',' :: jsonMember "dataJson" (Json.quoted change.dataJson)
    ++ ',' :: jsonMember "requiredReadPermission"
      (Json.quoted change.permission)
    ++ ',' :: jsonMember "timestamp" (Json.quoted change.timestamp.text)
    ++ ['\x7d']

/-- The JSON text of a capture. -/
def Capture.jsonText (capture : Capture) : String :=
  String.ofList (capture.toChange.jsonChars capture.entityId)

/-- The JSON text of a record. -/
def AuditRecord.jsonText (record : AuditRecord) : String :=
  String.ofList (record.toChange.jsonChars record.entityId)

end AuditTrail
