/-!
# Entities

How the tracked rows of a unit of work are named, and what happens to them.
-/

namespace AuditTrail

/-- The number by which a unit of work knows a tracked entity. -/
structure EntityRef where
  number : Nat
  deriving DecidableEq, Repr

/-- The text of a reference. -/
def EntityRef.text (e : EntityRef) : String := "entity#" ++ toString e.number

/-- What a unit of work will do with an entity at its next write. -/
inductive EntityState where
  | detached
  | unchanged
  | added
  | modified
  | deleted
  deriving DecidableEq, Repr

namespace EntityState

/-- The states. -/
def all : List EntityState := [detached, unchanged, added, modified, deleted]

/-- The name of a state. -/
def name : EntityState → String
  | detached => "Detached"
  | unchanged => "Unchanged"
  | added => "Added"
  | modified => "Modified"
  | deleted => "Deleted"

end EntityState

/-- What a record says happened to an entity. -/
inductive AuditAction where
  | create
  | update
  | delete
  deriving DecidableEq, Repr

namespace AuditAction

/-- The actions. -/
def all : List AuditAction := [create, update, delete]

/-- The name of an action in JSON. -/
def name : AuditAction → String
  | create => "Create"
  | update => "Update"
  | delete => "Delete"

/-- The word for an action. -/
def word : AuditAction → String
  | create => "create"
  | update => "update"
  | delete => "delete"

/-- The action that writing an entity in a state amounts to. Entities that will
not be written have none. -/
def ofState? : EntityState → Option AuditAction
  | .added => some create
  | .modified => some update
  | .deleted => some delete
  | .detached => none
  | .unchanged => none

end AuditAction
end AuditTrail
