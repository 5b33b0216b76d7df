import AuditTrail.Error
import AuditTrail.UnitOfWork.Basic

/-!
# A unit of work in memory

A small change tracker with transactions. Entities are tracked in the order in
which they came and are known by numbers that are never used again. A flush
plays the physical write: new entities get the next integer key, deleted ones
are no longer tracked, and nothing is left to write. At most one transaction is
open; the next commit or rollback can be made to fail, a commit leaving the
transaction open and a rollback discarding it all the same.
-/

namespace AuditTrail

/-- The name of the property that holds the key of an entity. -/
def keyProperty : String := "Id"

/-- How many transactions were opened, and how many were settled in each way. -/
structure TransactionStats where
  begun : Nat
  committed : Nat
  rolledBack : Nat
  deriving DecidableEq, Repr

/-- An entity in memory. -/
structure MemoryEntity where
  entity : EntityRef
  entityType : String
  state : EntityState
  key : FieldValue
  properties : List PropertyEntry

/-- A unit of work in memory. -/
structure MemoryUnitOfWork where
  contextId : String
  entities : List MemoryEntity
  nextRef : Nat
  nextKey : Int64
  transaction : Option TransactionId
  commitFailureArmed : Bool
  rollbackFailureArmed : Bool
  stats : TransactionStats

namespace MemoryEntity

/-- The properties with one set to a value. A property that is not there yet is
added at the end. -/
def setProperty (name : String) (value : FieldValue) :
    List PropertyEntry → List PropertyEntry
  | [] => [⟨name, value, true, false⟩]
  | p :: rest =>
    if p.name = name then { p with value := value, isModified := true } :: rest
    else p :: setProperty name value rest

/-- The entity with a property set to a value. An unchanged entity becomes a
modified one. -/
def set (e : MemoryEntity) (name : String) (value : FieldValue) :
    MemoryEntity :=
  { e with
    properties := setProperty name value e.properties
    state := if e.state = .unchanged then .modified else e.state }

/-- The entity with nothing left to write. -/
def settle (e : MemoryEntity) : MemoryEntity :=
  { e with
    state := .unchanged
    properties := e.properties.map fun p => { p with isModified := false } }

/-- The entity as it is reported, its key in front of its properties. -/
def entry (e : MemoryEntity) : TrackedEntry :=
  ⟨e.entity, e.entityType, e.state,
    ⟨keyProperty, e.key, false, true⟩ :: e.properties⟩

end MemoryEntity

namespace MemoryUnitOfWork

/-- A unit of work that tracks nothing yet. -/
def new (contextId : String) : MemoryUnitOfWork :=
  ⟨contextId, [], 1, 1, none, false, false, ⟨0, 0, 0⟩⟩

/-! ## Tracking -/

/-- The tracked entity of a reference. -/
def find? (u : MemoryUnitOfWork) (e : EntityRef) : Option MemoryEntity :=
  u.entities.find? fun m => m.entity = e

/-- Whether a reference is tracked. -/
def tracks (u : MemoryUnitOfWork) (e : EntityRef) : Bool := (u.find? e).isSome

/-- Tracks one more entity. -/
def track (u : MemoryUnitOfWork) (entityType : String) (state : EntityState)
    (key : FieldValue) (properties : List (String × FieldValue)) :
    EntityRef × MemoryUnitOfWork :=
  let added := state == .added
  let entity : MemoryEntity :=
    ⟨⟨u.nextRef⟩, entityType, state, key,
      properties.map fun (name, value) => ⟨name, value, added, false⟩⟩
  (⟨u.nextRef⟩,
    { u with entities := u.entities ++ [entity], nextRef := u.nextRef + 1 })

/-- Tracks a new entity, whose key the next flush assigns. -/
def add (u : MemoryUnitOfWork) (entityType : String)
    (properties : List (String × FieldValue)) : EntityRef × MemoryUnitOfWork :=
  u.track entityType .added .null properties

/-- Tracks a row that exists and is unchanged. -/
def attach (u : MemoryUnitOfWork) (entityType : String) (key : FieldValue)
    (properties : List (String × FieldValue)) : EntityRef × MemoryUnitOfWork :=
  u.track entityType .unchanged key properties

/-- The list with the first entity of a reference replaced. -/
def updateFirst (e : EntityRef) (f : MemoryEntity → MemoryEntity) :
    List MemoryEntity → List MemoryEntity
  | [] => []
  | m :: rest => if m.entity = e then f m :: rest else m :: updateFirst e f rest

/-- Applies a function to a tracked entity and tells whether it was there. -/
def update (u : MemoryUnitOfWork) (e : EntityRef)
    (f : MemoryEntity → MemoryEntity) : Bool × MemoryUnitOfWork :=
  if u.tracks e then (true, { u with entities := updateFirst e f u.entities })
  else (false, u)

/-- Sets a property of a tracked entity. -/
def set (u : MemoryUnitOfWork) (e : EntityRef) (name : String)
    (value : FieldValue) : Bool × MemoryUnitOfWork :=
  u.update e fun m => m.set name value

/-- Forces the state of a tracked entity, whatever it was. -/
def setState (u : MemoryUnitOfWork) (e : EntityRef) (state : EntityState) :
    Bool × MemoryUnitOfWork :=
  u.update e fun m => { m with state := state }

/-- Marks a tracked entity for deletion. One that was never written is no longer
tracked at all. -/
def remove (u : MemoryUnitOfWork) (e : EntityRef) : Bool × MemoryUnitOfWork :=
  match u.find? e with
  | none => (false, u)
  | some m =>
    if m.state = .added then
      (true, { u with entities := u.entities.eraseP fun m => m.entity = e })
    else u.update e fun m => { m with state := .deleted }

/-! ## The physical write -/

/-- Writes entities that are not deleted: the number of rows written, the
entities afterwards and the next key. -/
def write (nextKey : Int64) :
    List MemoryEntity → Nat × List MemoryEntity × Int64
  | [] => (0, [], nextKey)
  | m :: rest =>
    match m.state with
    | .added =>
      let (n, ms, next) := write (nextKey + 1) rest
      (n + 1, { m.settle with key := .int nextKey } :: ms, next)
    | .modified =>
      let (n, ms, next) := write nextKey rest
      (n + 1, m.settle :: ms, next)
    | _ =>
      let (n, ms, next) := write nextKey rest
      (n, m :: ms, next)

/-- Writes everything there is to write and tells the number of rows. -/
def flush (u : MemoryUnitOfWork) : Nat × MemoryUnitOfWork :=
  let kept := u.entities.filter fun m => m.state != .deleted
  let (written, entities, nextKey) := write u.nextKey kept
  (u.entities.length - kept.length + written,
    { u with entities := entities, nextKey := nextKey })

/-! ## What is reported -/

/-- The snapshot of all tracked entities. -/
def entries (u : MemoryUnitOfWork) : List TrackedEntry :=
  u.entities.map MemoryEntity.entry

/-- The key of a tracked entity. -/
def primaryKey (u : MemoryUnitOfWork) (e : EntityRef) : Option FieldValue :=
  (u.find? e).map MemoryEntity.key

/-! ## Transactions -/

/-- Opens a transaction with the given identity, unless one is open. -/
def begin (u : MemoryUnitOfWork) (fresh : TransactionId) :
    Except AuditError TransactionId × MemoryUnitOfWork :=
  match u.transaction with
  | some tx => (.error (.transaction (.alreadyOpen tx)), u)
  | none =>
      (.ok fresh,
        { u with
          transaction := some fresh
          stats := { u.stats with begun := u.stats.begun + 1 } })

/-- Commits the open transaction. -/
def commit (u : MemoryUnitOfWork) (tx : TransactionId) :
    Except AuditError Unit × MemoryUnitOfWork :=
  if u.transaction ≠ some tx then (.error (.transaction (.notOpen tx)), u)
  else if u.commitFailureArmed then
    (.error (.transaction (.commitFailed tx)),
      { u with commitFailureArmed := false })
  else
    (.ok (),
      { u with
        transaction := none
        stats := { u.stats with committed := u.stats.committed + 1 } })

/-- Rolls the open transaction back. -/
def rollback (u : MemoryUnitOfWork) (tx : TransactionId) :
    Except AuditError Unit × MemoryUnitOfWork :=
  if u.transaction ≠ some tx then (.error (.transaction (.notOpen tx)), u)
  else if u.rollbackFailureArmed then
    (.error (.transaction (.rollbackFailed tx)),
      { u with transaction := none, rollbackFailureArmed := false })
  else
    (.ok (),
      { u with
        transaction := none
        stats := { u.stats with rolledBack := u.stats.rolledBack + 1 } })

/-- Makes the next commit fail. -/
def failNextCommit (u : MemoryUnitOfWork) : MemoryUnitOfWork :=
  { u with commitFailureArmed := true }

/-- Makes the next rollback fail. -/
def failNextRollback (u : MemoryUnitOfWork) : MemoryUnitOfWork :=
  { u with rollbackFailureArmed := true }

end MemoryUnitOfWork
end AuditTrail
