import AuditTrail.Scenario.Script

/-!
# The world of a scenario

Everything that a scenario acts on, and the account that is kept of it.
Transactions are numbered in the order in which they are opened, on whichever
unit of work, and records in the order in which the account first names them; in
what is reported these numbers stand for the identities.
-/

namespace AuditTrail.Scenario

/-- What came of a step. -/
inductive StepResult where
  | ok
  | failed (error : AuditError)
  | truth (b : Bool)
  | reference (entity : EntityRef)
  | count (n : Nat)
  | entries (entries : List TrackedEntry)
  | key (value : Option FieldValue)
  | transaction (tx : Option TransactionId)
  | stats (stats : TransactionStats)

/-- What came of a step, and the coordinator right after it. -/
structure Snapshot where
  result : StepResult
  phase : LifecyclePhase
  transactionPhase : TransactionPhase
  captures : Nat
  batch : Nat

/-- An entry of the account of a scenario. -/
inductive TraceEntry where
  | begin (tx : TransactionId)
  | commit (tx : TransactionId)
  | rollback (tx : TransactionId)
  | consume (records : List AuditRecord) (cancelled : Bool)
  | preCommit (records : List RecordId) (event : TransactionEvent)
  | finished (event : TransactionEvent) (status : TransactionStatus)
  | hook (point : HookPoint) (did : Snapshot)

/-- A unit of work, and what it reports instead of the truth. -/
structure HostUnit where
  work : MemoryUnitOfWork
  entries : Option (List TrackedEntry)
  keys : List (EntityRef × Option FieldValue)

namespace HostUnit

/-- A unit of work that reports the truth. -/
def new (contextId : String) : HostUnit := ⟨.new contextId, none, []⟩

/-- The entries it reports. -/
def reportedEntries (u : HostUnit) : List TrackedEntry :=
  u.entries.getD u.work.entries

/-- The key it reports of an entity. -/
def reportedKey (u : HostUnit) (e : EntityRef) : Option FieldValue :=
  match u.keys.lookup e with
  | some key => key
  | none => u.work.primaryKey e

end HostUnit

/-- Everything that a scenario acts on. -/
structure World where
  settings : CoordinatorSettings
  coordinator : CoordinatorState
  units : List HostUnit
  consumer : Consumer
  hooks : List Hook
  /-- The names of the tokens that were cancelled. -/
  cancelled : List String
  /-- The number of identities given away. -/
  identities : Nat
  /-- The transactions that were opened, in their order. -/
  opened : List TransactionId
  /-- The records that the account names, in the order in which it first
  does. -/
  named : List RecordId
  trace : List TraceEntry
  log : List LogEvent

namespace World

/-- The identity given away after so many others. They differ from each other,
and their leading digits are chosen so that no script means one of them by
accident. -/
def identity (serial : Nat) : Uuid :=
  ⟨BitVec.ofNat 128 (0x9b2c6e4f51d04a7e8d3f000000000000 + serial)⟩

/-- The world before the first step. -/
def ofScript (script : Script) (registry : RuleRegistry) : World where
  settings := ⟨registry, script.options, script.scope⟩
  coordinator := .initial
  units := script.contexts.map HostUnit.new
  consumer := .ofKind script.consumer
  hooks := script.hooks
  cancelled := []
  identities := 0
  opened := []
  named := []
  trace := []
  log := []

/-- Whether a token is cancelled. -/
def isCancelled (w : World) (token : String) : Bool :=
  w.cancelled.contains token

/-- The name of a transaction: its number among those opened, or its identity if
it was not opened here. -/
def transactionName (w : World) (tx : TransactionId) : String :=
  match w.opened.idxOf? tx with
  | some i => "#" ++ toString (i + 1)
  | none => tx.uuid.text

/-- The name of a record: its number among those the account names. -/
def recordName (w : World) (id : RecordId) : String :=
  match w.named.idxOf? id with
  | some i => "u" ++ toString (i + 1)
  | none => id.uuid.text

/-- The names that the account and the log use. -/
def names (w : World) : LogNames :=
  ⟨fun tx => "tx-" ++ w.transactionName tx, w.recordName⟩

/-- The world with the names of records settled. -/
def nameRecords (w : World) (ids : List RecordId) : World :=
  { w with
    named := ids.foldl
      (fun named id => if named.contains id then named else named ++ [id])
      w.named }

/-- The world with a unit of work changed. -/
def setUnit (w : World) (unit : Nat) (u : HostUnit) : World :=
  { w with units := w.units.set unit u }

/-- The actions of the next visit of a point, and the hooks that are left after
it. -/
def takeVisit (point : HookPoint) : List Hook → List HookAction × List Hook
  | [] => ([], [])
  | hook :: rest =>
    if hook.point = point then
      match hook.visits with
      | [] => ([], hook :: rest)
      | visit :: later => (visit, { hook with visits := later } :: rest)
    else
      let (actions, rest) := takeVisit point rest
      (actions, hook :: rest)

/-- The transaction that a step means, with the unit of work whose open
transaction is the current one. -/
def resolve (w : World) (unit : HostUnit) :
    TransactionName → Option TransactionId
  | .current => unit.work.transaction
  | .none => none
  | .opened earlier => some (w.opened.getD earlier TransactionId.nil)
  | .given tx => some tx

end World
end AuditTrail.Scenario
