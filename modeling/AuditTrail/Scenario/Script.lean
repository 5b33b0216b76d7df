import AuditTrail.Consumer
import AuditTrail.Coordinator.Basic
import AuditTrail.UnitOfWork.Memory

/-!
# Scripts

A scenario is a script for a host: the rules it registers, its units of work,
and the steps it takes, one after the other. Hooks interrupt the calls of the
coordinator at named points with steps of their own, or make the call fail; that
is how a scenario reaches the coordinator while it waits for an answer.
-/

namespace AuditTrail.Scenario

/-- How a step says which transaction it means. -/
inductive TransactionName where
  /-- The one that is open on the unit of work, if any. -/
  | current
  | none
  /-- The one that was opened after so many others. -/
  | opened (earlier : Nat)
  | given (tx : TransactionId)
  deriving DecidableEq

/-- A notice about a transaction, in the context of the unit of work unless
another is given. -/
structure Notice where
  context : Option String
  transaction : TransactionName

/-- What a step does. -/
inductive Command where
  | add (entityType : String) (properties : List (String × FieldValue))
  | attach (entityType : String) (key : FieldValue)
      (properties : List (String × FieldValue))
  | set (entity : EntityRef) (name : String) (value : FieldValue)
  | remove (entity : EntityRef)
  | setState (entity : EntityRef) (state : EntityState)
  | flush
  | entries
  | primaryKey (entity : EntityRef)
  | current
  | begin
  | commit (tx : TransactionName)
  | rollback (tx : TransactionName)
  | failCommit
  | failRollback
  | stats
  /-- Lets the unit of work report other entries and other keys than it has,
  until the next such command. -/
  | override (entries : Option (List TrackedEntry))
      (keys : List (EntityRef × Option FieldValue))
  | cancel
  | start
  | finish
  | saveFailed
  | saveCanceled
  | committing (notice : Notice)
  | committed (notice : Notice)
  | rolledBack (notice : Notice)
  | failed (notice : Notice)
  | clearCaptures
  | clearBatch

/-- A step: what to do, with which unit of work, and under which cancellation
token. -/
structure Step where
  command : Command
  unit : Nat
  token : String

/-- The points at which a call of a collaborator can be interrupted. -/
inductive HookPoint where
  | beginBefore
  | beginAfter
  | commitBefore
  | commitAfter
  | rollbackBefore
  | rollbackAfter
  | consume
  | preCommit
  | finished
  deriving DecidableEq, Repr

namespace HookPoint

/-- The points. -/
def all : List HookPoint :=
  [beginBefore, beginAfter, commitBefore, commitAfter, rollbackBefore,
    rollbackAfter, consume, preCommit, finished]

/-- The name of a point. -/
def name : HookPoint → String
  | beginBefore => "begin.before"
  | beginAfter => "begin.after"
  | commitBefore => "commit.before"
  | commitAfter => "commit.after"
  | rollbackBefore => "rollback.before"
  | rollbackAfter => "rollback.after"
  | consume => "consume"
  | preCommit => "pre_commit"
  | finished => "finished"

/-- The point with a name. -/
def ofName? (s : String) : Option HookPoint := all.find? fun p => p.name == s

/-- The error that a failure at a point is reported as. -/
def failure (point : HookPoint) (reason : String) : AuditError :=
  match point with
  | consume => .consumer reason
  | preCommit => .consumer reason
  | finished => .consumer reason
  | _ => .transaction (.reported reason)

end HookPoint

/-- What a hook does: a step, or letting the interrupted call fail. -/
inductive HookAction where
  | step (step : Step)
  | fail (reason : String)

/-- The actions at a point, a list of them for each visit. -/
structure Hook where
  point : HookPoint
  visits : List (List HookAction)

/-- A script for a host. -/
structure Script where
  permissionType : String
  rules : List EntityRule
  options : AuditOptions
  scope : Option String
  contexts : List String
  consumer : ConsumerKind
  hooks : List Hook
  steps : List Step

end AuditTrail.Scenario
