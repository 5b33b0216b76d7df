import AuditTrail.Record
import AuditTrail.Error
import AuditTrail.Text.Quoted

/-!
# The log

What the coordinator and a logging consumer tell a developer, as events. The
wording of an event, its level and the names of its fields are in one place;
transactions and records are named through functions that the reader of the log
chooses.
-/

namespace AuditTrail

/-- How important an event is. -/
inductive LogLevel where
  | debug
  | info
  | warn
  | error
  deriving DecidableEq, Repr

/-- The name of a level. -/
def LogLevel.name : LogLevel → String
  | debug => "DEBUG"
  | info => "INFO"
  | warn => "WARN"
  | error => "ERROR"

/-- The value of a field of an event. -/
inductive LogValue where
  | number (n : Nat)
  | text (s : String)
  deriving DecidableEq, Repr

/-- Why a flush that was announced did not happen. -/
inductive FlushFailure where
  | failed
  | canceled
  deriving DecidableEq, Repr

/-- The word for a failure. -/
def FlushFailure.name : FlushFailure → String
  | failed => "failed"
  | canceled => "canceled"

/-- An event of the log. -/
inductive LogEvent where
  | captureSkipped (context : String)
  | autoOpened (context : String) (tx : TransactionId)
  | captured (context : String) (taken pending : Nat)
  | finishSkipped (context : String)
  | staleBatchDiscarded (context : String) (dropped : Nat)
  | batched (context : String) (tx : TransactionId) (waiting : Nat)
  | delivered (count : Nat)
  | deliveryFailed (count : Nat) (error : AuditError)
  | preCommitHookFailed (context : String) (error : AuditError)
  | finishedHookFailed (context : String) (status : TransactionStatus)
      (error : AuditError)
  | alreadySettled (tx : TransactionId)
  | batchDiscarded (context : String) (status : TransactionStatus)
      (dropped : Nat)
  | ownCommitted (tx : TransactionId)
  | ownCommitFailed (tx : TransactionId) (error : AuditError) (dropped : Nat)
  | rollbackAfterCommitFailed (tx : TransactionId) (error : AuditError)
  | ownRolledBack (tx : TransactionId)
  | ownRollbackFailed (tx : TransactionId) (error : AuditError)
  | capturesDiscarded (context : String) (reason : FlushFailure) (dropped : Nat)
  /-- A transaction that the coordinator opened was let go without being
  settled. -/
  | ownReleasedUnsettled (tx : TransactionId)
  | recordShown (record : AuditRecord)
  | transactionShown (context : String) (status : TransactionStatus)

/-- How a reader of the log names transactions and records. -/
structure LogNames where
  transaction : TransactionId → String
  record : RecordId → String

namespace LogEvent

/-- The level of an event. -/
def level : LogEvent → LogLevel
  | recordShown _ => .info
  | deliveryFailed .. => .error
  | staleBatchDiscarded .. | preCommitHookFailed .. | finishedHookFailed ..
  | ownCommitFailed .. | rollbackAfterCommitFailed .. | ownRollbackFailed ..
  | ownReleasedUnsettled _ => .warn
  | _ => .debug

/-- The wording of an event. -/
def message : LogEvent → String
  | captureSkipped _ => "Capture skipped while committing"
  | autoOpened .. => "Transaction auto-opened"
  | captured .. => "Changes captured"
  | finishSkipped _ => "Finish skipped while committing"
  | staleBatchDiscarded .. =>
      "Transaction batch left without outcome, discarded"
  | batched .. => "Records batched until commit"
  | delivered _ => "Audit records delivered"
  | deliveryFailed .. => "Audit consumer failed, records dropped"
  | preCommitHookFailed .. => "Audit consumer pre-commit hook failed"
  | finishedHookFailed .. => "Audit consumer transaction hook failed"
  | alreadySettled _ => "Transaction already settled by coordinator"
  | batchDiscarded .. => "Transaction batch discarded"
  | ownCommitted _ => "Auto-opened transaction committed"
  | ownCommitFailed .. => "Auto-opened transaction commit failed, rolling back"
  | rollbackAfterCommitFailed .. => "Rollback after failed commit failed"
  | ownRolledBack _ => "Auto-opened transaction rolled back"
  | ownRollbackFailed .. => "Auto-opened transaction rollback failed"
  | capturesDiscarded .. => "Pending captures discarded"
  | ownReleasedUnsettled _ =>
      "Auto-opened transaction released without commit or rollback"
  | recordShown _ => "Audit record"
  | transactionShown .. => "Audited transaction finished"

/-- The fields of an event. -/
def fields (names : LogNames) : LogEvent → List (String × LogValue)
  | captureSkipped context => [("context_id", .text context)]
  | autoOpened context tx =>
      [("context_id", .text context),
        ("transaction", .text (names.transaction tx))]
  | captured context taken pending =>
    [("context_id", .text context), ("captured", .number taken),
      ("pending", .number pending)]
  | finishSkipped context => [("context_id", .text context)]
  | staleBatchDiscarded context dropped =>
      [("context_id", .text context), ("dropped", .number dropped)]
  | batched context tx waiting =>
    [("context_id", .text context),
      ("transaction", .text (names.transaction tx)),
      ("batched", .number waiting)]
  | delivered count => [("count", .number count)]
  | deliveryFailed count error =>
    [("count", .number count),
      ("error", .text (error.messageNaming names.transaction))]
  | preCommitHookFailed context error =>
    [("context_id", .text context),
      ("error", .text (error.messageNaming names.transaction))]
  | finishedHookFailed context status error =>
    [("context_id", .text context), ("status", .text status.name),
      ("error", .text (error.messageNaming names.transaction))]
  | alreadySettled tx => [("transaction", .text (names.transaction tx))]
  | batchDiscarded context status dropped =>
    [("context_id", .text context), ("status", .text status.name),
      ("dropped", .number dropped)]
  | ownCommitted tx => [("transaction", .text (names.transaction tx))]
  | ownCommitFailed tx error dropped =>
    [("transaction", .text (names.transaction tx)),
      ("error", .text (error.messageNaming names.transaction)),
      ("dropped", .number dropped)]
  | rollbackAfterCommitFailed tx error =>
    [("transaction", .text (names.transaction tx)),
      ("error", .text (error.messageNaming names.transaction))]
  | ownRolledBack tx => [("transaction", .text (names.transaction tx))]
  | ownRollbackFailed tx error =>
    [("transaction", .text (names.transaction tx)),
      ("error", .text (error.messageNaming names.transaction))]
  | capturesDiscarded context reason dropped =>
    [("context_id", .text context), ("reason", .text reason.name),
      ("dropped", .number dropped)]
  | ownReleasedUnsettled tx => [("transaction", .text (names.transaction tx))]
  | recordShown record =>
    [("unique_id", .text (names.record record.id)),
      ("action", .text record.action.word), ("entity", .text record.entityName),
      ("entity_id", .text (record.entityId.getD "-")),
      ("permission", .text (Quoted.text record.permission)),
      ("data", .text record.dataJson)]
  | transactionShown context status =>
      [("context_id", .text context), ("status", .text status.name)]

end LogEvent
end AuditTrail
