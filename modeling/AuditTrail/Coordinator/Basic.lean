import AuditTrail.Coordinator.Capture

/-!
# The coordinator

A coordinator serves a unit of work. The host tells it before every attempt to
flush, after every flush that happened or failed, and when the transaction
around the unit of work is about to be committed or has ended.

Records captured outside a transaction are delivered as soon as the flush is
finished. Records captured inside a transaction wait in the batch and are
delivered once, when it commits, or dropped when it does not. If it is set up
to, the coordinator opens a transaction for a flush outside of any and settles
it itself: with a commit when the flush is finished, with a rollback when it
failed.

Failures of the consumer are logged and go no further. A cancelled token keeps a
call from beginning; cancelled later, it changes nothing but the result of the
call.
-/

namespace AuditTrail.Coordinator

open Coordinating

/-! ## Pieces -/

/-- The result of a call that has done its work: an error if the token was
cancelled meanwhile. -/
def checkCancelled : Coordinating Outcome := do
  if ← ask .isCancelled then return .error .cancelled else return .ok ()

/-- Enters a phase. -/
def enter (phase : LifecyclePhase) : Coordinating Unit :=
  change fun s => { s with phase := phase }

/-- Delivers records, if there are any. -/
def dispatch (records : List AuditRecord) : Coordinating Unit := do
  if records.isEmpty then return ()
  match ← call (.consume records) with
  | .ok () => log (.delivered records.length)
  | .error e => log (.deliveryFailed records.length e)

/-- Announces records that are about to be committed, if there are any. -/
def announce (records : List AuditRecord) (event : TransactionEvent) :
    Coordinating Unit := do
  if records.isEmpty then return ()
  match ← call (.preCommit records event) with
  | .ok () => return ()
  | .error e => log (.preCommitHookFailed event.contextId e)

/-- Reports how a transaction ended. -/
def report (event : TransactionEvent) (status : TransactionStatus) :
    Coordinating Unit := do
  match ← call (.finished event status) with
  | .ok () => return ()
  | .error e => log (.finishedHookFailed event.contextId status e)

/-- Takes a transaction over as one to be settled. One that was still owned is
let go unsettled. -/
def own (tx : TransactionId) : Coordinating Unit := do
  let s ← state
  change fun s => { s with owned := some tx, transactionPhase := .opened }
  match s.owned with
  | none => return ()
  | some earlier => log (.ownReleasedUnsettled earlier)

/-! ## Settling an owned transaction -/

/-- Rolls the owned transaction back, if there is one. The batch is dropped
whether or not the rollback succeeds. -/
def releaseOwned (context : String) : Coordinating Unit := do
  let s ← state
  match s.owned with
  | none => return ()
  | some tx =>
    change fun s => { s with owned := none }
    let phase ← match ← call (.rollback tx) with
      | .ok () => do
        log (.ownRolledBack tx)
        pure TransactionPhase.rolledBack
      | .error e => do
        log (.ownRollbackFailed tx e)
        pure TransactionPhase.failed
    change fun s =>
      { s with settled := some tx, transactionPhase := phase, batch := [] }
    report ⟨context, some tx⟩ .rolledBack

/-- Lets the commit in progress end in a phase. Tells whether the transaction
was still owned; otherwise a notice of the host settled it first. -/
def finishOwned (phase : TransactionPhase) : Coordinating Bool := do
  let s ← state
  match s.owned with
  | none =>
    change fun s => { s with commitInProgress := false }
    return false
  | some tx =>
    change fun s =>
      { s with commitInProgress := false, owned := none, settled := some tx,
               transactionPhase := phase }
    return true

/-- Commits the owned transaction and delivers its batch. A commit that fails is
rolled back and its batch dropped. Once committed the batch is delivered even if
the token was cancelled meanwhile. -/
def commitOwned (context : String) (tx : TransactionId) :
    Coordinating Unit := do
  let event : TransactionEvent := ⟨context, some tx⟩
  let s ← state
  let batch := s.batch
  change fun s =>
    { s with commitInProgress := true, transactionPhase := .committing,
             batch := [] }
  announce batch event
  match ← call (.commit tx) with
  | .ok () =>
    log (.ownCommitted tx)
    let settledHere ← finishOwned .committed
    dispatch batch
    if settledHere then report event .committed
  | .error e =>
    log (.ownCommitFailed tx e batch.length)
    let phase ← match ← call (.rollback tx) with
      | .ok () => pure TransactionPhase.rolledBack
      | .error e => do
        log (.rollbackAfterCommitFailed tx e)
        pure TransactionPhase.failed
    let settledHere ← finishOwned phase
    if settledHere then report event .failed

/-! ## Around a flush -/

/-- Opens a transaction and owns it. If the token was cancelled while it was
opened, it is rolled back again. -/
def openOwned (context : String) : Coordinating Outcome := do
  match ← call .begin with
  | .error e => return .error e
  | .ok tx =>
    log (.autoOpened context tx)
    own tx
    if ← ask .isCancelled then
      releaseOwned context
      return .error .cancelled
    else return .ok ()

/-- Notes the transaction around the unit of work, or opens one if there is none
and it should be. -/
def joinTransaction (settings : CoordinatorSettings) (context : String) :
    Coordinating Outcome := do
  match ← ask .currentTransaction with
  | some _ =>
    change fun s =>
      if s.transactionPhase = .committing then s
      else { s with transactionPhase := .opened }
    return .ok ()
  | none =>
      if settings.options.autoOpenTransaction then openOwned context
      else return .ok ()

/-- Captures the changes of a unit of work before a flush. Another capture of
the same changes replaces the earlier one. A failure leaves the pending captures
as they were. -/
def startCollecting (settings : CoordinatorSettings) (context : String) :
    Coordinating Outcome := do
  if ← ask .isCancelled then return .error .cancelled
  let s ← state
  if s.commitInProgress then
    log (.captureSkipped context)
    return .ok ()
  enter .capturing
  let captured ← match ← joinTransaction settings context with
    | .error e => pure (.error e)
    | .ok () => capture settings
  match captured with
  | .error e =>
    enter .idle
    return .error e
  | .ok captures =>
    change fun s =>
      { s with captures := CoordinatorState.mergeCaptures s.captures captures,
               phase := .awaitingWrite }
    let s ← state
    log (.captured context captures.length s.captures.length)
    return .ok ()

/-- Delivers records outside a transaction. A batch whose transaction ended
without notice is dropped. -/
def deliverNow (context : String) (records : List AuditRecord) :
    Coordinating Unit := do
  let s ← state
  change fun s => { s with phase := .immediateDispatch, batch := [] }
  if !s.batch.isEmpty then log (.staleBatchDiscarded context s.batch.length)
  dispatch records

/-- Adds records to the batch of the transaction around the unit of work, and
commits the transaction if it is owned. -/
def joinBatch (context : String) (tx : TransactionId)
    (records : List AuditRecord) : Coordinating Unit := do
  change fun s =>
    { s with
      phase := .batching
      batch := s.batch ++ records
      transactionPhase :=
        if s.transactionPhase = .inactive then .opened else s.transactionPhase }
  let s ← state
  log (.batched context tx s.batch.length)
  if s.owned = some tx then commitOwned context tx

/-- Turns the captures into records after a flush and delivers or batches
them. -/
def finish (context : String) : Coordinating Outcome := do
  if ← ask .isCancelled then return .error .cancelled
  let s ← state
  if s.commitInProgress then
    log (.finishSkipped context)
    return .ok ()
  change fun s => { s with phase := .reconciling, captures := [] }
  let records ← promoteAll s.captures
  match ← ask .currentTransaction with
  | none => deliverNow context records
  | some tx => joinBatch context tx records
  enter .idle
  checkCancelled

/-- Drops the captures of a flush that did not happen and rolls the owned
transaction back. -/
def abandonFlush (context : String) (reason : FlushFailure) :
    Coordinating Outcome := do
  if ← ask .isCancelled then return .error .cancelled
  let s ← state
  change fun s => { s with captures := [], phase := .idle }
  log (.capturesDiscarded context reason s.captures.length)
  releaseOwned context
  checkCancelled

/-! ## Notices about the transaction -/

/-- Announces the batch to the consumer before the host commits. What is batched
meanwhile goes behind it. -/
def transactionCommitting (event : TransactionEvent) :
    Coordinating Outcome := do
  if ← ask .isCancelled then return .error .cancelled
  let s ← state
  if s.commitInProgress then return .ok ()
  change fun s => { s with transactionPhase := .committing, batch := [] }
  announce s.batch event
  change fun after => { after with batch := s.batch ++ after.batch }
  checkCancelled

/-- Whether a notice is about the transaction that the coordinator settled
last. -/
def isSettled (event : TransactionEvent) : Coordinating Bool := do
  let s ← state
  match s.settled, event.transaction with
  | some settled, some tx =>
    if settled = tx then
      log (.alreadySettled tx)
      return true
    else return false
  | _, _ => return false

/-- The state after a notice that a transaction has ended: if it was the owned
one, it is settled. -/
def settleOwned (event : TransactionEvent) (s : CoordinatorState) :
    CoordinatorState :=
  match s.owned, event.transaction with
  | some owned, some tx =>
      if owned = tx then { s with owned := none, settled := some owned } else s
  | _, _ => s

/-- Delivers the batch after the host committed. -/
def transactionCommitted (event : TransactionEvent) : Coordinating Outcome := do
  if ← ask .isCancelled then return .error .cancelled
  if ← isSettled event then return .ok ()
  let s ← state
  change fun s =>
    { settleOwned event s with transactionPhase := .committed, batch := [] }
  dispatch s.batch
  report event .committed
  checkCancelled

/-- Drops the batch after a transaction ended in another way. -/
def discardBatch (event : TransactionEvent) (status : TransactionStatus) :
    Coordinating Outcome := do
  if ← ask .isCancelled then return .error .cancelled
  if ← isSettled event then return .ok ()
  let s ← state
  change fun s =>
    { settleOwned event s with
      transactionPhase := if status = .failed then .failed else .rolledBack
      batch := [] }
  log (.batchDiscarded event.contextId status s.batch.length)
  report event status
  checkCancelled

/-- Drops the batch after the host rolled back. -/
def transactionRolledBack (event : TransactionEvent) : Coordinating Outcome :=
  discardBatch event .rolledBack

/-- Drops the batch after a commit of the host failed. -/
def transactionFailed (event : TransactionEvent) : Coordinating Outcome :=
  discardBatch event .failed

/-- Drops the pending captures. -/
def clearCaptures : Coordinating Unit :=
  change fun s => { s with captures := [] }

/-- Drops the batch. -/
def clearBatch : Coordinating Unit := change fun s => { s with batch := [] }

end AuditTrail.Coordinator

namespace AuditTrail

/-! ## The calls of a host -/

/-- What a host may tell a coordinator. The first four are about the unit of
work with the given context. -/
inductive HostCall where
  | startCollecting (context : String)
  | finish (context : String)
  | saveFailed (context : String)
  | saveCanceled (context : String)
  | transactionCommitting (event : TransactionEvent)
  | transactionCommitted (event : TransactionEvent)
  | transactionRolledBack (event : TransactionEvent)
  | transactionFailed (event : TransactionEvent)
  | clearCaptures
  | clearBatch

/-- What a coordinator does when a host tells it something. -/
def Coordinator.serve (settings : CoordinatorSettings) :
    HostCall → Coordinating Outcome
  | .startCollecting context => startCollecting settings context
  | .finish context => finish context
  | .saveFailed context => abandonFlush context .failed
  | .saveCanceled context => abandonFlush context .canceled
  | .transactionCommitting event => transactionCommitting event
  | .transactionCommitted event => transactionCommitted event
  | .transactionRolledBack event => transactionRolledBack event
  | .transactionFailed event => transactionFailed event
  | .clearCaptures => do
    clearCaptures
    return .ok ()
  | .clearBatch => do
    clearBatch
    return .ok ()

/-- What the log is told when a coordinator is let go. -/
def CoordinatorState.release (s : CoordinatorState) : List LogEvent :=
  s.owned.toList.map LogEvent.ownReleasedUnsettled

end AuditTrail
