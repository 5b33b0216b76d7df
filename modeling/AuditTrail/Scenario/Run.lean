import AuditTrail.Rule.Scanner
import AuditTrail.Scenario.World

/-!
# Running a scenario

The host of a scenario answers the coordinator. Its units of work and its
consumer do what they do anyway; around them it writes the account and runs the
hooks. A hook may take steps that call the coordinator again, and those may be
interrupted by hooks in turn.

Steps within steps are bounded: each visit of a point uses up a list of actions,
so there are never more steps within each other than there are such lists.
`execute` takes the number of levels as its budget, and every scenario comes
with enough.
-/

namespace AuditTrail.Scenario

/-- Something the host does. -/
abbrev Host (α : Type) := StateM World α

namespace Host

/-- Adds an entry to the account. -/
def note (entry : TraceEntry) : Host Unit :=
  modify fun w => { w with trace := w.trace ++ [entry] }

/-- Tells the log. -/
def tell (events : List LogEvent) : Host Unit :=
  modify fun w => { w with log := w.log ++ events }

/-- Gives a fresh identity away. -/
def fresh : Host Uuid := do
  let w ← get
  set { w with identities := w.identities + 1 }
  return World.identity w.identities

/-- A unit of work. -/
def unit (i : Nat) : Host HostUnit := do
  let w ← get
  return w.units.getD i (.new "")

/-- Does something with a unit of work in memory. -/
def withWork {α : Type} (i : Nat)
    (f : MemoryUnitOfWork → α × MemoryUnitOfWork) : Host α := do
  let u ← unit i
  let (a, work) := f u.work
  modify fun w => w.setUnit i { u with work := work }
  return a

/-- What came of a step, with the coordinator as it is now. -/
def snapshot (result : StepResult) : Host Snapshot := do
  let c := (← get).coordinator
  return ⟨result, c.phase, c.transactionPhase, c.captures.length,
    c.batch.length⟩

/-! ## Answering the coordinator -/

/-- Runs the actions of a hook up to the first that fails. -/
def runActions (nested : Step → Host Snapshot) (point : HookPoint) :
    List HookAction → Host Outcome
  | [] => return .ok ()
  | .fail reason :: _ => return .error (point.failure reason)
  | .step step :: rest => do
    let did ← nested step
    note (.hook point did)
    runActions nested point rest

/-- Visits a point. -/
def visit (nested : Step → Host Snapshot) (point : HookPoint) :
    Host Outcome := do
  let w ← get
  let (actions, hooks) := World.takeVisit point w.hooks
  set { w with hooks := hooks }
  runActions nested point actions

/-- Opens a transaction on a unit of work, with the hooks around it. -/
def begin (nested : Step → Host Snapshot) (i : Nat) :
    Host (Except AuditError TransactionId) := do
  match ← visit nested .beginBefore with
  | .error e => return .error e
  | .ok () =>
    let id ← fresh
    match ← withWork i fun u => u.begin ⟨id⟩ with
    | .error e => return .error e
    | .ok tx =>
      modify fun w => { w with opened := w.opened ++ [tx] }
      note (.begin tx)
      match ← visit nested .beginAfter with
      | .error e => return .error e
      | .ok () => return .ok tx

/-- Settles a transaction, with the hooks around it. -/
def settle (nested : Step → Host Snapshot) (before after : HookPoint) (i : Nat)
    (f : MemoryUnitOfWork → Outcome × MemoryUnitOfWork) : Host Outcome := do
  match ← visit nested before with
  | .error e => return .error e
  | .ok () =>
    match ← withWork i f with
    | .error e => return .error e
    | .ok () => visit nested after

/-- Commits a transaction. -/
def commit (nested : Step → Host Snapshot) (i : Nat) (tx : TransactionId) :
    Host Outcome := do
  note (.commit tx)
  settle nested .commitBefore .commitAfter i fun u => u.commit tx

/-- Rolls a transaction back. -/
def rollback (nested : Step → Host Snapshot) (i : Nat) (tx : TransactionId) :
    Host Outcome := do
  note (.rollback tx)
  settle nested .rollbackBefore .rollbackAfter i fun u => u.rollback tx

/-- Hands something to the consumer, with the hook before it. -/
def deliver (nested : Step → Host Snapshot) (point : HookPoint)
    (f : Consumer → Consumer × List LogEvent) : Host Outcome := do
  match ← visit nested point with
  | .error e => return .error e
  | .ok () =>
    let w ← get
    let (consumer, events) := f w.consumer
    set { w with consumer := consumer }
    tell events
    return .ok ()

/-- Answers a call of the coordinator. -/
def answerCall (nested : Step → Host Snapshot) (i : Nat) (token : String) :
    (made : Call) → Host made.Answer
  | .begin => begin nested i
  | .commit tx => commit nested i tx
  | .rollback tx => rollback nested i tx
  | .consume records => do
    modify fun w => w.nameRecords (records.map fun r => r.id)
    note (.consume records ((← get).isCancelled token))
    deliver nested .consume fun c => c.consume records
  | .preCommit records event => do
    let ids := records.map fun r => r.id
    modify fun w => w.nameRecords ids
    note (.preCommit ids event)
    deliver nested .preCommit fun c => (c.preCommit records, [])
  | .finished event status => do
    note (.finished event status)
    deliver nested .finished fun c => c.finished event status

/-- Answers a question of the coordinator. -/
def answerQuery (i : Nat) (token : String) : (query : Query) → Host query.Answer
  | .isCancelled => return (← get).isCancelled token
  | .currentTransaction => return (← unit i).work.transaction
  | .entries => return (← unit i).reportedEntries
  | .primaryKey e => return (← unit i).reportedKey e
  | .freshRecordId => return ⟨← fresh⟩
  | .now => return Instant.epoch

/-- Holds a conversation with the coordinator to its end. -/
def converse {α : Type} (nested : Step → Host Snapshot) (i : Nat)
    (token : String) : Exchange α → Host α
  | .done state result => do
    modify fun w => { w with coordinator := state }
    return result
  | .ask query resume => do
    let answer ← answerQuery i token query
    converse nested i token (resume answer)
  | .call state made resume => do
    modify fun w => { w with coordinator := state }
    let answer ← answerCall nested i token made
    converse nested i token (resume (← get).coordinator answer)
  | .log event rest => do
    tell [event]
    converse nested i token rest

/-! ## Steps -/

/-- Calls the coordinator. -/
def callCoordinator (nested : Step → Host Snapshot) (i : Nat) (token : String)
    (made : HostCall) : Host StepResult := do
  let w ← get
  match ← converse nested i token
      (Coordinator.serve w.settings made w.coordinator) with
  | .ok () => return .ok
  | .error e => return .failed e

/-- The result of settling a transaction directly. -/
def settled : Outcome → StepResult
  | .ok () => .ok
  | .error e => .failed e

/-- The notice that a step sends. -/
def event (i : Nat) (notice : Notice) : Host TransactionEvent := do
  let u ← unit i
  let w ← get
  return ⟨notice.context.getD u.work.contextId, w.resolve u notice.transaction⟩

/-- The transaction that a step requires; none stands for the identity without
bits. -/
def required (i : Nat) (name : TransactionName) : Host TransactionId := do
  let u ← unit i
  let w ← get
  return (w.resolve u name).getD TransactionId.nil

/-- Takes a step. -/
def perform (nested : Step → Host Snapshot) (step : Step) :
    Host StepResult := do
  let i := step.unit
  let serve := callCoordinator nested i step.token
  match step.command with
  | .add entityType properties =>
      return .reference (← withWork i fun u => u.add entityType properties)
  | .attach entityType key properties =>
      return .reference
        (← withWork i fun u => u.attach entityType key properties)
  | .set entity name value =>
      return .truth (← withWork i fun u => u.set entity name value)
  | .remove entity => return .truth (← withWork i fun u => u.remove entity)
  | .setState entity state =>
      return .truth (← withWork i fun u => u.setState entity state)
  | .flush => return .count (← withWork i fun u => u.flush)
  | .entries => return .entries (← unit i).reportedEntries
  | .primaryKey entity => return .key ((← unit i).reportedKey entity)
  | .current => return .transaction (← unit i).work.transaction
  | .begin =>
    match ← begin nested i with
    | .ok tx => return .transaction (some tx)
    | .error e => return .failed e
  | .commit name => return settled (← commit nested i (← required i name))
  | .rollback name => return settled (← rollback nested i (← required i name))
  | .failCommit =>
    withWork i fun u => ((), u.failNextCommit)
    return .ok
  | .failRollback =>
    withWork i fun u => ((), u.failNextRollback)
    return .ok
  | .stats => return .stats (← unit i).work.stats
  | .override entries keys =>
    let u ← unit i
    modify fun w => w.setUnit i { u with entries := entries, keys := keys }
    return .ok
  | .cancel =>
    modify fun w => { w with cancelled := step.token :: w.cancelled }
    return .ok
  | .start => serve (.startCollecting (← unit i).work.contextId)
  | .finish => serve (.finish (← unit i).work.contextId)
  | .saveFailed => serve (.saveFailed (← unit i).work.contextId)
  | .saveCanceled => serve (.saveCanceled (← unit i).work.contextId)
  | .committing notice => serve (.transactionCommitting (← event i notice))
  | .committed notice => serve (.transactionCommitted (← event i notice))
  | .rolledBack notice => serve (.transactionRolledBack (← event i notice))
  | .failed notice => serve (.transactionFailed (← event i notice))
  | .clearCaptures => serve .clearCaptures
  | .clearBatch => serve .clearBatch

/-- Takes a step, with at most the given number of levels of steps within it. -/
def execute : Nat → Step → Host Snapshot
  | 0, _ => snapshot .ok
  | levels + 1, step => do
    let result ← perform (execute levels) step
    snapshot result

end Host

/-! ## Scripts -/

/-- What came of a step, and what was noted and logged meanwhile. -/
structure StepReport where
  snapshot : Snapshot
  trace : List TraceEntry
  log : List LogEvent

/-- What came of a scenario: of each step, and the world in the end. -/
structure Report where
  steps : List StepReport
  world : World

/-- The number of levels of steps within each other that a script can reach. -/
def Script.levels (script : Script) : Nat :=
  script.hooks.foldr (fun hook levels => hook.visits.length + levels) 1

/-- Takes steps one after the other, each with an account of its own. -/
def runSteps (levels : Nat) : List Step → Host (List StepReport)
  | [] => return []
  | step :: rest => do
    modify fun w => { w with trace := [], log := [] }
    let snapshot ← Host.execute levels step
    let w ← get
    let reports ← runSteps levels rest
    return ⟨snapshot, w.trace, w.log⟩ :: reports

/-- Runs a script, unless its rules cannot be registered. -/
def run (script : Script) : Except AuditError Report :=
  match (RuleRegistry.empty script.permissionType).registerUntilFailure
      script.rules with
  | (_, .error e) => .error e
  | (registry, .ok ()) =>
    let (steps, world) :=
      (runSteps script.levels script.steps).run (World.ofScript script registry)
    .ok ⟨steps, world⟩

end AuditTrail.Scenario
