import AuditTrail.Options
import AuditTrail.Record
import AuditTrail.Rule.Registry
import AuditTrail.UnitOfWork.Basic

/-!
# The state of a coordinator

What a coordinator remembers between calls, and what it is set up with. Captures
wait for the physical write, records in the batch wait for the outcome of a
transaction. A transaction that the coordinator opened is *owned* until it is
settled, and the last one it settled itself is remembered so that notices about
it can be ignored.
-/

namespace AuditTrail

/-- Where a coordinator is in its cycle of capture and delivery. -/
inductive LifecyclePhase where
  | idle
  | capturing
  | awaitingWrite
  | reconciling
  | immediateDispatch
  | batching
  deriving DecidableEq, Repr

/-- The name of a phase. -/
def LifecyclePhase.name : LifecyclePhase → String
  | idle => "Idle"
  | capturing => "Capturing"
  | awaitingWrite => "AwaitingPhysicalWrite"
  | reconciling => "Reconciling"
  | immediateDispatch => "ImmediateDispatch"
  | batching => "Batching"

/-- How the transaction around the unit of work was last seen. -/
inductive TransactionPhase where
  | inactive
  | opened
  | committing
  | committed
  | rolledBack
  | failed
  deriving DecidableEq, Repr

/-- The name of a phase. -/
def TransactionPhase.name : TransactionPhase → String
  | inactive => "Inactive"
  | opened => "Open"
  | committing => "Committing"
  | committed => "Committed"
  | rolledBack => "RolledBack"
  | failed => "Failed"

/-- What a coordinator remembers between calls. -/
structure CoordinatorState where
  phase : LifecyclePhase
  transactionPhase : TransactionPhase
  owned : Option TransactionId
  settled : Option TransactionId
  commitInProgress : Bool
  captures : List Capture
  batch : List AuditRecord

/-- What a coordinator is set up with. -/
structure CoordinatorSettings where
  registry : RuleRegistry
  options : AuditOptions
  scope : Option String

namespace CoordinatorState

/-- The state of a coordinator that nothing has happened to. -/
def initial : CoordinatorState := ⟨.idle, .inactive, none, none, false, [], []⟩

/-- A list of pending captures with another capture. A capture of an entity that
is pending already takes the place of the earlier one and keeps its identity. -/
def mergeCapture (captured : Capture) : List Capture → List Capture
  | [] => [captured]
  | pending :: rest =>
    if pending.entity = captured.entity then
      { captured with id := pending.id } :: rest
    else pending :: mergeCapture captured rest

/-- A capture of an entity that is not pending goes behind the others; no other
capture changes which entities are pending. -/
theorem entities_mergeCapture (captured : Capture) (pending : List Capture) :
    (mergeCapture captured pending).map (·.entity) =
      if captured.entity ∈ pending.map (·.entity) then pending.map (·.entity)
      else pending.map (·.entity) ++ [captured.entity] := by
  induction pending with
  | nil => rfl
  | cons first rest ih =>
    unfold mergeCapture
    by_cases h : first.entity = captured.entity
    · simp [h]
    · simp only [if_neg h, List.map_cons, ih, List.mem_cons, Ne.symm h,
        false_or]
      split <;> rfl

/-- A list of pending captures with the captures of a whole snapshot. -/
def mergeCaptures (pending captured : List Capture) : List Capture :=
  captured.foldl (fun pending c => mergeCapture c pending) pending

end CoordinatorState
end AuditTrail
