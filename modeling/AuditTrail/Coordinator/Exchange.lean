import AuditTrail.Coordinator.State
import AuditTrail.Log

/-!
# Exchanges

What a coordinator does is a conversation with its collaborators: the unit of
work, the consumer, the token that may cancel the call, and the sources of fresh
identities and of time. An `Exchange` is that conversation as a tree. Its nodes
are what the coordinator says, and each has a branch for every answer.

Collaborators are addressed in two ways. A *query* is answered at once and
nothing else happens meanwhile. A *call* may take time, and while it lasts the
coordinator can be called again, by the unit of work, by the consumer or by
anyone they tell. So a call gives the state of the coordinator out of its hands
and takes back whatever state it finds afterwards. Between two calls the state
is the coordinator's own.

Nothing here says who answers. A run of a coordinator is a way through the tree,
and what holds on every way holds for every unit of work and every consumer,
however they behave and whatever they call in between.
-/

namespace AuditTrail

/-- A question that is answered at once. -/
inductive Query where
  | isCancelled
  | currentTransaction
  | entries
  | primaryKey (entity : EntityRef)
  | freshRecordId
  | now

/-- The answers to a question. -/
abbrev Query.Answer : Query → Type
  | .isCancelled => Bool
  | .currentTransaction => Option TransactionId
  | .entries => List TrackedEntry
  | .primaryKey _ => Option FieldValue
  | .freshRecordId => RecordId
  | .now => Instant

/-- A call of a collaborator, during which the coordinator may be called
again. -/
inductive Call where
  /-- Opens a transaction. -/
  | begin
  | commit (tx : TransactionId)
  | rollback (tx : TransactionId)
  /-- Delivers records. -/
  | consume (records : List AuditRecord)
  /-- Announces the records of a transaction that is about to be committed. -/
  | preCommit (records : List AuditRecord) (event : TransactionEvent)
  /-- Reports how a transaction ended. -/
  | finished (event : TransactionEvent) (status : TransactionStatus)

/-- The answers to a call. -/
abbrev Call.Answer : Call → Type
  | .begin => Except AuditError TransactionId
  | .commit _ => Except AuditError Unit
  | .rollback _ => Except AuditError Unit
  | .consume _ => Except AuditError Unit
  | .preCommit _ _ => Except AuditError Unit
  | .finished _ _ => Except AuditError Unit

/-- A conversation of a coordinator with its collaborators that ends in a
result. -/
inductive Exchange (α : Type) where
  | done (state : CoordinatorState) (result : α)
  | ask (query : Query) (resume : query.Answer → Exchange α)
  | call (state : CoordinatorState) (made : Call)
      (resume : CoordinatorState → made.Answer → Exchange α)
  | log (event : LogEvent) (rest : Exchange α)

/-- A conversation that goes on with another one on its result, in the state it
leaves. -/
def Exchange.bind {α β : Type} (next : α → CoordinatorState → Exchange β) :
    Exchange α → Exchange β
  | .done state result => next result state
  | .ask query resume => .ask query fun answer => (resume answer).bind next
  | .call state made resume =>
      .call state made fun state answer => (resume state answer).bind next
  | .log event rest => .log event (rest.bind next)

namespace Exchange

/-- A conversation that goes on with nothing more is itself. -/
theorem bind_done {α : Type} (x : Exchange α) :
    x.bind (fun a state => .done state a) = x := by
  induction x with
  | done state result => rfl
  | ask query resume ih => simp only [bind, ih]
  | call state made resume ih => simp only [bind, ih]
  | log event rest ih => simp only [bind, ih]

/-- Going on twice is going on once with both. -/
theorem bind_assoc {α β γ : Type} (x : Exchange α)
    (f : α → CoordinatorState → Exchange β)
    (g : β → CoordinatorState → Exchange γ) :
    (x.bind f).bind g = x.bind fun a state => (f a state).bind g := by
  induction x with
  | done state result => rfl
  | ask query resume ih => simp only [bind, ih]
  | call state made resume ih => simp only [bind, ih]
  | log event rest ih => simp only [bind, ih]

end Exchange

/-- Something that a coordinator does: from every state a conversation. -/
def Coordinating (α : Type) : Type := CoordinatorState → Exchange α

namespace Coordinating

instance : Monad Coordinating where
  pure a := fun state => .done state a
  bind first next := fun state => (first state).bind next

instance : LawfulMonad Coordinating :=
  LawfulMonad.mk' Coordinating
    (fun x => funext fun s => (x s).bind_done)
    (fun _ _ => rfl)
    (fun x f g => funext fun s => (x s).bind_assoc f g)

/-- The state. -/
def state : Coordinating CoordinatorState := fun s => .done s s

/-- Changes the state. -/
def change (f : CoordinatorState → CoordinatorState) : Coordinating Unit :=
  fun s => .done (f s) ()

/-- Asks a question. -/
def ask (query : Query) : Coordinating query.Answer :=
  fun s => .ask query fun answer => .done s answer

/-- Calls a collaborator. -/
def call (made : Call) : Coordinating made.Answer :=
  fun s => .call s made fun s answer => .done s answer

/-- Tells the log. -/
def log (event : LogEvent) : Coordinating Unit :=
  fun s => .log event (.done s ())

end Coordinating

/-- The result of a call of the coordinator. -/
abbrev Outcome := Except AuditError Unit

end AuditTrail
