import AuditTrail.Uuid

/-!
# Transactions

The identity of a transaction, how it ended, and the notice that a host sends
about it.
-/

namespace AuditTrail

/-- The identity of a transaction. -/
structure TransactionId where
  uuid : Uuid
  deriving DecidableEq

namespace TransactionId

/-- The identity whose bits are all zero, which no transaction has. -/
def nil : TransactionId := ⟨Uuid.nil⟩

/-- The text of an identity. -/
def text (tx : TransactionId) : String := "tx-" ++ tx.uuid.text

end TransactionId

/-- How a transaction ended. -/
inductive TransactionStatus where
  | committed
  | rolledBack
  | failed
  deriving DecidableEq, Repr

namespace TransactionStatus

/-- The ways to end. -/
def all : List TransactionStatus := [committed, rolledBack, failed]

/-- The name of a status in log messages. -/
def name : TransactionStatus → String
  | committed => "Committed"
  | rolledBack => "RolledBack"
  | failed => "Failed"

/-- The name of a status in JSON. -/
def wireName : TransactionStatus → String
  | committed => "committed"
  | rolledBack => "rolledBack"
  | failed => "failed"

end TransactionStatus

/-- A notice about a transaction of a unit of work. The unit of work may not say
which transaction it is. -/
structure TransactionEvent where
  contextId : String
  transaction : Option TransactionId
  deriving DecidableEq

end AuditTrail
