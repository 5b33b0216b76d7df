import AuditTrail.Log

/-!
# Consumers

Where records are delivered to. Three consumers come with the library: one that
keeps everything in memory, one that shows everything in the log, and one that
does nothing. None of them ever fails.
-/

namespace AuditTrail

/-- What a consumer that keeps everything has kept. -/
structure MemoryConsumer where
  batches : List (List AuditRecord)
  preCommitSizes : List Nat
  outcomes : List (TransactionEvent × TransactionStatus)

namespace MemoryConsumer

/-- A consumer that has kept nothing yet. -/
def empty : MemoryConsumer := ⟨[], [], []⟩

/-- All records in the order in which they were delivered. -/
def records (c : MemoryConsumer) : List AuditRecord := c.batches.flatten

end MemoryConsumer

/-- The ways to consume records. -/
inductive ConsumerKind where
  | memory
  | logging
  | silent
  deriving DecidableEq, Repr

/-- A consumer and what it has kept. -/
structure Consumer where
  kind : ConsumerKind
  kept : MemoryConsumer

namespace Consumer

/-- A consumer that has kept nothing yet. -/
def ofKind (kind : ConsumerKind) : Consumer := ⟨kind, .empty⟩

/-- Takes records that are delivered. -/
def consume (c : Consumer) (records : List AuditRecord) :
    Consumer × List LogEvent :=
  match c.kind with
  | .memory =>
      ({ c with
          kept := { c.kept with batches := c.kept.batches ++ [records] } }, [])
  | .logging => (c, records.map LogEvent.recordShown)
  | .silent => (c, [])

/-- Takes the announcement of records. -/
def preCommit (c : Consumer) (records : List AuditRecord) : Consumer :=
  match c.kind with
  | .memory =>
      { c with
        kept := { c.kept with
          preCommitSizes := c.kept.preCommitSizes ++ [records.length] } }
  | .logging => c
  | .silent => c

/-- Takes the report that a transaction has ended. -/
def finished (c : Consumer) (event : TransactionEvent)
    (status : TransactionStatus) : Consumer × List LogEvent :=
  match c.kind with
  | .memory =>
      ({ c with
          kept := { c.kept with
            outcomes := c.kept.outcomes ++ [(event, status)] } }, [])
  | .logging => (c, [.transactionShown event.contextId status])
  | .silent => (c, [])

end Consumer
end AuditTrail
