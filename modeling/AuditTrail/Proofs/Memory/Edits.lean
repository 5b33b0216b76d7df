import AuditTrail.UnitOfWork.Memory

/-!
# Editing a unit of work in memory

What a host does to its unit of work between two calls of a coordinator: it
tracks entities and changes them, writes, and may arrange for the next commit
or rollback to fail. No edit touches the transaction, and none reads it.

The second half of that is `tracking_apply`. The `tracking` of a unit of work
is what is left of it when everything about transactions is forgotten; edits
act on it, and beginning and settling transactions does not.
-/

namespace AuditTrail

inductive Edit where
  | add (entityType : String) (properties : List (String × FieldValue))
  | attach (entityType : String) (key : FieldValue)
      (properties : List (String × FieldValue))
  | set (entity : EntityRef) (name : String) (value : FieldValue)
  | remove (entity : EntityRef)
  | setState (entity : EntityRef) (state : EntityState)
  | flush
  | failNextCommit
  | failNextRollback

namespace Edit

def apply : Edit → MemoryUnitOfWork → MemoryUnitOfWork
  | add entityType properties, u => (u.add entityType properties).2
  | attach entityType key properties, u =>
      (u.attach entityType key properties).2
  | set entity name value, u => (u.set entity name value).2
  | remove entity, u => (u.remove entity).2
  | setState entity state, u => (u.setState entity state).2
  | flush, u => u.flush.2
  | failNextCommit, u => u.failNextCommit
  | failNextRollback, u => u.failNextRollback

/-- A commit or a rollback will fail because of the edit. -/
def injects : Edit → Bool
  | failNextCommit | failNextRollback => true
  | _ => false

end Edit

namespace MemoryUnitOfWork

variable (u : MemoryUnitOfWork)

/-- The unit of work without anything about transactions. -/
def tracking : MemoryUnitOfWork :=
  { u with transaction := none, commitFailureArmed := false,
           rollbackFailureArmed := false,
           stats := ⟨0, 0, 0⟩ }

/-! ## Transactions -/

theorem begin_of_none (htx : u.transaction = none) (fresh : TransactionId) :
    u.begin fresh = (.ok fresh, { u with
      transaction := some fresh, stats :=
        { u.stats with begun := u.stats.begun + 1 } }) := by
  rw [begin, htx]

theorem commit_of_unarmed {tx : TransactionId} (htx : u.transaction = some tx)
    (harmed : u.commitFailureArmed = false) :
    u.commit tx = (.ok (), { u with
      transaction := none, stats :=
        { u.stats with committed := u.stats.committed + 1 } }) := by
  rw [commit, if_neg (not_not_intro htx), if_neg (by simp [harmed])]

theorem commit_of_armed {tx : TransactionId} (htx : u.transaction = some tx)
    (harmed : u.commitFailureArmed = true) :
    u.commit tx = (.error (.transaction (.commitFailed tx)),
      { u with commitFailureArmed := false }) := by
  rw [commit, if_neg (not_not_intro htx), if_pos harmed]

theorem rollback_of_not_open {tx : TransactionId}
    (htx : u.transaction ≠ some tx) :
    u.rollback tx = (.error (.transaction (.notOpen tx)), u) := by
  rw [rollback, if_pos htx]

/-- What a rollback of what is owned leaves of a unit of work. -/
def release (owned : Option TransactionId) : MemoryUnitOfWork :=
  match owned with
  | none => u
  | some tx => (u.rollback tx).2

/-- Whether or not the rollback succeeds, the transaction is gone. -/
theorem transaction_release {owned : Option TransactionId}
    (htx : u.transaction = owned) :
    (u.release owned).transaction = none := by
  cases owned with
  | none => exact htx
  | some tx =>
      rw [release, rollback, if_neg (not_not_intro htx)]
      split <;> rfl

theorem release_of_not_open {owned : Option TransactionId}
    (htx : u.transaction = none) :
    u.release owned = u := by
  cases owned with
  | none => rfl
  | some tx => rw [release, u.rollback_of_not_open (by simp [htx])]

/-- The rollback of a transaction is about transactions only. -/
theorem release_eq (owned : Option TransactionId) :
    u.release owned =
      { u with
        transaction := (u.release owned).transaction
        rollbackFailureArmed := (u.release owned).rollbackFailureArmed
        stats := { u.stats with
          rolledBack := (u.release owned).stats.rolledBack } } := by
  cases owned with
  | none => rfl
  | some tx =>
      rw [release, rollback]
      by_cases htx : u.transaction ≠ some tx
      · rw [if_pos htx]
      · rw [if_neg htx]
        cases u.rollbackFailureArmed <;> rfl

theorem tracking_release (owned : Option TransactionId) :
    (u.release owned).tracking = u.tracking := by
  rw [release_eq]
  rfl

end MemoryUnitOfWork

namespace Edit

open MemoryUnitOfWork

theorem update_eq (u : MemoryUnitOfWork) (e : EntityRef)
    (f : MemoryEntity → MemoryEntity) :
    (u.update e f).2 =
      { u with entities :=
          if u.tracks e then updateFirst e f u.entities else u.entities } := by
  unfold update
  split <;> rfl

/-- What an edit makes of the entities and the counters, it makes of them
whatever the transaction. -/
theorem apply_eq (e : Edit) (u : MemoryUnitOfWork) :
    e.apply u =
      { e.apply u.tracking with
        transaction := u.transaction
        commitFailureArmed := (e.apply u).commitFailureArmed
        rollbackFailureArmed := (e.apply u).rollbackFailureArmed
        stats := u.stats } := by
  cases e with
  | set entity name value | setState entity state =>
      simp only [apply, MemoryUnitOfWork.set, MemoryUnitOfWork.setState,
        update_eq]
      rfl
  | remove entity =>
      simp only [apply, MemoryUnitOfWork.remove]
      rw [show u.tracking.find? entity = u.find? entity from rfl]
      cases u.find? entity with
      | none => rfl
      | some m =>
          simp only []
          split
          · rfl
          · rw [update_eq, update_eq]
            rfl
  | _ => rfl

theorem transaction_apply (e : Edit) (u : MemoryUnitOfWork) :
    (e.apply u).transaction = u.transaction := by rw [apply_eq]

theorem stats_apply (e : Edit) (u : MemoryUnitOfWork) :
    (e.apply u).stats = u.stats := by
  rw [apply_eq]

theorem tracking_apply (e : Edit) (u : MemoryUnitOfWork) :
    (e.apply u).tracking = (e.apply u.tracking).tracking := by
  rw [apply_eq]
  rfl

theorem commitFailureArmed_apply {e : Edit} (hsound : e.injects = false)
    (u : MemoryUnitOfWork) :
    (e.apply u).commitFailureArmed = u.commitFailureArmed := by
  cases e with
  | set entity name value | setState entity state =>
      simp only [apply, MemoryUnitOfWork.set, MemoryUnitOfWork.setState,
        update_eq]
  | remove entity =>
      simp only [apply, MemoryUnitOfWork.remove]
      cases u.find? entity with
      | none => rfl
      | some m =>
          simp only []
          split
          · rfl
          · rw [update_eq]
  | failNextCommit | failNextRollback => cases hsound
  | _ => rfl

end Edit
end AuditTrail
