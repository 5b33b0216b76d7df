import AuditTrail.Proofs.Memory.Flush
import Mathlib.Data.List.Basic

/-!
# Calls on a unit of work, one after another

A host edits its unit of work and begins and settles transactions on it, in any
order and with whatever it likes for arguments. What such calls add up to is
read off their steps, a step being a call together with the unit of work that it
was made on.

Much of it is bookkeeping of one kind: things come in by some calls, go out by
others, and are there in between. That the books are balanced after any calls
(`balanced`) follows from what each single step does to them, and it is stated
once, for whatever is kept: references of entities in one place, transactions in
another.
-/

namespace AuditTrail

open MemoryUnitOfWork

/-- A call on a unit of work. -/
inductive WorkCall where
  | edit (e : Edit)
  | begin (fresh : TransactionId)
  | commit (tx : TransactionId)
  | rollback (tx : TransactionId)

namespace WorkCall

def apply : WorkCall → MemoryUnitOfWork → MemoryUnitOfWork
  | edit e, u => e.apply u
  | begin fresh, u => (u.begin fresh).2
  | commit tx, u => (u.commit tx).2
  | rollback tx, u => (u.rollback tx).2

/-- The call has to do with transactions and with nothing else. -/
def isTransactional : WorkCall → Bool
  | edit e => e.injects
  | begin _ | commit _ | rollback _ => true

/-- The call forces the state of an entity. -/
def forces : WorkCall → Bool
  | edit (.setState ..) => true
  | _ => false

/-- Transactions and tracking do not touch each other. -/
theorem tracking_apply {c : WorkCall} (hc : c.isTransactional = true)
    (u : MemoryUnitOfWork) :
    (c.apply u).tracking = u.tracking := by
  cases c with
  | edit e =>
      cases e with
      | failNextCommit | failNextRollback => rfl
      | _ => cases hc
  | begin fresh =>
      rw [apply, MemoryUnitOfWork.begin]
      split <;> rfl
  | commit tx =>
      rw [apply, MemoryUnitOfWork.commit]
      split
      · rfl
      · split <;> rfl
  | rollback tx => exact u.tracking_release (some tx)

theorem entities_apply {c : WorkCall} (hc : c.isTransactional = true)
    (u : MemoryUnitOfWork) :
    (c.apply u).entities = u.entities := by
  show (c.apply u).tracking.entities = u.tracking.entities
  rw [tracking_apply hc]

theorem counters_apply {c : WorkCall} (hc : c.isTransactional = true)
    (u : MemoryUnitOfWork) :
    (c.apply u).nextRef = u.nextRef ∧ (c.apply u).nextKey = u.nextKey := by
  show (c.apply u).tracking.nextRef = u.tracking.nextRef ∧
    (c.apply u).tracking.nextKey = u.tracking.nextKey
  rw [tracking_apply hc]
  exact ⟨rfl, rfl⟩

end WorkCall

theorem MemoryUnitOfWork.InOrder.of_tracking {u u' : MemoryUnitOfWork}
    (h : u.InOrder) (htracking : u'.tracking = u.tracking) : u'.InOrder := by
  have htracked : u'.tracking.InOrder :=
    htracking ▸ ⟨h.ascending, h.below, h.plain⟩
  exact ⟨htracked.ascending, htracked.below, htracked.plain⟩

theorem MemoryUnitOfWork.InOrder.call {u : MemoryUnitOfWork} (h : u.InOrder)
    (c : WorkCall) :
    (c.apply u).InOrder := by
  cases c with
  | edit e => exact h.apply e
  | begin fresh | commit tx | rollback tx =>
      exact h.of_tracking (WorkCall.tracking_apply rfl u)

/-- A call, and the unit of work that it was made on. -/
structure WorkStep where
  before : MemoryUnitOfWork
  call : WorkCall

namespace WorkStep

def after (s : WorkStep) : MemoryUnitOfWork := s.call.apply s.before

end WorkStep

namespace MemoryUnitOfWork

def run (u : MemoryUnitOfWork) : List WorkCall → MemoryUnitOfWork
  | [] => u
  | c :: rest => (c.apply u).run rest

def steps (u : MemoryUnitOfWork) : List WorkCall → List WorkStep
  | [] => []
  | c :: rest => ⟨u, c⟩ :: (c.apply u).steps rest

/-- Calls lead there from a unit of work that tracks nothing yet. -/
def Reachable (u : MemoryUnitOfWork) : Prop :=
  ∃ contextId calls, (new contextId).run calls = u

theorem InOrder.run (calls : List WorkCall) :
    ∀ {u : MemoryUnitOfWork}, u.InOrder →
    (u.run calls).InOrder := by
  induction calls with
  | nil => exact id
  | cons c rest ih => exact fun h => ih (h.call c)

theorem Reachable.inOrder {u : MemoryUnitOfWork} (h : u.Reachable) :
    u.InOrder := by
  obtain ⟨contextId, calls, rfl⟩ := h
  exact (inOrder_new contextId).run calls

section Balance

variable {α : Type} {came went : WorkStep → List α}

/-- What was there and what came in is what went out and what is there now. -/
theorem balanced (kept : MemoryUnitOfWork → List α)
    (hstep : ∀ s : WorkStep,
      (kept s.before ++ came s).Perm (went s ++ kept s.after))
    (calls : List WorkCall) :
    ∀ u : MemoryUnitOfWork,
      (kept u ++ (u.steps calls).flatMap came).Perm
        ((u.steps calls).flatMap went ++ kept (u.run calls)) := by
  induction calls with
  | nil =>
      intro u
      simp [steps, run]
  | cons c rest ih =>
      intro u
      have hfirst :=
        (hstep ⟨u, c⟩).append_right (((c.apply u).steps rest).flatMap came)
      have hrest := (ih (c.apply u)).append_left (went ⟨u, c⟩)
      simp only [List.append_assoc] at hfirst
      rw [steps, List.flatMap_cons, List.flatMap_cons, List.append_assoc]
      exact hfirst.trans hrest

/-- A number that every step raises by what it lists is raised by all there is
on the lists. -/
theorem tallied (f : MemoryUnitOfWork → Nat)
    (hstep : ∀ s : WorkStep, f s.after = f s.before + (came s).length)
    (calls : List WorkCall) :
    ∀ u : MemoryUnitOfWork,
      f (u.run calls) = f u + ((u.steps calls).flatMap came).length := by
  induction calls with
  | nil =>
      intro u
      simp [steps, run]
  | cons c rest ih =>
      intro u
      have hfirst : f (c.apply u) = f u + (came ⟨u, c⟩).length := hstep ⟨u, c⟩
      rw [run, steps, ih, hfirst, List.flatMap_cons, List.length_append,
        Nat.add_assoc]

end Balance

end MemoryUnitOfWork
end AuditTrail
