import AuditTrail.Proofs.Memory.Calls

/-!
# The transactions of a unit of work are accounted for

A transaction that was opened is open until it ends, and it ends in one of three
ways: it is committed, it is rolled back, or its rollback fails and it is
discarded all the same. A commit that fails ends nothing. So the transactions
that were opened are those that ended and the one that is open
(`opened_perm`), and the counters count them, except that nobody counts the
discarded ones.

What a commit and a rollback do is in `commit_cases` and `rollback_cases`. All
else is read off these.
-/

namespace AuditTrail

open MemoryUnitOfWork

namespace WorkStep

def opened (s : WorkStep) : List TransactionId :=
  match s.call with
  | .begin fresh =>
    match (s.before.begin fresh).1 with
    | .ok tx => [tx]
    | .error _ => []
  | _ => []

def committed (s : WorkStep) : List TransactionId :=
  match s.call with
  | .commit tx =>
    match (s.before.commit tx).1 with
    | .ok () => [tx]
    | .error _ => []
  | _ => []

def rolledBack (s : WorkStep) : List TransactionId :=
  match s.call with
  | .rollback tx =>
    match (s.before.rollback tx).1 with
    | .ok () => [tx]
    | .error _ => []
  | _ => []

/-- The transaction whose rollback was made to fail. -/
def discarded (s : WorkStep) : List TransactionId :=
  match s.call with
  | .rollback tx =>
    match (s.before.rollback tx).1 with
    | .error (.transaction (.rollbackFailed _)) => [tx]
    | _ => []
  | _ => []

def ended (s : WorkStep) : List TransactionId :=
  s.committed ++ s.rolledBack ++ s.discarded

end WorkStep

namespace MemoryUnitOfWork

variable (u : MemoryUnitOfWork) (tx : TransactionId)

theorem begin_of_some (htx : u.transaction = some tx) (fresh : TransactionId) :
    u.begin fresh = (.error (.transaction (.alreadyOpen tx)), u) := by
  rw [begin, htx]

theorem commit_cases :
    (u.transaction ≠ some tx ∧
      u.commit tx = (.error (.transaction (.notOpen tx)), u)) ∨
    (u.transaction = some tx ∧ u.commitFailureArmed = true ∧
      u.commit tx = (.error (.transaction (.commitFailed tx)),
        { u with commitFailureArmed := false })) ∨
    (u.transaction = some tx ∧ u.commitFailureArmed = false ∧
      u.commit tx = (.ok (), { u with
        transaction := none, stats :=
          { u.stats with committed := u.stats.committed + 1 } })) := by
  by_cases htx : u.transaction = some tx
  · by_cases harmed : u.commitFailureArmed = true
    · exact .inr (.inl ⟨htx, harmed, u.commit_of_armed htx harmed⟩)
    · have hunarmed := Bool.eq_false_iff.mpr harmed
      exact .inr (.inr ⟨htx, hunarmed, u.commit_of_unarmed htx hunarmed⟩)
  · exact .inl ⟨htx, by rw [commit, if_pos htx]⟩

theorem rollback_cases :
    (u.transaction ≠ some tx ∧
      u.rollback tx = (.error (.transaction (.notOpen tx)), u)) ∨
    (u.transaction = some tx ∧ u.rollbackFailureArmed = true ∧
      u.rollback tx = (.error (.transaction (.rollbackFailed tx)),
        { u with transaction := none, rollbackFailureArmed := false })) ∨
    (u.transaction = some tx ∧ u.rollbackFailureArmed = false ∧
      u.rollback tx = (.ok (), { u with
        transaction := none, stats :=
          { u.stats with rolledBack := u.stats.rolledBack + 1 } })) := by
  by_cases htx : u.transaction = some tx
  · rw [rollback, if_neg (not_not_intro htx)]
    by_cases harmed : u.rollbackFailureArmed = true
    · exact .inr (.inl ⟨htx, harmed, if_pos harmed⟩)
    · exact .inr (.inr ⟨htx, Bool.eq_false_iff.mpr harmed, if_neg harmed⟩)
  · exact .inl ⟨htx, u.rollback_of_not_open htx⟩

end MemoryUnitOfWork

/-! ## The books of one step -/

structure WorkStep.Booked (s : WorkStep) : Prop where
  custody : s.before.transaction.toList ++ s.opened = s.ended ++
    s.after.transaction.toList
  begun : s.after.stats.begun = s.before.stats.begun + s.opened.length
  committed : s.after.stats.committed = s.before.stats.committed +
    s.committed.length
  rolledBack : s.after.stats.rolledBack = s.before.stats.rolledBack +
    s.rolledBack.length

theorem WorkStep.booked (s : WorkStep) : s.Booked := by
  obtain ⟨u, c⟩ := s
  cases c with
  | edit e =>
      have htx : (e.apply u).transaction = u.transaction :=
        e.transaction_apply u
      have hstats : (e.apply u).stats = u.stats := e.stats_apply u
      constructor <;>
        simp [opened, ended, committed, rolledBack, discarded, after,
          WorkCall.apply, htx, hstats]
  | begin fresh =>
      cases htx : u.transaction with
      | none =>
          constructor <;>
            simp [opened, ended, committed, rolledBack, discarded, after,
              WorkCall.apply, u.begin_of_none htx, htx]
      | some tx =>
          constructor <;>
            simp [opened, ended, committed, rolledBack, discarded, after,
              WorkCall.apply, u.begin_of_some tx htx, htx]
  | commit tx =>
      rcases u.commit_cases tx with
        ⟨-, hcommit⟩ | ⟨-, -, hcommit⟩ | ⟨htx, -, hcommit⟩ <;>
        constructor <;>
          simp [opened, ended, committed, rolledBack, discarded, after,
            WorkCall.apply, *]
  | rollback tx =>
      rcases u.rollback_cases tx with
        ⟨-, hrollback⟩ | ⟨htx, -, hrollback⟩ | ⟨htx, -, hrollback⟩ <;>
        constructor <;>
          simp [opened, ended, committed, rolledBack, discarded, after,
            WorkCall.apply, *]

/-! ## The books of a run -/

namespace MemoryUnitOfWork

section Run

variable (contextId : String) (calls : List WorkCall)

theorem opened_perm :
    (((new contextId).steps calls).flatMap WorkStep.opened).Perm
    (((new contextId).steps calls).flatMap WorkStep.ended ++
      ((new contextId).run calls).transaction.toList) :=
  balanced (fun u => u.transaction.toList)
    (fun s => .of_eq s.booked.custody) calls
    (new contextId)

theorem length_ended (steps : List WorkStep) :
    (steps.flatMap WorkStep.ended).length =
    (steps.flatMap WorkStep.committed).length +
      (steps.flatMap WorkStep.rolledBack).length +
      (steps.flatMap WorkStep.discarded).length := by
  induction steps with
  | nil => rfl
  | cons s rest ih =>
      simp only [List.flatMap_cons, List.length_append, WorkStep.ended, ih]
      omega

theorem stats_run : ((new contextId).run calls).stats =
    ⟨(((new contextId).steps calls).flatMap WorkStep.opened).length,
      (((new contextId).steps calls).flatMap WorkStep.committed).length,
      (((new contextId).steps calls).flatMap WorkStep.rolledBack).length⟩ := by
  have hbegun :=
    tallied (·.stats.begun) (fun s => s.booked.begun) calls (new contextId)
  have hcommitted :=
    tallied (·.stats.committed) (fun s => s.booked.committed) calls
      (new contextId)
  have hrolledBack :=
    tallied (·.stats.rolledBack) (fun s => s.booked.rolledBack) calls
      (new contextId)
  rw [show (new contextId).stats = ⟨0, 0, 0⟩ from rfl,
    Nat.zero_add] at hbegun hcommitted hrolledBack
  rw [← hbegun, ← hcommitted, ← hrolledBack]

end Run

theorem begin_fails_iff (u : MemoryUnitOfWork) (fresh : TransactionId) :
    (∃ e, (u.begin fresh).1 = .error e) ↔ u.transaction ≠ none := by
  cases htx : u.transaction with
  | none => simp [u.begin_of_none htx]
  | some tx => simp [u.begin_of_some tx htx]

/-- Whatever transactions are begun, committed, rolled back and made to fail, in
whatever order and with whatever happens to the entities in between. The
counters count what was begun, committed and rolled back, and what was begun and
is neither is open or was discarded when its rollback failed. No transaction
ends twice, if none is begun under the name of another. One can be begun unless
one is open. Who names another than the open one is refused, and nothing
changes, whatever was to fail next; a commit that was to fail leaves everything
as it is except that the next one is not to fail. And none of this touches an
entity. -/
theorem transactions_accounted (contextId : String) (calls : List WorkCall)
    (hfresh : (((new contextId).steps calls).flatMap WorkStep.opened).Nodup) :
    let u := (new contextId).run calls
    let steps := (new contextId).steps calls
    u.stats.begun = u.stats.committed + u.stats.rolledBack +
        (steps.flatMap WorkStep.discarded).length +
          (if u.transaction.isSome then 1 else 0) ∧
    u.stats = ⟨(steps.flatMap WorkStep.opened).length,
      (steps.flatMap WorkStep.committed).length,
      (steps.flatMap WorkStep.rolledBack).length⟩ ∧
    (steps.flatMap WorkStep.ended).Nodup ∧
    (∀ fresh, (∃ e, (u.begin fresh).1 = .error e) ↔ u.transaction ≠ none) ∧
    (∀ tx, u.transaction ≠ some tx →
      (∃ e, (u.commit tx).1 = .error e) ∧ (u.commit tx).2 = u ∧
        (∃ e, (u.rollback tx).1 = .error e) ∧ (u.rollback tx).2 = u) ∧
    (∀ tx, ((u.commit tx).1 = .error (.transaction (.commitFailed tx)) ↔
        u.transaction = some tx ∧ u.commitFailureArmed = true) ∧
      ((u.commit tx).1 = .error (.transaction (.commitFailed tx)) →
        (u.commit tx).2 = { u with commitFailureArmed := false })) ∧
    ∀ c : WorkCall, c.isTransactional = true →
      (c.apply u).entities = u.entities := by
  intro u steps
  have hopened : (steps.flatMap WorkStep.opened).Perm
      (steps.flatMap WorkStep.ended ++ u.transaction.toList) :=
        opened_perm contextId calls
  have hstats := stats_run contextId calls
  refine ⟨?_, hstats, (List.nodup_append.mp (hopened.nodup_iff.mp hfresh)).1,
    u.begin_fails_iff, fun tx htx => ?_, fun tx => ?_, fun c hc =>
      WorkCall.entities_apply hc u⟩
  · have hlength := hopened.length_eq
    rw [List.length_append, length_ended, Option.length_toList] at hlength
    rw [show u.stats = _ from hstats]
    exact hlength
  · rcases u.commit_cases tx with ⟨-, hcommit⟩ | ⟨hopen, -⟩ | ⟨hopen, -⟩
    · rw [hcommit, u.rollback_of_not_open htx]
      exact ⟨⟨_, rfl⟩, rfl, ⟨_, rfl⟩, rfl⟩
    · exact absurd hopen htx
    · exact absurd hopen htx
  · rcases u.commit_cases tx with ⟨hother, hcommit⟩ | ⟨hopen, harmed, hcommit⟩ |
      ⟨-, harmed, hcommit⟩
    · simp [hcommit, hother]
    · simp [hcommit, hopen, harmed]
    · simp [hcommit, harmed]

namespace Sample

def first : TransactionId := ⟨⟨1⟩⟩

def second : TransactionId := ⟨⟨2⟩⟩

def third : TransactionId := ⟨⟨3⟩⟩

/-- The commit of the first transaction fails and then its rollback does too,
the second is committed, and the third is open. -/
def mishaps : List WorkCall :=
  [.edit .failNextCommit, .edit .failNextRollback, .commit first, .begin first,
    .rollback second, .commit first, .rollback first, .commit first,
    .begin second, .begin third, .commit second,
    .begin third, .edit .failNextCommit]

end Sample

open Sample in
theorem transactions_accounted_mishaps :
    let u := (new "req").run mishaps
    let steps := (new "req").steps mishaps
    (steps.flatMap WorkStep.opened).Nodup ∧ u.stats = ⟨3, 1, 0⟩ ∧
      u.stats.begun = u.stats.committed + u.stats.rolledBack +
        (steps.flatMap WorkStep.discarded).length + 1 ∧
      steps.flatMap WorkStep.ended = [first, second] ∧
      (u.commit second).2 = u ∧
        (u.commit third).2 = { u with commitFailureArmed := false } := by
  intro u steps
  have hfresh : (steps.flatMap WorkStep.opened).Nodup := by decide
  obtain ⟨hbalance, -, -, -, hothers, hcommit, -⟩ :=
    transactions_accounted "req" mishaps hfresh
  exact ⟨hfresh, by decide, hbalance, by decide,
    (hothers second (by decide)).2.1,
    (hcommit third).2 ((hcommit third).1.mpr (by decide))⟩

end MemoryUnitOfWork
end AuditTrail
