import AuditTrail.Proofs.Memory.Pieces

/-!
# Calls around a flush

What `start`, `finish` and the two notices that a flush did not happen come to
at a desk where nothing is cancelled, put together from the pieces. Each lemma
takes the situation from its hypotheses: whether a transaction is open, whether
it is owned, and whether its commit is going to fail. The situations that occur
together are what `Digest.lean` and `Balance.lean` are about.
-/

namespace AuditTrail

open Coordinating Coordinator History Proceedings

/-- What a snapshot of a unit of work makes of the pending contents: those of
the snapshot are taken in, unless one of its entries fails. -/
def CoordinatorSettings.collect (settings : CoordinatorSettings)
    (u : MemoryUnitOfWork) (pending : List Content) : Outcome × List Content :=
  match settings.contents u.primaryKey u.entries with
  | .ok contents => (.ok (), Content.takeAll pending contents)
  | .error e => (.error e, pending)

/-- No transaction shows in a snapshot. -/
theorem CoordinatorSettings.collect_tracking (settings : CoordinatorSettings)
    (u : MemoryUnitOfWork) (pending : List Content) :
    settings.collect u.tracking pending = settings.collect u pending := rfl

def CoordinatorState.pending (s : CoordinatorState) : List Content :=
  s.captures.map Capture.content

section Pieces

variable {settings : CoordinatorSettings} {c : Circumstances}
  {s : CoordinatorState} {p : Proceedings}

/-- Whatever transaction is joined, the snapshot is taken after it. -/
theorem startCollecting_hold (hc : c.Uncancelled) (context : String)
    (hidle : s.commitInProgress = false) {s₁ : CoordinatorState}
    {p₁ : Proceedings}
    (hjoined : (joinTransaction settings context
      { s with phase := .capturing }).hold c
      (p.asked c .isCancelled) = (.ok (), s₁, p₁)) :
    ∃ outcome phase captures p', (startCollecting settings context s).hold c p =
        (outcome, { s₁ with captures := captures, phase := phase }, p') ∧
      (outcome, captures.map Capture.content) =
        settings.collect p₁.work s₁.pending ∧
      p₁.Went [] p₁.work p' := by
  unfold startCollecting
  rw [hold_bind_of (hold_ask _), if_neg (by simp [answer, hc p.history]),
    hold_bind_of hold_state, if_neg (by simp [hidle]),
    hold_bind_of (hold_enter _), hold_bind_of hjoined]
  simp only []
  obtain ⟨captured, p₂, hcaptured, hcontents, went⟩ :=
    capture_hold c settings s₁ p₁
  rw [hold_bind_of hcaptured, CoordinatorSettings.collect, ← hcontents]
  cases captured with
  | error e => exact ⟨_, _, s₁.captures, _, rfl, rfl, went⟩
  | ok captures =>
      refine ⟨_, _, _, _, rfl, ?_, went.logged _ (by simp)⟩
      exact congrArg _ (Content.map_mergeCaptures captures s₁.captures)

/-- Whatever the records go to, they are made before it and the cycle is over
after it. -/
theorem finish_hold (hc : c.Uncancelled) (context : String)
    (hidle : s.commitInProgress = false) (p : Proceedings) :
    ∃ records p₁, records.map AuditRecord.content =
        s.pending.map (Content.written p.work.primaryKey) ∧
          p.Went [] p.work p₁ ∧
      ∀ s₂ p₂, ((match p.work.transaction with
          | none => deliverNow context records
          | some tx => joinBatch context tx records)
            { s with phase := .reconciling, captures := [] }).hold c p₁ =
              ((), s₂, p₂) →
        (finish context s).hold c p =
          (.ok (), { s₂ with phase := .idle }, p₂.asked c .isCancelled) := by
  obtain ⟨records, p₁, hrecords, hcontents, went⟩ :=
    promoteAll_hold c s.captures
    { s with phase := .reconciling, captures := [] } (p.asked c .isCancelled)
  have hcurrent : p₁.answer c .currentTransaction = p.work.transaction :=
    congrArg MemoryUnitOfWork.transaction went.work_eq
  refine ⟨records, p₁.asked c .currentTransaction, hcontents,
    (((went_refl p).asked c .isCancelled).trans went).asked c
      .currentTransaction, ?_⟩
  intro s₂ p₂ hrest
  unfold finish
  rw [hold_bind_of (hold_ask _), if_neg (by simp [answer, hc p.history]),
    hold_bind_of hold_state, if_neg (by simp [hidle]),
    hold_bind_of (hold_change _), hold_bind_of hrecords,
    hold_bind_of (hold_ask _), hcurrent]
  cases htx : p.work.transaction with
  | none | some _ =>
      rw [htx] at hrest
      simp only [] at hrest ⊢
      rw [hold_bind_of hrest, hold_bind_of (hold_enter _),
        checkCancelled_hold hc]

theorem deliverNow_hold (c : Circumstances) (context : String)
    (records : List AuditRecord) (s : CoordinatorState) (p : Proceedings) :
    ∃ p', (deliverNow context records s).hold c p =
        ((), { s with phase := .immediateDispatch, batch := [] }, p') ∧
      p.Went (consuming records) p.work p' := by
  unfold deliverNow
  rw [hold_bind_of hold_state, hold_bind_of (hold_change _)]
  split
  · rw [hold_bind_of (hold_log _)]
    obtain ⟨p₁, hdispatched, went⟩ := dispatch_hold c records _ _
    exact ⟨p₁, hdispatched, ((went_refl p).logged _ (by simp)).trans went⟩
  · exact dispatch_hold c records _ p

theorem joinBatch_hold (context : String) {tx : TransactionId}
    (records : List AuditRecord) (howned : s.owned = some tx)
    {s' : CoordinatorState} {p' : Proceedings}
    (hcommit : (commitOwned context tx (s.joinedBy records)).hold c
      (p.logged (.batched context tx (s.batch ++ records).length)) =
        ((), s', p')) :
    (joinBatch context tx records s).hold c p = ((), s', p') := by
  unfold joinBatch
  rw [hold_bind_of (hold_change _), hold_bind_of hold_state,
    hold_bind_of (hold_log _), if_pos howned]
  exact hcommit

theorem finish_hold_outside (hc : c.Uncancelled) (context : String)
    (hidle : s.commitInProgress = false) (htx : p.work.transaction = none) :
    ∃ records p', (finish context s).hold c p =
        (.ok (), { s with phase := .idle, captures := [], batch := [] }, p') ∧
      records.map AuditRecord.content =
        s.pending.map (Content.written p.work.primaryKey) ∧
      p.Went (consuming records) p.work p' := by
  obtain ⟨records, p₁, hcontents, went₁, hfinish⟩ :=
    finish_hold hc context hidle p
  rw [htx] at hfinish
  obtain ⟨p₂, hdelivered, went₂⟩ := deliverNow_hold c context records
    { s with phase := .reconciling, captures := [] } p₁
  rw [went₁.work_eq] at went₂
  exact ⟨records, _, hfinish _ _ hdelivered, hcontents,
    (went₁.trans went₂).asked c .isCancelled⟩

/-- The batch of an owned transaction is delivered if the commit succeeds. -/
theorem finish_hold_committed (hc : c.Uncancelled) (context : String)
    (hidle : s.commitInProgress = false) {tx : TransactionId}
    (howned : s.owned = some tx) (htx : p.work.transaction = some tx)
    (harmed : p.work.commitFailureArmed = false) :
    ∃ records p', (finish context s).hold c p =
        (.ok (),
          { s.settledAs tx .committed with phase := .idle, captures := [] },
          p') ∧
      records.map AuditRecord.content =
        s.pending.map (Content.written p.work.primaryKey) ∧
      p.Went (commitCalls context tx (s.batch ++ records))
        (p.work.commit tx).2 p' := by
  obtain ⟨records, p₁, hcontents, went₁, hfinish⟩ :=
    finish_hold hc context hidle p
  rw [htx] at hfinish
  have went₂ :=
    went₁.logged (.batched context tx (s.batch ++ records).length) (by simp)
  obtain ⟨p₃, hcommitted, went₃⟩ := commitOwned_hold_committed
    (s := { s with phase := .reconciling, captures := [] }.joinedBy records) c
      context howned
    (went₂.work_eq ▸ htx) (went₂.work_eq ▸ harmed)
  rw [went₂.work_eq] at went₃
  have hdone := hfinish _ _ (joinBatch_hold
    (s := { s with phase := .reconciling, captures := [] }) context records
      howned hcommitted)
  exact ⟨records, _, hdone, hcontents, (went₂.trans went₃).asked c .isCancelled⟩

/-- It is dropped if the commit fails, and the transaction is rolled back. -/
theorem finish_hold_failed (hc : c.Uncancelled) (context : String)
    (hidle : s.commitInProgress = false) {tx : TransactionId}
    (howned : s.owned = some tx) (htx : p.work.transaction = some tx)
    (harmed : p.work.commitFailureArmed = true) :
    ∃ records phase p', (finish context s).hold c p =
        (.ok (), { s.settledAs tx phase with phase := .idle, captures := [] },
          p') ∧
      p.Went (failedCommitCalls context tx (s.batch ++ records))
        ((p.work.commit tx).2.release (some tx)) p' := by
  obtain ⟨records, p₁, -, went₁, hfinish⟩ := finish_hold hc context hidle p
  rw [htx] at hfinish
  have went₂ :=
    went₁.logged (.batched context tx (s.batch ++ records).length) (by simp)
  obtain ⟨phase, p₃, hfailed, went₃⟩ := commitOwned_hold_failed
    (s := { s with phase := .reconciling, captures := [] }.joinedBy records) c
      context howned
    (went₂.work_eq ▸ htx) (went₂.work_eq ▸ harmed)
  rw [went₂.work_eq] at went₃
  have hdone := hfinish _ _ (joinBatch_hold
    (s := { s with phase := .reconciling, captures := [] }) context records
      howned hfailed)
  exact ⟨records, phase, _, hdone, (went₂.trans went₃).asked c .isCancelled⟩

theorem releaseOwned_hold (c : Circumstances) (context : String)
    (s : CoordinatorState) (p : Proceedings) :
    ∃ settled phase p', (releaseOwned context s).hold c p =
        ((), { s with owned := none, settled := settled,
                      transactionPhase := phase,
                      batch := if s.owned.isSome then [] else s.batch }, p') ∧
      p.Went (releaseCalls context s.owned) (p.work.release s.owned) p' := by
  obtain ⟨_, transactionPhase, owned, settled, _, _, _⟩ := s
  cases owned with
  | none =>
      exact ⟨settled, transactionPhase, p, releaseOwned_hold_none context rfl p,
        went_refl p⟩
  | some tx =>
      obtain ⟨phase, p', hreleased, went⟩ :=
        releaseOwned_hold_some (s :=
          ⟨_, transactionPhase, some tx, settled, _, _, _⟩) c context
          rfl p
      exact ⟨some tx, phase, p', hreleased, went⟩

theorem abandonFlush_hold (hc : c.Uncancelled) (context : String)
    (reason : FlushFailure) (s : CoordinatorState) (p : Proceedings) :
    ∃ settled phase p', (abandonFlush context reason s).hold c p =
        (.ok (), { s with captures := [], phase := .idle, owned := none,
                          settled := settled, transactionPhase := phase,
                          batch := if s.owned.isSome then [] else s.batch },
          p') ∧
      p.Went (releaseCalls context s.owned) (p.work.release s.owned) p' := by
  have went₁ := ((went_refl p).asked c .isCancelled).logged
    (.capturesDiscarded context reason s.captures.length) (by simp)
  obtain ⟨settled, phase, p₂, hreleased, went₂⟩ := releaseOwned_hold c context
    { s with captures := [], phase := .idle }
    ((p.asked c .isCancelled).logged
      (.capturesDiscarded context reason s.captures.length))
  refine ⟨settled, phase, _, ?_, (went₁.trans went₂).asked c .isCancelled⟩
  unfold abandonFlush
  rw [hold_bind_of (hold_ask _), if_neg (by simp [answer, hc p.history]),
    hold_bind_of hold_state, hold_bind_of (hold_change _),
    hold_bind_of (hold_log _), hold_bind_of hreleased, checkCancelled_hold hc]

end Pieces
end AuditTrail
