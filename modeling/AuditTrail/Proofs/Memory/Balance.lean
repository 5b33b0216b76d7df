import AuditTrail.Proofs.Memory.Saves

/-!
# Transactions are balanced

A host whose coordinator opens transactions goes through one cycle after the
other: it edits, calls `start`, edits and flushes, and closes the cycle with
the result of the flush. Capturing may fail, and so may the commit and the
rollback. None of it shows in the next cycle. `start` always opens a
transaction, since none is open (`Opened`), no edit settles it, and each of the
three ways to close the cycle settles what is owned and drops what is pending:
a commit that fails is rolled back, and a rollback that fails discards the
transaction all the same. So a cycle that begins with no transaction ends with
none, and there is nothing an earlier failure could leave behind but failures
that are still armed, on which nothing here depends.
-/

namespace AuditTrail

open Coordinating Coordinator History Proceedings

def Call.begins : Call → Bool
  | .begin => true
  | _ => false

/-- How often a transaction was to be opened. -/
def History.beginnings (h : History) : Nat := (calls h).countP Call.begins

theorem begins_consuming (records : List AuditRecord) :
    (consuming records).countP Call.begins = 0 := by
  unfold consuming slices
  split <;> rfl

theorem begins_announcing (records : List AuditRecord)
    (event : TransactionEvent) :
    (announcing records event).countP Call.begins = 0 := by
  unfold announcing slices
  split <;> rfl

theorem begins_commitCalls (context : String) (tx : TransactionId)
    (batch : List AuditRecord) :
    (commitCalls context tx batch).countP Call.begins = 0 := by
  rw [commitCalls, List.countP_append, begins_announcing, List.countP_cons,
    List.countP_append, begins_consuming]
  rfl

theorem begins_failedCommitCalls (context : String) (tx : TransactionId)
    (batch : List AuditRecord) :
    (failedCommitCalls context tx batch).countP Call.begins = 0 := by
  rw [failedCommitCalls, List.countP_append, begins_announcing]
  rfl

theorem begins_releaseCalls (context : String) (owned : Option TransactionId) :
    (releaseCalls context owned).countP Call.begins = 0 := by
  cases owned <;> rfl

theorem slices_eq_nil_iff {records : List AuditRecord} :
    slices records = [] ↔ records = [] := by
  rw [slices, ite_eq_left_iff, List.isEmpty_iff]
  simp

/-! ## Cycles -/

/-- What a host does around a flush, with edits before the capture and edits
after it, and how the flush failed, if it did. -/
structure SaveCycle where
  before : List Edit
  between : List Edit
  failure : Option FlushFailure

namespace SaveCycle

def closing (cycle : SaveCycle) : SaveCall :=
  match cycle.failure with
  | none => .finish
  | some reason => .abandon reason

/-- All but the closing call. -/
def opening (cycle : SaveCycle) : List HostStep :=
  cycle.before.map .edit ++ .save .start :: cycle.between.map .edit

def script (cycle : SaveCycle) : List HostStep :=
  cycle.opening ++ [.save cycle.closing]

end SaveCycle

namespace Desk

variable {settings : CoordinatorSettings} {c : Circumstances} {d : Desk}

/-- No transaction is open and none is owned. Between the calls at a desk no
commit is in progress anyway, `idle_save`. -/
structure Free (d : Desk) : Prop where
  transaction_eq : d.work.transaction = none
  owned_eq : d.coordinator.owned = none
  idle : d.coordinator.commitInProgress = false

/-- What a cycle leaves: nothing open, nothing owned and nothing pending. -/
structure Clean (d : Desk) : Prop extends Free d where
  captures_eq : d.coordinator.captures = []
  batch_eq : d.coordinator.batch = []
  phase_eq : d.coordinator.phase = .idle

/-- Edits change the unit of work and nothing else, and leave its transaction
alone. -/
theorem run_edits (settings : CoordinatorSettings) (c : Circumstances)
    (edits : List Edit) :
    ∀ d : Desk, ∃ u, d.run settings c (edits.map .edit) = { d with work := u } ∧
      u.transaction = d.work.transaction ∧ u.stats = d.work.stats := by
  induction edits with
  | nil => intro d; exact ⟨d.work, rfl, rfl, rfl⟩
  | cons e rest ih =>
      intro d
      obtain ⟨u, hrun, htx, hstats⟩ := ih (d.edit e)
      exact ⟨u, hrun, htx.trans (e.transaction_apply d.work),
        hstats.trans (e.stats_apply d.work)⟩

/-- A transaction was opened since the cycle began, and it waits to be
settled. -/
structure Opened (before : Desk) (tx : TransactionId) (d : Desk) : Prop where
  went : before.toProceedings.Went [.begin] d.work d.toProceedings
  transaction_eq : d.work.transaction = some tx
  owned_eq : d.coordinator.owned = some tx
  idle : d.coordinator.commitInProgress = false
  stats_eq : d.work.stats =
    { before.work.stats with begun := before.work.stats.begun + 1 }
  outcomes_eq : ∃ started, d.outcomes = before.outcomes ++ [started]

theorem Free.start (hd : d.Free) (hc : c.Uncancelled)
    (hauto : settings.options.autoOpenTransaction = true) :
    ∃ tx, Opened d tx (d.save settings c .start) := by
  obtain ⟨tx, p₁, hjoined, went₁⟩ := joinTransaction_hold_opens
    (s := { d.coordinator with phase := .capturing })
    (p := d.toProceedings.asked c .isCancelled) hc d.work.contextId
      hauto hd.owned_eq
    hd.transaction_eq
  obtain ⟨outcome, phase, captures, p', hheld, -, went₂⟩ :=
    startCollecting_hold hc d.work.contextId hd.idle hjoined
  have hasked := (went_refl d.toProceedings).asked c .isCancelled
  have went := (hasked.trans went₁).trans went₂
  rw [went₁.work_eq,
    show (d.toProceedings.asked c .isCancelled).work.begin tx =
      d.work.begin tx from rfl,
    d.work.begin_of_none hd.transaction_eq] at went
  rw [save_eq settings .start hheld]
  exact ⟨tx, went.self, congrArg _ went.work_eq, rfl, hd.idle,
    congrArg _ went.work_eq, outcome,
    rfl⟩

/-- Edits before the capture are not seen by it. -/
theorem Opened.of_edited {u : MemoryUnitOfWork} {tx : TransactionId} {d' : Desk}
    (hstats : u.stats = d.work.stats)
    (opened : Opened { d with work := u } tx d') :
    Opened d tx d' where
  went := ⟨opened.went.work_eq, opened.went.history_eq, opened.went.log_eq⟩
  transaction_eq := opened.transaction_eq
  owned_eq := opened.owned_eq
  idle := opened.idle
  stats_eq := by rw [opened.stats_eq, hstats]
  outcomes_eq := opened.outcomes_eq

theorem Opened.edit {before : Desk} {tx : TransactionId}
    (opened : Opened before tx d) {u : MemoryUnitOfWork}
    (htx : u.transaction = d.work.transaction)
    (hstats : u.stats = d.work.stats) :
    Opened before tx { d with work := u } where
  went := ⟨rfl, opened.went.history_eq, opened.went.log_eq⟩
  transaction_eq := htx.trans opened.transaction_eq
  owned_eq := opened.owned_eq
  idle := opened.idle
  stats_eq := hstats.trans opened.stats_eq
  outcomes_eq := opened.outcomes_eq

theorem Free.opening (hd : d.Free) (hc : c.Uncancelled)
    (hauto : settings.options.autoOpenTransaction = true) (cycle : SaveCycle) :
    ∃ tx, Opened d tx (d.run settings c cycle.opening) := by
  obtain ⟨u, hbefore, htx, hstats⟩ := run_edits settings c cycle.before d
  have hfree : ({ d with work := u } : Desk).Free :=
    ⟨htx.trans hd.transaction_eq, hd.owned_eq, hd.idle⟩
  obtain ⟨tx, opened⟩ := hfree.start hc hauto
  obtain ⟨v, hbetween, htx', hstats'⟩ := run_edits settings c cycle.between
    (({ d with work := u } : Desk).save settings c .start)
  refine ⟨tx, ?_⟩
  rw [SaveCycle.opening, run_append, hbefore, run_cons, step, hbetween]
  exact (opened.of_edited hstats).edit htx' hstats'

/-- The account of a cycle, from the desks before it, at its closing call and
after it. -/
structure Balanced (cycle : SaveCycle) (before closing after : Desk) : Prop
    extends Clean after where
  closed : ∃ started, after.outcomes = before.outcomes ++ [started, .ok ()]
  begun_eq : after.work.stats.begun = before.work.stats.begun + 1
  history_eq : ∃ h, after.history = before.history ++ h ∧ beginnings h = 1 ∧
    (deliveries h ≠ [] ↔ cycle.failure = none ∧
      after.work.stats.committed = before.work.stats.committed + 1 ∧
      (closing.coordinator.batch ≠ [] ∨ closing.coordinator.captures ≠ []))
  log_eq : ∃ l, after.log = before.log ++ l ∧
    ∀ tx, LogEvent.ownReleasedUnsettled tx ∉ l
  release_eq : after.coordinator.release = []

theorem Opened.balanced {before d' : Desk} {tx : TransactionId}
    (opened : Opened before tx d) {cycle : SaveCycle} {made : List Call}
    (went : d.toProceedings.Went made d'.work d'.toProceedings)
    (clean : d'.Clean) (houtcomes : d'.outcomes = d.outcomes ++ [.ok ()])
    (hnone : made.countP Call.begins = 0)
    (hbegun : d'.work.stats.begun = d.work.stats.begun)
    (hdelivers : made.filterMap Call.delivery? ≠ [] ↔ cycle.failure = none ∧
      d'.work.stats.committed = d.work.stats.committed + 1 ∧
      (d.coordinator.batch ≠ [] ∨ d.coordinator.captures ≠ [])) :
    Balanced cycle before d d' := by
  obtain ⟨started, hstarted⟩ := opened.outcomes_eq
  have went' := opened.went.trans went
  obtain ⟨h, hh, hmade⟩ := went'.history_eq
  refine ⟨clean, ⟨started, ?_⟩, ?_, ⟨h, hh, ?_, ?_⟩, went'.log_eq, ?_⟩
  · rw [houtcomes, hstarted, List.append_assoc]
    rfl
  · rw [hbegun, opened.stats_eq]
  · rw [beginnings, hmade, List.countP_append, hnone]
    rfl
  · have hcommitted : d.work.stats.committed = before.work.stats.committed := by
      rw [opened.stats_eq]
    rw [hcommitted] at hdelivers
    rw [deliveries_of_calls hmade, List.filterMap_append]
    exact hdelivers
  · rw [CoordinatorState.release, clean.owned_eq]
    rfl

/-- A commit that succeeds delivers the batch. -/
theorem Opened.finish_committed {before : Desk} {tx : TransactionId}
    (opened : Opened before tx d) (hc : c.Uncancelled) {cycle : SaveCycle}
    (hfinished : cycle.failure = none)
    (harmed : d.work.commitFailureArmed = false) :
    Balanced cycle before d (d.save settings c .finish) := by
  obtain ⟨records, p', hheld, hcontents, went⟩ :=
    finish_hold_committed hc d.work.contextId opened.idle opened.owned_eq
      opened.transaction_eq harmed
  have hrecords : records = [] ↔ d.coordinator.captures = [] := by
    rw [← List.map_eq_nil_iff, hcontents, List.map_eq_nil_iff,
      CoordinatorState.pending, List.map_eq_nil_iff]
  have hself := went.self
  have hwork := went.work_eq
  rw [d.work.commit_of_unarmed opened.transaction_eq harmed] at hwork
  rw [save_eq settings .finish hheld]
  refine opened.balanced hself ⟨⟨congrArg _ hwork, rfl, rfl⟩, rfl, rfl, rfl⟩ rfl
    (begins_commitCalls _ _ _) (congrArg (·.stats.begun) hwork) ?_
  have hcommitted : p'.work.stats.committed = d.work.stats.committed + 1 :=
    congrArg (·.stats.committed) hwork
  rw [delivery?_commitCalls, Ne, slices_eq_nil_iff, List.append_eq_nil_iff,
    hrecords, not_and_or]
  exact ⟨fun h => ⟨hfinished, hcommitted, h⟩, fun h => h.2.2⟩

/-- One that fails delivers nothing and is rolled back. -/
theorem Opened.finish_failed {before : Desk} {tx : TransactionId}
    (opened : Opened before tx d) (hc : c.Uncancelled) {cycle : SaveCycle}
    (harmed : d.work.commitFailureArmed = true) :
    Balanced cycle before d (d.save settings c .finish) := by
  obtain ⟨records, phase, p', hheld, went⟩ :=
    finish_hold_failed hc d.work.contextId opened.idle opened.owned_eq
      opened.transaction_eq harmed
  have hself := went.self
  have hwork := went.work_eq
  rw [d.work.commit_of_armed opened.transaction_eq harmed] at hwork
  have hrolled :=
    MemoryUnitOfWork.release_eq { d.work with commitFailureArmed := false }
      (some tx)
  rw [save_eq settings .finish hheld]
  refine opened.balanced hself ⟨⟨?_, rfl, rfl⟩, rfl, rfl, rfl⟩ rfl
    (begins_failedCommitCalls _ _ _)
      (congrArg (·.stats.begun) (hwork.trans hrolled)) ?_
  · exact (congrArg _ hwork).trans
      (MemoryUnitOfWork.transaction_release _ opened.transaction_eq)
  · have hcommitted : p'.work.stats.committed = d.work.stats.committed :=
      congrArg (·.stats.committed) (hwork.trans hrolled)
    rw [delivery?_failedCommitCalls, hcommitted]
    simp

theorem Opened.abandon {before : Desk} {tx : TransactionId}
    (opened : Opened before tx d) (hc : c.Uncancelled) {cycle : SaveCycle}
    {reason : FlushFailure} (hfailed : cycle.failure = some reason) :
    Balanced cycle before d (d.save settings c (.abandon reason)) := by
  obtain ⟨settled, phase, p', hheld, went⟩ :=
    abandonFlush_hold hc d.work.contextId reason d.coordinator d.toProceedings
  rw [← SaveCall.serve_abandon settings] at hheld
  have hself := went.self
  have hwork := went.work_eq
  have htx : d.work.transaction = d.coordinator.owned :=
    opened.transaction_eq.trans opened.owned_eq.symm
  rw [save_eq settings _ hheld]
  refine opened.balanced hself ⟨⟨?_, rfl, opened.idle⟩, rfl, ?_, rfl⟩ rfl
    (begins_releaseCalls _ _)
      (congrArg (·.stats.begun) (hwork.trans (d.work.release_eq _))) ?_
  · exact (congrArg _ hwork).trans (d.work.transaction_release htx)
  · show (if d.coordinator.owned.isSome then [] else d.coordinator.batch) = []
    rw [opened.owned_eq]
    rfl
  · rw [delivery?_releaseCalls, hfailed]
    simp

/-- However a cycle goes and is closed, it is balanced. -/
theorem Free.cycle (hd : d.Free) (hc : c.Uncancelled)
    (hauto : settings.options.autoOpenTransaction = true) (cycle : SaveCycle) :
    Balanced cycle d (d.run settings c cycle.opening)
      (d.run settings c cycle.script) := by
  obtain ⟨tx, opened⟩ := hd.opening hc hauto cycle
  rw [SaveCycle.script, run_append, run_cons, step, SaveCycle.closing]
  cases hfailure : cycle.failure with
  | none =>
      cases harmed :
          (d.run settings c cycle.opening).work.commitFailureArmed with
      | false => exact opened.finish_committed hc hfailure harmed
      | true => exact opened.finish_failed hc harmed
  | some reason => exact opened.abandon hc hfailure

/-- So are any number of them: what the next one needs is what each leaves. -/
theorem Free.cycles (hc : c.Uncancelled)
    (hauto : settings.options.autoOpenTransaction = true)
    (cycles : List SaveCycle) :
    ∀ {d : Desk}, d.Free →
      (d.run settings c (cycles.flatMap SaveCycle.script)).Free := by
  induction cycles with
  | nil => intro d hd; exact hd
  | cons cycle rest ih =>
      intro d hd
      rw [List.flatMap_cons, run_append]
      exact ih (hd.cycle hc hauto cycle).toFree

end Desk

/-- Each cycle of a host is balanced, whatever the cycles before it were and
whatever went wrong in them. -/
theorem cycles_balanced {settings : CoordinatorSettings}
    (hauto : settings.options.autoOpenTransaction = true) {c : Circumstances}
    (hc : c.Uncancelled) {d : Desk} (hd : d.Free) (earlier : List SaveCycle)
    (cycle : SaveCycle) :
    let before := d.run settings c (earlier.flatMap SaveCycle.script)
    Desk.Balanced cycle before (before.run settings c cycle.opening)
      (before.run settings c cycle.script) :=
  (hd.cycles hc hauto earlier).cycle hc hauto cycle

namespace Sample

/-- The commit and the rollback of the first cycle fail, the capture of the
second one does, and so does the flush of the third one. -/
def troubled : List SaveCycle :=
  [⟨[.failNextCommit, .failNextRollback, .add "Order" [("Total", .int 10)]],
      [.flush], none⟩,
    ⟨[.add "Order" [], .setState ⟨2⟩ .detached], [.flush], none⟩,
    ⟨[.setState ⟨2⟩ .added, .failNextCommit], [], some .failed⟩]

def lastCycle : SaveCycle := ⟨[], [.flush], none⟩

end Sample

/-- The commit failure that was armed in the third cycle comes in the fourth. -/
theorem cycles_balanced_sample :
    let c := Sample.circumstances (.error (.consumer "full"))
    let before := (Desk.new .initial (.new "req")).run (Sample.settings true) c
      (Sample.troubled.flatMap SaveCycle.script)
    let after := before.run (Sample.settings true) c Sample.lastCycle.script
    Desk.Balanced Sample.lastCycle before
        (before.run (Sample.settings true) c Sample.lastCycle.opening) after ∧
      before.work.stats = ⟨3, 1, 1⟩ ∧ after.work.stats = ⟨4, 1, 2⟩ :=
  ⟨cycles_balanced rfl (Sample.uncancelled_circumstances _) ⟨rfl, rfl, rfl⟩
    Sample.troubled
    Sample.lastCycle, by decide +kernel, by decide +kernel⟩

end AuditTrail
