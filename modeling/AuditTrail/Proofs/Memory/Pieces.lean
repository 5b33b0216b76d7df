import AuditTrail.Proofs.Coordinator.Content
import AuditTrail.Proofs.Coordinator.Quiet
import AuditTrail.Proofs.Memory.Service

/-!
# The pieces of a coordinator at a desk

What each piece of the coordinator does when it serves a unit of work in
memory: its result, the state it leaves, whom it called, and what has become
of the unit of work. Fresh identities, times and the consumer's answers only
find their way into the history, so they are left out of it: `Went` says of
the proceedings what matters later, and each piece has one lemma that ends in
it.

Contents are all that is said of captures and records. A capture of the
snapshot has the contents of the snapshot, `capture_hold`, and what captures
are promoted to has their contents with the keys that the write has assigned,
`promoteAll_hold`.
-/

namespace AuditTrail

open Coordinating Coordinator History

namespace Proceedings

/-- The proceedings have gone on to others, with these calls, and left the
unit of work like this. No owned transaction was let go unsettled. -/
structure Went (p : Proceedings) (made : List Call) (u : MemoryUnitOfWork)
    (p' : Proceedings) : Prop where
  work_eq : p'.work = u
  history_eq : ∃ h, p'.history = p.history ++ h ∧ calls h = made
  log_eq : ∃ l, p'.log = p.log ++ l ∧ ∀ tx, LogEvent.ownReleasedUnsettled tx ∉ l

theorem went_refl (p : Proceedings) : p.Went [] p.work p :=
  ⟨rfl, ⟨[], (List.append_nil _).symm, rfl⟩,
    ⟨[], (List.append_nil _).symm, by simp⟩⟩

/-- What has become of the unit of work need not be said. -/
theorem Went.self {p p' : Proceedings} {made : List Call} {u : MemoryUnitOfWork}
    (went : p.Went made u p') : p.Went made p'.work p' :=
  ⟨rfl, went.history_eq, went.log_eq⟩

theorem Went.trans {p p' p'' : Proceedings} {made made' : List Call}
    {u u' : MemoryUnitOfWork} (first : p.Went made u p')
    (second : p'.Went made' u' p'') :
    p.Went (made ++ made') u' p'' := by
  obtain ⟨h, hh, hmade⟩ := first.history_eq
  obtain ⟨h', hh', hmade'⟩ := second.history_eq
  obtain ⟨l, hl, hkept⟩ := first.log_eq
  obtain ⟨l', hl', hkept'⟩ := second.log_eq
  refine ⟨second.work_eq, ⟨h ++ h', ?_, ?_⟩, ⟨l ++ l', ?_, fun tx hmem => ?_⟩⟩
  · rw [hh', hh, List.append_assoc]
  · rw [calls_append, hmade, hmade']
  · rw [hl', hl, List.append_assoc]
  · rcases List.mem_append.mp hmem with hmem | hmem
    · exact hkept tx hmem
    · exact hkept' tx hmem

theorem Went.asked {p p' : Proceedings} {made : List Call}
    {u : MemoryUnitOfWork} (went : p.Went made u p') (c : Circumstances)
    (query : Query) :
    p.Went made u (p'.asked c query) := by
  obtain ⟨h, hh, hmade⟩ := went.history_eq
  refine ⟨went.work_eq, ⟨h ++ [.asked query (p'.answer c query)], ?_, ?_⟩,
    went.log_eq⟩
  · rw [← List.append_assoc, ← hh]
    rfl
  · rw [calls_append, hmade]
    exact List.append_nil made

theorem Went.called {p p' : Proceedings} {made : List Call}
    {u : MemoryUnitOfWork} (went : p.Went made u p') (c : Circumstances)
    (also : Call) :
    p.Went (made ++ [also]) (p'.reply c also).2 (p'.called c also) := by
  obtain ⟨h, hh, hmade⟩ := went.history_eq
  refine ⟨rfl, ⟨h ++ [.called also, .returned also (p'.reply c also).1], ?_,
    ?_⟩, went.log_eq⟩
  · rw [← List.append_assoc, ← hh]
    rfl
  · rw [calls_append, hmade]
    rfl

theorem Went.logged {p p' : Proceedings} {made : List Call}
    {u : MemoryUnitOfWork} (went : p.Went made u p') (event : LogEvent)
    (hevent : ∀ tx, event ≠ .ownReleasedUnsettled tx) :
    p.Went made u (p'.logged event) := by
  obtain ⟨l, hl, hkept⟩ := went.log_eq
  refine ⟨went.work_eq, went.history_eq, ⟨l ++ [event], ?_, fun tx hmem => ?_⟩⟩
  · rw [← List.append_assoc, ← hl]
    rfl
  · rcases List.mem_append.mp hmem with hmem | hmem
    · exact hkept tx hmem
    · exact hevent tx (List.mem_singleton.mp hmem).symm

end Proceedings

open Proceedings

namespace Coordinating

variable {c : Circumstances}

/-! ## Handing on -/

theorem dispatch_hold (c : Circumstances) (records : List AuditRecord)
    (s : CoordinatorState) (p : Proceedings) :
    ∃ p', (dispatch records s).hold c p = ((), s, p') ∧
      p.Went (consuming records) p.work p' := by
  unfold dispatch consuming slices
  split
  · exact ⟨p, rfl, went_refl p⟩
  · rw [hold_bind_of (hold_call _)]
    have went := (went_refl p).called c (.consume records)
    cases (p.reply c (.consume records)).1 with
    | ok _ | error _ => exact ⟨_, hold_log _, went.logged _ (by simp)⟩

theorem announce_hold (c : Circumstances) (records : List AuditRecord)
    (event : TransactionEvent) (s : CoordinatorState) (p : Proceedings) :
    ∃ p', (announce records event s).hold c p = ((), s, p') ∧
      p.Went (announcing records event) p.work p' := by
  unfold announce announcing slices
  split
  · exact ⟨p, rfl, went_refl p⟩
  · rw [hold_bind_of (hold_call _)]
    have went := (went_refl p).called c (.preCommit records event)
    cases (p.reply c (.preCommit records event)).1 with
    | ok _ => exact ⟨_, hold_pure _, went⟩
    | error _ => exact ⟨_, hold_log _, went.logged _ (by simp)⟩

theorem report_hold (c : Circumstances) (event : TransactionEvent)
    (status : TransactionStatus) (s : CoordinatorState) (p : Proceedings) :
    ∃ p', (report event status s).hold c p = ((), s, p') ∧
      p.Went [.finished event status] p.work p' := by
  unfold report
  rw [hold_bind_of (hold_call _)]
  have went := (went_refl p).called c (.finished event status)
  cases (p.reply c (.finished event status)).1 with
  | ok _ => exact ⟨_, hold_pure _, went⟩
  | error _ => exact ⟨_, hold_log _, went.logged _ (by simp)⟩

theorem checkCancelled_hold (hc : c.Uncancelled) (s : CoordinatorState)
    (p : Proceedings) :
    (checkCancelled s).hold c p = (.ok (), s, p.asked c .isCancelled) := by
  unfold checkCancelled
  rw [hold_bind_of (hold_ask _), if_neg (by simp [answer, hc p.history])]
  rfl

/-! ## Reading the changes -/

theorem keyText_hold (c : Circumstances) (entity : EntityRef)
    (s : CoordinatorState) (p : Proceedings) :
    (keyText entity s).hold c p =
      ((p.work.primaryKey entity).bind FieldValue.keyText?, s,
        p.asked c (.primaryKey entity)) := by
  unfold keyText
  rw [hold_bind_of (hold_ask _)]
  rfl

theorem captureEntry_hold (c : Circumstances) (entry : TrackedEntry)
    (planned : PlannedCapture) (s : CoordinatorState) (p : Proceedings) :
    ∃ capture p', (captureEntry entry planned s).hold c p = (capture, s, p') ∧
      Capture.content capture = planned.content entry.entity
        (p.work.primaryKey entry.entity) ∧
      p.Went [] p.work p' := by
  unfold captureEntry
  cases haction : planned.action with
  | create =>
      refine ⟨_, _, rfl, ?_,
        ((went_refl p).asked c .freshRecordId).asked c .now⟩
      simp [PlannedCapture.content, Capture.content, Change.content, haction]
  | update | delete =>
      simp only []
      rw [hold_bind_of (keyText_hold c _ s p)]
      refine ⟨_, _, rfl, ?_,
        (((went_refl p).asked c (.primaryKey entry.entity)).asked c
        .freshRecordId).asked c .now⟩
      simp [PlannedCapture.content, Capture.content, Change.content, haction]

/-- Captures are taken of the contents of the snapshot. -/
theorem captureAll_hold (c : Circumstances) (settings : CoordinatorSettings)
    (entries : List TrackedEntry) : ∀ (s : CoordinatorState) (p : Proceedings),
    ∃ captured p',
      (captureAll settings entries s).hold c p = (captured, s, p') ∧
      captured.map (List.map Capture.content) =
        settings.contents p.work.primaryKey entries ∧
      p.Went [] p.work p' := by
  induction entries with
  | nil => intro s p; exact ⟨_, _, hold_pure _, rfl, went_refl p⟩
  | cons entry rest ih =>
      intro s p
      rw [captureAll]
      split
      · next haudits =>
          rw [settings.contents_cons _ haudits, CoordinatorSettings.contentOf]
          cases hplan : settings.plan entry with
          | error e => exact ⟨_, _, hold_pure _, rfl, went_refl p⟩
          | ok planned =>
              simp only []
              obtain ⟨capture, p₁, hcapture, hcontent, went₁⟩ :=
                captureEntry_hold c entry planned s p
              obtain ⟨captured, p₂, hcaptured, hcontents, went₂⟩ := ih s p₁
              rw [hold_bind_of hcapture, hold_bind_of hcaptured]
              rw [went₁.work_eq] at hcontents went₂
              have went := went₁.trans went₂
              cases captured with
              | error e =>
                  refine ⟨_, _, hold_pure _, ?_, went⟩
                  rw [← hcontents]
                  rfl
              | ok captures =>
                  refine ⟨_, _, hold_pure _, ?_, went⟩
                  rw [← hcontents]
                  exact congrArg
                    (fun first => Except.ok
                      (first :: captures.map Capture.content))
                    hcontent
      · next haudits =>
          rw [settings.contents_cons_of_not _ (by simpa using haudits)]
          exact ih s p

theorem capture_hold (c : Circumstances) (settings : CoordinatorSettings)
    (s : CoordinatorState) (p : Proceedings) :
    ∃ captured p', (capture settings s).hold c p = (captured, s, p') ∧
      captured.map (List.map Capture.content) =
        settings.contents p.work.primaryKey p.work.entries ∧
      p.Went [] p.work p' := by
  unfold capture
  rw [hold_bind_of (hold_ask _)]
  obtain ⟨captured, p', hcaptured, hcontents, went⟩ :=
    captureAll_hold c settings p.work.entries s (p.asked c .entries)
  exact ⟨captured, p', hcaptured, hcontents,
    ((went_refl p).asked c .entries).trans went⟩

theorem promote_hold (c : Circumstances) (captured : Capture)
    (s : CoordinatorState) (p : Proceedings) :
    ∃ record p', (promote captured s).hold c p = (record, s, p') ∧
      AuditRecord.content record = captured.content.written p.work.primaryKey ∧
      p.Went [] p.work p' := by
  unfold promote
  cases haction : captured.action with
  | create =>
      simp only []
      rw [hold_bind_of (keyText_hold c _ s p)]
      refine ⟨_, _, rfl, ?_, (went_refl p).asked c _⟩
      simp [AuditRecord.content, Capture.content, Change.content,
        Capture.promote, Content.written, haction]
  | update | delete =>
      refine ⟨_, _, rfl, ?_, went_refl p⟩
      simp [AuditRecord.content, Capture.content, Change.content,
        Capture.promote, Content.written, haction]

/-- What captures are promoted to has their contents, with the keys of now. -/
theorem promoteAll_hold (c : Circumstances) (captures : List Capture) :
    ∀ (s : CoordinatorState) (p : Proceedings),
    ∃ records p', (promoteAll captures s).hold c p = (records, s, p') ∧
      records.map AuditRecord.content =
        (captures.map Capture.content).map (Content.written p.work.primaryKey) ∧
      p.Went [] p.work p' := by
  induction captures with
  | nil => intro s p; exact ⟨_, _, hold_pure _, rfl, went_refl p⟩
  | cons captured rest ih =>
      intro s p
      obtain ⟨record, p₁, hrecord, hcontent, went₁⟩ :=
        promote_hold c captured s p
      obtain ⟨records, p₂, hrecords, hcontents, went₂⟩ := ih s p₁
      rw [promoteAll, hold_bind_of hrecord, hold_bind_of hrecords]
      rw [went₁.work_eq] at hcontents went₂
      refine ⟨_, _, hold_pure _, ?_, went₁.trans went₂⟩
      rw [List.map_cons, hcontent, hcontents]
      rfl

/-! ## Settling an owned transaction -/

/-- The calls of a commit of its own that succeeds. -/
def commitCalls (context : String) (tx : TransactionId)
    (batch : List AuditRecord) : List Call :=
  announcing batch ⟨context, some tx⟩ ++
    .commit tx :: (consuming batch ++ [.finished ⟨context, some tx⟩ .committed])

/-- The calls of one that fails. -/
def failedCommitCalls (context : String) (tx : TransactionId)
    (batch : List AuditRecord) : List Call :=
  announcing batch ⟨context, some tx⟩ ++
    [.commit tx, .rollback tx, .finished ⟨context, some tx⟩ .failed]

/-- The calls of a rollback of what is owned. -/
def releaseCalls (context : String) : Option TransactionId → List Call
  | none => []
  | some tx => [.rollback tx, .finished ⟨context, some tx⟩ .rolledBack]

theorem delivery?_commitCalls (context : String) (tx : TransactionId)
    (batch : List AuditRecord) :
    (commitCalls context tx batch).filterMap Call.delivery? = slices batch := by
  rw [commitCalls, List.filterMap_append, delivery?_announcing, List.nil_append,
    List.filterMap_cons_none rfl, List.filterMap_append, delivery?_consuming]
  exact List.append_nil _

theorem delivery?_failedCommitCalls (context : String) (tx : TransactionId)
    (batch : List AuditRecord) :
    (failedCommitCalls context tx batch).filterMap Call.delivery? = [] := by
  rw [failedCommitCalls, List.filterMap_append, delivery?_announcing]
  rfl

theorem delivery?_releaseCalls (context : String)
    (owned : Option TransactionId) :
    (releaseCalls context owned).filterMap Call.delivery? = [] := by
  cases owned <;> rfl

section Owned

variable {s : CoordinatorState} {tx : TransactionId}

theorem releaseOwned_hold_none (context : String) (howned : s.owned = none)
    (p : Proceedings) :
    (releaseOwned context s).hold c p = ((), s, p) := by
  unfold releaseOwned
  rw [hold_bind_of hold_state, howned]
  rfl

theorem releaseOwned_hold_some (c : Circumstances) (context : String)
    (howned : s.owned = some tx) (p : Proceedings) :
    ∃ phase p', (releaseOwned context s).hold c p =
        ((), { s with owned := none, settled := some tx,
                      transactionPhase := phase, batch := [] }, p') ∧
      p.Went (releaseCalls context (some tx))
        (p.work.release (some tx)) p' := by
  unfold releaseOwned
  rw [hold_bind_of hold_state, howned]
  simp only []
  rw [hold_bind_of (hold_change _)]
  -- What the log is told depends on the answer, and so does the phase; the rest
  -- does not.
  have hend : ∀ phase p₁, p.Went [.rollback tx] (p.work.rollback tx).2 p₁ →
      ∃ p', (report ⟨context, some tx⟩ .rolledBack
          { s with owned := none, settled := some tx, transactionPhase := phase,
                   batch := [] }).hold c p₁ =
          ((), { s with owned := none, settled := some tx,
                        transactionPhase := phase,
                        batch := [] }, p') ∧
        p.Went [.rollback tx, .finished ⟨context, some tx⟩ .rolledBack]
          (p.work.rollback tx).2 p' := by
    intro phase p₁ went₁
    obtain ⟨p₂, hreported, went₂⟩ :=
      report_hold c ⟨context, some tx⟩ .rolledBack _ p₁
    rw [went₁.work_eq] at went₂
    exact ⟨p₂, hreported, went₁.trans went₂⟩
  rw [hold_bind_of (hold_call _)]
  have rolled := (went_refl p).called c (.rollback tx)
  cases (p.reply c (.rollback tx)).1 with
  | ok _ => exact ⟨.rolledBack, hend _ _ (rolled.logged _ (by simp))⟩
  | error _ => exact ⟨.failed, hend _ _ (rolled.logged _ (by simp))⟩

theorem finishOwned_hold (c : Circumstances) (phase : TransactionPhase)
    (howned : s.owned = some tx) (p : Proceedings) :
    (finishOwned phase s).hold c p =
      (true, { s with commitInProgress := false, owned := none,
                      settled := some tx,
                      transactionPhase := phase }, p) := by
  unfold finishOwned
  rw [hold_bind_of hold_state, howned]
  rfl

theorem commitOwned_hold_committed (c : Circumstances) (context : String)
    (howned : s.owned = some tx) {p : Proceedings}
    (htx : p.work.transaction = some tx)
    (harmed : p.work.commitFailureArmed = false) :
    ∃ p', (commitOwned context tx s).hold c p =
      ((), s.settledAs tx .committed, p') ∧
      p.Went (commitCalls context tx s.batch) (p.work.commit tx).2 p' := by
  unfold commitOwned
  simp only []
  rw [hold_bind_of hold_state, hold_bind_of (hold_change _)]
  obtain ⟨p₁, hannounced, went₁⟩ :=
    announce_hold c s.batch ⟨context, some tx⟩ _ p
  rw [hold_bind_of hannounced, hold_bind_of (hold_call _)]
  have hreply : (p₁.reply c (.commit tx)).1 = .ok () := by
    show (p₁.work.commit tx).1 = _
    rw [went₁.work_eq, p.work.commit_of_unarmed htx harmed]
  have went₂ :=
    (went₁.called c (.commit tx)).logged (.ownCommitted tx) (by simp)
  rw [hreply]
  simp only []
  rw [hold_bind_of (hold_log _)]
  rw [hold_bind_of (finishOwned_hold
    (s := { s with commitInProgress := true, transactionPhase := .committing,
                   batch := [] })
    c .committed howned _)]
  obtain ⟨p₃, hdelivered, went₃⟩ := dispatch_hold c s.batch _ _
  rw [hold_bind_of hdelivered, if_pos rfl]
  obtain ⟨p₄, hreported, went₄⟩ :=
    report_hold c ⟨context, some tx⟩ .committed _ p₃
  rw [went₂.work_eq] at went₃
  rw [went₃.work_eq] at went₄
  refine ⟨p₄, hreported, ?_⟩
  have went := went₂.trans (went₃.trans went₄)
  rw [show (p₁.reply c (.commit tx)).2 = (p₁.work.commit tx).2 from rfl,
    went₁.work_eq, List.append_assoc] at went
  exact went

theorem commitOwned_hold_failed (c : Circumstances) (context : String)
    (howned : s.owned = some tx) {p : Proceedings}
    (htx : p.work.transaction = some tx)
    (harmed : p.work.commitFailureArmed = true) :
    ∃ phase p',
      (commitOwned context tx s).hold c p = ((), s.settledAs tx phase, p') ∧
      p.Went (failedCommitCalls context tx s.batch)
        ((p.work.commit tx).2.release (some tx))
        p' := by
  unfold commitOwned
  simp only []
  rw [hold_bind_of hold_state, hold_bind_of (hold_change _)]
  obtain ⟨p₁, hannounced, went₁⟩ :=
    announce_hold c s.batch ⟨context, some tx⟩ _ p
  rw [hold_bind_of hannounced, hold_bind_of (hold_call _)]
  have hreply : (p₁.reply c (.commit tx)).1 =
      .error (.transaction (.commitFailed tx)) := by
    show (p₁.work.commit tx).1 = _
    rw [went₁.work_eq, p.work.commit_of_armed htx harmed]
  have went₂ := (went₁.called c (.commit tx)).logged
    (.ownCommitFailed tx (.transaction (.commitFailed tx)) s.batch.length)
      (by simp)
  have went₃ := went₂.called c (.rollback tx)
  rw [hreply]
  simp only []
  rw [hold_bind_of (hold_log _), hold_bind_of (hold_call _)]
  have hend : ∀ phase p₃,
        p.Went (announcing s.batch ⟨context, some tx⟩ ++ [.commit tx] ++
        [.rollback tx]) ((p.work.commit tx).2.rollback tx).2 p₃ →
      ∃ p', ((do
          let settledHere ← finishOwned phase
          if settledHere then
            report ⟨context, some tx⟩ .failed : Coordinating Unit)
          { s with commitInProgress := true, transactionPhase := .committing,
                   batch := [] }).hold c p₃ = ((), s.settledAs tx phase, p') ∧
        p.Went (announcing s.batch ⟨context, some tx⟩ ++
            [.commit tx, .rollback tx, .finished ⟨context, some tx⟩ .failed])
          ((p.work.commit tx).2.rollback tx).2 p' := by
    intro phase p₃ went₃
    rw [hold_bind_of (finishOwned_hold
        (s := { s with commitInProgress := true,
                       transactionPhase := .committing, batch := [] })
        c phase howned _),
      if_pos rfl]
    obtain ⟨p₄, hreported, went₄⟩ :=
      report_hold c ⟨context, some tx⟩ .failed _ p₃
    rw [went₃.work_eq] at went₄
    refine ⟨p₄, hreported, ?_⟩
    have went := went₃.trans went₄
    simp only [List.append_assoc] at went
    exact went
  have hwork : (p₁.reply c (.commit tx)).2 = (p.work.commit tx).2 := by
    show (p₁.work.commit tx).2 = _
    rw [went₁.work_eq]
  rw [show ∀ p₂ : Proceedings,
    (p₂.reply c (.rollback tx)).2 = (p₂.work.rollback tx).2 from fun _ => rfl,
    went₂.work_eq, hwork] at went₃
  generalize (Proceedings.reply c _ (.rollback tx)).1 = answer
  cases answer with
  | ok _ => exact ⟨.rolledBack, hend _ _ went₃⟩
  | error e =>
      exact ⟨.failed,
        hend _ _ (went₃.logged (.rollbackAfterCommitFailed tx e) (by simp))⟩

end Owned

/-! ## Beginning -/

section Joining

variable {settings : CoordinatorSettings} {s : CoordinatorState}
  {p : Proceedings}

theorem openOwned_hold (hc : c.Uncancelled) (context : String)
    (howned : s.owned = none) (htx : p.work.transaction = none) :
    ∃ tx p', (openOwned context s).hold c p =
        (.ok (), { s with owned := some tx, transactionPhase := .opened }, p') ∧
      p.Went [.begin] (p.work.begin tx).2 p' := by
  unfold openOwned
  rw [hold_bind_of (hold_call _)]
  have went := (went_refl p).called c .begin
  have hreply : (p.reply c .begin).1 = .ok (c.transactionId p.history) := by
    show (p.work.begin (c.transactionId p.history)).1 = _
    rw [p.work.begin_of_none htx]
  rw [hreply]
  simp only []
  have hown : ∀ tx p₁, (own tx s).hold c p₁ =
      ((), { s with owned := some tx, transactionPhase := .opened }, p₁) := by
    intro tx p₁
    unfold own
    rw [hold_bind_of hold_state, hold_bind_of (hold_change _), howned]
    rfl
  rw [hold_bind_of (hold_log _), hold_bind_of (hown _ _),
    hold_bind_of (hold_ask _), if_neg]
  · exact ⟨_, _, hold_pure _, (went.logged _ (by simp)).asked c .isCancelled⟩
  · simp [answer, hc _]

theorem joinTransaction_hold_inside (c : Circumstances)
    (settings : CoordinatorSettings) (context : String) (s : CoordinatorState)
    {tx : TransactionId} (htx : p.work.transaction = some tx) :
    ∃ phase, (joinTransaction settings context s).hold c p =
      (.ok (), { s with transactionPhase := phase },
        p.asked c .currentTransaction) := by
  unfold joinTransaction
  rw [hold_bind_of (hold_ask _),
    show p.answer c .currentTransaction = some tx from htx]
  simp only []
  rw [hold_bind_of (hold_change _)]
  split
  · exact ⟨s.transactionPhase, rfl⟩
  · exact ⟨.opened, rfl⟩

theorem joinTransaction_hold_outside (c : Circumstances) (context : String)
    (s : CoordinatorState)
    (hauto : settings.options.autoOpenTransaction = false)
    (htx : p.work.transaction = none) :
    (joinTransaction settings context s).hold c p =
      (.ok (), s, p.asked c .currentTransaction) := by
  unfold joinTransaction
  rw [hold_bind_of (hold_ask _),
    show p.answer c .currentTransaction = none from htx]
  simp only []
  rw [if_neg (by simp [hauto])]
  rfl

theorem joinTransaction_hold_opens (hc : c.Uncancelled) (context : String)
    (hauto : settings.options.autoOpenTransaction = true)
    (howned : s.owned = none) (htx : p.work.transaction = none) :
    ∃ tx p', (joinTransaction settings context s).hold c p =
        (.ok (), { s with owned := some tx, transactionPhase := .opened }, p') ∧
      p.Went [.begin] (p.work.begin tx).2 p' := by
  unfold joinTransaction
  rw [hold_bind_of (hold_ask _),
    show p.answer c .currentTransaction = none from htx]
  simp only []
  rw [if_pos hauto]
  obtain ⟨tx, p', hopened, went⟩ :=
    openOwned_hold (p := p.asked c .currentTransaction) hc context howned htx
  exact ⟨tx, p', hopened,
    ((went_refl p).asked c .currentTransaction).trans went⟩

end Joining

end Coordinating
end AuditTrail
