import AuditTrail.Proofs.Coordinator.Quiet

/-!
# What an undisturbed turn comes to

`Course` lists what can become of a turn during which nobody calls the
coordinator: one way for each branch that it can take, with the collaborators
that are called on it and the state that is left. `Turn.Taken.course` says
that the list is complete. It is the only place where the turns of the
coordinator are taken apart; what is proved of undisturbed sessions goes by
cases on the course of each turn.
-/

namespace AuditTrail

open Coordinating Coordinator History

/-- Whether a call of the host has a token. -/
def HostCall.hasToken : HostCall → Bool
  | .clearCaptures => false
  | .clearBatch => false
  | _ => true

/-- The transaction that a notice says has ended, and how. -/
def HostCall.ending? : HostCall → Option (TransactionEvent × TransactionStatus)
  | .transactionCommitted event => some (event, .committed)
  | .transactionRolledBack event => some (event, .rolledBack)
  | .transactionFailed event => some (event, .failed)
  | _ => none

/-- The unit of work whose flush did not happen. -/
def HostCall.abandoned? : HostCall → Option String
  | .saveFailed context => some context
  | .saveCanceled context => some context
  | _ => none

theorem HostCall.hasToken_of_ending {made : HostCall}
    {n : TransactionEvent × TransactionStatus}
    (hending : made.ending? = some n) :
    made.hasToken := by
  cases made <;> first | rfl | cases hending

theorem HostCall.hasToken_of_abandoned {made : HostCall} {context : String}
    (hmade : made.abandoned? = some context) : made.hasToken := by
  cases made <;> first | rfl | cases hmade

theorem HostCall.not_ending_of_abandoned {made : HostCall} {context : String}
    (hmade : made.abandoned? = some context) : made.ending? = none := by
  cases made <;> first | rfl | cases hmade

theorem HostCall.not_finish_of_abandoned {made : HostCall} {context : String}
    (hmade : made.abandoned? = some context) (other : String) :
    made ≠ .finish other := by
  rintro rfl
  cases hmade

theorem HostCall.not_finish_of_ending {made : HostCall}
    {n : TransactionEvent × TransactionStatus} (hending : made.ending? = some n)
    (other : String) : made ≠ .finish other := by
  rintro rfl
  cases hending

/-- What becomes of an undisturbed turn that begins in a state. -/
inductive Course (s : CoordinatorState) :
    HostCall → History → CoordinatorState → Prop where
  | refused {made : HostCall} (htoken : made.hasToken) :
      Course s made [.asked .isCancelled true] s
  | busy {made : HostCall} (htoken : made.hasToken)
      (hbusy : s.commitInProgress = true) :
      Course s made [.asked .isCancelled false] s
  | ignored {made : HostCall} {event : TransactionEvent}
      {status : TransactionStatus} {tx : TransactionId}
      (hending : made.ending? = some (event, status))
      (hnamed : event.transaction = some tx) (hsettled : s.settled = some tx) :
      Course s made [.asked .isCancelled false] s
  | collected {context : String} {h : History} {current : Option TransactionId}
      (phase : LifecyclePhase) (transactionPhase : TransactionPhase)
      (captures : List Capture) (hseen : seen h = [current])
      (hcalls : calls h = [])
      (hstands : transactionPhase.standing? =
        if finds h then some .live else s.transactionPhase.standing?) :
      Course s (.startCollecting context) h
        { s with phase := phase, transactionPhase := transactionPhase,
                 captures := captures }
  | opened {context : String} {h : History} {owned : Option TransactionId}
      (phase : LifecyclePhase) (transactionPhase : TransactionPhase)
      (captures : List Capture) (hseen : seen h = [none])
      (hcalls : calls h = [.begin])
      (howned : ∀ tx, owned = some tx → s.owned = some tx ∨ tx ∈ begun h)
      (hstands : transactionPhase.standing? =
        if finds h then some .live else s.transactionPhase.standing?) :
      Course s (.startCollecting context) h
        { s with phase := phase, transactionPhase := transactionPhase,
                 captures := captures,
                 owned := owned }
  | undone {context : String} {h : History} {tx : TransactionId}
      (transactionPhase : TransactionPhase) (hseen : seen h = [none])
      (hbegun : tx ∈ begun h)
      (hcalls : calls h =
        [.begin, .rollback tx, .finished ⟨context, some tx⟩ .rolledBack])
      (hstands : transactionPhase.standing? = some .over) :
      Course s (.startCollecting context) h
        { s with phase := .idle, transactionPhase := transactionPhase,
                 owned := none,
                 settled := some tx, batch := [] }
  | delivered {context : String} {h : History} (hseen : seen h = [none])
      (hcalls : calls h = consuming (promotions s.captures (keys h))) :
      Course s (.finish context) h { s with phase := .idle, captures := [],
                                            batch := [] }
  | batched {context : String} {h : History} {tx : TransactionId}
      (transactionPhase : TransactionPhase) (hseen : seen h = [some tx])
      (hother : s.owned ≠ some tx) (hcalls : calls h = [])
      (hstands : transactionPhase.standing? = s.transactionPhase.standing?.or
        (some .live)) :
      Course s (.finish context) h
        { s with phase := .idle, transactionPhase := transactionPhase,
                 captures := [],
                 batch := s.batch ++ promotions s.captures (keys h) }
  | committed {context : String} {h : History} {tx : TransactionId}
      {records : List AuditRecord} (hseen : seen h = [some tx])
      (howned : s.owned = some tx)
      (hrecords : records = s.batch ++ promotions s.captures (keys h))
      (hcommitted : tx ∈ committed h)
      (hcalls : calls h = announcing records ⟨context, some tx⟩ ++ .commit tx ::
        (consuming records ++ [.finished ⟨context, some tx⟩ .committed])) :
      Course s (.finish context) h
        { s.settledAs tx .committed with phase := .idle, captures := [] }
  | failed {context : String} {h : History} {tx : TransactionId}
      {records : List AuditRecord} (phase : TransactionPhase)
      (hseen : seen h = [some tx]) (howned : s.owned = some tx)
      (hcalls : calls h = announcing records ⟨context, some tx⟩ ++
        [.commit tx, .rollback tx, .finished ⟨context, some tx⟩ .failed])
      (hrecords : records = s.batch ++ promotions s.captures (keys h))
      (hstands : phase.standing? = some .over) :
      Course s (.finish context) h { s.settledAs tx phase with
        phase := .idle, captures := [] }
  | abandoned {made : HostCall} {context : String} {h : History}
      (hmade : made.abandoned? = some context) (howned : s.owned = none)
      (hcalls : calls h = []) :
      Course s made h { s with captures := [], phase := .idle }
  | released {made : HostCall} {context : String} {h : History}
      {tx : TransactionId} (transactionPhase : TransactionPhase)
      (hmade : made.abandoned? = some context) (howned : s.owned = some tx)
      (hcalls : calls h =
        [.rollback tx, .finished ⟨context, some tx⟩ .rolledBack])
      (hstands : transactionPhase.standing? = some .over) :
      Course s made h
        { s with captures := [], phase := .idle,
                 transactionPhase := transactionPhase,
                 owned := none, settled := some tx, batch := [] }
  | announced {event : TransactionEvent} {h : History}
      (hcalls : calls h = announcing s.batch event)
      (hadmitted : h.head? = some (.asked .isCancelled false)) :
      Course s (.transactionCommitting event) h
        { s with transactionPhase := .committing }
  | ended {made : HostCall} {event : TransactionEvent}
      {status : TransactionStatus} {h : History}
      (transactionPhase : TransactionPhase)
      (hending : made.ending? = some (event, status))
      (hopen : ∀ tx, event.transaction = some tx → s.settled ≠ some tx)
      (hcalls : calls h =
        (if status = .committed then consuming s.batch else []) ++
          [.finished event status])
      (hstands : transactionPhase.standing? = some .over) :
      Course s made h
        { settleOwned event s with
          transactionPhase := transactionPhase, batch := [] }
  | clearedCaptures : Course s .clearCaptures [] { s with captures := [] }
  | clearedBatch : Course s .clearBatch [] { s with batch := [] }

/-! ## Before a flush -/

/-- What becomes of joining the transaction around a unit of work. -/
inductive Joined (s : CoordinatorState) (context : String) :
    History → Outcome → CoordinatorState → Prop where
  | noted {q : History} {current : Option TransactionId}
      (transactionPhase : TransactionPhase) (hseen : seen q = [current])
      (hcalls : calls q = [])
      (hstands : transactionPhase.standing? =
        if finds q then some .live else s.transactionPhase.standing?) :
      Joined s context q (.ok ())
        { s with transactionPhase := transactionPhase }
  | opened {q : History} {owned : Option TransactionId}
      (transactionPhase : TransactionPhase) (outcome : Outcome)
      (hseen : seen q = [none]) (hcalls : calls q = [.begin])
      (howned : ∀ tx, owned = some tx → s.owned = some tx ∨ tx ∈ begun q)
      (hstands : transactionPhase.standing? =
        if finds q then some .live else s.transactionPhase.standing?) :
      Joined s context q outcome { s with transactionPhase := transactionPhase,
                                          owned := owned }
  | undone {q : History} {tx : TransactionId}
      (transactionPhase : TransactionPhase) (hseen : seen q = [none])
      (hbegun : tx ∈ begun q)
      (hcalls : calls q =
        [.begin, .rollback tx, .finished ⟨context, some tx⟩ .rolledBack])
      (hstands : transactionPhase.standing? = some .over) :
      Joined s context q (.error .cancelled)
        { s with transactionPhase := transactionPhase, owned := none,
                 settled := some tx,
                 batch := [] }

section Turns

variable {s : CoordinatorState} {h : History}

theorem openOwned_quiet (context : String) :
    (openOwned context s).Ensures Interlude.quiet
      (fun h' outcome s' => ∃ q, h' = h ++ q ∧
        Joined s context (.asked .currentTransaction none :: q)
          outcome s') h := by
  unfold openOwned
  rw [ensures_bind]
  refine call_quiet fun answer => ?_
  cases answer with
  | error e =>
      exact ⟨_, rfl, .opened s.transactionPhase (.error e) rfl rfl
        (fun _ howned => .inl howned)
        rfl⟩
  | ok tx =>
      simp only []
      rw [ensures_bind, ensures_log, ensures_bind]
      refine (own_ensures _ tx _ _).mono ?_
      intro h' u s' hpost
      obtain ⟨rfl, rfl⟩ := hpost
      rw [ensures_bind, ensures_ask]
      intro cancelled
      cases cancelled with
      | false =>
          refine ⟨_, List.append_assoc _ _ _,
            .opened .opened (.ok ()) rfl rfl ?_ rfl⟩
          rintro _ ⟨⟩
          exact .inr List.mem_cons_self
      | true =>
          simp only [if_true]
          rw [ensures_bind]
          refine (releaseOwned_quiet context rfl).mono ?_
          intro h' u s' hpost
          obtain ⟨q, phase, rfl, hq, hcalls, hphase, rfl⟩ := hpost
          refine ⟨[.called .begin, .returned .begin (.ok tx),
              .asked .isCancelled true] ++ q,
            by simp only [List.append_assoc, List.cons_append, List.nil_append],
            .undone phase ?_ List.mem_cons_self ?_ hphase⟩
          · exact congrArg (none :: ·) hq.seen_eq
          · exact congrArg (.begin :: ·) hcalls

theorem joinTransaction_quiet (settings : CoordinatorSettings)
    (context : String) :
    (joinTransaction settings context s).Ensures Interlude.quiet
      (fun h' outcome s' => ∃ q, h' = h ++ q ∧
        Joined s context q outcome s') h := by
  unfold joinTransaction
  rw [ensures_bind, ensures_ask]
  intro current
  cases current with
  | some tx =>
      simp only []
      rw [ensures_bind, ensures_change]
      split
      · next hcommitting =>
          exact ⟨_, rfl, .noted _ rfl rfl (congrArg _ hcommitting)⟩
      · exact ⟨_, rfl, .noted _ rfl rfl rfl⟩
  | none =>
      simp only []
      split
      · refine (openOwned_quiet context).mono ?_
        intro h' outcome s' hpost
        obtain ⟨q, rfl, hjoined⟩ := hpost
        exact ⟨_, List.append_assoc _ _ _, hjoined⟩
      · exact ⟨_, rfl, .noted s.transactionPhase rfl rfl rfl⟩

theorem startCollecting_course (settings : CoordinatorSettings)
    (context : String) (s : CoordinatorState) :
    (startCollecting settings context s).Ensures Interlude.quiet
      (fun h _ s' => Course s (.startCollecting context) h s') [] := by
  refine startCollecting_ensures (.refused rfl) (fun hbusy => .busy rfl hbusy)
    fun _ => ?_
  refine (joinTransaction_quiet settings context).mono ?_
  intro h outcome s' hpost
  obtain ⟨q, rfl, hjoined⟩ := hpost
  cases outcome with
  | error e =>
      cases hjoined with
      | opened transactionPhase _ hseen hcalls howned hstands =>
          exact .opened .idle transactionPhase s.captures hseen hcalls
            howned hstands
      | undone transactionPhase hseen hbegun hcalls hstands =>
          exact .undone transactionPhase hseen hbegun hcalls hstands
  | ok u =>
      intro entries asked captured hreads _
      have hasked : Reads (.asked .entries entries :: asked) :=
        reads_cons trivial hreads
      -- Capturing only reads, so what the history shows is what joining left in
      -- it.
      have hcaptured : ∀ phase captures, Course s (.startCollecting context)
          ([] ++ [.asked .isCancelled false] ++ q ++
            .asked .entries entries :: asked)
          { s' with phase := phase, captures := captures } := by
        intro phase captures
        have hcalls : calls ([] ++ [.asked .isCancelled false] ++ q ++
            .asked .entries entries :: asked) = calls q := by
          simp only [calls_append, hasked.asks.calls_eq, List.append_nil]
          rfl
        have hseen : seen ([] ++ [.asked .isCancelled false] ++ q ++
            .asked .entries entries :: asked) = seen q := by
          simp only [seen_append, hasked.seen_eq, List.append_nil]
          rfl
        have hbegun : begun ([] ++ [.asked .isCancelled false] ++ q ++
            .asked .entries entries :: asked) = begun q := by
          simp only [begun_append, hasked.asks.begun_eq, List.append_nil]
          rfl
        have hfinds : finds ([] ++ [.asked .isCancelled false] ++ q ++
            .asked .entries entries :: asked) = finds q := by
          rw [finds, finds, hseen, hbegun]
        cases hjoined with
        | noted transactionPhase hq hnone hstands =>
            refine .collected phase transactionPhase captures (hseen.trans hq)
              (hcalls.trans hnone) ?_
            rwa [hfinds]
        | opened transactionPhase _ hq hbegin howned hstands =>
            refine .opened phase transactionPhase captures (hseen.trans hq)
              (hcalls.trans hbegin) ?_ ?_
            · rwa [hbegun]
            · rwa [hfinds]
      cases captured with
      | error e => exact hcaptured .idle s'.captures
      | ok captures => exact hcaptured .awaitingWrite _

/-! ## After a flush -/

/-- Of a flush that was finished the history shows what was asked of the unit
of work and whom the coordinator called then. -/
theorem flushed_visible {asked q : History} (current : Option TransactionId)
    (cancelled : Bool) (hasked : Reads asked) (hq : OnlyCalls q) :
    let h := [] ++ [.asked .isCancelled false] ++ asked ++
      [.asked .currentTransaction current] ++
      q ++ [.asked .isCancelled cancelled]
    seen h = [current] ∧ keys h = keys asked ∧ calls h = calls q ∧
      ∀ tx ∈ committed q, tx ∈ committed h := by
  refine ⟨?_, ?_, ?_, fun tx htx => ?_⟩
  · simp only [seen_append, hasked.seen_eq, hq.seen_eq]
    rfl
  · simp only [keys_append, hq.keys_eq]
    show keys asked ++ [] ++ [] ++ [] = keys asked
    simp only [List.append_nil]
  · simp only [calls_append, hasked.asks.calls_eq]
    exact List.append_nil (calls q)
  · simp only [committed_append]
    exact List.mem_append_left _ (List.mem_append_right _ htx)

theorem finish_course (context : String) (s : CoordinatorState) :
    (finish context s).Ensures Interlude.quiet
      (fun h _ s' => Course s (.finish context) h s') [] := by
  refine finish_ensures (.refused rfl) (fun hbusy => .busy rfl hbusy) ?_
  intro _ asked records current reconciled
  have hasked := reconciled.reads
  obtain rfl := reconciled.promotions_eq
  cases current with
  | none =>
      refine (deliverNow_quiet context _ _ _).mono ?_
      intro h u s' hpost
      obtain ⟨q, rfl, hq, hconsumed, rfl⟩ := hpost
      rw [ensures_bind, ensures_enter]
      refine checkCancelled_ensures fun cancelled outcome => ?_
      obtain ⟨hseen, hkeys, hcalls, -⟩ :=
        flushed_visible none cancelled hasked hq
      exact .delivered hseen (by rw [hcalls, hconsumed, hkeys])
  | some tx =>
      by_cases howned : s.owned = some tx
      · refine joinBatch_owned (s :=
          { s with phase := .reconciling, captures := [] }) context
          _ howned ?_
        refine Exchange.Ensures.mono ?_ (commitOwned_quiet context howned)
        intro h u s' hpost
        obtain ⟨q, phase, rfl, hq, rfl, hphase, hmade⟩ := hpost
        rw [ensures_bind, ensures_enter]
        refine checkCancelled_ensures fun cancelled outcome => ?_
        obtain ⟨hseen, hkeys, hcalls, hcommitted⟩ :=
          flushed_visible (some tx) cancelled hasked hq
        rcases hmade with ⟨rfl, hdone, hmade⟩ | hmade
        · refine .committed hseen howned rfl (hcommitted tx hdone) ?_
          rw [hcalls, hmade, hkeys]
          rfl
        · refine .failed phase hseen howned (hcalls.trans hmade) ?_ hphase
          rw [hkeys]
          rfl
      · refine Exchange.Ensures.mono ?_ (joinBatch_other
          (s := { s with phase := .reconciling, captures := [] }) _
            context _ howned)
        intro h u s' hpost
        obtain ⟨rfl, rfl⟩ := hpost
        rw [ensures_bind, ensures_enter]
        refine checkCancelled_ensures fun cancelled outcome => ?_
        obtain ⟨hseen, hkeys, hcalls, -⟩ :=
          flushed_visible (some tx) cancelled hasked onlyCalls_nil
        rw [List.append_nil] at hseen hkeys hcalls
        rw [← hkeys]
        exact .batched _ hseen howned hcalls (standing?_joinedBy _ _)

theorem abandonFlush_course {made : HostCall} (context : String)
    (reason : FlushFailure) (hmade : made.abandoned? = some context)
    (s : CoordinatorState) :
    (abandonFlush context reason s).Ensures Interlude.quiet
      (fun h _ s' => Course s made h s') [] := by
  unfold abandonFlush
  refine ensures_unlessCancelled
    (.refused (HostCall.hasToken_of_abandoned hmade)) ?_
  rw [ensures_bind, ensures_state, ensures_bind, ensures_change, ensures_bind,
    ensures_log, ensures_bind]
  cases howned : s.owned with
  | none =>
      refine Exchange.Ensures.mono ?_ (releaseOwned_none _ context rfl)
      intro h u s' hpost
      obtain ⟨rfl, rfl⟩ := hpost
      refine checkCancelled_ensures fun cancelled outcome => ?_
      rw [← howned]
      exact .abandoned hmade howned rfl
  | some tx =>
      refine Exchange.Ensures.mono ?_ (releaseOwned_quiet context rfl)
      intro h u s' hpost
      obtain ⟨q, phase, rfl, hq, hcalls, hphase, rfl⟩ := hpost
      refine checkCancelled_ensures fun cancelled outcome => ?_
      refine .released phase hmade howned ?_ hphase
      rw [calls_append, calls_append, hcalls]
      rfl

/-! ## Notices -/

theorem transactionCommitting_course (event : TransactionEvent)
    (s : CoordinatorState) :
    (transactionCommitting event s).Ensures Interlude.quiet
      (fun h _ s' => Course s (.transactionCommitting event) h s') [] := by
  unfold transactionCommitting
  refine ensures_unlessCancelled (.refused rfl) ?_
  rw [ensures_bind, ensures_state]
  split
  · next hbusy => exact .busy rfl hbusy
  · rw [ensures_bind, ensures_change, ensures_bind]
    refine (announce_quiet _ _ _ _).mono ?_
    intro h u s' hpost
    obtain ⟨q, rfl, hq, hcalls, rfl⟩ := hpost
    rw [ensures_bind, ensures_change]
    refine checkCancelled_ensures fun cancelled outcome => ?_
    simp only [List.append_nil]
    refine .announced ?_ rfl
    rw [calls_append, calls_append, hcalls]
    exact List.append_nil _

theorem transactionCommitted_course (event : TransactionEvent)
    (s : CoordinatorState) :
    (transactionCommitted event s).Ensures Interlude.quiet
      (fun h _ s' => Course s (.transactionCommitted event) h s') [] := by
  unfold transactionCommitted
  refine ensures_notice (.refused rfl)
    (fun tx hnamed hsettled => .ignored rfl hnamed hsettled)
    fun hopen => ?_
  rw [ensures_bind, ensures_state, ensures_bind, ensures_change, ensures_bind]
  refine (dispatch_quiet _ _ _).mono ?_
  intro h u s' hpost
  obtain ⟨q₁, rfl, hq₁, hconsumed, rfl⟩ := hpost
  rw [ensures_bind]
  refine (report_quiet _ _ _ _).mono ?_
  intro h u s' hpost
  obtain ⟨q₂, rfl, hq₂, hreported, rfl⟩ := hpost
  refine checkCancelled_ensures fun cancelled outcome => ?_
  refine .ended _ rfl hopen ?_ rfl
  simp only [calls_append, hconsumed, hreported, if_true]
  exact List.append_nil _

theorem discardBatch_course {made : HostCall} {event : TransactionEvent}
    {status : TransactionStatus} (hending : made.ending? = some (event, status))
    (hstatus : status ≠ .committed) (s : CoordinatorState) :
    (discardBatch event status s).Ensures Interlude.quiet
      (fun h _ s' => Course s made h s') [] := by
  unfold discardBatch
  refine ensures_notice (.refused (HostCall.hasToken_of_ending hending))
    (fun tx hnamed hsettled => .ignored hending hnamed hsettled) fun hopen => ?_
  rw [ensures_bind, ensures_state, ensures_bind, ensures_change, ensures_bind,
    ensures_log, ensures_bind]
  refine (report_quiet _ _ _ _).mono ?_
  intro h u s' hpost
  obtain ⟨q, rfl, hq, hreported, rfl⟩ := hpost
  refine checkCancelled_ensures fun cancelled outcome => ?_
  refine .ended _ hending hopen ?_ ?_
  · simp only [calls_append, hreported, if_neg hstatus]
    rfl
  · split <;> rfl

end Turns

/-- An undisturbed turn takes one of the courses. -/
theorem Turn.Taken.course {settings : CoordinatorSettings} {t : Turn}
    (taken : t.Taken settings Interlude.quiet) :
    Course t.before t.made t.history t.after := by
  have hserve : (serve settings t.made t.before).Ensures Interlude.quiet
      (fun h _ s' => Course t.before t.made h s') [] := by
    cases t.made with
    | startCollecting context =>
        exact startCollecting_course settings context t.before
    | finish context => exact finish_course context t.before
    | saveFailed context =>
        exact abandonFlush_course context .failed rfl t.before
    | saveCanceled context =>
        exact abandonFlush_course context .canceled rfl t.before
    | transactionCommitting event =>
        exact transactionCommitting_course event t.before
    | transactionCommitted event =>
        exact transactionCommitted_course event t.before
    | transactionRolledBack event =>
        have hstatus : TransactionStatus.rolledBack ≠ .committed := by decide
        exact discardBatch_course rfl hstatus t.before
    | transactionFailed event =>
        have hstatus : TransactionStatus.failed ≠ .committed := by decide
        exact discardBatch_course rfl hstatus t.before
    | clearCaptures => exact .clearedCaptures
    | clearBatch => exact .clearedBatch
  exact taken.ensured hserve

/-- A commit is over when the turn is that makes it. -/
theorem Course.idle {s s' : CoordinatorState} {made : HostCall} {h : History}
    (course : Course s made h s') (hidle : s.commitInProgress = false) :
    s'.commitInProgress = false := by
  cases course with
  | committed | failed => rfl
  | ended => exact (settleOwned_commitInProgress _ s).trans hidle
  | _ => exact hidle

theorem Session.idle {settings : CoordinatorSettings} {ts : List Turn}
    {s s' : CoordinatorState}
    (session : Session settings Interlude.quiet s ts s')
    (hidle : s.commitInProgress = false) :
    s'.commitInProgress = false := by
  induction session with
  | nil s => exact hidle
  | cons t taken rest ih => exact ih (taken.course.idle hidle)

/-- Only a start takes captures in. Any other turn keeps those that are pending
or lets go of them. -/
theorem Course.captures_of_other {s s' : CoordinatorState} {made : HostCall}
    {h : History} (course : Course s made h s')
    (hother : ∀ context, made ≠ .startCollecting context) :
    s'.captures = s.captures ∨ s'.captures = [] := by
  cases course with
  | collected | opened | undone => exact absurd rfl (hother _)
  | ended => exact .inl (settleOwned_captures _ s)
  | delivered | batched | committed | failed | abandoned | released
  | clearedCaptures =>
      exact .inr rfl
  | _ => exact .inl rfl

/-! ## What a turn is known by -/

namespace Turn

/-- The token was not cancelled when the turn began. -/
def Admitted (t : Turn) : Prop :=
  t.history.head? = some (.asked .isCancelled false)

theorem admitted_inCompany {settings : CoordinatorSettings} {c : Company}
    {made : HostCall} (hgoes : c.answers .isCancelled = false)
    (hmade : made.hasToken) (s : CoordinatorState) :
    (inCompany settings c made s).Admitted := by
  have hasked : (inCompany settings c made s).history.head? =
      some (.asked .isCancelled (c.answers .isCancelled)) := by
    cases made with
    | clearCaptures | clearBatch => cases hmade
    | _ => rfl
  rwa [hgoes] at hasked

theorem Admitted.account_eq {t : Turn} (admitted : t.Admitted) :
    t.account = .entered t.made t.before :: .asked .isCancelled false ::
      (t.history.tail ++ [.left t.made t.outcome t.after]) := by
  obtain ⟨s, made, h, outcome, s'⟩ := t
  cases h with
  | nil => cases admitted
  | cons x h =>
      cases admitted
      rfl

/-- The transaction that the unit of work was in when the coordinator asked. -/
def current (t : Turn) : Option TransactionId := (seen t.history).head?.join

/-- The records that were made of pending captures. A turn that finishes a
flush makes them before it asks for the current transaction. -/
def promoted (t : Turn) : List AuditRecord :=
  match t.made, seen t.history with
  | .finish _, _ :: _ => promotions t.before.captures (keys t.history)
  | _, _ => []

theorem promoted_finish {t : Turn} {context : String}
    {current : Option TransactionId} (hmade : t.made = .finish context)
    (hseen : seen t.history = [current]) :
    t.promoted = promotions t.before.captures (keys t.history) := by
  rw [promoted, hmade, hseen]

theorem promoted_other {t : Turn}
    (hmade : ∀ context, t.made ≠ .finish context) :
    t.promoted = [] := by
  unfold promoted
  split
  · next context _ _ hfinish _ => exact absurd hfinish (hmade context)
  · rfl

theorem promoted_unseen {t : Turn} (hseen : seen t.history = []) :
    t.promoted = [] := by
  unfold promoted
  rw [hseen]
  split
  · next heq => cases heq
  · rfl

end Turn
end AuditTrail
