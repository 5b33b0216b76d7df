import AuditTrail.Proofs.Coordinator.Finality
import AuditTrail.Proofs.Coordinator.Verdict

/-!
# Saving while a commit is announced

The consumer that the batch is announced to may save again in the same
transaction, and start and finish any number of flushes before it gives the
announcement back. Meanwhile the batch is in the hands of the turn, so the
flushes gather what they promote in an empty one, and when the turn goes on it
puts the two together.

A flush inside a transaction of the host calls nobody, be it the consumer or
the unit of work. So nothing can be nested in it, and what a session of such
flushes leaves is an induction with one lemma for each of its turns
(`Hosted.adds`). That nothing is in the batch twice is not said by the order
in which it is put together: it is a matter of custody, as for any other turn
(`Turn.Taken.batch_nodup`).
-/

namespace AuditTrail

open Coordinating Coordinator History Situation

/-- A turn of a flush that is made while a transaction is the current one. -/
structure Turn.Saves (tx : TransactionId) (t : Turn) : Prop where
  made : ∃ context, t.made = .startCollecting context ∨ t.made = .finish context
  admitted : t.Admitted
  current : ∀ current ∈ seen t.history, current = some tx

/-- A transaction is open that is not the coordinator's own, and no commit is in
progress. -/
structure Hosted (tx : TransactionId) (s : CoordinatorState) : Prop where
  foreign : s.owned ≠ some tx
  opened : s.settled ≠ some tx
  idle : s.commitInProgress = false

/-- What a turn of a flush does to the records. A start takes in what it
captures. What is finished makes a record of each pending capture and leaves
none. Neither calls anybody. -/
structure Turn.Adds (settings : CoordinatorSettings) (t : Turn) : Prop where
  asks : OnlyAsks t.history
  batch : t.after.batch = t.before.batch ++ t.promoted
  started : ∀ context, t.made = .startCollecting context →
    t.after.captures =
      CoordinatorState.mergeCaptures t.before.captures (t.captured settings)
  finished : ∀ context, t.made = .finish context →
    Reconciled t.before.captures (readings t.history) t.promoted ∧
      idsOf t.promoted = t.before.captureIds ∧ t.after.captures = []

theorem Turn.Saves.firstSeen {tx : TransactionId} {t : Turn}
    (saves : t.Saves tx) :
    FirstSeen (· = some tx) t.history :=
  fun current hfirst => saves.current current (List.mem_of_head? hfirst)

section Turns

variable {settings : CoordinatorSettings} {during : Interlude}
  {tx : TransactionId} {t : Turn}

theorem Hosted.started {context : String} (hosted : Hosted tx t.before)
    (taken : t.Taken settings during) (saves : t.Saves tx)
    (hmade : t.made = .startCollecting context) :
    t.Adds settings ∧ Hosted tx t.after := by
  have opens : OpensNone settings t.history := .inr fun current hfirst => by
    rw [saves.firstSeen current hfirst]
    exact Option.some_ne_none tx
  rw [Turn.Taken, hmade] at taken
  obtain ⟨current, entries, asked, transactionPhase, hhistory, hreads,
      hverdict⟩ :=
    (taken.ensured (startCollecting_verdict context hosted.idle)) opens
      saves.admitted
  rw [List.nil_append] at hhistory
  have hasks : OnlyAsks t.history := by
    rw [hhistory]
    exact asks_cons (asks_cons (asks_cons hreads.asks))
  have hother : ∀ other, t.made ≠ .finish other := by
    rw [hmade]
    rintro other ⟨⟩
  obtain ⟨phase, hafter⟩ : ∃ phase, t.after = { t.before with
      phase := phase, transactionPhase := transactionPhase
      captures := CoordinatorState.mergeCaptures t.before.captures
        (t.captured settings) } := by
    rcases hverdict with
      ⟨captures, hok, captured, hafter⟩ | ⟨e, herror, -, hafter⟩
    · have hcaptured : t.captured settings = captures := by
        simp only [Turn.captured, hmade, hok, hhistory, readings_started hreads,
          captured.captured_eq]
      rw [hcaptured]
      exact ⟨_, hafter⟩
    · have hcaptured : t.captured settings = [] := by
        simp only [Turn.captured, hmade, herror]
      rw [hcaptured]
      exact ⟨_, hafter⟩
  refine ⟨⟨hasks, ?_, ?_, fun other hfinish => absurd hfinish (hother other)⟩,
    ?_⟩
  · rw [hafter, Turn.promoted_other hother, List.append_nil]
  · rw [hafter]
    exact fun _ _ => rfl
  · rw [hafter]
    exact ⟨hosted.foreign, hosted.opened, hosted.idle⟩

theorem Hosted.finished {context : String} (hosted : Hosted tx t.before)
    (taken : t.Taken settings during) (saves : t.Saves tx)
    (hmade : t.made = .finish context) :
    t.Adds settings ∧ Hosted tx t.after := by
  rw [Turn.Taken, hmade] at taken
  have hfinished : (finish context t.before).Ensures during
      (fun h outcome s' => FirstSeen (· = some tx) h →
        h.head? = some (.asked .isCancelled false) →
          ∃ asked records cancelled transactionPhase,
          Reconciled t.before.captures asked records ∧
          h = [.asked .isCancelled false] ++ asked ++
            [.asked .currentTransaction (some tx)] ++
            [.asked .isCancelled cancelled] ∧
          s' = { t.before with phase := .idle,
                               transactionPhase :=
                               transactionPhase, captures := [],
                               batch := t.before.batch ++ records }) [] := by
    refine finish_inside hosted.idle fun asked records reconciled => ?_
    refine Exchange.Ensures.mono ?_ (joinBatch_other
      (s := { t.before with phase := .reconciling, captures := [] }) _ context _
        hosted.foreign)
    rintro h u s' ⟨rfl, rfl⟩ cancelled outcome
    exact ⟨asked, records, cancelled, _, reconciled, rfl, rfl⟩
  obtain ⟨asked, records, cancelled, transactionPhase, reconciled,
      hhistory, hafter⟩ :=
    taken.ensured hfinished saves.firstSeen saves.admitted
  rw [List.nil_append] at hhistory
  have hpromoted : t.promoted = records :=
    Turn.promoted_eq hmade reconciled hhistory
  have hreadings : readings t.history = asked := by
    rw [hhistory, readings_append, readings_append, readings_append,
      reconciled.reads.readings_eq]
    exact (List.append_nil _).trans (List.append_nil _)
  have hids : idsOf records = t.before.captureIds := by
    rw [← reconciled.promotions_eq]
    exact id_promotions _ _
  refine ⟨⟨?_, ?_, ?_, fun _ _ => ⟨?_, ?_, ?_⟩⟩, ?_⟩
  · rw [hhistory]
    exact ((asks_cons asks_nil).append reconciled.reads.asks).append
      (asks_cons asks_nil)
      |>.append (asks_cons asks_nil)
  · rw [hafter, hpromoted]
  · rw [hmade]
    rintro other ⟨⟩
  · rwa [hreadings, hpromoted]
  · rw [hpromoted, hids]
  · rw [hafter]
  · rw [hafter]
    exact ⟨hosted.foreign, hosted.opened, hosted.idle⟩

/-- A flush in a transaction of the host adds to its batch. -/
theorem Hosted.adds (hosted : Hosted tx t.before)
    (taken : t.Taken settings during) (saves : t.Saves tx) :
    t.Adds settings ∧ Hosted tx t.after := by
  obtain ⟨context, hmade | hmade⟩ := saves.made
  · exact hosted.started taken saves hmade
  · exact hosted.finished taken saves hmade

/-- So do flushes that follow on each other. -/
theorem Hosted.flushes {ts : List Turn} {s s' : CoordinatorState}
    (session : Session settings during s ts s') (hosted : Hosted tx s)
    (saves : ∀ u ∈ ts, u.Saves tx) :
    Hosted tx s' ∧ s'.batch = s.batch ++ ts.flatMap Turn.promoted ∧
      calls (accountOf ts) = [] ∧ ∀ u ∈ ts, u.Adds settings := by
  induction session with
  | nil s =>
      exact ⟨hosted, (List.append_nil _).symm, rfl,
        fun _ hu => absurd hu List.not_mem_nil⟩
  | cons u taken rest ih =>
      obtain ⟨hfirst, hlater⟩ := List.forall_mem_cons.mp saves
      obtain ⟨adds, hosted⟩ := hosted.adds taken hfirst
      obtain ⟨hosted, hbatch, hcalls, hadds⟩ := ih hosted hlater
      refine ⟨hosted, ?_, ?_, List.forall_mem_cons.mpr ⟨adds, hadds⟩⟩
      · rw [hbatch, adds.batch, List.append_assoc]
        rfl
      · rw [accountOf_cons, calls_append, hcalls, Turn.account,
          ← List.singleton_append, calls_append, calls_append,
          adds.asks.calls_eq]
        rfl

/-- A turn leaves nothing in the batch twice, if nothing it finds or is issued
is there twice. -/
theorem Turn.Taken.batch_nodup (hd : during.Follows)
    (taken : t.Taken settings during)
    (fresh : (t.before.captureIds ++ idsOf t.before.batch ++
      issued t.history).Nodup) :
    (idsOf t.after.batch).Nodup := by
  -- Nothing is made out of nothing, so each identity is left at most as often
  -- as it was there.
  refine List.nodup_iff_count_le_one.mpr fun id => ?_
  have hconserved :=
    (taken.run hd (.nil : Run ⟨t.before, []⟩ [] ⟨t.before, []⟩)).conserves id
  have honce := List.nodup_iff_count_le_one.mp fresh id
  rw [List.nil_append, Turn.issued_account] at hconserved
  simp only [Situation.found, CoordinatorState.found,
    List.count_append] at hconserved honce
  omega

/-! ## The notices of the host that announce and deliver -/

theorem Turn.Taken.announces_batch {event : TransactionEvent}
    (taken : t.Taken settings during)
    (hmade : t.made = .transactionCommitting event) (admitted : t.Admitted)
    (hidle : t.before.commitInProgress = false) (hne : t.before.batch ≠ []) :
    ∃ meanwhile found answer cancelled,
      during { t.before with transactionPhase := .committing, batch := [] }
        meanwhile found ∧
      t.history = .asked .isCancelled false ::
        .called (.preCommit t.before.batch event) ::
        (meanwhile ++ [.returned (.preCommit t.before.batch event) answer,
          .asked .isCancelled cancelled]) ∧
      t.after = { found with batch := t.before.batch ++ found.batch } := by
  rw [Turn.Taken, hmade] at taken
  obtain ⟨q, cancelled, found, hhistory, announced, hafter⟩ :=
    (taken.ensured (transactionCommitting_announces hidle)) admitted
  rw [announcing, slices_of_ne hne] at announced
  cases announced with
  | @cons _ _ _ _ answer _ _ _ lasting nothing =>
      cases nothing
      obtain ⟨meanwhile, lasts, rfl⟩ := lasting
      refine ⟨meanwhile, found, answer, cancelled, lasts, ?_, hafter⟩
      rw [← List.nil_append t.history, hhistory]
      simp

theorem Turn.Taken.delivers_batch {event : TransactionEvent}
    (taken : t.Taken settings during)
    (hmade : t.made = .transactionCommitted event) (admitted : t.Admitted)
    (hopen : ∀ tx, event.transaction = some tx → t.before.settled ≠ some tx)
    (hne : t.before.batch ≠ []) :
    ∃ q cancelled, t.history = .asked .isCancelled false ::
      (q ++ [.asked .isCancelled cancelled]) ∧
      Calling during
        { settleOwned event t.before with
          transactionPhase := .committed, batch := [] }
        [.consume t.before.batch, .finished event .committed] q t.after := by
  rw [Turn.Taken, hmade] at taken
  obtain ⟨q, cancelled, hhistory, calling⟩ :=
    (taken.ensured (transactionCommitted_delivers hopen)) admitted
  rw [consuming, slices_of_ne hne] at calling
  exact ⟨q, cancelled, hhistory, calling⟩

end Turns

/-- While a call lasts, flushes are made in a transaction, and within them
anything that fits into so many levels. -/
def Interlude.saving (settings : CoordinatorSettings) (depth : Nat)
    (tx : TransactionId) : Interlude :=
  fun s h s' =>
    ∃ ts, Session settings (Interlude.nested settings depth) s ts s' ∧
    (∀ t ∈ ts, t.Saves tx) ∧ h = accountOf ts

theorem Interlude.saving_follows (settings : CoordinatorSettings) (depth : Nat)
    (tx : TransactionId) : (Interlude.saving settings depth tx).Follows := by
  rintro s h s' ⟨ts, session, -, rfl⟩ pending
  exact session.run (Interlude.nested_follows settings depth) .nil

/-- A consumer that saves when a commit of the host is announced to it loses
nothing. It is given the whole batch. However often it flushes before it gives
the announcement back, and whatever its answer is, the batch afterwards is what
was announced and behind it the records of these flushes, in their order and
none of them twice. Until then nobody else is called. If the transaction is
then committed, exactly this is delivered, in one slice. -/
theorem saving_hook_loses_nothing {settings : CoordinatorSettings} {depth : Nat}
    {t : Turn} {event : TransactionEvent} {tx : TransactionId}
    (taken : t.Taken settings (Interlude.saving settings depth tx))
    (hmade : t.made = .transactionCommitting event) (admitted : t.Admitted)
    (hosted : Hosted tx t.before) (hne : t.before.batch ≠ []) :
    ∃ ts found answer cancelled,
      Session settings (Interlude.nested settings depth)
        { t.before with transactionPhase := .committing,
                        batch := [] } ts found ∧
      (∀ u ∈ ts, u.Saves tx ∧ u.Adds settings) ∧
      t.history = .asked .isCancelled false ::
        .called (.preCommit t.before.batch event) ::
        (accountOf ts ++ [.returned (.preCommit t.before.batch event) answer,
          .asked .isCancelled cancelled]) ∧
      calls t.history = [.preCommit t.before.batch event] ∧
      t.after.batch = t.before.batch ++ ts.flatMap Turn.promoted ∧
      t.after.captures = found.captures ∧
      ((t.before.captureIds ++ idsOf t.before.batch ++ issued t.history).Nodup →
        (idsOf t.after.batch).Nodup) ∧
      ∀ (during : Interlude) (u : Turn) (ending : TransactionEvent),
        u.before = t.after →
        u.Taken settings during → u.made = .transactionCommitted ending →
        ending.transaction = some tx → u.Admitted → ∃ q cancelled,
          u.history = .asked .isCancelled false ::
            (q ++ [.asked .isCancelled cancelled]) ∧
          Calling during
            { settleOwned ending t.after with
              transactionPhase := .committed, batch := [] }
            [.consume t.after.batch, .finished ending .committed] q
              u.after := by
  obtain ⟨_, found, answer, cancelled, ⟨ts, session, saves, rfl⟩,
      hhistory, hafter⟩ :=
    taken.announces_batch hmade admitted hosted.idle hne
  -- The hook finds what the turn has left of the state: no batch, and `tx` as
  -- open as before.
  have hfound : Hosted tx { t.before with transactionPhase := .committing,
                                          batch := [] } :=
    ⟨hosted.foreign, hosted.opened, hosted.idle⟩
  obtain ⟨hend, hgathered, hcalls, adds⟩ := hfound.flushes session saves
  have hbatch : t.after.batch = t.before.batch ++ ts.flatMap Turn.promoted := by
    rw [hafter, hgathered]
    rfl
  refine ⟨ts, found, answer, cancelled, session,
    fun u hu => ⟨saves u hu, adds u hu⟩, hhistory, ?_, hbatch, ?_,
    taken.batch_nodup (Interlude.saving_follows settings depth tx), ?_⟩
  · have hinside := calls_append (accountOf ts)
      [.returned (.preCommit t.before.batch event) answer,
        .asked .isCancelled cancelled]
    rw [hcalls] at hinside
    rw [hhistory]
    exact congrArg (_ :: ·) hinside
  · rw [hafter]
  · intro during u ending hbefore utaken umade hnamed uadmitted
    have hopen : ∀ other, ending.transaction = some other →
        u.before.settled ≠ some other := by
      rintro other hother hsettled
      cases hnamed.symm.trans hother
      rw [hbefore, hafter] at hsettled
      exact hend.opened hsettled
    have hfilled : u.before.batch ≠ [] := by
      rw [hbefore, hbatch]
      exact List.append_ne_nil_of_left_ne_nil hne _
    rw [← hbefore]
    exact utaken.delivers_batch umade uadmitted hopen hfilled

namespace Sample

theorem seen_follow (current : Option TransactionId) (entry : TrackedEntry)
    {α : Type} (x : Exchange α) :
    ∀ other ∈ seen (x.follow (company current entry undisturbed)).1,
      other = current := by
  induction x with
  | done s a => exact fun _ hmem => absurd hmem List.not_mem_nil
  | ask query resume ih =>
      cases query with
      | currentTransaction => exact List.forall_mem_cons.mpr ⟨rfl, ih _⟩
      | _ => exact ih _
  | call s made resume ih => exact ih _ _
  | log event next ih => exact ih

/-- A flush in the first transaction. -/
def flush (n : Nat) : List (Option TransactionId × TrackedEntry × HostCall) :=
  [(some (transaction 1), order n, .startCollecting "hook"),
    (some (transaction 1), order n, .finish "hook")]

theorem mem_flushes {told : Option TransactionId × TrackedEntry × HostCall}
    (htold : told ∈ flush 2 ++ flush 3) : told.1 = some (transaction 1) ∧
      (told.2.2 = .startCollecting "hook" ∨ told.2.2 = .finish "hook") := by
  rcases List.mem_append.mp htold with hmem | hmem <;>
    rcases List.mem_pair.mp hmem with rfl | rfl <;> simp

theorem flushes_save (settings : CoordinatorSettings) {s : CoordinatorState}
    {u : Turn} (hu : u ∈ turnsIn settings s (quietly (flush 2 ++ flush 3))) :
    u.Saves (transaction 1) := by
  obtain ⟨play, hplay, s', rfl⟩ := mem_turnsIn hu
  obtain ⟨told, htold, rfl⟩ := List.mem_map.mp hplay
  obtain ⟨hfirst, hmade⟩ := mem_flushes htold
  refine ⟨⟨"hook", hmade⟩, ?_, ?_⟩
  · exact Turn.admitted_inCompany rfl
      (by rcases hmade with hmade | hmade <;> rw [hmade] <;> rfl) s'
  · exact hfirst ▸ seen_follow told.1 told.2.1 _

/-- The consumer makes two flushes when a commit is announced to it. -/
def savingTwice : Call → CoordinatorState → History × CoordinatorState :=
  interrupted false (fun call => call matches .preCommit _ _)
    (quietly (flush 2 ++ flush 3))

theorem savingTwice_within (current : Option TransactionId)
    (entry : TrackedEntry) :
    (company current entry savingTwice).Within
      (Interlude.saving (settings false) 0 (transaction 1)) := by
  intro made s
  refine ⟨_, session_turnsIn _ s fun play hmem => ?_, fun u hu => ?_, rfl⟩
  · split at hmem
    · obtain ⟨told, -, rfl⟩ := List.mem_map.mp hmem
      exact undisturbed_within _ _ _ 0
    · cases hmem
  · split at hu
    · exact flushes_save _ hu
    · cases hu

end Sample

/-- A record is announced, and two are added to it by the hook. Their commit
delivers the three. -/
theorem saving_hook_loses_nothing_twice :
    let settings := Sample.settings false
    let s := endOf CoordinatorState.initial
      (turnsIn settings CoordinatorState.initial (Sample.hostFlush 1))
    let t := Turn.inCompany settings
      (Sample.company (some (Sample.transaction 1)) (Sample.order 1)
        Sample.savingTwice)
      (.transactionCommitting (Sample.notice 1)) s
    let u := Turn.inCompany settings
      (Sample.company none (Sample.order 4) Sample.undisturbed)
      (.transactionCommitted (Sample.notice 1)) t.after
    t.before.batch.length = 1 ∧ t.after.batch.length = 3 ∧
      (idsOf t.after.batch).Nodup ∧
      calls t.history = [.preCommit t.before.batch (Sample.notice 1)] ∧
      ∃ q cancelled, u.history = .asked .isCancelled false ::
          (q ++ [.asked .isCancelled cancelled]) ∧
        Calling Interlude.quiet
          { settleOwned (Sample.notice 1) t.after with
            transactionPhase := .committed, batch := [] }
          [.consume t.after.batch, .finished (Sample.notice 1) .committed] q
            u.after := by
  intro settings s t u
  have htaken : t.Taken settings
      (Interlude.saving settings 0 (Sample.transaction 1)) :=
    Turn.taken_inCompany (Sample.savingTwice_within _ _) _ _
  have hmade : t.made = .transactionCommitting (Sample.notice 1) :=
    Turn.made_inCompany _ _ _ _
  have hadmitted : t.Admitted := Turn.admitted_inCompany rfl rfl _
  have hosted : Hosted (Sample.transaction 1) t.before :=
    ⟨by decide +kernel, by decide +kernel, by decide +kernel⟩
  obtain ⟨ts, found, answer, cancelled, -, -, -, hcalls, -, -, hnodup,
      hdelivers⟩ :=
    saving_hook_loses_nothing htaken hmade hadmitted hosted (by decide +kernel)
  have hlast : u.Taken settings Interlude.quiet :=
    Turn.taken_inCompany (Sample.undisturbed_within settings _ _ 0) _ _
  exact ⟨by decide +kernel, by decide +kernel,
    hnodup (by decide +kernel), hcalls, hdelivers Interlude.quiet u
      (Sample.notice 1) (Turn.before_inCompany _ _ _ _) hlast
      (Turn.made_inCompany _ _ _ _) rfl (Turn.admitted_inCompany rfl rfl _)⟩

end AuditTrail
