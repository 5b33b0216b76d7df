import Mathlib.Data.List.Nodup
import AuditTrail.Proofs.Coordinator.Capture

/-!
# Every record is accounted for

Identities are given to captures, and from then on each is in one place: with
the pending captures, in the batch, in the hands of a piece of the coordinator
that is at work, or delivered. `Accounted` counts: an identity is found in all
these places together at most as often as it was issued. Nothing the
coordinator does takes from nowhere, so the count is kept by every piece,
whatever is answered.

The pieces that hand their state out during a call are the reason for `held`.
A call may let the coordinator be called again, and what these inner turns do
must not touch what the outer one holds. So each piece is shown to keep the
count for every list of identities held elsewhere, and inner turns are taken
to keep it for every such list too. That is what an induction on the depth of
nesting gives back: the inner turns know nothing of the outer ones, and need
not.

When no identity is issued twice, counting is all there is to it: nothing is
delivered twice, and nothing that was delivered is still pending.
-/

namespace AuditTrail

open Coordinating Coordinator History

def CoordinatorState.captureIds (s : CoordinatorState) : List RecordId :=
  s.captures.map (·.id)

def idsOf (records : List AuditRecord) : List RecordId := records.map (·.id)

@[simp] theorem idsOf_nil : idsOf [] = [] := rfl

@[simp] theorem idsOf_append (rs rs' : List AuditRecord) :
    idsOf (rs ++ rs') = idsOf rs ++ idsOf rs' := List.map_append

/-- No identity is in the state, held elsewhere or delivered more often than
it was issued, and no empty slice was handed to the consumer. -/
structure Accounted (held : List RecordId) (h : History)
    (s : CoordinatorState) : Prop where
  counts : ∀ id,
    s.captureIds.count id + (idsOf s.batch).count id + held.count id +
      (idsOf (delivered h)).count id ≤ (issued h).count id
  delivers : [] ∉ deliveries h
  announces : [] ∉ announcements h

namespace Accounted

variable {held : List RecordId} {h h' : History} {s : CoordinatorState}

/-- Identities may be moved between the state and who holds them, and may be
let go of. -/
theorem move (acc : Accounted held h s) (held' : List RecordId)
    (s' : CoordinatorState)
    (hmove : ∀ id,
      s'.captureIds.count id + (idsOf s'.batch).count id + held'.count id ≤
        s.captureIds.count id + (idsOf s.batch).count id + held.count id) :
    Accounted held' h s' where
  counts id := by
    have := acc.counts id
    have := hmove id
    omega
  delivers := acc.delivers
  announces := acc.announces

theorem letGo {gone : List RecordId} (acc : Accounted (gone ++ held) h s) :
    Accounted held h s :=
  acc.move held s fun id => by
    rw [List.count_append]
    omega

/-- The batch may be taken in hand. -/
theorem takeBatch (acc : Accounted held h s) {s' : CoordinatorState}
    (hcaptures : s'.captures = s.captures) (hbatch : s'.batch = []) :
    Accounted (idsOf s.batch ++ held) h s' :=
  acc.move _ s' fun id => by
    rw [CoordinatorState.captureIds, hcaptures, hbatch, List.count_append,
      idsOf_nil, List.count_nil, CoordinatorState.captureIds]
    omega

theorem dropBatch (acc : Accounted held h s) {s' : CoordinatorState}
    (hcaptures : s'.captures = s.captures) (hbatch : s'.batch = []) :
    Accounted held h s' :=
  (acc.takeBatch hcaptures hbatch).letGo

theorem takeCaptures (acc : Accounted held h s) {s' : CoordinatorState}
    (hcaptures : s'.captures = []) (hbatch : s'.batch = s.batch) :
    Accounted (s.captureIds ++ held) h s' :=
  acc.move _ s' fun id => by
    rw [CoordinatorState.captureIds, hcaptures, hbatch, List.count_append,
      List.map_nil, List.count_nil]
    omega

theorem dropCaptures (acc : Accounted held h s) {s' : CoordinatorState}
    (hcaptures : s'.captures = []) (hbatch : s'.batch = s.batch) :
    Accounted held h s' :=
  (acc.takeCaptures hcaptures hbatch).letGo

/-- What happens without handing anything to the consumer keeps the count. -/
theorem counts_extend (acc : Accounted held h s) (hd : deliveries h' = [])
    (id : RecordId) :
    s.captureIds.count id + (idsOf s.batch).count id + held.count id +
      (idsOf (delivered (h ++ h'))).count id ≤ (issued (h ++ h')).count id := by
  have hnone : delivered h' = [] := by rw [delivered, hd, List.flatten_nil]
  have := acc.counts id
  rw [delivered_append, hnone, List.append_nil, issued_append,
    List.count_append]
  omega

theorem extend (acc : Accounted held h s) (h' : History)
    (hd : deliveries h' = []) (ha : announcements h' = []) :
    Accounted held (h ++ h') s where
  counts := acc.counts_extend hd
  delivers := by rw [deliveries_append, hd, List.append_nil]; exact acc.delivers
  announces := by
    rw [announcements_append, ha, List.append_nil]
    exact acc.announces

/-- Records that are held may be delivered, if there are any. -/
theorem deliver {records : List AuditRecord}
    (acc : Accounted (idsOf records ++ held) h s) (hne : records ≠ []) :
    Accounted held (h ++ [.called (.consume records)]) s where
  counts id := by
    have hone : delivered [.called (.consume records)] = records :=
      List.append_nil records
    have hnone : issued [.called (.consume records)] = [] := rfl
    have := acc.counts id
    rw [List.count_append] at this
    rw [delivered_append, hone, idsOf_append, List.count_append, issued_append,
      hnone, List.append_nil]
    omega
  delivers := by
    rw [deliveries_append, List.mem_append, not_or]
    exact ⟨acc.delivers, fun hmem => hne (List.mem_singleton.mp hmem).symm⟩
  announces := by
    rw [announcements_append, List.mem_append, not_or]
    exact ⟨acc.announces, List.not_mem_nil⟩

/-- Announcing records takes them from nowhere, if there are any. -/
theorem announce {records : List AuditRecord} {event : TransactionEvent}
    (acc : Accounted held h s) (hne : records ≠ []) :
    Accounted held (h ++ [.called (.preCommit records event)]) s where
  counts := acc.counts_extend rfl
  delivers := by
    rw [deliveries_append, List.mem_append, not_or]
    exact ⟨acc.delivers, List.not_mem_nil⟩
  announces := by
    rw [announcements_append, List.mem_append, not_or]
    exact ⟨acc.announces, fun hmem => hne (List.mem_singleton.mp hmem).symm⟩

/-- What is held elsewhere or was delivered is not in the batch, if no identity
was issued twice. -/
theorem not_batched (acc : Accounted held h s) (fresh : (issued h).Nodup)
    {id : RecordId} (hgone : id ∈ held ∨ id ∈ idsOf (delivered h)) :
    id ∉ idsOf s.batch := by
  intro hbatched
  have hcounts := acc.counts id
  have hone := List.nodup_iff_count_le_one.mp fresh id
  have hbatch := List.count_pos_iff.mpr hbatched
  rcases hgone with hheld | hdelivered
  · have hpos := List.count_pos_iff.mpr hheld
    omega
  · have hpos := List.count_pos_iff.mpr hdelivered
    omega

end Accounted

/-- Whatever identities are held elsewhere, what happens during a call keeps
the account. -/
def Interlude.Accounts (during : Interlude) : Prop :=
  ∀ (held : List RecordId) (h : History) (s : CoordinatorState) (h' : History)
    (s' : CoordinatorState), during s h' s' → Accounted held h s →
      Accounted held (h ++ h') s'

/-! ## Captures -/

/-- Merging a capture into the pending ones brings no identity but its own. -/
theorem count_mergeCapture (captured : Capture) (id : RecordId)
    (pending : List Capture) :
    ((CoordinatorState.mergeCapture captured pending).map (·.id)).count id ≤
      (pending.map (·.id)).count id + [captured.id].count id := by
  induction pending with
  | nil => simp [CoordinatorState.mergeCapture]
  | cons first rest ih =>
      unfold CoordinatorState.mergeCapture
      split
      · simp only [List.map_cons, List.count_cons]
        omega
      · simp only [List.map_cons, List.count_cons] at ih ⊢
        omega

theorem count_mergeCaptures (id : RecordId) (captured : List Capture) :
    ∀ pending : List Capture,
      ((CoordinatorState.mergeCaptures pending captured).map (·.id)).count id ≤
        (pending.map (·.id)).count id + (captured.map (·.id)).count id := by
  induction captured with
  | nil => intro pending; simp [CoordinatorState.mergeCaptures]
  | cons c rest ih =>
      intro pending
      have hfirst := count_mergeCapture c id pending
      have hrest := ih (CoordinatorState.mergeCapture c pending)
      simp only [CoordinatorState.mergeCaptures, List.foldl_cons, List.map_cons,
        List.count_cons, List.count_nil] at hfirst hrest ⊢
      omega

/-! ## The pieces -/

section Pieces

variable {during : Interlude} {held : List RecordId} {h : History}
  {s : CoordinatorState}

/-- A call and what happens while it lasts keep the account that its first
moment keeps. -/
theorem call_accounts (hd : during.Accounts) (made : Call)
    (acc : Accounted held (h ++ [.called made]) s) :
    (call made s).Ensures during (fun h _ s => Accounted held h s) h := by
  rw [ensures_call]
  intro meanwhile found answer lasts
  have hlast := hd held _ s meanwhile found lasts acc
  have := hlast.extend [.returned made answer] rfl rfl
  simpa only [List.append_assoc, List.cons_append, List.nil_append] using this

theorem dispatch_accounts (hd : during.Accounts) (records : List AuditRecord)
    (acc : Accounted (idsOf records ++ held) h s) :
    (dispatch records s).Ensures during
      (fun h _ s => Accounted held h s) h := by
  unfold dispatch
  split
  · next hempty =>
      rw [List.isEmpty_iff.mp hempty] at acc
      exact acc
  · next hne =>
      rw [ensures_bind]
      have hne : records ≠ [] := fun hnil => hne (List.isEmpty_iff.mpr hnil)
      refine (call_accounts hd _ (acc.deliver hne)).mono
        fun h answer s hacc => ?_
      cases answer <;> exact hacc

theorem announce_accounts (hd : during.Accounts) (records : List AuditRecord)
    (event : TransactionEvent) (acc : Accounted held h s) :
    (announce records event s).Ensures during
      (fun h _ s => Accounted held h s) h := by
  unfold announce
  split
  · exact acc
  · next hne =>
      rw [ensures_bind]
      have hne : records ≠ [] := fun hnil => hne (List.isEmpty_iff.mpr hnil)
      refine (call_accounts hd _ (acc.announce hne)).mono
        fun h answer s hacc => ?_
      cases answer <;> exact hacc

theorem report_accounts (hd : during.Accounts) (event : TransactionEvent)
    (status : TransactionStatus) (acc : Accounted held h s) :
    (report event status s).Ensures during
      (fun h _ s => Accounted held h s) h := by
  unfold report
  rw [ensures_bind]
  refine (call_accounts hd _ (acc.extend _ rfl rfl)).mono
    fun h answer s hacc => ?_
  cases answer <;> exact hacc

theorem checkCancelled_accounts (acc : Accounted held h s) :
    (checkCancelled s).Ensures during (fun h _ s => Accounted held h s) h :=
  checkCancelled_ensures fun cancelled _ =>
    acc.extend [.asked .isCancelled cancelled] rfl rfl

theorem releaseOwned_accounts (hd : during.Accounts) (context : String)
    (acc : Accounted held h s) :
    (releaseOwned context s).Ensures during
      (fun h _ s => Accounted held h s) h := by
  unfold releaseOwned
  rw [ensures_bind, ensures_state]
  cases howned : s.owned with
  | none => exact acc
  | some tx =>
      simp only []
      rw [ensures_bind, ensures_change, ensures_bind]
      have hcall := acc.move _ { s with owned := none } fun id => Nat.le_refl _
      refine (call_accounts hd _ (hcall.extend _ rfl rfl)).mono
        fun h answer s hacc => ?_
      cases answer <;> exact report_accounts hd _ _ (hacc.dropBatch rfl rfl)

theorem finishOwned_accounts (phase : TransactionPhase)
    (acc : Accounted held h s) :
    (finishOwned phase s).Ensures during
      (fun h _ s => Accounted held h s) h := by
  unfold finishOwned
  rw [ensures_bind, ensures_state]
  cases s.owned <;> exact acc.move _ _ fun id => Nat.le_refl _

/-- The batch is in the hands of this piece from its beginning: it is handed
to the consumer after the commit, or let go of. -/
theorem commitOwned_accounts (hd : during.Accounts) (context : String)
    (tx : TransactionId) (acc : Accounted held h s) :
    (commitOwned context tx s).Ensures during
      (fun h _ s => Accounted held h s) h := by
  unfold commitOwned
  simp only []
  rw [ensures_bind, ensures_state, ensures_bind, ensures_change, ensures_bind]
  have htaken : Accounted (idsOf s.batch ++ held) h
      { s with commitInProgress := true, transactionPhase := .committing,
               batch := [] } :=
    acc.takeBatch rfl rfl
  refine (announce_accounts hd s.batch _ htaken).mono
    fun h _ s₁ hannounced => ?_
  rw [ensures_bind]
  refine (call_accounts hd _ (hannounced.extend _ rfl rfl)).mono
    fun h answer s₂ hanswered => ?_
  cases answer with
  | ok _ =>
      simp only []
      rw [ensures_bind, ensures_log, ensures_bind]
      refine (finishOwned_accounts .committed hanswered).mono
        fun h settledHere s₃ hfinished => ?_
      rw [ensures_bind]
      refine (dispatch_accounts hd s.batch hfinished).mono
        fun h _ s₄ hdispatched => ?_
      cases settledHere with
      | true => exact report_accounts hd _ _ hdispatched
      | false => exact hdispatched
  | error e =>
      simp only []
      rw [ensures_bind, ensures_log, ensures_bind]
      have hdropped := hanswered.letGo.extend [.called (.rollback tx)] rfl rfl
      refine (call_accounts hd _ hdropped).mono
        fun h answer s₃ hrolledBack => ?_
      have hend : ∀ phase, ((do
          let settledHere ← finishOwned phase
          if settledHere then
            report ⟨context, some tx⟩ .failed) s₃).Ensures during
          (fun h _ s => Accounted held h s) h := by
        intro phase
        rw [ensures_bind]
        refine (finishOwned_accounts phase hrolledBack).mono
          fun h settledHere s₄ hfinished => ?_
        cases settledHere with
        | true => exact report_accounts hd _ _ hfinished
        | false => exact hfinished
      cases answer <;> exact hend _

theorem openOwned_accounts (hd : during.Accounts) (context : String)
    (acc : Accounted held h s) :
    (openOwned context s).Ensures during
      (fun h _ s => Accounted held h s) h := by
  unfold openOwned
  rw [ensures_bind]
  refine (call_accounts hd _ (acc.extend _ rfl rfl)).mono
    fun h answer s hanswered => ?_
  cases answer with
  | error e => exact hanswered
  | ok tx =>
      simp only []
      rw [ensures_bind, ensures_log, ensures_bind]
      refine (own_ensures during tx s h).mono ?_
      intro h' u s' hpost
      obtain ⟨rfl, rfl⟩ := hpost
      have howned :=
        hanswered.move held { s with owned := some tx,
                                     transactionPhase := .opened }
        fun id => Nat.le_refl _
      rw [ensures_bind, ensures_ask]
      intro cancelled
      have hasked := howned.extend [.asked .isCancelled cancelled] rfl rfl
      cases cancelled with
      | false => exact hasked
      | true =>
          simp only [if_true]
          rw [ensures_bind]
          exact (releaseOwned_accounts hd context hasked).mono
            fun h _ s hreleased => hreleased

theorem joinTransaction_accounts (hd : during.Accounts)
    (settings : CoordinatorSettings) (context : String)
    (acc : Accounted held h s) :
    (joinTransaction settings context s).Ensures during
      (fun h _ s => Accounted held h s) h := by
  unfold joinTransaction
  rw [ensures_bind, ensures_ask]
  intro current
  have hasked := acc.extend [.asked .currentTransaction current] rfl rfl
  cases current with
  | some tx =>
      simp only []
      rw [ensures_bind, ensures_change, ensures_pure]
      split <;> exact hasked.move _ _ fun id => Nat.le_refl _
  | none =>
      simp only []
      split
      · exact openOwned_accounts hd context hasked
      · exact hasked

/-- The captures join the pending ones with the identities issued for them. -/
theorem startCollecting_accounts (hd : during.Accounts)
    (settings : CoordinatorSettings) (context : String)
    (acc : Accounted held h s) :
    (startCollecting settings context s).Ensures during
      (fun h _ s => Accounted held h s) h := by
  have hasked := acc.extend [.asked .isCancelled false] rfl rfl
  refine startCollecting_ensures (acc.extend _ rfl rfl) (fun _ => hasked)
    fun _ => ?_
  have hentered :=
    hasked.move _ { s with phase := .capturing } fun id => Nat.le_refl _
  refine (joinTransaction_accounts hd settings context hentered).mono
    fun h joined s hjoined => ?_
  cases joined with
  | error e => exact hjoined.move _ _ fun id => Nat.le_refl _
  | ok _ =>
      intro entries asked captured hreads verdict
      have hasks : OnlyAsks (.asked .entries entries :: asked) :=
        asks_cons hreads.asks
      have hread := hjoined.extend _ hasks.deliveries_eq hasks.announcements_eq
      cases captured with
      | error e => exact hread.move _ _ fun id => Nat.le_refl _
      | ok captures =>
          refine ⟨fun id => ?_, hread.delivers, hread.announces⟩
          have hbefore := hjoined.counts id
          have hmerged := count_mergeCaptures id captures s.captures
          have hissued : issued (.asked .entries entries :: asked) =
              captures.map (·.id) :=
            verdict.issued_eq.symm
          simp only [CoordinatorState.captureIds, CoordinatorState.collected,
            delivered, deliveries_append, hasks.deliveries_eq, List.append_nil,
            issued_append, List.count_append, hissued] at hbefore ⊢
          omega

/-- A batch that was left is let go of. -/
theorem deliverNow_accounts (hd : during.Accounts) (context : String)
    (records : List AuditRecord) (acc : Accounted (idsOf records ++ held) h s) :
    (deliverNow context records s).Ensures during
      (fun h _ s => Accounted held h s) h := by
  unfold deliverNow
  rw [ensures_bind, ensures_state, ensures_bind, ensures_change]
  have hpurged : Accounted (idsOf records ++ held) h
      { s with phase := .immediateDispatch, batch := [] } :=
        acc.dropBatch rfl rfl
  split
  · rw [ensures_bind, ensures_log]
    exact dispatch_accounts hd records hpurged
  · exact dispatch_accounts hd records hpurged

theorem joinBatch_accounts (hd : during.Accounts) (context : String)
    (tx : TransactionId) (records : List AuditRecord)
    (acc : Accounted (idsOf records ++ held) h s) :
    (joinBatch context tx records s).Ensures during
      (fun h _ s => Accounted held h s) h := by
  unfold joinBatch
  rw [ensures_bind, ensures_change, ensures_bind, ensures_state, ensures_bind,
    ensures_log]
  have hbatched := acc.move held { s with
      phase := .batching
      batch := s.batch ++ records
      transactionPhase :=
        if s.transactionPhase = .inactive then .opened else s.transactionPhase }
    fun id => by
      simp only [CoordinatorState.captureIds, idsOf_append, List.count_append]
      omega
  by_cases howned : s.owned = some tx
  · rw [if_pos howned]
    exact commitOwned_accounts hd context tx hbatched
  · rw [if_neg howned]
    exact hbatched

/-- Captures are taken out of the state, become records, and are delivered or
batched. -/
theorem finish_accounts (hd : during.Accounts) (context : String)
    (acc : Accounted held h s) :
    (finish context s).Ensures during (fun h _ s => Accounted held h s) h := by
  have hasked := acc.extend [.asked .isCancelled false] rfl rfl
  refine finish_ensures (acc.extend _ rfl rfl) (fun _ => hasked) ?_
  intro _ asked records current reconciled
  have hasks := reconciled.reads.asks
  have hids : idsOf records = s.captureIds := by
    rw [← reconciled.promotions_eq]
    exact id_promotions s.captures _
  have hread := hasked.extend asked hasks.deliveries_eq hasks.announcements_eq
  have htaken : Accounted (s.captureIds ++ held) _
      { s with phase := .reconciling, captures := [] } :=
        hread.takeCaptures rfl rfl
  rw [← hids] at htaken
  have hcurrent := htaken.extend [.asked .currentTransaction current] rfl rfl
  have hend : ∀ (h : History) (u : Unit) (s : CoordinatorState),
      Accounted held h s →
      ((do enter .idle; checkCancelled : Coordinating Outcome) s).Ensures during
        (fun h _ s => Accounted held h s) h := by
    intro h u s hacc
    rw [ensures_bind, ensures_enter]
    exact checkCancelled_accounts (hacc.move _ _ fun id => Nat.le_refl _)
  cases current with
  | none => exact (deliverNow_accounts hd context records hcurrent).mono hend
  | some tx =>
      exact (joinBatch_accounts hd context tx records hcurrent).mono hend

theorem abandonFlush_accounts (hd : during.Accounts) (context : String)
    (reason : FlushFailure) (acc : Accounted held h s) :
    (abandonFlush context reason s).Ensures during
      (fun h _ s => Accounted held h s) h := by
  unfold abandonFlush
  refine ensures_unlessCancelled (acc.extend _ rfl rfl) ?_
  have hasked := acc.extend [.asked .isCancelled false] rfl rfl
  rw [ensures_bind, ensures_state, ensures_bind, ensures_change, ensures_bind,
    ensures_log, ensures_bind]
  have hdropped : Accounted held _ { s with captures := [], phase := .idle } :=
    hasked.dropCaptures rfl rfl
  exact (releaseOwned_accounts hd context hdropped).mono
    fun h _ s hacc => checkCancelled_accounts hacc

/-- The batch is in the hands of this piece while it is announced, and goes
back in front of what was batched meanwhile. -/
theorem transactionCommitting_accounts (hd : during.Accounts)
    (event : TransactionEvent) (acc : Accounted held h s) :
    (transactionCommitting event s).Ensures during
      (fun h _ s => Accounted held h s) h := by
  unfold transactionCommitting
  refine ensures_unlessCancelled (acc.extend _ rfl rfl) ?_
  have hasked := acc.extend [.asked .isCancelled false] rfl rfl
  rw [ensures_bind, ensures_state]
  split
  · exact hasked
  · rw [ensures_bind, ensures_change, ensures_bind]
    have htaken : Accounted (idsOf s.batch ++ held) _
        { s with transactionPhase := .committing, batch := [] } :=
          hasked.takeBatch rfl rfl
    refine (announce_accounts hd s.batch event htaken).mono
      fun h _ after hannounced => ?_
    rw [ensures_bind, ensures_change]
    exact checkCancelled_accounts (hannounced.move _ _ fun id => by
      simp only [CoordinatorState.captureIds, idsOf_append, List.count_append]
      omega)

theorem transactionCommitted_accounts (hd : during.Accounts)
    (event : TransactionEvent) (acc : Accounted held h s) :
    (transactionCommitted event s).Ensures during
      (fun h _ s => Accounted held h s) h := by
  unfold transactionCommitted
  refine ensures_notice (acc.extend _ rfl rfl)
    (fun _ _ _ => acc.extend _ rfl rfl) fun _ => ?_
  have hasked := acc.extend [.asked .isCancelled false] rfl rfl
  rw [ensures_bind, ensures_state, ensures_bind, ensures_change, ensures_bind]
  have htaken : Accounted (idsOf s.batch ++ held) _
      { settleOwned event s with
        transactionPhase := .committed, batch := [] } :=
    hasked.takeBatch (settleOwned_captures event s) rfl
  refine (dispatch_accounts hd s.batch htaken).mono fun h _ s hdispatched => ?_
  rw [ensures_bind]
  exact (report_accounts hd event .committed hdispatched).mono
    fun h _ s hreported => checkCancelled_accounts hreported

/-- A notice that is neither refused nor ignored lets go of the batch. -/
theorem discardBatch_drops (hd : during.Accounts) (event : TransactionEvent)
    (status : TransactionStatus) (acc : Accounted held h s) :
    (discardBatch event status s).Ensures during
      (fun h' _ s' =>
        (Accounted held h' s' ∧ (h' = h ++ [.asked .isCancelled true] ∨
          ∃ tx, event.transaction = some tx ∧ s.settled = some tx)) ∨
        Accounted (idsOf s.batch ++ held) h' s') h := by
  unfold discardBatch
  refine ensures_notice (.inl ⟨acc.extend _ rfl rfl, .inl rfl⟩)
    (fun tx hnamed hsettled =>
      .inl ⟨acc.extend _ rfl rfl, .inr ⟨tx, hnamed, hsettled⟩⟩)
    fun _ => ?_
  have hasked := acc.extend [.asked .isCancelled false] rfl rfl
  rw [ensures_bind, ensures_state, ensures_bind, ensures_change, ensures_bind,
    ensures_log, ensures_bind]
  have hdropped : Accounted (idsOf s.batch ++ held) _
      { settleOwned event s with
        transactionPhase := if status = .failed then .failed else .rolledBack
        batch := [] } :=
    hasked.takeBatch (settleOwned_captures event s) rfl
  refine (report_accounts hd event status hdropped).mono
    fun h _ s hreported => ?_
  exact (checkCancelled_accounts hreported).mono fun h _ s hacc => .inr hacc

theorem discardBatch_accounts (hd : during.Accounts) (event : TransactionEvent)
    (status : TransactionStatus) (acc : Accounted held h s) :
    (discardBatch event status s).Ensures during
      (fun h _ s => Accounted held h s) h :=
  (discardBatch_drops hd event status acc).mono fun _ _ _ hpost =>
    hpost.elim And.left Accounted.letGo

/-- Whatever the coordinator is told, it keeps the account. -/
theorem serve_accounts (hd : during.Accounts) (settings : CoordinatorSettings)
    (made : HostCall) (acc : Accounted held h s) :
    (serve settings made s).Ensures during
      (fun h _ s => Accounted held h s) h := by
  cases made with
  | startCollecting context =>
      exact startCollecting_accounts hd settings context acc
  | finish context => exact finish_accounts hd context acc
  | saveFailed context => exact abandonFlush_accounts hd context .failed acc
  | saveCanceled context => exact abandonFlush_accounts hd context .canceled acc
  | transactionCommitting event =>
      exact transactionCommitting_accounts hd event acc
  | transactionCommitted event =>
      exact transactionCommitted_accounts hd event acc
  | transactionRolledBack event =>
      exact discardBatch_accounts hd event .rolledBack acc
  | transactionFailed event => exact discardBatch_accounts hd event .failed acc
  | clearCaptures => exact acc.dropCaptures rfl rfl
  | clearBatch => exact acc.dropBatch rfl rfl

end Pieces

/-! ## Turns, sessions and what is nested in them -/

theorem Turn.Taken.accounts {settings : CoordinatorSettings}
    {during : Interlude} (hd : during.Accounts) {t : Turn}
    (taken : t.Taken settings during) {held : List RecordId} {h : History}
    (acc : Accounted held h t.before) :
    Accounted held (h ++ t.account) t.after := by
  have hentered := acc.extend [.entered t.made t.before] rfl rfl
  have hserved := taken.ensured (serve_accounts hd settings t.made hentered)
  have hleft := hserved.extend [.left t.made t.outcome t.after] rfl rfl
  simpa only [Turn.account, List.append_assoc, List.cons_append,
    List.nil_append] using hleft

/-- A session keeps the account, by induction on its turns. -/
theorem Session.accounts {settings : CoordinatorSettings} {during : Interlude}
    (hd : during.Accounts) {s s' : CoordinatorState} {ts : List Turn}
    (session : Session settings during s ts s') :
    ∀ {held : List RecordId} {h : History}, Accounted held h s →
      Accounted held (h ++ accountOf ts) s' := by
  induction session with
  | nil s =>
      intro held h acc
      rwa [accountOf, List.flatMap_nil, List.append_nil]
  | cons t taken rest ih =>
      intro held h acc
      have := ih (taken.accounts hd acc)
      rwa [List.append_assoc] at this

/-- A session does not make more of an identity than it finds and is given.
This is the account of a history that begins with the state it starts from. -/
theorem Session.conserves {settings : CoordinatorSettings} {during : Interlude}
    (hd : during.Accounts) {s s' : CoordinatorState} {ts : List Turn}
    (session : Session settings during s ts s') (id : RecordId) :
    s'.captureIds.count id + (idsOf s'.batch).count id +
        (idsOf (delivered (accountOf ts))).count id ≤
      s.captureIds.count id + (idsOf s.batch).count id +
        (issued (accountOf ts)).count id := by
  let given : History :=
    (s.captureIds ++ idsOf s.batch).map (.asked .freshRecordId ·)
  have hissued : issued given = s.captureIds ++ idsOf s.batch := by
    rw [issued, List.filterMap_map]
    exact List.filterMap_some
  have hcalls : calls given = [] := by
    rw [calls, List.filterMap_map]
    exact List.filterMap_eq_nil_iff.mpr fun _ _ => rfl
  have hdeliveries : deliveries given = [] := by rw [deliveries, hcalls]; rfl
  have hdelivered : delivered given = [] := by rw [delivered, hdeliveries]; rfl
  have acc : Accounted [] given s := by
    refine ⟨fun id => ?_, ?_, ?_⟩
    · rw [hissued, hdelivered, List.count_append, idsOf_nil, List.count_nil]
      omega
    · rw [hdeliveries]
      exact List.not_mem_nil
    · rw [announcements, hcalls]
      exact List.not_mem_nil
  have hend := (session.accounts hd acc).counts id
  rw [issued_append, hissued, List.count_append, List.count_append,
    delivered_append, hdelivered, List.nil_append, List.count_nil] at hend
  omega

/-- Turns nested to any depth keep the account. The induction is on the depth:
the turns within a call are a session whose own calls are nested less deep. -/
theorem Interlude.nested_accounts (settings : CoordinatorSettings) :
    ∀ depth, (Interlude.nested settings depth).Accounts := by
  intro depth
  induction depth with
  | zero =>
      intro held h s h' s' lasts acc
      obtain ⟨rfl, rfl⟩ := lasts
      rwa [List.append_nil]
  | succ depth ih =>
      intro held h s h' s' lasts acc
      obtain ⟨ts, session, rfl⟩ := lasts
      exact session.accounts ih acc

theorem accounted_initial : Accounted [] [] CoordinatorState.initial where
  counts _ := Nat.le_refl 0
  delivers := List.not_mem_nil
  announces := List.not_mem_nil

theorem nodup_of_count_le {α : Type} [DecidableEq α] {l m : List α}
    (h : ∀ a, l.count a ≤ m.count a) (hm : m.Nodup) : l.Nodup :=
  List.nodup_iff_count_le_one.mpr fun a =>
    Nat.le_trans (h a) (List.nodup_iff_count_le_one.mp hm a)

/-- Delivery is at most once. Whatever the collaborators of a coordinator
answer, and however deep they call it again, as long as no identity is issued
twice, no identity is delivered twice, the consumer is never handed an empty
slice, and between the turns of the host the pending captures, the batch and
all that was delivered share no identity and repeat none. -/
theorem delivered_at_most_once {settings : CoordinatorSettings} {depth : Nat}
    {ts : List Turn} {s : CoordinatorState}
    (session : Session settings (Interlude.nested settings depth)
      CoordinatorState.initial ts s)
    (fresh : (issued (accountOf ts)).Nodup) :
    (idsOf (delivered (accountOf ts))).Nodup ∧
      [] ∉ deliveries (accountOf ts) ∧ [] ∉ announcements (accountOf ts) ∧
      (s.captureIds ++ idsOf s.batch ++
        idsOf (delivered (accountOf ts))).Nodup := by
  have acc := session.accounts (Interlude.nested_accounts settings depth)
    accounted_initial
  rw [List.nil_append] at acc
  refine ⟨nodup_of_count_le (fun id => ?_) fresh, acc.delivers, acc.announces,
    nodup_of_count_le (fun id => ?_) fresh⟩
  · have := acc.counts id
    omega
  · have := acc.counts id
    simp only [List.count_append]
    simp only [List.count_nil] at this
    omega

/-! A session to try the theorem on: the coordinator opens a transaction for a
flush, and while it commits that transaction the host starts another capture
and reports the commit itself. -/

namespace Sample

/-- While a commit lasts, a capture is started and the commit is reported. -/
def disturbed : Call → CoordinatorState → History × CoordinatorState
  | .commit _, s =>
      let ts := turnsIn (settings true) s
        [(company none (order 3) undisturbed, .startCollecting "req"),
          (company none (order 3) undisturbed,
            .transactionCommitted (notice 1))]
      (accountOf ts, endOf s ts)
  | _, s => ([], s)

/-- Two flushes, the first outside any transaction the host knows of. -/
def flushes : List (Company × HostCall) :=
  [(company none (order 1) undisturbed, .startCollecting "req"),
    (company (some (transaction 1)) (order 2) undisturbed,
      .startCollecting "req"),
    (company (some (transaction 1)) (order 2) disturbed, .finish "req"),
    (company none (order 4) undisturbed, .startCollecting "req")]

theorem disturbed_within (current : Option TransactionId)
    (entry : TrackedEntry) :
    (company current entry disturbed).Within
      (Interlude.nested (settings true) 1) := by
  intro made s
  cases made with
  | commit tx =>
      refine ⟨_, session_turnsIn _ s fun play hmem => ?_, rfl⟩
      rcases List.mem_pair.mp hmem with rfl | rfl <;>
        exact undisturbed_within _ _ _ 0
  | _ => exact ⟨[], .nil s, rfl⟩

theorem flushes_session :
    Session (settings true) (Interlude.nested (settings true) 1)
      CoordinatorState.initial
      (turnsIn (settings true) CoordinatorState.initial flushes)
      (endOf CoordinatorState.initial
        (turnsIn (settings true) CoordinatorState.initial flushes)) := by
  refine session_turnsIn flushes _ fun play hmem => ?_
  simp only [flushes, List.mem_cons, List.not_mem_nil, or_false] at hmem
  rcases hmem with rfl | rfl | rfl | rfl
  · exact undisturbed_within _ _ _ 1
  · exact undisturbed_within _ _ _ 1
  · exact disturbed_within _ _
  · exact undisturbed_within _ _ _ 1

end Sample

/-- Two orders wait for the commit, are delivered once in spite of the second
report, and a third is captured afterwards. -/
theorem delivered_at_most_once_disturbed :
    let ts := turnsIn (Sample.settings true) CoordinatorState.initial
      Sample.flushes
    let s := endOf CoordinatorState.initial ts
    (issued (accountOf ts)).Nodup ∧
      (idsOf (delivered (accountOf ts))).length = 2 ∧ s.captureIds.length = 1 ∧
      (idsOf (delivered (accountOf ts))).Nodup ∧
      [] ∉ deliveries (accountOf ts) ∧ [] ∉ announcements (accountOf ts) ∧
      (s.captureIds ++ idsOf s.batch ++
        idsOf (delivered (accountOf ts))).Nodup := by
  have fresh : (issued (accountOf (turnsIn (Sample.settings true)
      CoordinatorState.initial Sample.flushes))).Nodup := by decide +kernel
  exact ⟨fresh, by decide +kernel, by decide +kernel,
    delivered_at_most_once Sample.flushes_session fresh⟩

end AuditTrail
