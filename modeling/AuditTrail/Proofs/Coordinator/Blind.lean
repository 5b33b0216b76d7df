import AuditTrail.Proofs.Coordinator.Alike

/-!
# What the coordinator does not look at

A coordinator cannot do anything about what a veil hides unless it looks. So
the relation of this file is between conversations and not between runs: two
conversations are alike if they ask and call alike, and go on alike whatever
they are answered, so long as the answers look the same behind the veil. What
the log is told does not count.

It goes through a conversation piece by piece, as `Ensures` does for a single
one, and each piece of the coordinator is alike to itself. Identities and
times are hidden from all of them. What the consumer answers is hidden from
all as well, because nothing but the log is ever told. The token is hidden
from the pieces that a call consists of once it has begun, except for the
start, which looks again after it has opened a transaction.
-/

namespace AuditTrail

open Coordinating Coordinator

variable {α β : Type} {v : Veil}

namespace Exchange

/-- Conversations that go alike behind a veil, to related results. -/
inductive Alike (v : Veil) {α : Type} (R : α → α → Prop) :
    Exchange α → Exchange α → Prop where
  | done {s s' : CoordinatorState} {a a' : α} (hs : s.Alike s') (ha : R a a') :
      Alike v R (.done s a) (.done s' a')
  | ask (query : Query) {resume resume' : query.Answer → Exchange α}
      (hresume : ∀ answer answer', v.Answers query answer answer' →
        Alike v R (resume answer) (resume' answer')) :
      Alike v R (.ask query resume) (.ask query resume')
  | call {s s' : CoordinatorState} {made made' : Call}
      {resume : CoordinatorState → made.Answer → Exchange α}
      {resume' : CoordinatorState → made'.Answer → Exchange α} (hs : s.Alike s')
      (hmade : made.Alike made')
      (hresume : ∀ found found' answer answer', found.Alike found' →
        v.Replies made answer made' answer' →
        Alike v R (resume found answer) (resume' found' answer')) :
      Alike v R (.call s made resume) (.call s' made' resume')
  | logLeft (event : LogEvent) {x y : Exchange α} (hrest : Alike v R x y) :
      Alike v R (.log event x) y
  | logRight (event : LogEvent) {x y : Exchange α} (hrest : Alike v R x y) :
      Alike v R x (.log event y)

theorem Alike.bind {R : α → α → Prop} {Q : β → β → Prop} {x x' : Exchange α}
    {next next' : α → CoordinatorState → Exchange β} (hx : Alike v R x x')
    (hnext : ∀ a a' s s', R a a' → s.Alike s' →
      Alike v Q (next a s) (next' a' s')) :
    Alike v Q (x.bind next) (x'.bind next') := by
  induction hx with
  | done hs ha => exact hnext _ _ _ _ ha hs
  | ask query _ ih =>
      exact .ask query fun answer answer' h => ih answer answer' h
  | call hs hmade _ ih =>
      exact .call hs hmade fun found found' answer answer' hfound hreply =>
        ih found found' answer answer' hfound hreply
  | logLeft event _ ih => exact .logLeft event ih
  | logRight event _ ih => exact .logRight event ih

end Exchange

/-! ## Pieces of a conversation -/

namespace Coordinating

/-- From states that are alike the two go alike. -/
def Alike (v : Veil) (R : α → α → Prop) (m m' : Coordinating α) : Prop :=
  ∀ s s' : CoordinatorState, s.Alike s' → (m s).Alike v R (m' s')

variable {R : α → α → Prop} {Q : β → β → Prop}

theorem alike_pure {a a' : α} (ha : R a a') : Alike v R (pure a) (pure a') :=
  fun _ _ hs => .done hs ha

theorem alike_bind {m m' : Coordinating α} {f f' : α → Coordinating β}
    (hm : Alike v R m m') (hf : ∀ a a', R a a' → Alike v Q (f a) (f' a')) :
    Alike v Q (m >>= f) (m' >>= f') :=
  fun s s' hs => (hm s s' hs).bind fun a a' s s' ha hs => hf a a' ha s s' hs

theorem alike_bind_eq {m m' : Coordinating α} {f f' : α → Coordinating β}
    (hm : Alike v Eq m m') (hf : ∀ a, Alike v Q (f a) (f' a)) :
    Alike v Q (m >>= f) (m' >>= f') :=
  alike_bind hm fun a _ ha => ha ▸ hf a

theorem alike_bind_state {f f' : CoordinatorState → Coordinating α}
    (hf : ∀ s s', s.Alike s' → Alike v R (f s) (f' s')) :
    Alike v R (state >>= f) (state >>= f') :=
  fun s s' hs => hf s s' hs s s' hs

theorem alike_bind_change {g g' : CoordinatorState → CoordinatorState}
    {f f' : Unit → Coordinating α}
    (hg : ∀ s s', s.Alike s' → (g s).Alike (g' s'))
    (hf : Alike v R (f ()) (f' ())) :
    Alike v R (change g >>= f) (change g' >>= f') :=
  fun s s' hs => hf _ _ (hg s s' hs)

theorem alike_bind_enter (phase : LifecyclePhase) {f f' : Unit → Coordinating α}
    (hf : Alike v R (f ()) (f' ())) :
    Alike v R (enter phase >>= f) (enter phase >>= f') :=
  alike_bind_change (fun _ _ hs => { hs with phase_eq := rfl }) hf

theorem alike_bind_ask (query : Query) {f f' : query.Answer → Coordinating α}
    (hf : ∀ answer answer', v.Answers query answer answer' →
      Alike v R (f answer) (f' answer')) :
    Alike v R (ask query >>= f) (ask query >>= f') :=
  fun s s' hs => .ask query fun answer answer' h => hf answer answer' h s s' hs

theorem alike_bind_call {made made' : Call} {f : made.Answer → Coordinating α}
    {f' : made'.Answer → Coordinating α} (hmade : made.Alike made')
    (hf : ∀ answer answer', v.Replies made answer made' answer' →
      Alike v R (f answer) (f' answer')) :
    Alike v R (call made >>= f) (call made' >>= f') :=
  fun _ _ hs => .call hs hmade fun found found' answer answer' hfound hreply =>
    hf answer answer' hreply found found' hfound

theorem alike_bind_log {event event' : LogEvent} {f f' : Unit → Coordinating α}
    (hf : Alike v R (f ()) (f' ())) :
    Alike v R (log event >>= f) (log event' >>= f') :=
  fun s s' hs => .logLeft event (.logRight event' (hf s s' hs))

/-- Nothing is done, but perhaps the log is told something. -/
def Silent (m : Coordinating Unit) : Prop :=
  m = pure () ∨ ∃ event, m = log event

theorem alike_silent {m m' : Coordinating Unit} (hm : Silent m)
    (hm' : Silent m') :
    Alike v (fun _ _ => True) m m' := by
  intro s s' hs
  have hdone : Exchange.Alike v (fun _ _ : Unit => True) (.done s ())
      (.done s' ()) :=
    .done hs trivial
  rcases hm with rfl | ⟨event, rfl⟩
  · rcases hm' with rfl | ⟨event', rfl⟩
    · exact hdone
    · exact .logRight event' hdone
  · rcases hm' with rfl | ⟨event', rfl⟩
    · exact .logLeft event hdone
    · exact .logLeft event (.logRight event' hdone)

@[simp] theorem silent_pure : Silent (pure ()) := .inl rfl

@[simp] theorem silent_log (event : LogEvent) : Silent (log event) :=
  .inr ⟨event, rfl⟩

/-- A call about whose answer nobody but the log is told. -/
theorem alike_call_silent {made made' : Call}
    {f : made.Answer → Coordinating Unit}
    {f' : made'.Answer → Coordinating Unit} (hmade : made.Alike made')
    (hf : ∀ answer, Silent (f answer)) (hf' : ∀ answer, Silent (f' answer)) :
    Alike v (fun _ _ => True) (call made >>= f) (call made' >>= f') :=
  alike_bind_call hmade fun answer answer' _ =>
    alike_silent (hf answer) (hf' answer')

/-! ## Capturing -/

theorem keyText_alike (entity : EntityRef) :
    Alike v Eq (keyText entity) (keyText entity) :=
  alike_bind_ask _ fun _ _ hkey =>
    alike_pure (congrArg (·.bind FieldValue.keyText?) hkey)

abbrev SameContents (captures captures' : List Capture) : Prop :=
  captures.map Capture.content = captures'.map Capture.content

abbrev SameRecords (records records' : List AuditRecord) : Prop :=
  records.map AuditRecord.content = records'.map AuditRecord.content

/-- The same contents were captured, or capturing failed in the same way. -/
abbrev SameCaptured (captured captured' : Except AuditError (List Capture)) :
    Prop :=
  captured.map (List.map Capture.content) =
    captured'.map (List.map Capture.content)

theorem SameCaptured.elim
    {captured captured' : Except AuditError (List Capture)}
    (hsame : SameCaptured captured captured') :
    (∃ e, captured = .error e ∧ captured' = .error e) ∨
      ∃ captures captures', captured = .ok captures ∧
        captured' = .ok captures' ∧
        SameContents captures captures' := by
  cases captured with
  | error e =>
      cases captured' with
      | error e' => cases hsame; exact .inl ⟨e, rfl, rfl⟩
      | ok captures' => cases hsame
  | ok captures =>
      cases captured' with
      | error e' => cases hsame
      | ok captures' =>
          exact .inr ⟨captures, captures', rfl, rfl, Except.ok.inj hsame⟩

theorem captureEntry_alike (entry : TrackedEntry) (planned : PlannedCapture) :
    Alike v (fun c c' : Capture => c.content = c'.content)
      (captureEntry entry planned)
      (captureEntry entry planned) := by
  unfold captureEntry
  cases planned.action with
  | create =>
      simp only [pure_bind]
      exact alike_bind_ask _ fun _ _ _ => alike_bind_ask _ fun _ _ _ =>
        alike_pure rfl
  | update | delete =>
      refine alike_bind_eq (keyText_alike entry.entity) fun entityId => ?_
      exact alike_bind_ask _ fun _ _ _ => alike_bind_ask _ fun _ _ _ =>
        alike_pure rfl

theorem captureAll_alike (settings : CoordinatorSettings)
    (entries : List TrackedEntry) :
    Alike v SameCaptured (captureAll settings entries)
      (captureAll settings entries) := by
  induction entries with
  | nil => exact alike_pure rfl
  | cons entry rest ih =>
      rw [captureAll]
      split
      · cases settings.plan entry with
        | error e => exact alike_pure rfl
        | ok planned =>
            refine alike_bind (captureEntry_alike entry planned)
              fun c c' hcontent =>
                alike_bind ih fun captured captured' hcaptured => ?_
            obtain ⟨e, rfl, rfl⟩ | ⟨captures, captures', rfl, rfl, hcaptures⟩ :=
              hcaptured.elim
            · exact alike_pure rfl
            · refine alike_pure (congrArg Except.ok ?_)
              rw [List.map_cons, List.map_cons, hcontent, hcaptures]
      · exact ih

theorem capture_alike (settings : CoordinatorSettings) :
    Alike v SameCaptured (capture settings) (capture settings) :=
  alike_bind_ask _ fun entries _ hentries => by
    cases hentries
    exact captureAll_alike settings entries

theorem promote_alike {c c' : Capture} (hcontent : c.content = c'.content) :
    Alike v (fun r r' : AuditRecord => r.content = r'.content) (promote c)
      (promote c') := by
  have hentity : c.entity = c'.entity := congrArg Content.entity hcontent
  have haction : c.action = c'.action := congrArg Content.action hcontent
  unfold promote
  rw [← haction, ← hentity]
  cases c.action with
  | create =>
      exact alike_bind_eq (keyText_alike c.entity) fun key =>
        alike_pure (content_promote_congr hcontent key)
  | update | delete => exact alike_pure (content_promote_congr hcontent none)

theorem promoteAll_alike {captures captures' : List Capture}
    (hcaptures : SameContents captures captures') :
    Alike v SameRecords (promoteAll captures) (promoteAll captures') := by
  induction captures generalizing captures' with
  | nil =>
      rw [List.map_eq_nil_iff.mp hcaptures.symm]
      exact alike_pure rfl
  | cons c rest ih =>
      obtain ⟨c', rest', rfl, hfirst, hrest⟩ :=
        List.map_eq_cons_iff.mp hcaptures.symm
      refine alike_bind (promote_alike hfirst.symm) fun r r' hr =>
        alike_bind (ih hrest.symm) fun rs rs' hrs => alike_pure ?_
      rw [SameRecords, List.map_cons, List.map_cons, hr, hrs]

/-! ## Calls of the consumer -/

theorem SameRecords.isEmpty_eq {records records' : List AuditRecord}
    (hrecords : SameRecords records records') :
    records.isEmpty = records'.isEmpty := by
  rw [← List.isEmpty_map, hrecords, List.isEmpty_map]

theorem dispatch_alike {records records' : List AuditRecord}
    (hrecords : SameRecords records records') :
    Alike v (fun _ _ => True) (dispatch records) (dispatch records') := by
  rw [dispatch, dispatch, hrecords.isEmpty_eq]
  split
  · exact alike_pure trivial
  · refine alike_call_silent (.consume hrecords) ?_ ?_ <;>
      rintro (e | _) <;> simp

theorem announce_alike {records records' : List AuditRecord}
    (hrecords : SameRecords records records') (event : TransactionEvent) :
    Alike v (fun _ _ => True) (announce records event)
      (announce records' event) := by
  rw [announce, announce, hrecords.isEmpty_eq]
  split
  · exact alike_pure trivial
  · refine alike_call_silent (.preCommit event hrecords) ?_ ?_ <;>
      rintro (e | _) <;> simp

theorem report_alike (event : TransactionEvent) (status : TransactionStatus) :
    Alike v (fun _ _ => True) (report event status) (report event status) := by
  refine alike_call_silent (.finished event status) ?_ ?_ <;>
    rintro (e | _) <;> simp

/-! ## The owned transaction -/

theorem alike_bind_call_eq {made : Call} {f f' : made.Answer → Coordinating α}
    (hmade : made.Alike made) (hunit : made.isConsumer = false)
    (hf : ∀ answer, Alike v R (f answer) (f' answer)) :
    Alike v R (call made >>= f) (call made >>= f') := by
  refine alike_bind_call hmade fun answer answer' hreply => ?_
  rcases hreply with ⟨-, hconsumer⟩ | hresult
  · rw [hunit] at hconsumer
    cases hconsumer
  · exact made.result_injective hresult ▸ hf answer

theorem own_alike (tx : TransactionId) :
    Alike v (fun _ _ => True) (own tx) (own tx) := by
  unfold own
  refine alike_bind_state fun s s' hs => alike_bind_change
    (fun s s' hs => { hs with owned_eq := rfl, transactionPhase_eq := rfl }) ?_
  rw [hs.owned_eq]
  cases s'.owned with
  | none => exact alike_pure trivial
  | some earlier => exact alike_silent (silent_log _) (silent_log _)

theorem releaseOwned_alike (context : String) :
    Alike v (fun _ _ => True) (releaseOwned context)
      (releaseOwned context) := by
  unfold releaseOwned
  refine alike_bind_state fun s s' hs => ?_
  rw [hs.owned_eq]
  cases s'.owned with
  | none => exact alike_pure trivial
  | some tx =>
      have hend : ∀ phase, Alike v (fun _ _ => True)
          (do
            change fun s => { s with settled := some tx,
                                     transactionPhase := phase, batch := [] }
            report ⟨context, some tx⟩ .rolledBack)
          (do
            change fun s => { s with settled := some tx,
                                     transactionPhase := phase, batch := [] }
            report ⟨context, some tx⟩ .rolledBack) :=
        fun phase => alike_bind_change
          (fun s s' hs => { hs with settled_eq := rfl,
                                    transactionPhase_eq := rfl,
                                    batch_eq := rfl })
          (report_alike _ _)
      refine alike_bind_change (fun s s' hs => { hs with owned_eq := rfl })
        (alike_bind_call_eq (.rollback tx) rfl fun answer => ?_)
      cases answer with
      | ok _ => exact alike_bind_log (hend .rolledBack)
      | error e => exact alike_bind_log (hend .failed)

theorem finishOwned_alike (phase : TransactionPhase) :
    Alike v Eq (finishOwned phase) (finishOwned phase) := by
  unfold finishOwned
  refine alike_bind_state fun s s' hs => ?_
  rw [hs.owned_eq]
  cases s'.owned with
  | none =>
      exact alike_bind_change
        (fun s s' hs => { hs with commitInProgress_eq := rfl })
        (alike_pure rfl)
  | some tx =>
      exact alike_bind_change (fun s s' hs =>
        { hs with
          commitInProgress_eq := rfl, owned_eq := rfl, settled_eq := rfl,
          transactionPhase_eq := rfl }) (alike_pure rfl)

theorem commitOwned_alike (context : String) (tx : TransactionId) :
    Alike v (fun _ _ => True) (commitOwned context tx)
      (commitOwned context tx) := by
  unfold commitOwned
  refine alike_bind_state fun s s' hs => alike_bind_change (fun s s' hs =>
    { hs with commitInProgress_eq := rfl, transactionPhase_eq := rfl,
              batch_eq := rfl }) ?_
  refine alike_bind (announce_alike hs.batch_eq _) fun _ _ _ =>
    alike_bind_call_eq (.commit tx) rfl fun answer => ?_
  cases answer with
  | ok _ =>
      refine alike_bind_log
        (alike_bind_eq (finishOwned_alike .committed) fun settled => ?_)
      refine alike_bind (dispatch_alike hs.batch_eq) fun _ _ _ => ?_
      split
      · exact report_alike _ _
      · exact alike_pure trivial
  | error e =>
      have hend : ∀ phase, Alike v (fun _ _ => True)
          (do if ← finishOwned phase then report ⟨context, some tx⟩ .failed)
          (do
            if ← finishOwned phase then report ⟨context, some tx⟩ .failed) := by
        intro phase
        refine alike_bind_eq (finishOwned_alike phase) fun settled => ?_
        split
        · exact report_alike _ _
        · exact alike_pure trivial
      refine alike_bind_log
        (alike_bind_call_eq (.rollback tx) rfl fun answer => ?_)
      cases answer with
      | ok _ => exact hend .rolledBack
      | error e => exact alike_bind_log (hend .failed)

/-! ## Whole calls -/

theorem checkCancelled_alike :
    Alike v v.Outcomes checkCancelled checkCancelled := by
  unfold checkCancelled
  refine alike_bind_ask _ fun cancelled cancelled' h => ?_
  rcases h with hv | rfl
  · cases cancelled <;> cases cancelled' <;> exact alike_pure (.inl hv)
  · cases cancelled <;> exact alike_pure (.inr rfl)

theorem deliverNow_alike (context : String)
    {records records' : List AuditRecord}
    (hrecords : SameRecords records records') :
    Alike v (fun _ _ => True) (deliverNow context records)
      (deliverNow context records') := by
  unfold deliverNow
  refine alike_bind_state fun s s' hs => alike_bind_change
    (fun s s' hs => { hs with phase_eq := rfl, batch_eq := rfl }) ?_
  rw [SameRecords.isEmpty_eq hs.batch_eq]
  split
  · exact alike_bind_log (dispatch_alike hrecords)
  · exact dispatch_alike hrecords

theorem joinBatch_alike (context : String) (tx : TransactionId)
    {records records' : List AuditRecord}
    (hrecords : SameRecords records records') :
    Alike v (fun _ _ => True) (joinBatch context tx records)
      (joinBatch context tx records') := by
  unfold joinBatch
  refine alike_bind_change (fun s s' hs => ?_) (alike_bind_state fun s s' hs =>
    alike_bind_log ?_)
  · refine { hs with phase_eq := rfl, transactionPhase_eq := ?_,
                     batch_eq := ?_ }
    · rw [hs.transactionPhase_eq]
    · rw [List.map_append, List.map_append, hs.batch_eq, hrecords]
  · rw [hs.owned_eq]
    split
    · exact commitOwned_alike context tx
    · exact alike_pure trivial

def unlessCancelled (work : Coordinating Outcome) : Coordinating Outcome := do
  if ← ask .isCancelled then return .error .cancelled
  work

/-- Once a call has seen that the token is not cancelled, no veil hides anything
that it looks at. -/
def Steadfast (m : Coordinating Outcome) : Prop :=
  ∃ work, m = unlessCancelled work ∧ ∀ v : Veil, Alike v v.Outcomes work work

theorem finish_steadfast (context : String) : Steadfast (finish context) := by
  refine ⟨_, rfl, fun v => alike_bind_state fun s s' hs => ?_⟩
  rw [hs.commitInProgress_eq]
  split
  · exact alike_bind_log (alike_pure (.inr rfl))
  · refine alike_bind_change
      (fun s s' hs => { hs with phase_eq := rfl, captures_eq := rfl })
      (alike_bind (promoteAll_alike hs.captures_eq)
        fun records records' hrecords =>
          alike_bind_ask _ fun tx _ htx => ?_)
    cases htx
    have hend : Alike v v.Outcomes (do enter .idle; checkCancelled)
        (do enter .idle; checkCancelled) :=
      alike_bind_enter .idle checkCancelled_alike
    cases tx with
    | none =>
        exact alike_bind (deliverNow_alike context hrecords) fun _ _ _ => hend
    | some tx =>
        exact alike_bind (joinBatch_alike context tx hrecords) fun _ _ _ => hend

theorem abandonFlush_steadfast (context : String) (reason : FlushFailure) :
    Steadfast (abandonFlush context reason) := by
  refine ⟨_, rfl, fun v => alike_bind_state fun s s' hs => alike_bind_change
    (fun s s' hs => { hs with captures_eq := rfl, phase_eq := rfl })
    (alike_bind_log ?_)⟩
  exact alike_bind (releaseOwned_alike context) fun _ _ _ =>
    checkCancelled_alike

theorem transactionCommitting_steadfast (event : TransactionEvent) :
    Steadfast (transactionCommitting event) := by
  refine ⟨_, rfl, fun v => alike_bind_state fun s s' hs => ?_⟩
  rw [hs.commitInProgress_eq]
  split
  · exact alike_pure (.inr rfl)
  · refine alike_bind_change (fun s s' hs =>
      { hs with transactionPhase_eq := rfl, batch_eq := rfl })
      (alike_bind (announce_alike hs.batch_eq event) fun _ _ _ =>
        alike_bind_change
          (fun after after' hafter => { hafter with batch_eq := ?_ })
          checkCancelled_alike)
    rw [List.map_append, List.map_append, hs.batch_eq, hafter.batch_eq]

theorem isSettled_alike (event : TransactionEvent) :
    Alike v Eq (isSettled event) (isSettled event) := by
  unfold isSettled
  refine alike_bind_state fun s s' hs => ?_
  rw [hs.settled_eq]
  split
  · split
    · exact alike_bind_log (alike_pure rfl)
    · exact alike_pure rfl
  · exact alike_pure rfl

theorem notice_alike (event : TransactionEvent) {work : Coordinating Outcome}
    (hwork : Alike v v.Outcomes work work) :
    let notice : Coordinating Outcome := do
      if ← isSettled event then return .ok ()
      work
    Alike v v.Outcomes notice notice := by
  refine alike_bind_eq (isSettled_alike event) fun settled => ?_
  cases settled with
  | true => exact alike_pure (.inr rfl)
  | false => exact hwork

theorem settleOwned_alike (event : TransactionEvent) {s s' : CoordinatorState}
    (hs : s.Alike s') :
    (settleOwned event s).Alike (settleOwned event s') := by
  unfold settleOwned
  rw [hs.owned_eq]
  split
  · split
    · exact { hs with owned_eq := rfl, settled_eq := rfl }
    · exact hs
  · exact hs

theorem transactionCommitted_steadfast (event : TransactionEvent) :
    Steadfast (transactionCommitted event) := by
  refine ⟨_, rfl, fun v => notice_alike event (alike_bind_state fun s s' hs =>
    alike_bind_change (fun s s' hs => ?_) ?_)⟩
  · exact { settleOwned_alike event hs with
      transactionPhase_eq := rfl, batch_eq := rfl }
  · exact alike_bind (dispatch_alike hs.batch_eq) fun _ _ _ =>
      alike_bind (report_alike event .committed) fun _ _ _ =>
        checkCancelled_alike

theorem discardBatch_steadfast (event : TransactionEvent)
    (status : TransactionStatus) :
    Steadfast (discardBatch event status) := by
  refine ⟨_, rfl, fun v => notice_alike event (alike_bind_state fun s s' hs =>
    alike_bind_change (fun s s' hs => ?_) (alike_bind_log ?_))⟩
  · exact { settleOwned_alike event hs with
      transactionPhase_eq := rfl, batch_eq := rfl }
  · exact alike_bind (report_alike event status) fun _ _ _ =>
      checkCancelled_alike

/-! ## Beginning -/

theorem openOwned_alike (context : String) :
    Alike .consumer Eq (openOwned context) (openOwned context) := by
  unfold openOwned
  refine alike_bind_call_eq .begin rfl fun answer => ?_
  cases answer with
  | error e => exact alike_pure rfl
  | ok tx =>
      refine alike_bind_log (alike_bind (own_alike tx) fun _ _ _ =>
        alike_bind_ask _ fun cancelled cancelled' hcancelled => ?_)
      cases hcancelled.resolve_left nofun
      cases cancelled with
      | true =>
          exact alike_bind (releaseOwned_alike context) fun _ _ _ =>
            alike_pure rfl
      | false => exact alike_pure rfl

theorem joinTransaction_alike (settings : CoordinatorSettings)
    (context : String) :
    Alike .consumer Eq (joinTransaction settings context)
      (joinTransaction settings context) := by
  unfold joinTransaction
  refine alike_bind_ask _ fun tx _ htx => ?_
  cases htx
  cases tx with
  | some tx =>
      refine alike_bind_change (fun s s' hs => ?_) (alike_pure rfl)
      rw [hs.transactionPhase_eq]
      split
      · exact hs
      · exact { hs with transactionPhase_eq := rfl }
  | none =>
      simp only []
      split
      · exact openOwned_alike context
      · exact alike_pure rfl

theorem startCollecting_alike (settings : CoordinatorSettings)
    (context : String) :
    Alike .consumer Veil.consumer.Outcomes (startCollecting settings context)
      (startCollecting settings context) := by
  unfold startCollecting
  refine alike_bind_ask _ fun cancelled cancelled' hcancelled => ?_
  cases hcancelled.resolve_left nofun
  cases cancelled with
  | true => exact alike_pure (.inr rfl)
  | false =>
      refine alike_bind_state fun s s' hs => ?_
      rw [hs.commitInProgress_eq]
      split
      · exact alike_bind_log (alike_pure (.inr rfl))
      · refine alike_bind_enter _
          (alike_bind_eq (joinTransaction_alike settings context)
            fun joined => ?_)
        cases joined with
        | error e =>
            simp only [pure_bind]
            exact alike_bind_enter _ (alike_pure (.inr rfl))
        | ok _ =>
            refine alike_bind (capture_alike settings)
              fun captured captured' hcaptured => ?_
            obtain ⟨e, rfl, rfl⟩ | ⟨captures, captures', rfl, rfl, hcaptures⟩ :=
              hcaptured.elim
            · exact alike_bind_enter _ (alike_pure (.inr rfl))
            · refine alike_bind_change
                (fun s s' hs => { hs with captures_eq := ?_, phase_eq := rfl })
                (alike_bind_state fun _ _ _ =>
                  alike_bind_log (alike_pure (.inr rfl)))
              rw [Content.map_mergeCaptures, Content.map_mergeCaptures,
                hs.captures_eq, hcaptures]

/-! ## Whatever the coordinator is told -/

theorem Steadfast.alike {m : Coordinating Outcome} (hm : Steadfast m) :
    Alike .consumer Veil.consumer.Outcomes m m := by
  obtain ⟨work, rfl, hwork⟩ := hm
  refine alike_bind_ask _ fun cancelled cancelled' hcancelled => ?_
  cases hcancelled.resolve_left nofun
  cases cancelled with
  | true => exact alike_pure (.inr rfl)
  | false => exact hwork .consumer

/-- What the consumer answers shows nowhere but in the log. -/
theorem serve_alike (settings : CoordinatorSettings) (made : HostCall) :
    Alike .consumer Veil.consumer.Outcomes (serve settings made)
      (serve settings made) := by
  cases made with
  | startCollecting context => exact startCollecting_alike settings context
  | finish context => exact (finish_steadfast context).alike
  | saveFailed context => exact (abandonFlush_steadfast context .failed).alike
  | saveCanceled context =>
      exact (abandonFlush_steadfast context .canceled).alike
  | transactionCommitting event =>
      exact (transactionCommitting_steadfast event).alike
  | transactionCommitted event =>
      exact (transactionCommitted_steadfast event).alike
  | transactionRolledBack event =>
      exact (discardBatch_steadfast event .rolledBack).alike
  | transactionFailed event =>
      exact (discardBatch_steadfast event .failed).alike
  | clearCaptures =>
      exact alike_bind_change (fun s s' hs => { hs with captures_eq := rfl })
        (alike_pure (.inr rfl))
  | clearBatch =>
      exact alike_bind_change (fun s s' hs => { hs with batch_eq := rfl })
        (alike_pure (.inr rfl))

end Coordinating
end AuditTrail
