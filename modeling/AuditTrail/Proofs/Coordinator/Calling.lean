import AuditTrail.Proofs.Coordinator.Capture

/-!
# The calls of a piece

While a call lasts the coordinator may be called again, so the history of a
piece has the histories of others in it, and cannot be told from them by
looking for calls. `Calling` keeps them apart: it lists the calls that a piece
makes itself, one after the other, each in the state that is found when the
one before it has come back, and leaves what happens in between to the
interlude.

The pieces that deliver, announce and report make at most one call each and do
nothing else. The commit of the owned transaction is put together from them,
and `OwnCommit` says how. What it is going to deliver it takes from the state
before it calls anybody, so nobody can add to it or clear it, and when the
commit has come back it owns nothing any more, whoever has settled the
transaction meanwhile.
-/

namespace AuditTrail

open Coordinating Coordinator History

/-- The slices that are handed on of a list of records: the list, or nothing
if it is empty. -/
def slices (records : List AuditRecord) : List (List AuditRecord) :=
  if records.isEmpty then [] else [records]

theorem flatten_slices (records : List AuditRecord) :
    (slices records).flatten = records := by
  unfold slices
  split
  · next hempty => rw [List.isEmpty_iff.mp hempty]; rfl
  · exact List.append_nil records

theorem slices_of_ne {records : List AuditRecord} (hne : records ≠ []) :
    slices records = [records] :=
  if_neg fun hempty => hne (List.isEmpty_iff.mp hempty)

/-- The calls that deliver records. -/
def consuming (records : List AuditRecord) : List Call :=
  (slices records).map Call.consume

/-- The calls that announce records. -/
def announcing (records : List AuditRecord) (event : TransactionEvent) :
    List Call :=
  (slices records).map fun slice => .preCommit slice event

theorem deliveries_of_calls {h : History} {made : List Call}
    (hcalls : calls h = made) :
    deliveries h = made.filterMap Call.delivery? := by rw [deliveries, hcalls]

@[simp] theorem delivery?_consuming (records : List AuditRecord) :
    (consuming records).filterMap Call.delivery? = slices records := by
  unfold consuming slices
  split <;> rfl

@[simp] theorem delivery?_announcing (records : List AuditRecord)
    (event : TransactionEvent) :
    (announcing records event).filterMap Call.delivery? = [] := by
  unfold announcing slices
  split <;> rfl

/-- A call that comes back with an answer, with what happens while it lasts. -/
def Lasting (during : Interlude) (s : CoordinatorState) (made : Call)
    (answer : made.Answer) (h : History) (found : CoordinatorState) : Prop :=
  ∃ meanwhile, during s meanwhile found ∧
    h = .called made :: (meanwhile ++ [.returned made answer])

/-- Calls that are made one after the other, and what happens while they
last. -/
inductive Calling (during : Interlude) :
    CoordinatorState → List Call → History → CoordinatorState → Prop where
  | nil (s : CoordinatorState) : Calling during s [] [] s
  | cons {s found s' : CoordinatorState} {made : Call} {answer : made.Answer}
      {made' : List Call} {h h' : History}
      (first : Lasting during s made answer h found)
      (rest : Calling during found made' h' s') :
      Calling during s (made :: made') (h ++ h') s'

namespace Calling

variable {during : Interlude} {s s' s'' : CoordinatorState}
  {made made' : List Call} {h h' : History}

theorem single {call : Call} {answer : call.Answer}
    (lasting : Lasting during s call answer h s') :
    Calling during s [call] h s' := by
  have := cons lasting (nil s')
  rwa [List.append_nil] at this

theorem append (first : Calling during s made h s')
    (second : Calling during s' made' h' s'') :
    Calling during s (made ++ made') (h ++ h') s'' := by
  induction first with
  | nil => exact second
  | cons lasting _ ih =>
      rw [List.append_assoc]
      exact .cons lasting (ih second)

end Calling

/-! ## The pieces -/

section Pieces

variable {during : Interlude} {s : CoordinatorState} {h : History}

theorem call_lasting (made : Call) (s : CoordinatorState) (h : History) :
    (call made s).Ensures during
      (fun h' answer s' => ∃ q, h' = h ++ q ∧
        Lasting during s made answer q s') h := by
  rw [ensures_call]
  intro meanwhile found answer lasts
  exact ⟨_, rfl, meanwhile, lasts, rfl⟩

theorem dispatch_calling (records : List AuditRecord) (s : CoordinatorState)
    (h : History) :
    (dispatch records s).Ensures during
      (fun h' _ s' => ∃ q, h' = h ++ q ∧
        Calling during s (consuming records) q s') h := by
  unfold dispatch consuming slices
  split
  · exact ⟨[], (List.append_nil h).symm, .nil s⟩
  · rw [ensures_bind]
    refine (call_lasting _ s h).mono ?_
    rintro h' answer s' ⟨q, rfl, lasting⟩
    cases answer <;> exact ⟨q, rfl, .single lasting⟩

theorem announce_calling (records : List AuditRecord) (event : TransactionEvent)
    (s : CoordinatorState) (h : History) :
    (announce records event s).Ensures during
      (fun h' _ s' => ∃ q, h' = h ++ q ∧
        Calling during s (announcing records event) q s') h := by
  unfold announce announcing slices
  split
  · exact ⟨[], (List.append_nil h).symm, .nil s⟩
  · rw [ensures_bind]
    refine (call_lasting _ s h).mono ?_
    rintro h' answer s' ⟨q, rfl, lasting⟩
    cases answer <;> exact ⟨q, rfl, .single lasting⟩

theorem report_calling (event : TransactionEvent) (status : TransactionStatus)
    (s : CoordinatorState) (h : History) :
    (report event status s).Ensures during
      (fun h' _ s' => ∃ q, h' = h ++ q ∧
        Calling during s [.finished event status] q s') h := by
  unfold report
  rw [ensures_bind]
  refine (call_lasting _ s h).mono ?_
  rintro h' answer s' ⟨q, rfl, lasting⟩
  cases answer <;> exact ⟨q, rfl, .single lasting⟩

end Pieces

/-! ## The commit of the owned transaction -/

/-- The state in which a commit is over. Nothing is owned any more, and what was
still owned is settled. -/
def CoordinatorState.commitOver (s : CoordinatorState)
    (phase : TransactionPhase) : CoordinatorState :=
  { s with commitInProgress := false, owned := none,
           settled := s.owned.or s.settled,
           transactionPhase :=
             if s.owned.isSome then phase else s.transactionPhase }

/-- The report that is due at the end of a commit, unless somebody else has
settled the transaction meanwhile. -/
def CoordinatorState.dueReport (s : CoordinatorState) (event : TransactionEvent)
    (status : TransactionStatus) : List Call :=
  if s.owned.isSome then [.finished event status] else []

/-- The commit of the owned transaction with a batch, from the state in which
it is marked to the one in which it is over, and the calls that are then still
due. The batch is announced. If then the transaction is committed the batch is
to be delivered, and if not, the transaction is rolled back. -/
inductive OwnCommit (during : Interlude) (event : TransactionEvent)
    (tx : TransactionId) (batch : List AuditRecord) (s : CoordinatorState) :
    Bool → History → List Call → CoordinatorState → Prop where
  | succeeded {h₁ h₂ : History} {s₁ found : CoordinatorState}
      (announced : Calling during s (announcing batch event) h₁ s₁)
      (lasting : Lasting during s₁ (.commit tx) (.ok ()) h₂ found) :
      OwnCommit during event tx batch s true (h₁ ++ h₂)
        (consuming batch ++ found.dueReport event .committed)
        (found.commitOver .committed)
  | failed {h₁ h₂ h₃ : History} {s₁ s₂ found : CoordinatorState}
      {e : AuditError} {answer : Except AuditError Unit}
      (phase : TransactionPhase)
      (announced : Calling during s (announcing batch event) h₁ s₁)
      (lasting : Lasting during s₁ (.commit tx) (.error e) h₂ s₂)
      (undone : Lasting during s₂ (.rollback tx) answer h₃ found) :
      OwnCommit during event tx batch s false (h₁ ++ (h₂ ++ h₃))
        (found.dueReport event .failed) (found.commitOver phase)

section Commits

variable {during : Interlude} {s : CoordinatorState} {h : History}

theorem finishOwned_ends (phase : TransactionPhase) (s : CoordinatorState)
    (h : History) :
    (finishOwned phase s).Ensures during
      (fun h' here s' => h' = h ∧ here = s.owned.isSome ∧
        s' = s.commitOver phase) h := by
  unfold finishOwned
  rw [ensures_bind, ensures_state]
  obtain ⟨_, _, owned, _, _, _, _⟩ := s
  cases owned <;> exact ⟨rfl, rfl, rfl⟩

theorem due_calling {event : TransactionEvent} {status : TransactionStatus}
    {found : CoordinatorState} {here : Bool}
    (hhere : here = found.owned.isSome) :
    ((if here then report event status else pure () : Coordinating Unit)
      s).Ensures during
      (fun h' _ s' => ∃ q, h' = h ++ q ∧
        Calling during s (found.dueReport event status) q s')
      h := by
  rw [hhere, CoordinatorState.dueReport]
  split
  · exact report_calling _ _ _ _
  · exact ⟨[], (List.append_nil h).symm, .nil s⟩

theorem commitOwned_course (context : String) (tx : TransactionId) :
    (commitOwned context tx s).Ensures during
      (fun h' _ s' => ∃ ok q due ended q', h' = h ++ (q ++ q') ∧
        OwnCommit during ⟨context, some tx⟩ tx s.batch
          { s with commitInProgress := true, transactionPhase := .committing,
                   batch := [] }
          ok q due ended ∧
        Calling during ended due q' s') h := by
  unfold commitOwned
  simp only []
  rw [ensures_bind, ensures_state, ensures_bind, ensures_change, ensures_bind]
  refine (announce_calling _ _ _ _).mono ?_
  rintro h' u s₁ ⟨q₁, rfl, announced⟩
  rw [ensures_bind]
  refine (call_lasting _ s₁ _).mono ?_
  rintro h' answer s₂ ⟨q₂, rfl, lasting⟩
  cases answer with
  | ok u =>
      simp only []
      rw [ensures_bind, ensures_log, ensures_bind]
      refine (finishOwned_ends _ _ _).mono ?_
      rintro h' here s' ⟨rfl, hhere, rfl⟩
      rw [ensures_bind]
      refine (dispatch_calling _ _ _).mono ?_
      rintro h' v s₃ ⟨q₃, rfl, consumed⟩
      refine (due_calling hhere).mono ?_
      rintro h' v s₄ ⟨q₄, rfl, reported⟩
      exact ⟨true, q₁ ++ q₂, _, _, q₃ ++ q₄, by simp only [List.append_assoc],
        .succeeded announced lasting, consumed.append reported⟩
  | error e =>
      simp only []
      rw [ensures_bind, ensures_log, ensures_bind]
      refine (call_lasting _ s₂ _).mono ?_
      rintro h' answer s₃ ⟨q₃, rfl, undone⟩
      -- The answer to the rollback only decides the phase.
      have hend : ∀ phase, ((do
          let settledHere ← finishOwned phase
          if settledHere then
            report ⟨context, some tx⟩ .failed : Coordinating Unit)
            s₃).Ensures during
          (fun h' _ s' => ∃ ok q due ended q', h' = h ++ (q ++ q') ∧
            OwnCommit during ⟨context, some tx⟩ tx s.batch
              { s with commitInProgress := true,
                       transactionPhase := .committing, batch := [] }
              ok q due ended ∧
            Calling during ended due q' s') (h ++ q₁ ++ q₂ ++ q₃) := by
        intro phase
        rw [ensures_bind]
        refine (finishOwned_ends _ _ _).mono ?_
        rintro h' here s' ⟨rfl, hhere, rfl⟩
        refine (due_calling hhere).mono ?_
        rintro h' v s₄ ⟨q₄, rfl, reported⟩
        exact ⟨false, q₁ ++ (q₂ ++ q₃), _, _, q₄,
          by simp only [List.append_assoc],
          .failed phase announced lasting undone, reported⟩
      cases answer with
      | ok _ | error _ => exact hend _

end Commits

/-! ## Notices of the host -/

section Notices

variable {during : Interlude} {s : CoordinatorState} {event : TransactionEvent}

/-- The batch is taken out of the state while it is announced, and put back in
front of what is found there afterwards. -/
theorem transactionCommitting_announces (hidle : s.commitInProgress = false) :
    (transactionCommitting event s).Ensures during
      (fun h _ s' => h.head? = some (.asked .isCancelled false) →
        ∃ q cancelled found,
        h = .asked .isCancelled false ::
          (q ++ [.asked .isCancelled cancelled]) ∧
          Calling during { s with transactionPhase := .committing, batch := [] }
            (announcing s.batch event) q found ∧
          s' = { found with batch := s.batch ++ found.batch }) [] := by
  unfold transactionCommitting
  refine ensures_unlessCancelled (fun hadmitted => by cases hadmitted) ?_
  rw [ensures_bind, ensures_state, if_neg (by simp [hidle]), ensures_bind,
    ensures_change, ensures_bind]
  refine (announce_calling _ _ _ _).mono ?_
  rintro h u found ⟨q, rfl, announced⟩
  rw [ensures_bind, ensures_change]
  exact checkCancelled_ensures fun cancelled _ _ =>
    ⟨q, cancelled, found, rfl, announced, rfl⟩

/-- The batch is taken out of the state before it is delivered. -/
theorem transactionCommitted_delivers
    (hopen : ∀ tx, event.transaction = some tx → s.settled ≠ some tx) :
    (transactionCommitted event s).Ensures during
      (fun h _ s' => h.head? = some (.asked .isCancelled false) → ∃ q cancelled,
        h = .asked .isCancelled false ::
          (q ++ [.asked .isCancelled cancelled]) ∧
          Calling during { settleOwned event s with
            transactionPhase := .committed, batch := [] }
            (consuming s.batch ++ [.finished event .committed]) q s') [] := by
  unfold transactionCommitted
  refine ensures_notice (fun hadmitted => by cases hadmitted)
    (fun tx hnamed hsettled => absurd hsettled (hopen tx hnamed)) fun _ => ?_
  rw [ensures_bind, ensures_state, ensures_bind, ensures_change, ensures_bind]
  refine (dispatch_calling _ _ _).mono ?_
  rintro h u s₁ ⟨q₁, rfl, consumed⟩
  rw [ensures_bind]
  refine (report_calling _ _ _ _).mono ?_
  rintro h u s₂ ⟨q₂, rfl, reported⟩
  exact checkCancelled_ensures fun cancelled _ _ =>
    ⟨q₁ ++ q₂, cancelled, by simp, consumed.append reported⟩

end Notices
end AuditTrail
