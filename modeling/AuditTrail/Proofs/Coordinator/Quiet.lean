import AuditTrail.Proofs.Coordinator.Calling

/-!
# Undisturbed turns

When nobody calls the coordinator while it calls others, a turn is a function
of the state and the answers. This file says which one, as far as the
transaction, the batch and the consumer are concerned: which collaborators are
called and in which order, and what is owned, settled and batched afterwards.

Each piece has one lemma, stated for the part of the history that is its own.
The lemmas about whole turns, one for each thing the host can say, are what
the rest of the theory reads; no proof outside this file opens the pieces
again. They speak of turns whose token is never seen cancelled and which do
not begin in the middle of a commit. In an undisturbed session no turn does.
-/

namespace AuditTrail

open Coordinating Coordinator History

/-! ## Where a transaction stands -/

/-- A transaction is there, or it is over. -/
inductive Standing where
  | live
  | over
  deriving DecidableEq

/-- Where the transaction stands according to a phase. -/
def TransactionPhase.standing? : TransactionPhase → Option Standing
  | .inactive => none
  | .opened | .committing => some .live
  | .committed | .rolledBack | .failed => some .over

theorem TransactionPhase.standing?_eq_live (phase : TransactionPhase) :
    phase.standing? = some .live ↔ phase = .opened ∨ phase = .committing := by
  cases phase <;> decide

namespace History

/-- The unit of work is seen to be in a transaction, or one is opened for it. -/
def finds (h : History) : Bool :=
  (seen h).any Option.isSome || !(begun h).isEmpty

theorem onlyCalls_nil : OnlyCalls [] := fun _ hx => absurd hx List.not_mem_nil

theorem onlyCalls_cons {x : Happening} {h : History} (hx : x.IsCall)
    (calls : OnlyCalls h) :
    OnlyCalls (x :: h) :=
  List.forall_mem_cons.mpr ⟨hx, calls⟩

theorem onlyCalls_call (made : Call) (answer : made.Answer) :
    OnlyCalls [.called made, .returned made answer] :=
  onlyCalls_cons trivial (onlyCalls_cons trivial onlyCalls_nil)

theorem OnlyCalls.append {h h' : History} (first : OnlyCalls h)
    (second : OnlyCalls h') :
    OnlyCalls (h ++ h') :=
  List.forall_mem_append.mpr ⟨first, second⟩

theorem OnlyCalls.filterMap_eq_nil {α : Type} {f : Happening → Option α}
    {h : History} (only : OnlyCalls h)
    (called : ∀ made, f (.called made) = none)
    (returned : ∀ made answer, f (.returned made answer) = none) :
    h.filterMap f = [] :=
  List.filterMap_eq_nil_iff.mpr fun x hx => by
    obtain ⟨made, rfl⟩ | ⟨made, answer, rfl⟩ := (only x hx).cases
    · exact called made
    · exact returned made answer

theorem OnlyCalls.seen_eq {h : History} (only : OnlyCalls h) : seen h = [] :=
  only.filterMap_eq_nil (fun _ => rfl) fun _ _ => rfl

theorem OnlyCalls.keys_eq {h : History} (only : OnlyCalls h) : keys h = [] :=
  only.filterMap_eq_nil (fun _ => rfl) fun _ _ => rfl

theorem OnlyCalls.readings_eq {h : History} (only : OnlyCalls h) :
    readings h = [] :=
  List.filter_eq_nil_iff.mpr fun x hx => by
    obtain ⟨_, rfl⟩ | ⟨_, _, rfl⟩ := (only x hx).cases <;>
      exact Bool.false_ne_true

end History

/-! ## The pieces -/

section Pieces

variable {s : CoordinatorState} {h : History}

theorem call_quiet {made : Call}
    {post : History → made.Answer → CoordinatorState → Prop}
    (hpost : ∀ answer,
      post (h ++ [.called made, .returned made answer]) answer s) :
    (call made s).Ensures Interlude.quiet post h := by
  rw [ensures_call]
  intro meanwhile found answer lasts
  obtain ⟨rfl, rfl⟩ := lasts
  exact hpost answer

/-- Undisturbed, a piece makes its calls and leaves the state alone. -/
theorem Calling.quiet {s' : CoordinatorState} {made : List Call} {q : History}
    (calling : Calling Interlude.quiet s made q s') :
    OnlyCalls q ∧ calls q = made ∧ s' = s := by
  induction calling with
  | nil => exact ⟨onlyCalls_nil, rfl, rfl⟩
  | cons lasting _ ih =>
      obtain ⟨_, ⟨rfl, rfl⟩, rfl⟩ := lasting
      obtain ⟨hq, hcalls, rfl⟩ := ih
      exact ⟨(onlyCalls_call _ _).append hq, congrArg (_ :: ·) hcalls, rfl⟩

theorem dispatch_quiet (records : List AuditRecord) (s : CoordinatorState)
    (h : History) :
    (dispatch records s).Ensures Interlude.quiet
      (fun h' _ s' => ∃ q, h' = h ++ q ∧ OnlyCalls q ∧
        calls q = consuming records ∧ s' = s) h :=
  (dispatch_calling records s h).mono fun _ _ _ ⟨q, hq, calling⟩ =>
    ⟨q, hq, calling.quiet⟩

theorem announce_quiet (records : List AuditRecord) (event : TransactionEvent)
    (s : CoordinatorState) (h : History) :
    (announce records event s).Ensures Interlude.quiet
      (fun h' _ s' => ∃ q, h' = h ++ q ∧ OnlyCalls q ∧
        calls q = announcing records event ∧
        s' = s) h :=
  (announce_calling records event s h).mono fun _ _ _ ⟨q, hq, calling⟩ =>
    ⟨q, hq, calling.quiet⟩

theorem report_quiet (event : TransactionEvent) (status : TransactionStatus)
    (s : CoordinatorState) (h : History) :
    (report event status s).Ensures Interlude.quiet
      (fun h' _ s' => ∃ q, h' = h ++ q ∧ OnlyCalls q ∧
        calls q = [.finished event status] ∧
        s' = s) h :=
  (report_calling event status s h).mono fun _ _ _ ⟨q, hq, calling⟩ =>
    ⟨q, hq, calling.quiet⟩

theorem releaseOwned_none (during : Interlude) (context : String)
    (howned : s.owned = none) :
    (releaseOwned context s).Ensures during (fun h' _ s' => h' = h ∧
      s' = s) h := by
  unfold releaseOwned
  rw [ensures_bind, ensures_state, howned]
  exact ⟨rfl, rfl⟩

theorem releaseOwned_quiet (context : String) {tx : TransactionId}
    (howned : s.owned = some tx) :
    (releaseOwned context s).Ensures Interlude.quiet
      (fun h' _ s' => ∃ q phase, h' = h ++ q ∧ OnlyCalls q ∧
        calls q = [.rollback tx, .finished ⟨context, some tx⟩ .rolledBack] ∧
        phase.standing? = some .over ∧
        s' = { s with owned := none, settled := some tx,
                      transactionPhase := phase, batch := [] })
      h := by
  unfold releaseOwned
  rw [ensures_bind, ensures_state, howned]
  simp only []
  rw [ensures_bind, ensures_change, ensures_bind]
  refine call_quiet fun answer => ?_
  cases answer with
  | ok _ | error _ =>
      refine (report_quiet _ _ _ _).mono ?_
      intro h' u s' hpost
      obtain ⟨q, rfl, hq, hcalls, rfl⟩ := hpost
      refine ⟨_ ++ q, _, List.append_assoc _ _ _,
        (onlyCalls_call _ _).append hq, ?_, rfl, rfl⟩
      rw [calls_append, hcalls]
      rfl

/-- What a commit of the owned transaction leaves behind, whichever way it
ends. -/
def CoordinatorState.settledAs (s : CoordinatorState) (tx : TransactionId)
    (phase : TransactionPhase) : CoordinatorState :=
  { s with commitInProgress := false, owned := none, settled := some tx,
           transactionPhase := phase, batch := [] }

/-- Whichever way the commit of the owned transaction ends, it is over then. -/
theorem commitOwned_over (context : String) {tx : TransactionId}
    (howned : s.owned = some tx) :
    (commitOwned context tx s).Ensures Interlude.quiet
      (fun _ _ s' => s'.transactionPhase.standing? = some .over) h := by
  have hover : ∀ {found : CoordinatorState} {phase : TransactionPhase},
      found.owned = some tx →
      phase.standing? = some .over →
      (found.commitOver phase).transactionPhase.standing? = some .over := by
    intro found phase hfound hphase
    simpa only [CoordinatorState.commitOver, hfound, Option.isSome_some,
      if_true] using hphase
  unfold commitOwned
  simp only []
  rw [ensures_bind, ensures_state, ensures_bind, ensures_change, ensures_bind]
  refine (announce_quiet _ _ _ _).mono ?_
  rintro h' u s₁ ⟨q₁, rfl, -, -, rfl⟩
  rw [ensures_bind]
  refine call_quiet fun answer => ?_
  cases answer with
  | ok u =>
      simp only []
      rw [ensures_bind, ensures_log, ensures_bind]
      refine (finishOwned_ends _ _ _).mono ?_
      rintro h' here s' ⟨rfl, hhere, rfl⟩
      rw [ensures_bind]
      refine (dispatch_quiet _ _ _).mono ?_
      rintro h' v s₂ ⟨q₂, rfl, -, -, rfl⟩
      refine (due_calling hhere).mono ?_
      rintro h' v s₃ ⟨q₃, rfl, reported⟩
      rw [reported.quiet.2.2]
      exact hover howned rfl
  | error e =>
      simp only []
      rw [ensures_bind, ensures_log, ensures_bind]
      refine call_quiet fun answer => ?_
      -- The answer to the rollback only decides in which way it is over.
      have hend : ∀ (phase : TransactionPhase) (h : History), phase.standing? =
          some .over →
          ((do
            let settledHere ← finishOwned phase
            if settledHere then
              report ⟨context, some tx⟩ .failed : Coordinating Unit)
            { s with commitInProgress := true, transactionPhase := .committing,
                     batch := [] }).Ensures Interlude.quiet
              (fun _ _ s' => s'.transactionPhase.standing? = some .over) h := by
        intro phase h hphase
        rw [ensures_bind]
        refine (finishOwned_ends _ _ _).mono ?_
        rintro h' here s' ⟨rfl, hhere, rfl⟩
        refine (due_calling hhere).mono ?_
        rintro h' v s₂ ⟨q₂, rfl, reported⟩
        rw [reported.quiet.2.2]
        exact hover howned hphase
      cases answer with
      | ok _ | error _ => exact hend _ _ rfl

theorem commitOwned_quiet (context : String) {tx : TransactionId}
    (howned : s.owned = some tx) :
    (commitOwned context tx s).Ensures Interlude.quiet
      (fun h' _ s' => ∃ q phase, h' = h ++ q ∧ OnlyCalls q ∧
        s' = s.settledAs tx phase ∧
        phase.standing? = some .over ∧
        ((phase = .committed ∧ tx ∈ committed q ∧
            calls q = announcing s.batch ⟨context, some tx⟩ ++ .commit tx ::
              (consuming s.batch ++
                [.finished ⟨context, some tx⟩ .committed])) ∨
          calls q = announcing s.batch ⟨context, some tx⟩ ++
              [.commit tx, .rollback tx, .finished ⟨context, some tx⟩ .failed]))
                h := by
  refine ((commitOwned_course context tx).and
    (commitOwned_over context howned)).mono ?_
  rintro h' u s' ⟨⟨ok, q, due, ended, q', rfl, commit, handedOn⟩, hphase⟩
  -- The transaction is still owned when the commit comes back.
  have hover : ∀ phase, CoordinatorState.commitOver
      { s with commitInProgress := true, transactionPhase := .committing,
               batch := [] } phase = s.settledAs tx phase := by
    intro phase
    simp only [CoordinatorState.commitOver, CoordinatorState.settledAs, howned,
      Option.some_or, Option.isSome_some, if_true]
  have hdue : ∀ status, CoordinatorState.dueReport
      { s with commitInProgress := true, transactionPhase := .committing,
               batch := [] }
      ⟨context, some tx⟩ status = [.finished ⟨context, some tx⟩ status] := by
    intro status
    simp only [CoordinatorState.dueReport, howned, Option.isSome_some, if_true]
  obtain ⟨hq', hhanded, rfl⟩ := handedOn.quiet
  cases commit with
  | succeeded announced lasting =>
      obtain ⟨hq₁, hannounced, rfl⟩ := announced.quiet
      obtain ⟨_, ⟨rfl, rfl⟩, rfl⟩ := lasting
      refine ⟨_, .committed, rfl, (hq₁.append (onlyCalls_call _ _)).append hq',
        hover _, rfl, .inl ⟨rfl, ?_, ?_⟩⟩
      · rw [committed_append, committed_append]
        exact List.mem_append_left _
          (List.mem_append_right _ List.mem_cons_self)
      · rw [calls_append, calls_append, hannounced, hhanded, hdue,
          List.append_assoc]
        rfl
  | failed phase announced lasting undone =>
      obtain ⟨hq₁, hannounced, rfl⟩ := announced.quiet
      obtain ⟨_, ⟨rfl, rfl⟩, rfl⟩ := lasting
      obtain ⟨_, ⟨rfl, rfl⟩, rfl⟩ := undone
      rw [hover] at hphase
      refine ⟨_, _, rfl, (hq₁.append ((onlyCalls_call _ _).append
        (onlyCalls_call _ _))).append hq', hover _, hphase, .inr ?_⟩
      rw [calls_append, calls_append, calls_append, hannounced, hhanded, hdue,
        List.append_assoc]
      rfl

theorem deliverNow_quiet (context : String) (records : List AuditRecord)
    (s : CoordinatorState) (h : History) :
    (deliverNow context records s).Ensures Interlude.quiet
      (fun h' _ s' => ∃ q, h' = h ++ q ∧ OnlyCalls q ∧
        calls q = consuming records ∧
        s' = { s with phase := .immediateDispatch, batch := [] }) h := by
  unfold deliverNow
  rw [ensures_bind, ensures_state, ensures_bind, ensures_change]
  simp only []
  split <;> exact dispatch_quiet records _ h

/-- The state in which records have joined the batch. -/
def CoordinatorState.joinedBy (s : CoordinatorState)
    (records : List AuditRecord) : CoordinatorState :=
  { s with
    phase := .batching
    batch := s.batch ++ records
    transactionPhase :=
      if s.transactionPhase = .inactive then .opened else s.transactionPhase }

/-- Records that join the batch only show that a transaction is there if none
was heard of before. -/
theorem standing?_joinedBy (s : CoordinatorState) (records : List AuditRecord) :
    (s.joinedBy records).transactionPhase.standing? =
      s.transactionPhase.standing?.or (some .live) := by
  unfold CoordinatorState.joinedBy
  cases s.transactionPhase <;> rfl

theorem joinBatch_other (during : Interlude) (context : String)
    {tx : TransactionId} (records : List AuditRecord)
    (hother : s.owned ≠ some tx) :
    (joinBatch context tx records s).Ensures during
      (fun h' _ s' => h' = h ∧ s' = s.joinedBy records) h := by
  unfold joinBatch
  rw [ensures_bind, ensures_change, ensures_bind, ensures_state, ensures_bind,
    ensures_log, if_neg hother]
  exact ⟨rfl, rfl⟩

theorem joinBatch_owned {during : Interlude} (context : String)
    {tx : TransactionId} (records : List AuditRecord)
    (howned : s.owned = some tx)
    {post : History → Unit → CoordinatorState → Prop}
    (hcommit : (commitOwned context tx (s.joinedBy records)).Ensures
      during post h) :
    (joinBatch context tx records s).Ensures during post h := by
  unfold joinBatch
  rw [ensures_bind, ensures_change, ensures_bind, ensures_state, ensures_bind,
    ensures_log, if_pos howned]
  exact hcommit

end Pieces
end AuditTrail
