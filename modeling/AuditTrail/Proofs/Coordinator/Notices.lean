import AuditTrail.Proofs.Coordinator.Accounting
import AuditTrail.Proofs.Coordinator.Course

/-!
# What a notice does to the batch

A record in the batch does not say which transaction it belongs to. A notice
that a transaction has ended is compared with the transaction that the
coordinator settled last, and with nothing else that would keep it from the
batch. So there are two cases only: a notice about the transaction settled
last is ignored, and any other takes the whole batch away, whoever's records
are in it. Nothing is assumed of what collaborators do meanwhile.
-/

namespace AuditTrail

open Coordinating Coordinator History

/-- None of the records that were batched before a turn are delivered in it,
and the batch is the same afterwards. -/
def Turn.SparesBatch (t : Turn) : Prop :=
  (∀ r ∈ t.before.batch, r ∉ delivered t.history) ∧
    t.after.batch = t.before.batch

section Pieces

variable {during : Interlude} {s : CoordinatorState} {h : History}

/-- A notice about the transaction that was settled last changes nothing. -/
theorem serve_ignores (settings : CoordinatorSettings) {made : HostCall}
    {event : TransactionEvent} {status : TransactionStatus} {tx : TransactionId}
    (hending : made.ending? = some (event, status))
    (hnamed : event.transaction = some tx) (hsettled : s.settled = some tx) :
    (serve settings made s).Ensures during (fun h' _ s' => deliveries h' = [] ∧
      s' = s) [] := by
  cases made with
  | transactionCommitted | transactionRolledBack | transactionFailed =>
      cases hending
      exact ensures_notice ⟨rfl, rfl⟩ (fun _ _ _ => ⟨rfl, rfl⟩)
        fun hopen => absurd hsettled (hopen tx hnamed)
  | _ => cases hending

/-- Records are delivered before anything else can happen. -/
theorem dispatch_takes {records : List AuditRecord} (hne : records ≠ []) :
    (dispatch records s).Ensures during
      (fun h' _ _ => records ∈ deliveries h') h := by
  have hsome : records.isEmpty = false :=
    Bool.eq_false_iff.mpr fun hempty => hne (List.isEmpty_iff.mp hempty)
  unfold dispatch
  simp only [hsome, Bool.false_eq_true, if_false]
  rw [ensures_bind, ensures_call]
  intro meanwhile found answer _
  refine (Exchange.ensures_grows _ _).mono ?_
  intro _ u s' hpost
  obtain ⟨later, rfl⟩ := hpost
  rw [deliveries_append, deliveries_append]
  exact List.mem_append_left _ (List.mem_append_right _ List.mem_cons_self)

/-- A notice of a commit delivers the batch, unless it is refused or ignored. -/
theorem transactionCommitted_takes {event : TransactionEvent}
    (hopen : ∀ tx, event.transaction = some tx → s.settled ≠ some tx)
    (hbatch : s.batch ≠ []) :
    (transactionCommitted event s).Ensures during
      (fun h' _ _ => h' = [.asked .isCancelled true] ∨
        s.batch ∈ deliveries h') [] := by
  unfold transactionCommitted
  refine ensures_notice (.inl rfl)
    (fun tx hnamed hsettled => absurd hsettled (hopen tx hnamed)) fun _ => ?_
  rw [ensures_bind, ensures_state, ensures_bind, ensures_change, ensures_bind]
  refine (dispatch_takes hbatch).mono fun h' u s' hdelivered => ?_
  refine (Exchange.ensures_grows _ h').mono ?_
  intro _ outcome after hpost
  obtain ⟨later, rfl⟩ := hpost
  rw [deliveries_append]
  exact .inr (List.mem_append_left _ hdelivered)

end Pieces

/-- A notice about another transaction than the one settled last takes the
batch away. -/
theorem notice_takes_batch {settings : CoordinatorSettings} {during : Interlude}
    (hd : during.Accounts) {h : History} {t : Turn} {event : TransactionEvent}
    {status : TransactionStatus} (acc : Accounted [] h t.before)
    (taken : t.Taken settings during) (fresh : (issued (h ++ t.account)).Nodup)
    (admitted : t.Admitted) (hending : t.made.ending? = some (event, status))
    (hopen : ∀ tx, event.transaction = some tx → t.before.settled ≠ some tx)
    (hbatch : t.before.batch ≠ []) :
    (status = .committed → t.before.batch ∈ deliveries t.history) ∧
      ∀ r ∈ t.before.batch, r ∉ t.after.batch := by
  have hgoes : t.history ≠ [.asked .isCancelled true] := by
    intro hrefused
    rw [Turn.Admitted, hrefused] at admitted
    cases admitted
  have hend := taken.accounts hd acc
  have hentered := acc.extend [.entered t.made t.before] rfl rfl
  obtain ⟨s, made, g, outcome, s'⟩ := t
  simp only at *
  cases made with
  | transactionCommitted other =>
      cases hending
      rcases taken.ensured (transactionCommitted_takes hopen hbatch) with
        hrefused | hdelivered
      · exact absurd hrefused hgoes
      · refine ⟨fun _ => hdelivered, fun r hr hkept => ?_⟩
        refine hend.not_batched fresh (.inr ?_) (List.mem_map_of_mem hkept)
        refine List.mem_map_of_mem (List.mem_flatten.mpr ⟨s.batch, ?_, hr⟩)
        rw [deliveries_append, Turn.deliveries_account]
        exact List.mem_append_right _ hdelivered
  | transactionRolledBack other | transactionFailed other =>
      cases hending
      rcases taken.ensured (discardBatch_drops hd _ _ hentered) with
        ⟨-, hrefused | ⟨tx, hnamed, hsettled⟩⟩ | hacc
      · exact absurd (List.append_cancel_left hrefused) hgoes
      · exact absurd hsettled (hopen tx hnamed)
      · refine ⟨nofun, fun r hr hkept => ?_⟩
        refine hacc.not_batched ?_ (.inl ?_) (List.mem_map_of_mem hkept)
        · rw [issued_append, Turn.issued_account] at fresh
          rw [issued_append, issued_append]
          exact (List.append_nil (issued h)).symm ▸ fresh
        · exact List.mem_append_left _ (List.mem_map_of_mem hr)
  | _ => cases hending

/-- A notice spares the batch exactly if it is about the transaction that the
coordinator settled last. Any other notice takes the whole batch, whichever
transaction its records belong to: a commit delivers it in one slice, and
whatever the notice says, none of the records is still batched afterwards. -/
theorem notice_spares_batch_iff {settings : CoordinatorSettings} {depth : Nat}
    {past : List Turn} {t : Turn} {event : TransactionEvent}
    {status : TransactionStatus} {tx : TransactionId}
    (session : Session settings (Interlude.nested settings depth)
      CoordinatorState.initial past
      t.before)
    (taken : t.Taken settings (Interlude.nested settings depth))
    (fresh : (issued (accountOf past ++ t.account)).Nodup)
    (admitted : t.Admitted) (hending : t.made.ending? = some (event, status))
    (hnamed : event.transaction = some tx) (hbatch : t.before.batch ≠ []) :
    (t.SparesBatch ↔ t.before.settled = some tx) ∧
      (t.before.settled ≠ some tx →
        (status = .committed → t.before.batch ∈ deliveries t.history) ∧
          ∀ r ∈ t.before.batch, r ∉ t.after.batch) := by
  have hd := Interlude.nested_accounts settings depth
  have acc := session.accounts hd accounted_initial
  rw [List.nil_append] at acc
  have htakes : t.before.settled ≠ some tx →
      (status = .committed → t.before.batch ∈ deliveries t.history) ∧
        ∀ r ∈ t.before.batch, r ∉ t.after.batch := by
    intro hother
    refine notice_takes_batch hd acc taken fresh admitted hending
      (fun named hevent => ?_) hbatch
    rwa [← hevent, hnamed]
  refine ⟨⟨fun hspares => ?_, fun hsettled => ?_⟩, htakes⟩
  · by_contra hother
    obtain ⟨r, hr⟩ := List.exists_mem_of_ne_nil _ hbatch
    refine (htakes hother).2 r hr ?_
    rwa [hspares.2]
  · obtain ⟨hnone, hsame⟩ :=
      taken.ensured (serve_ignores settings hending hnamed hsettled)
    rw [List.nil_append] at hnone
    refine ⟨fun r _ hdelivered => ?_, by rw [hsame]⟩
    rw [delivered, hnone] at hdelivered
    cases hdelivered

namespace Sample

/-- A flush in the first transaction, its end, and a flush in the second. -/
def secondOpen (own : Bool) :
    List (Option TransactionId × TrackedEntry × HostCall) :=
  [(if own then none else some (transaction 1), order 1,
      .startCollecting "req"),
    (some (transaction 1), order 1, .finish "req"),
    (none, order 1, .transactionCommitted (notice 1)),
    (some (transaction 2), order 2, .startCollecting "req"),
    (some (transaction 2), order 2, .finish "req")]

/-- The commit of the first transaction is reported late. -/
def lateNotice (own : Bool) (s : CoordinatorState) : Turn :=
  Turn.inCompany (settings own)
    (company (some (transaction 2)) (order 2) undisturbed)
    (.transactionCommitted (notice 1)) s

end Sample

/-- If the first transaction was the coordinator's own, the late notice leaves
the record of the second one where it is. -/
theorem notice_spares_batch_own :
    let past := turnsIn (Sample.settings true) CoordinatorState.initial
      (Sample.quietly (Sample.secondOpen true))
    let t := Sample.lateNotice true (endOf CoordinatorState.initial past)
    t.before.batch.length = 1 ∧ t.before.settled = some (Sample.transaction 1) ∧
      t.SparesBatch := by
  intro past t
  have hbatch : t.before.batch.length = 1 := by decide +kernel
  have hsettled : t.before.settled = some (Sample.transaction 1) := by
    decide +kernel
  have hsession : Session (Sample.settings true)
      (Interlude.nested (Sample.settings true) 0)
      CoordinatorState.initial past t.before :=
        Sample.quietly_session _ (Sample.secondOpen true) _
  have htaken : t.Taken (Sample.settings true)
      (Interlude.nested (Sample.settings true) 0) :=
    Turn.taken_inCompany (Sample.undisturbed_within _ _ _ 0) _ _
  have hadmitted : t.Admitted := Turn.admitted_inCompany rfl rfl _
  have hne : t.before.batch ≠ [] :=
    fun hempty => by rw [hempty] at hbatch; cases hbatch
  have hmade : t.made = .transactionCommitted (Sample.notice 1) :=
    Turn.made_inCompany _ _ _ _
  have hending : t.made.ending? = some (Sample.notice 1, .committed) := by
    rw [hmade]
    rfl
  have hspares :=
    notice_spares_batch_iff hsession htaken (by decide +kernel) hadmitted
      hending rfl hne
  exact ⟨hbatch, hsettled, hspares.1.mpr hsettled⟩

/-- If it was the host's, the late notice delivers the record of the second
transaction, which is still open. -/
theorem late_notice_delivers_open_transaction :
    let past := turnsIn (Sample.settings false) CoordinatorState.initial
      (Sample.quietly (Sample.secondOpen false))
    let t := Sample.lateNotice false (endOf CoordinatorState.initial past)
    Session (Sample.settings false) Interlude.quiet CoordinatorState.initial
      past t.before ∧
      t.Taken (Sample.settings false) Interlude.quiet ∧ t.Admitted ∧
      t.made = .transactionCommitted (Sample.notice 1) ∧
      (past.filter fun u => !u.promoted.isEmpty).map Turn.current =
        [some (Sample.transaction 1), some (Sample.transaction 2)] ∧
      idsOf t.before.batch = idsOf ((past.getLast?.map Turn.promoted).getD []) ∧
      idsOf (delivered t.history) = idsOf t.before.batch ∧ ¬ t.SparesBatch := by
  intro past t
  have hgone : t.before.batch.length ≠ t.after.batch.length := by decide +kernel
  refine ⟨Sample.quietly_session _ (Sample.secondOpen false) _,
    Turn.taken_inCompany
      (Sample.undisturbed_within (Sample.settings false) _ _ 0) _ _,
    Turn.admitted_inCompany rfl rfl _, Turn.made_inCompany _ _ _ _,
    by decide +kernel,
    by decide +kernel, by decide +kernel, fun hspares => hgone ?_⟩
  rw [hspares.2]

end AuditTrail
