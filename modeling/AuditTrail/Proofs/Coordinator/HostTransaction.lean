import AuditTrail.Proofs.Coordinator.Course

/-!
# Transactions that the host opens

A transaction of the host lasts for any number of flushes. Until it ends,
nothing is delivered and the batch is all that the flushes made of their
captures, in their order; `Waiting` is that invariant. The notice that ends it
empties the batch: into the consumer if the transaction was committed, into
nothing if it was not. After that there is nothing left that another notice
could deliver.
-/

namespace AuditTrail

open History

/-- Nothing is pending and nothing is owned. -/
structure CoordinatorState.Quiescent (s : CoordinatorState) : Prop where
  captures : s.captures = []
  batch : s.batch = []
  owned : s.owned = none
  commitInProgress : s.commitInProgress = false

/-- Whether a call of the host is about a flush, or about a commit that the
host is going to try. -/
def HostCall.flushes : HostCall → Bool
  | .startCollecting _ => true
  | .finish _ => true
  | .saveFailed _ => true
  | .saveCanceled _ => true
  | .transactionCommitting _ => true
  | _ => false

theorem HostCall.not_ending_of_flushes {made : HostCall}
    (flushes : made.flushes) :
    made.ending? = none := by
  cases made <;> first | rfl | cases flushes

/-- A turn of a flush that is made while a transaction is the current one. -/
structure Turn.Inside (tx : TransactionId) (t : Turn) : Prop where
  flushes : t.made.flushes
  admitted : t.Admitted
  current : ∀ current ∈ seen t.history, current = some tx

/-- Records wait for the end of a transaction that the coordinator has no part
in. -/
structure Waiting (tx : TransactionId) (records : List AuditRecord)
    (s : CoordinatorState) : Prop where
  owned : s.owned = none
  settled : s.settled ≠ some tx
  commitInProgress : s.commitInProgress = false
  batch : s.batch = records

/-- A turn of a flush delivers nothing and adds what it promotes to the
batch. -/
theorem Waiting.flush {settings : CoordinatorSettings} {tx : TransactionId}
    {records : List AuditRecord} {t : Turn}
    (waiting : Waiting tx records t.before)
    (taken : t.Taken settings Interlude.quiet) (inside : t.Inside tx) :
    deliveries t.history = [] ∧ Waiting tx (records ++ t.promoted) t.after ∧
      ∀ context, t.made = .finish context →
        t.promoted = promotions t.before.captures (keys t.history) := by
  obtain ⟨hflushes, hadmitted, hcurrent⟩ := inside
  obtain ⟨howned, hsettled, hidle, rfl⟩ := waiting
  have hkept : ∀ {s' : CoordinatorState}, t.promoted = [] →
      s'.owned = t.before.owned →
      s'.settled = t.before.settled →
        s'.commitInProgress = t.before.commitInProgress →
      s'.batch = t.before.batch →
        Waiting tx (t.before.batch ++ t.promoted) s' := by
    intro s' hnone ho hs hc hb
    refine ⟨ho.trans howned, fun h => hsettled (hs.symm.trans h),
      hc.trans hidle, ?_⟩
    rw [hb, hnone, List.append_nil]
  have course := taken.course
  obtain ⟨s, made, h, outcome, s'⟩ := t
  simp only at *
  cases course with
  | refused => cases hadmitted
  | busy _ hbusy => rw [hidle] at hbusy; cases hbusy
  | ignored hending | ended _ hending =>
      rw [HostCall.not_ending_of_flushes hflushes] at hending
      cases hending
  | collected phase transactionPhase captures hseen hcalls =>
      exact ⟨deliveries_of_calls hcalls, hkept rfl rfl rfl rfl rfl, nofun⟩
  | opened _ _ _ hseen | undone _ hseen | delivered hseen =>
      cases hcurrent none (hseen ▸ List.mem_cons_self)
  | batched transactionPhase hseen hother hcalls =>
      refine ⟨deliveries_of_calls hcalls, ⟨howned, hsettled, hidle, ?_⟩,
        fun _ _ => Turn.promoted_finish rfl hseen⟩
      rw [Turn.promoted_finish rfl hseen]
  | committed _ hown | failed _ _ hown | released _ _ hown =>
      rw [howned] at hown; cases hown
  | abandoned hmade _ hcalls =>
      have hother := HostCall.not_finish_of_abandoned hmade
      exact ⟨deliveries_of_calls hcalls,
        hkept (Turn.promoted_other hother) rfl rfl rfl rfl,
        fun context hfinish => absurd hfinish (hother context)⟩
  | announced hcalls =>
      refine ⟨?_, hkept rfl rfl rfl rfl rfl, nofun⟩
      rw [deliveries_of_calls hcalls, delivery?_announcing]
  | clearedCaptures | clearedBatch => cases hflushes

/-- So do the flushes of a session, one after the other. -/
theorem Waiting.flushes {settings : CoordinatorSettings} {tx : TransactionId}
    {ts : List Turn} {s s' : CoordinatorState}
    (session : Session settings Interlude.quiet s ts s') :
    ∀ {records : List AuditRecord}, Waiting tx records s →
      (∀ t ∈ ts, t.Inside tx) →
      deliveries (accountOf ts) = [] ∧
        Waiting tx (records ++ ts.flatMap Turn.promoted) s' ∧
        ∀ t ∈ ts, ∀ context, t.made = .finish context →
          t.promoted = promotions t.before.captures (keys t.history) := by
  induction session with
  | nil s =>
      intro records waiting _
      refine ⟨rfl, ?_, fun t ht => absurd ht List.not_mem_nil⟩
      rwa [List.flatMap_nil, List.append_nil]
  | cons t taken rest ih =>
      intro records waiting inside
      obtain ⟨hnone, hwaiting, hpromoted⟩ :=
        waiting.flush taken (inside t List.mem_cons_self)
      obtain ⟨hrest, hend, hlater⟩ :=
        ih hwaiting fun u hu => inside u (List.mem_cons_of_mem t hu)
      refine ⟨?_, ?_, List.forall_mem_cons.mpr ⟨hpromoted, hlater⟩⟩
      · rw [accountOf_cons, deliveries_append, Turn.deliveries_account, hnone,
          hrest]
        rfl
      · rwa [List.append_assoc] at hend

/-- The notice that ends the transaction empties the batch. -/
theorem Waiting.ending {settings : CoordinatorSettings} {tx : TransactionId}
    {records : List AuditRecord} {t : Turn} {event : TransactionEvent}
    {status : TransactionStatus} (waiting : Waiting tx records t.before)
    (taken : t.Taken settings Interlude.quiet) (admitted : t.Admitted)
    (hending : t.made.ending? = some (event, status))
    (hnamed : event.transaction = some tx) :
    deliveries t.history =
      (if status = .committed then slices records else []) ∧
      t.after.batch = [] := by
  obtain ⟨-, hsettled, hidle, rfl⟩ := waiting
  have course := taken.course
  obtain ⟨s, made, h, outcome, s'⟩ := t
  simp only at *
  cases course with
  | refused => cases admitted
  | busy _ hbusy => rw [hidle] at hbusy; cases hbusy
  | ignored hother hname hdone =>
      cases hending.symm.trans hother
      exact absurd hdone (by rwa [hnamed.symm.trans hname] at hsettled)
  | ended _ hother hopen hcalls =>
      cases hending.symm.trans hother
      refine ⟨?_, rfl⟩
      rw [deliveries_of_calls hcalls]
      split
      · rw [List.filterMap_append, delivery?_consuming]
        exact List.append_nil _
      · rfl
  | abandoned hmade | released _ hmade =>
      rw [HostCall.not_ending_of_abandoned hmade] at hending
      cases hending
  | _ => cases hending

/-- A notice that finds nothing batched delivers nothing. -/
theorem notice_delivers_nothing {settings : CoordinatorSettings} {t : Turn}
    (taken : t.Taken settings Interlude.quiet) (hempty : t.before.batch = [])
    (notice : t.made.ending?.isSome) :
    deliveries t.history = [] ∧ t.after.batch = [] := by
  have course := taken.course
  obtain ⟨s, made, h, outcome, s'⟩ := t
  simp only at *
  cases course with
  | refused | busy | ignored => exact ⟨rfl, hempty⟩
  | ended _ _ _ hcalls =>
      refine ⟨?_, rfl⟩
      rw [deliveries_of_calls hcalls, hempty]
      split <;> rfl
  | abandoned hmade | released _ hmade =>
      rw [HostCall.not_ending_of_abandoned hmade] at notice
      cases notice
  | _ => cases notice

/-- So do any number of notices. -/
theorem notices_deliver_nothing {settings : CoordinatorSettings}
    {us : List Turn} {s s' : CoordinatorState}
    (session : Session settings Interlude.quiet s us s') (hempty : s.batch = [])
    (notices : ∀ u ∈ us, u.made.ending?.isSome) :
    deliveries (accountOf us) = [] ∧ s'.batch = [] := by
  induction session with
  | nil s => exact ⟨rfl, hempty⟩
  | cons u taken rest ih =>
      obtain ⟨hnone, hbatch⟩ :=
        notice_delivers_nothing taken hempty (notices u List.mem_cons_self)
      obtain ⟨hrest, hend⟩ :=
        ih hbatch fun v hv => notices v (List.mem_cons_of_mem u hv)
      refine ⟨?_, hend⟩
      rw [accountOf_cons, deliveries_append, Turn.deliveries_account, hnone,
        hrest]
      rfl

/-! ## Whose transaction it is -/

theorem settleOwned_part {event : TransactionEvent} {s : CoordinatorState}
    {tx : TransactionId}
    (hend : (Coordinator.settleOwned event s).owned = some tx ∨
      (Coordinator.settleOwned event s).settled = some tx) :
    s.owned = some tx ∨ s.settled = some tx := by
  unfold Coordinator.settleOwned at hend
  split at hend
  · next owned _ howned _ =>
      split at hend
      · rcases hend with hend | hend
        · cases hend
        · exact .inl (howned.trans hend)
      · exact hend
  · exact hend

/-- A transaction that a turn leaves owned or settled was so before, or the
coordinator was given it when it asked for one. -/
theorem Turn.Taken.begun_of_part {settings : CoordinatorSettings} {t : Turn}
    (taken : t.Taken settings Interlude.quiet) {tx : TransactionId}
    (hend : t.after.owned = some tx ∨ t.after.settled = some tx) :
    (t.before.owned = some tx ∨ t.before.settled = some tx) ∨
      tx ∈ begun t.history := by
  have course := taken.course
  obtain ⟨s, made, h, outcome, s'⟩ := t
  simp only at *
  cases course with
  | opened _ _ _ _ _ howned =>
      rcases hend with hend | hend
      · exact (howned tx hend).imp_left .inl
      · exact .inl (.inr hend)
  | undone _ _ hbegun =>
      rcases hend with hend | hend
      · cases hend
      · cases hend
        exact .inr hbegun
  | committed _ howned | failed _ _ howned | released _ _ howned =>
      rcases hend with hend | hend
      · cases hend
      · exact .inl (.inl (howned.trans hend))
  | ended => exact .inl (settleOwned_part hend)
  | _ => exact .inl hend

/-- The coordinator only ever owns or settles transactions that it was given
when it asked for one, so the transaction of a host is never the one it settled
last. -/
theorem begun_of_part {settings : CoordinatorSettings} {ts : List Turn}
    {s s' : CoordinatorState}
    (session : Session settings Interlude.quiet s ts s') {tx : TransactionId}
    (hend : s'.owned = some tx ∨ s'.settled = some tx) :
    (s.owned = some tx ∨ s.settled = some tx) ∨ tx ∈ begun (accountOf ts) := by
  induction session with
  | nil s => exact .inl hend
  | cons t taken rest ih =>
      rw [accountOf_cons, begun_append, Turn.begun_account]
      rcases ih hend with hpart | hlater
      · exact (taken.begun_of_part hpart).imp_right (List.mem_append_left _)
      · exact .inr (List.mem_append_right _ hlater)

/-! ## The end of the transaction -/

/-- A transaction of the host is delivered when it is committed and not before.
Whatever is flushed while it is the current transaction, and however the
flushes end, nothing is delivered until the notice of its end. If it was
committed, the consumer is then handed, in one slice, the records of all
flushes that were finished, in their order, and not called if there are none.
If it was not committed, nothing is delivered. Either way the batch is empty
afterwards, and no further notice delivers anything. -/
theorem host_transaction_delivered_at_its_end {settings : CoordinatorSettings}
    {tx : TransactionId} {ts : List Turn} {s s' : CoordinatorState}
    (quiescent : s.Quiescent) (foreign : s.settled ≠ some tx)
    (session : Session settings Interlude.quiet s ts s')
    (inside : ∀ t ∈ ts, t.Inside tx) :
    deliveries (accountOf ts) = [] ∧
      (∀ t ∈ ts, ∀ context, t.made = .finish context →
        t.promoted = promotions t.before.captures (keys t.history)) ∧
      ∀ (t : Turn) (event : TransactionEvent) (status : TransactionStatus),
        t.before = s' → t.Taken settings Interlude.quiet → t.Admitted →
        t.made.ending? = some (event, status) → event.transaction = some tx →
        deliveries t.history =
            (if status = .committed then slices (ts.flatMap Turn.promoted)
              else []) ∧
          t.after.batch = [] ∧
          ∀ us s'', Session settings Interlude.quiet t.after us s'' →
            (∀ u ∈ us, u.made.ending?.isSome) →
            deliveries (accountOf us) = [] ∧ s''.batch = [] := by
  have start : Waiting tx [] s :=
    ⟨quiescent.owned, foreign, quiescent.commitInProgress, quiescent.batch⟩
  obtain ⟨hnone, waiting, hpromoted⟩ := start.flushes session inside
  refine ⟨hnone, hpromoted, ?_⟩
  rintro t event status rfl taken admitted hending hnamed
  obtain ⟨hdelivered, hempty⟩ := waiting.ending taken admitted hending hnamed
  refine ⟨hdelivered, hempty, fun us s'' notices hmade => ?_⟩
  exact notices_deliver_nothing notices hempty hmade

namespace Sample

/-- A flush in a transaction of its own. -/
def own : List (Option TransactionId × TrackedEntry × HostCall) :=
  [(none, order 1, .startCollecting "req"),
    (some (transaction 1), order 1, .finish "req")]

/-- Flushes in the transaction of the host: two are finished, one cannot be
captured, and one fails. -/
def inside : List (Option TransactionId × TrackedEntry × HostCall) :=
  List.map (Prod.mk (some (transaction 7)))
    [(order 2, .startCollecting "req"), (order 2, .finish "req"),
      (⟨⟨3⟩, "Order", .detached, []⟩, .startCollecting "req"),
      (order 3, .saveCanceled "req"),
      (order 4, .startCollecting "req"), (order 4, .saveFailed "req"),
      (order 5, .transactionCommitting (notice 7)),
      (order 5, .startCollecting "req"), (order 5, .finish "req")]

/-- The end of the transaction is told again and again. -/
def repeated : List (Option TransactionId × TrackedEntry × HostCall) :=
  List.map (fun made => (none, order 6, made))
    [.transactionCommitted (notice 7), .transactionRolledBack (notice 7),
      .transactionFailed (notice 7), .transactionCommitted (notice 7)]

end Sample

/-- Two of four flushes are delivered together at the commit, after another
transaction and before repeated notices. -/
theorem host_transaction_delivered_sample :
    let settings := Sample.settings true
    let past := turnsIn settings CoordinatorState.initial
      (Sample.quietly Sample.own)
    let s := endOf CoordinatorState.initial past
    let ts := turnsIn settings s (Sample.quietly Sample.inside)
    let t := Turn.inCompany settings
      (Sample.company none (Sample.order 6) Sample.undisturbed)
      (.transactionCommitted (Sample.notice 7)) (endOf s ts)
    let us := turnsIn settings t.after (Sample.quietly Sample.repeated)
    s.settled = some (Sample.transaction 1) ∧
      (ts.flatMap Turn.promoted).length = 2 ∧
      deliveries (accountOf ts) = [] ∧
        deliveries t.history = slices (ts.flatMap Turn.promoted) ∧
      t.after.batch = [] ∧ deliveries (accountOf us) = [] := by
  intro settings past s ts t us
  have hpast :=
    Sample.quietly_session settings Sample.own CoordinatorState.initial
  have foreign : s.settled ≠ some (Sample.transaction 7) := by
    intro hend
    rcases begun_of_part hpast (.inr hend) with (hpart | hpart) | hbegun
    · cases hpart
    · cases hpart
    · revert hbegun
      decide +kernel
  have inside : ∀ u ∈ ts, u.Inside (Sample.transaction 7) := by
    have hflushes : ∀ u ∈ ts, u.made.flushes := by decide +kernel
    have htoken : ∀ u ∈ ts, u.made.hasToken := by decide +kernel
    have hcurrent : ∀ u ∈ ts, ∀ current ∈ seen u.history,
        current = some (Sample.transaction 7) := by decide +kernel
    intro u hu
    refine ⟨hflushes u hu, ?_, hcurrent u hu⟩
    obtain ⟨play, hplay, s', rfl⟩ := mem_turnsIn hu
    obtain ⟨told, -, rfl⟩ := List.mem_map.mp hplay
    exact Turn.admitted_inCompany rfl (htoken _ hu) s'
  have hquiescent : s.Quiescent :=
    ⟨by decide +kernel, by decide +kernel, by decide +kernel, by decide +kernel⟩
  obtain ⟨hnone, -, hlast⟩ :=
    host_transaction_delivered_at_its_end hquiescent foreign
      (Sample.quietly_session settings Sample.inside s) inside
  have htaken : t.Taken settings Interlude.quiet :=
    Turn.taken_inCompany (Sample.undisturbed_within settings _ _ 0) _ _
  have hadmitted : t.Admitted := Turn.admitted_inCompany rfl rfl _
  have hmade : t.made = .transactionCommitted (Sample.notice 7) :=
    Turn.made_inCompany _ _ _ _
  have hending : t.made.ending? = some (Sample.notice 7, .committed) := by
    rw [hmade]
    rfl
  obtain ⟨hdelivered, hempty, hrepeated⟩ := hlast t (Sample.notice 7) .committed
    (Turn.before_inCompany _ _ _ _) htaken hadmitted hending rfl
  rw [if_pos rfl] at hdelivered
  have hquiet :=
    (hrepeated us _ (Sample.quietly_session settings Sample.repeated t.after)
      (by decide +kernel)).1
  exact ⟨by decide +kernel, by decide +kernel, hnone, hdelivered,
    hempty, hquiet⟩

end AuditTrail
