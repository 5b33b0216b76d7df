import AuditTrail.Proofs.Coordinator.Custody

/-!
# What a rollback drops

A notice that a transaction was rolled back, or failed, acts on what it finds
in the batch. It drops it for good (`rolled_back_not_delivered`), however the
notice is nested in the calls of the coordinator and whatever follows. The
argument is one of custody: what is found in the batch is found nowhere else,
so that when the batch is empty it can only come back by being issued anew.

What a notice does not find in the batch it cannot drop. While records are
being announced for the host they are in the hands of the turn that announces
them, and afterwards they are put back into the batch. A rollback that is
reported at this moment does not reach them, and the next commit delivers
them. The records of a transaction of the coordinator's own are kept back in
the same way until its commit comes back, but then they are delivered or
dropped.
-/

namespace AuditTrail

open Coordinator History Situation

theorem Pending.total_found (id : RecordId) (pending : List Pending) :
    total (Task.found id) pending =
      (idsOf (pending.map (·.task.holds)).flatten).count id := by
  induction pending with
  | nil => rfl
  | cons p rest ih =>
      rw [total_cons, List.map_cons, List.flatten_cons, idsOf_append,
        List.count_append, ← ih]
      rfl

/-- What a piece and those around it do not have is not delivered later, unless
it is issued anew. -/
theorem Situation.Run.gone {c c' : Situation} {made : HostCall}
    {pending : List Pending} {next : Next} {later h : History} {id : RecordId}
    (honward : Onward made pending next later c) (run : Run c h c')
    (hnone : next.found id + Pending.total (Task.found id) pending = 0)
    (hissued : id ∉ issued h) :
    id ∉ idsOf (delivered (later ++ h)) ∧ id ∉ idsOf c'.state.batch := by
  have hwent : c.found id + _ ≤ next.found id + Pending.total _ pending :=
    honward.conserves
  have hconserved := run.conserves id
  rw [List.count_eq_zero.mpr hissued] at hconserved
  constructor
  · refine List.count_eq_zero.mp ?_
    rw [delivered_append, idsOf_append, List.count_append]
    omega
  · have hleft : c'.found id = 0 := by omega
    rw [Situation.found, CoordinatorState.found] at hleft
    exact List.count_eq_zero.mp (by omega)

/-- At the beginning nothing is found, so a run finds an identity in one place
only if none was issued twice. -/
theorem Situation.Run.found_once {c : Situation} {h : History}
    (run : Run ⟨CoordinatorState.initial, []⟩ h c) (fresh : (issued h).Nodup)
    (id : RecordId) :
    c.found id + (idsOf (delivered h)).count id ≤ 1 ∧
      (c.found id ≠ 0 → id ∈ issued h) := by
  have hconserved := run.conserves id
  have hnone : Situation.found id ⟨CoordinatorState.initial, []⟩ = 0 := rfl
  have honce := List.nodup_iff_count_le_one.mp fresh id
  rw [hnone] at hconserved
  exact ⟨by omega, fun hfound => List.count_pos_iff.mp (by omega)⟩

theorem not_issued_later {before later : History}
    (fresh : (issued (before ++ later)).Nodup) {id : RecordId}
    (hissued : id ∈ issued before) : id ∉ issued later := by
  rw [issued_append] at fresh
  exact List.disjoint_of_nodup_append fresh hissued

/-- A notice that is not ignored takes the batch. It is delivered if the
transaction was committed, and dropped if not. -/
theorem Situation.Run.of_taken {c c' : Situation} {h before after : History}
    {made : HostCall} {s : CoordinatorState} {event : TransactionEvent}
    {status : TransactionStatus} (run : Run c h c')
    (hsplit : h =
      before ++ .entered made s :: .asked .isCancelled false :: after)
    (hending : made.ending? = some (event, status))
    (hopen : ∀ tx, event.transaction = some tx → s.settled ≠ some tx) :
    ∃ c₁ c₂ transactionPhase later rest, Run c before c₁ ∧ c₁.state = s ∧
      Onward made c₁.pending
        (.goesOn (.errand (if status = .committed then s.batch else [])
          (some (event, status)))
          { settleOwned event s with
            transactionPhase := transactionPhase, batch := [] })
        later c₂ ∧
      Run c₂ rest c' ∧ after = later ++ rest := by
  obtain ⟨c₁, c₂, step, rest, hbefore, hstep, hrest, hafter⟩ :=
    Run.cut (x := .entered made s) trivial run hsplit
  obtain ⟨asked, next, later, hstate, hbegins, honward, rfl⟩ := hstep.of_entered
  rcases hbegins.of_ending hending with
    ⟨rfl, -⟩ | ⟨rfl, ⟨⟨tx, hnamed, hsettled⟩, -⟩ | ⟨-, phase, rfl⟩⟩
  · cases hafter
  · exact absurd hsettled (hopen tx hnamed)
  · cases hafter
    exact ⟨c₁, c₂, phase, later, rest, hbefore, hstate, honward, hrest, rfl⟩

/-! ## What a rollback drops -/

section Rollbacks

variable {settings : CoordinatorSettings} {depth : Nat} {ts : List Turn}
  {s s' : CoordinatorState} {before after : History} {made : HostCall}
  {event : TransactionEvent} {status : TransactionStatus}

/-- What a rollback finds in the batch is not delivered afterwards, and neither
is anything else that was issued before, unless it is a pending capture or in
the hands of a turn that is under way. -/
theorem rolled_back_not_delivered
    (session : Session settings (Interlude.nested settings depth)
      CoordinatorState.initial ts s')
    (fresh : (issued (accountOf ts)).Nodup)
    (hsplit : accountOf ts =
      before ++ .entered made s :: .asked .isCancelled false :: after)
    (hending : made.ending? = some (event, status))
    (hstatus : status ≠ .committed)
    (hopen : ∀ tx, event.transaction = some tx → s.settled ≠ some tx) :
    (∀ r ∈ s.batch, r.id ∉ idsOf (delivered after) ∧ r.id ∉ idsOf s'.batch) ∧
      ∀ id ∈ issued before, id ∉ s.captureIds →
        id ∉ idsOf (underway before).flatten →
        id ∉ idsOf (delivered after) ∧ id ∉ idsOf s'.batch := by
  obtain ⟨c, c', phase, later, rest, hbefore, rfl, honward, hrest, rfl⟩ :=
    session.run_nested.of_taken hsplit hending hopen
  rw [if_neg hstatus] at honward
  rw [hsplit] at fresh
  -- What is neither a pending capture nor held is nowhere after the notice has
  -- been taken.
  have hgone : ∀ id ∈ issued before, id ∉ c.state.captureIds →
      Pending.total (Task.found id) c.pending = 0 →
      id ∉ idsOf (delivered (later ++ rest)) ∧ id ∉ idsOf s'.batch := by
    intro id hissued hcaptured hheld
    have hlater : id ∉ issued (later ++ rest) := not_issued_later fresh hissued
    rw [issued_append, honward.issued_eq, List.nil_append] at hlater
    refine Run.gone honward hrest ?_ hlater
    have hcaptures : ((settleOwned event c.state).captures.map (·.id)).count
        id = 0 := by
      rw [settleOwned_captures]
      exact List.count_eq_zero.mpr hcaptured
    rw [hheld, Next.found, CoordinatorState.found, CoordinatorState.captureIds,
      hcaptures]
    rfl
  refine ⟨fun r hr => ?_, fun id hissued hcaptured hunderway => ?_⟩
  · -- A record in the batch is found there, and so nowhere else.
    have hbatched : 0 < (idsOf c.state.batch).count r.id :=
      List.count_pos_iff.mpr (List.mem_map_of_mem hr)
    have hfresh : (issued before).Nodup := by
      rw [issued_append] at fresh
      exact fresh.of_append_left
    obtain ⟨honce, hissued⟩ := hbefore.found_once hfresh r.id
    rw [Situation.found, CoordinatorState.found] at honce hissued
    exact hgone r.id (hissued (by omega)) (List.count_eq_zero.mp (by omega))
      (by omega)
  · refine hgone id hissued hcaptured ?_
    rw [hbefore.underway_eq] at hunderway
    rw [Pending.total_found]
    exact List.count_eq_zero.mpr hunderway

end Rollbacks

namespace Sample

/-- The state that is told of at some place of a history. -/
def stateAt (h : History) (k : Nat) : CoordinatorState :=
  match h[k]? with
  | some (.entered _ s) => s
  | some (.left _ _ s) => s
  | _ => CoordinatorState.initial

/-- A flush in the n-th transaction, which is the host's. -/
def hostFlush (n : Nat) : List (Company × HostCall) :=
  [(company (some (transaction n)) (order n) undisturbed,
    .startCollecting "req"),
    (company (some (transaction n)) (order n) undisturbed, .finish "req")]

/-- The host is about to commit the first transaction. -/
def announcement
    (meanwhile : Call → CoordinatorState → History × CoordinatorState) :
    Company × HostCall :=
  (company (some (transaction 1)) (order 1) meanwhile,
    .transactionCommitting (notice 1))

/-- The host says something while records are being announced. -/
def whileAnnounced (made : HostCall) :
    Call → CoordinatorState → History × CoordinatorState :=
  interrupted false (fun call => call matches .preCommit _ _)
    [(company (some (transaction 1)) (order 1) undisturbed, made)]

/-- A flush that is announced and rolled back, and another that is committed. -/
def rolledBackThenCommitted : List Turn :=
  turnsIn (settings false) CoordinatorState.initial
    (hostFlush 1 ++ announcement undisturbed ::
      (company none (order 1) undisturbed, .transactionRolledBack (notice 1)) ::
      (hostFlush 2 ++ [reported 2]))

/-- The host says something while a flush is announced, and goes on. -/
def announcedAnd (made : HostCall) (more : List (Company × HostCall)) :
    List Turn :=
  turnsIn (settings false) CoordinatorState.initial
    (hostFlush 1 ++ announcement (whileAnnounced made) :: more)

theorem hostFlush_within (settings : CoordinatorSettings) (depth n : Nat) :
    ∀ play ∈ hostFlush n, play.1.Within (Interlude.nested settings depth) := by
  intro play hmem
  rcases List.mem_pair.mp hmem with rfl | rfl <;>
    exact undisturbed_within _ _ _ depth

theorem rolledBackThenCommitted_session :
    Session (settings false) (Interlude.nested (settings false) 0)
      CoordinatorState.initial
      rolledBackThenCommitted
        (endOf CoordinatorState.initial rolledBackThenCommitted) := by
  refine session_turnsIn _ _ fun play hmem => ?_
  rcases List.mem_append.mp hmem with hfirst | hmem
  · exact hostFlush_within _ 0 1 play hfirst
  rcases List.mem_cons.mp hmem with rfl | hmem
  · exact undisturbed_within _ _ _ 0
  rcases List.mem_cons.mp hmem with rfl | hmem
  · exact undisturbed_within _ _ _ 0
  rcases List.mem_append.mp hmem with hsecond | hlast
  · exact hostFlush_within _ 0 2 play hsecond
  · rw [List.mem_singleton.mp hlast]
    exact undisturbed_within _ _ _ 0

theorem announcedAnd_session (made : HostCall)
    {more : List (Company × HostCall)}
    (within : ∀ play ∈ more,
      play.1.Within (Interlude.nested (settings false) 1)) :
    Session (settings false) (Interlude.nested (settings false) 1)
      CoordinatorState.initial
      (announcedAnd made more)
        (endOf CoordinatorState.initial (announcedAnd made more)) := by
  refine session_turnsIn _ _ fun play hmem => ?_
  rcases List.mem_append.mp hmem with hfirst | hmem
  · exact hostFlush_within _ 1 1 play hfirst
  rcases List.mem_cons.mp hmem with rfl | hmem
  · refine interrupted_within (fun play hplay => ?_) _ _
    rw [List.mem_singleton.mp hplay]
    exact undisturbed_within _ _ _ 0
  · exact within play hmem

end Sample

/-- One record is dropped by a rollback, and the record of the next flush is
delivered. -/
theorem rolled_back_not_delivered_second :
    let h := accountOf Sample.rolledBackThenCommitted
    let s := Sample.stateAt h 19
    s.batch.length = 1 ∧ (delivered (h.drop 21)).length = 1 ∧
      ∀ r ∈ s.batch, r.id ∉ idsOf (delivered (h.drop 21)) ∧
        r.id ∉ idsOf
          (endOf CoordinatorState.initial
          Sample.rolledBackThenCommitted).batch := by
  intro h s
  have hsplit : h = h.take 19 ++
      .entered (.transactionRolledBack (Sample.notice 1)) s ::
      .asked .isCancelled false :: h.drop 21 := rfl
  have hnone : s.settled = none := by decide +kernel
  refine ⟨by decide +kernel, by decide +kernel, (rolled_back_not_delivered
    Sample.rolledBackThenCommitted_session (by decide +kernel) hsplit rfl
      nofun ?_).1⟩
  intro tx _
  rw [hnone]
  exact nofun

/-- A rollback that is reported while a record is being announced does not
drop it. The record is delivered when another transaction is committed. -/
theorem announced_outlives_rollback :
    let ts := Sample.announcedAnd (.transactionRolledBack (Sample.notice 1))
      [Sample.reported 2]
    let h := accountOf ts
    Session (Sample.settings false) (Interlude.nested (Sample.settings false) 1)
        CoordinatorState.initial ts (endOf CoordinatorState.initial ts) ∧
      (issued h).Nodup ∧ uncancelled h ∧
      h = h.take 21 ++ .left (.transactionRolledBack (Sample.notice 1)) (.ok ())
        (Sample.stateAt h 21) :: h.drop 22 ∧
      idsOf (endOf CoordinatorState.initial (ts.take 2)).batch =
        issued (h.take 21) ∧
      (issued (h.take 21)).length = 1 ∧
        idsOf (delivered (h.drop 22)) = issued (h.take 21) := by
  intro ts h
  refine ⟨Sample.announcedAnd_session _ fun play hmem => ?_, by decide +kernel,
    by decide +kernel, rfl, by decide +kernel, by decide +kernel,
    by decide +kernel⟩
  rw [List.mem_singleton.mp hmem]
  exact Sample.undisturbed_within _ _ _ 1

end AuditTrail
