import AuditTrail.Proofs.Coordinator.Finality

/-!
# What a commit delivers

There are two ways in which the coordinator learns that a transaction is
committed. The host says so, and the coordinator has what is in the batch; or
its own commit comes back, and it has what it announced before. `Learns` says
where in a history this happens and which records the coordinator has then.

Nothing is reported as committed before it is learned of, and what the
coordinator has when it learns of it is delivered once, whatever was nested in
whatever (`committed_delivered_once`). That it is delivered at all is a matter
of the next step alone, for a piece that has records to deliver does so before
anything else. That it is not delivered twice follows from custody.

What is being announced for the host at that moment the coordinator does not
have. It is put back into the batch and stays there when the commit has
already been reported.
-/

namespace AuditTrail

open Coordinator History Situation

/-- The coordinator learns that a transaction is committed, and has these
records for it. -/
inductive History.Learns (event : TransactionEvent) (h : History) :
    List AuditRecord → Prop where
  | told {before after : History} {made : HostCall} {s : CoordinatorState}
      (hsplit : h =
        before ++ .entered made s :: .asked .isCancelled false :: after)
      (hending : made.ending? = some (event, .committed))
      (hopen : ∀ tx, event.transaction = some tx → s.settled ≠ some tx) :
      Learns event h s.batch
  | done {before after : History} {tx : TransactionId}
      {batch : List AuditRecord} {outer : List (List AuditRecord)}
      (hsplit : h = before ++ .returned (.commit tx) (.ok ()) :: after)
      (hunderway : underway before = batch :: outer)
      (hnamed : event.transaction = some tx) :
      Learns event h batch

theorem History.Learns.append {event : TransactionEvent} {h : History}
    {batch : List AuditRecord} (learns : Learns event h batch) (h' : History) :
    Learns event (h ++ h') batch := by
  cases learns with
  | told hsplit hending hopen =>
      subst hsplit
      exact .told (List.append_assoc _ _ _) hending hopen
  | done hsplit hunderway hnamed =>
      subst hsplit
      exact .done (List.append_assoc _ _ _) hunderway hnamed

/-! ## Where reports come from -/

/-- The end that a task will report. -/
def Task.report? : Task → Option (TransactionEvent × TransactionStatus)
  | .errand _ report => report
  | _ => none

def Next.report? : Next → Option (TransactionEvent × TransactionStatus)
  | ends _ _ => none
  | goesOn task _ => task.report?

/-- If the report is that of a commit, the coordinator has learned of it. -/
def Warranted (h : History)
    (report : Option (TransactionEvent × TransactionStatus)) : Prop :=
  ∀ event, report = some (event, .committed) → ∃ batch, Learns event h batch

/-- What was reported as committed, and what is going to be, was learned of. -/
structure Attested (h : History)
    (present : Option (TransactionEvent × TransactionStatus))
    (pending : List Pending) : Prop where
  past : ∀ before event after,
    h = before ++ .called (.finished event .committed) :: after →
    ∃ batch, Learns event before batch
  present : Warranted h present
  pending : ∀ p ∈ pending, Warranted h p.task.report?

theorem Warranted.append {h : History}
    {report : Option (TransactionEvent × TransactionStatus)}
    (warranted : Warranted h report) (h' : History) :
    Warranted (h ++ h') report := by
  intro event hreport
  obtain ⟨batch, learns⟩ := warranted event hreport
  exact ⟨batch, learns.append h'⟩

theorem warranted_none (h : History) : Warranted h none := nofun

theorem Onward.report?_of_mem {made : HostCall} {rest : List Pending}
    {next : Next} {later : History} {c : Situation}
    (honward : Onward made rest next later c) {event : TransactionEvent}
    {status : TransactionStatus}
    (hcalled : .called (.finished event status) ∈ later) :
    next.report? = some (event, status) := by
  cases honward with
  | @waits task _ _ hcall =>
      cases List.mem_singleton.mp hcalled
      cases task <;> cases hcall
  | reports =>
      cases List.mem_singleton.mp hcalled
      rfl
  | closes =>
      rcases List.mem_pair.mp hcalled with hasked | hleft <;> contradiction
  | ends | gives | delivers => cases List.mem_singleton.mp hcalled

namespace Attested

variable {h : History} {s : CoordinatorState} {rest : List Pending}
  {made : HostCall} {present : Option (TransactionEvent × TransactionStatus)}

/-- Nothing is reported in a stretch without calls. -/
theorem past_append {chunk : History} (attested : Attested h present rest)
    (hcalls : calls chunk = []) :
    ∀ before event after,
      h ++ chunk = before ++ .called (.finished event .committed) :: after →
      ∃ batch, Learns event before batch := by
  intro before event after hsplit
  rcases split_append hsplit with ⟨more, hpast, -⟩ | ⟨gap, -, hchunk⟩
  · exact attested.past before event more hpast
  · rw [hchunk, calls_append] at hcalls
    exact absurd (List.append_eq_nil_iff.mp hcalls).2 (List.cons_ne_nil _ _)

theorem begins {asked : History} {next : Next} (attested : Attested h none rest)
    (hbegins : Begins s made asked next) :
    Attested (h ++ .entered made s :: asked) next.report? rest where
  past := attested.past_append hbegins.asks.calls_eq
  present := by
    cases hbegins with
    | collected _ _ _ hcollects => cases hcollects <;> exact warranted_none _
    | ended hending hopen =>
        rintro event ⟨⟩
        exact ⟨_, .told rfl hending hopen⟩
    | _ => exact warranted_none _
  pending := fun p hp => (attested.pending p hp).append _

theorem resumes {task : Task} {asked : History} {next : Next}
    (attested : Attested h none (⟨made, task⟩ :: rest))
    (hunderway : underway h =
      (⟨made, task⟩ :: rest : List Pending).map (·.task.holds))
    (hresumes : Resumes s task asked next) :
    Attested (h ++ asked) next.report? rest where
  past := by
    obtain ⟨call, answer, later, rfl, hasks⟩ := hresumes.head
    exact attested.past_append hasks.calls_eq
  present := by
    cases hresumes with
    | opened hcollects => cases hcollects <;> exact warranted_none _
    | released | undone => exact nofun
    | committed =>
        rintro event ⟨⟩
        exact ⟨_, .done rfl hunderway rfl⟩
    | delivered => exact (attested.pending _ List.mem_cons_self).append _
    | _ => exact warranted_none _
  pending := fun p hp =>
    (attested.pending p (List.mem_cons_of_mem _ hp)).append _

theorem onward {next : Next} {later : History} {c : Situation}
    (attested : Attested h next.report? rest)
    (honward : Onward made rest next later c) :
    Attested (h ++ later) none c.pending where
  past := by
    intro before event after hsplit
    rcases split_append hsplit with ⟨more, hpast, -⟩ | ⟨gap, rfl, hchunk⟩
    · exact attested.past before event more hpast
    · refine (attested.present.append gap) event (honward.report?_of_mem ?_)
      rw [hchunk]
      exact List.mem_append_right _ List.mem_cons_self
  present := warranted_none _
  pending := by
    have hrest : ∀ p ∈ rest, Warranted (h ++ later) p.task.report? :=
      fun p hp =>
        (attested.pending p hp).append _
    cases honward with
    | ends | closes | gives => exact hrest
    | waits | delivers =>
        exact List.forall_mem_cons.mpr ⟨attested.present.append _, hrest⟩
    | reports => exact List.forall_mem_cons.mpr ⟨warranted_none _, hrest⟩

theorem initial : Attested [] none [] where
  past := fun _ _ _ hsplit =>
    absurd hsplit.symm
      (List.append_ne_nil_of_right_ne_nil _ (List.cons_ne_nil _ _))
  present := warranted_none _
  pending := fun _ hp => absurd hp List.not_mem_nil

end Attested

/-- Nothing is reported as committed before the coordinator has learned of
it. -/
theorem Situation.Run.attested {c : Situation} {h : History}
    (run : Run ⟨CoordinatorState.initial, []⟩ h c) :
    Attested h none c.pending := by
  have hkept := run.keeps
    (fun h c => Run ⟨CoordinatorState.initial, []⟩ h c ∧
      Attested h none c.pending)
    (fun h made rest next =>
      Stands ⟨CoordinatorState.initial, []⟩ made rest next h ∧
        Attested h next.report? rest)
    (fun hinv hbegins =>
      ⟨hinv.1.enter hbegins (List.append_assoc _ _ _), hinv.2.begins hbegins⟩)
    (fun hinv hresumes =>
      ⟨hinv.1.resume hresumes rfl, hinv.2.resumes hinv.1.underway_eq hresumes⟩)
    (fun hmid _ honward => ⟨hmid.1 _ _ honward, hmid.2.onward honward⟩)
    (h := []) ⟨.nil, .initial⟩
  exact hkept.2

/-! ## What is learned of is delivered -/

theorem Onward.consumes {made : HostCall} {rest : List Pending}
    {records : List AuditRecord}
    {report : Option (TransactionEvent × TransactionStatus)}
    {s : CoordinatorState} {later : History} {c : Situation}
    (honward : Onward made rest (.goesOn (.errand records report) s) later c)
    (hne : records ≠ []) : later = [.called (.consume records)] := by
  cases honward with
  | waits _ hcall => cases hcall
  | delivers => rfl
  | reports | closes | gives => exact absurd rfl hne

theorem mem_delivered {h : History} {records : List AuditRecord}
    {r : AuditRecord} (hcalled : .called (.consume records) ∈ h)
    (hr : r ∈ records) : r ∈ delivered h := by
  refine List.mem_flatten.mpr ⟨records, ?_, hr⟩
  exact List.mem_filterMap.mpr
    ⟨_, List.mem_filterMap.mpr ⟨_, hcalled, rfl⟩, rfl⟩

section Sessions

variable {settings : CoordinatorSettings} {depth : Nat} {ts : List Turn}
  {s' : CoordinatorState}

/-- A record that is delivered is delivered once and is gone from the batch. -/
theorem delivered_once
    (session : Session settings (Interlude.nested settings depth)
      CoordinatorState.initial ts s')
    (fresh : (issued (accountOf ts)).Nodup) {r : AuditRecord}
    (hdelivered : r ∈ delivered (accountOf ts)) :
    (idsOf (delivered (accountOf ts))).count r.id = 1 ∧
      r.id ∉ idsOf s'.batch := by
  have hpos : 0 < (idsOf (delivered (accountOf ts))).count r.id :=
    List.count_pos_iff.mpr (List.mem_map_of_mem hdelivered)
  have honce := (session.run_nested.found_once fresh r.id).1
  simp only [Situation.found, CoordinatorState.found] at honce
  exact ⟨by omega, List.count_eq_zero.mp (by omega)⟩

/-- What the coordinator has when it learns of a commit it delivers in the same
step. -/
theorem History.Learns.delivered {c : Situation} {h : History}
    {event : TransactionEvent} {batch : List AuditRecord}
    (run : Run ⟨CoordinatorState.initial, []⟩ h c)
    (learns : Learns event h batch) {r : AuditRecord} (hr : r ∈ batch) :
    r ∈ delivered h := by
  have hne : batch ≠ [] := List.ne_nil_of_mem hr
  cases learns with
  | told hsplit hending hopen =>
      obtain ⟨c₁, c₂, phase, later, rest, -, -, honward, -, rfl⟩ :=
        run.of_taken hsplit hending hopen
      rw [if_pos rfl] at honward
      obtain rfl := honward.consumes hne
      refine mem_delivered ?_ hr
      rw [hsplit]
      exact List.mem_append_right _
        (List.mem_cons_of_mem _ (List.mem_cons_of_mem _ List.mem_cons_self))
  | @done before after tx _ outer hsplit hunderway hnamed =>
      obtain ⟨c₁, c₂, step, rest, hbefore, hstep, -, hafter⟩ :=
        Run.cut (x := .returned (.commit tx) (.ok ())) trivial run hsplit
      obtain ⟨⟨made, task⟩, waiting, asked, next, later, hpending, hresumes,
          honward, rfl⟩ :=
        hstep.of_returned
      rw [hbefore.underway_eq, hpending] at hunderway
      have hconsumed : asked = [] ∧ later = [.called (.consume batch)] := by
        cases hresumes with
        | committed | committedElsewhere =>
            cases hunderway
            exact ⟨rfl, honward.consumes hne⟩
      obtain ⟨rfl, rfl⟩ := hconsumed
      cases hafter
      refine mem_delivered ?_ hr
      rw [hsplit]
      exact List.mem_append_right _ (List.mem_cons_of_mem _ List.mem_cons_self)

/-- No transaction is reported as committed before the coordinator has learned
of it, and what it has when it learns of it is delivered once and is not left
in the batch. -/
theorem committed_delivered_once
    (session : Session settings (Interlude.nested settings depth)
      CoordinatorState.initial ts s')
    (fresh : (issued (accountOf ts)).Nodup) :
    (∀ before event after,
      accountOf ts = before ++ .called (.finished event .committed) :: after →
      ∃ batch, Learns event before batch) ∧
      ∀ event batch, Learns event (accountOf ts) batch → ∀ r ∈ batch,
        (idsOf (delivered (accountOf ts))).count r.id = 1 ∧
          r.id ∉ idsOf s'.batch :=
  ⟨session.run_nested.attested.past, fun _ _ learns _ hr =>
    delivered_once session fresh (learns.delivered session.run_nested hr)⟩

end Sessions

namespace Sample

/-- A flush in a transaction of the coordinator's own, whose commit is
reported while it lasts, and another in one of the host's. -/
def ownThenHost : List Turn :=
  turnsIn (settings true) CoordinatorState.initial
    ((company none (order 1) undisturbed, .startCollecting "req") ::
      (company (some (transaction 1)) (order 1) disturbed, .finish "req") ::
      (hostFlush 2 ++ [reported 2]))

theorem ownThenHost_session :
    Session (settings true) (Interlude.nested (settings true) 1)
      CoordinatorState.initial
      ownThenHost (endOf CoordinatorState.initial ownThenHost) := by
  refine session_turnsIn _ _ fun play hmem => ?_
  rcases List.mem_cons.mp hmem with rfl | hmem
  · exact undisturbed_within _ _ _ 1
  rcases List.mem_cons.mp hmem with rfl | hmem
  · exact disturbed_within _ _
  rcases List.mem_append.mp hmem with hsecond | hlast
  · exact hostFlush_within _ 1 2 play hsecond
  · rw [List.mem_singleton.mp hlast]
    exact undisturbed_within _ _ _ 1

end Sample

/-- The commit of a transaction of the coordinator's own is reported while it
lasts, and the commit of the host's after it is over. -/
theorem committed_delivered_once_disturbed :
    let h := accountOf Sample.ownThenHost
    let own := (underway (h.take 26)).headD []
    let s := Sample.stateAt h 44
    own.length = 1 ∧ s.batch.length = 1 ∧
      ∀ r ∈ own ++ s.batch, (idsOf (delivered h)).count r.id = 1 ∧
        r.id ∉ idsOf
          (endOf CoordinatorState.initial Sample.ownThenHost).batch := by
  intro h own s
  have hcommit : h = h.take 26 ++
      .returned (.commit (Sample.transaction 1)) (.ok ()) ::
      h.drop 27 := rfl
  have hunderway : underway (h.take 26) = own :: (underway (h.take 26)).tail :=
    rfl
  have hnotice : h = h.take 44 ++
      .entered (.transactionCommitted (Sample.notice 2)) s ::
      .asked .isCancelled false :: h.drop 46 := rfl
  have hopen : ∀ tx, (Sample.notice 2).transaction = some tx →
      s.settled ≠ some tx := by
    have hsettled : s.settled = some (Sample.transaction 1) := by decide +kernel
    rintro _ ⟨⟩
    rw [hsettled]
    decide
  obtain ⟨-, honce⟩ :=
    committed_delivered_once Sample.ownThenHost_session (by decide +kernel)
  refine ⟨by decide +kernel, by decide +kernel, fun r hr => ?_⟩
  rcases List.mem_append.mp hr with hown | hbatched
  · exact honce (Sample.notice 1) own (.done hcommit hunderway rfl) r hown
  · exact honce (Sample.notice 2) s.batch (.told hnotice rfl hopen) r hbatched

/-- A commit that is reported while a record is being announced does not
deliver it. The record is still in the batch when the turn is over. -/
theorem announced_commit_leaves_batch :
    let ts := Sample.announcedAnd (.transactionCommitted (Sample.notice 1)) []
    let h := accountOf ts
    Session (Sample.settings false) (Interlude.nested (Sample.settings false) 1)
        CoordinatorState.initial ts (endOf CoordinatorState.initial ts) ∧
      (issued h).Nodup ∧ uncancelled h ∧
        reports h = [(Sample.notice 1, .committed)] ∧
      idsOf (endOf CoordinatorState.initial (ts.take 2)).batch = issued h ∧
      (issued h).length = 1 ∧ delivered h = [] ∧
      idsOf (endOf CoordinatorState.initial ts).batch = issued h := by
  intro ts h
  exact ⟨Sample.announcedAnd_session _ (fun _ hmem => nomatch hmem),
    by decide +kernel, by decide +kernel, by decide +kernel, by decide +kernel,
    by decide +kernel, rfl,
    by decide +kernel⟩

end AuditTrail
