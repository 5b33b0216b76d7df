import AuditTrail.Proofs.Coordinator.Delivery
import AuditTrail.Proofs.Coordinator.Readings

/-!
# What becomes of what an own commit announces

A flush that is finished inside the transaction of the coordinator commits it.
The records that it promotes join the batch first, and the batch is taken out
of the state before anybody is called. From then on it is in the hands of the
turn: it is announced, and when the commit comes back it is delivered or let
go. Whatever is nested in these calls finds an empty batch, so what is cleared
there, or settled by a notice, or captured anew, makes no difference to it.

The calls of the turn itself are listed by `OwnCommit`. That nobody else
delivers the batch either is a matter of custody: in a run in which no
identity is issued twice, the records are in the hands of this turn and
nowhere else when the commit comes back (`OwnCommit.underway_eq`), so if it
failed they are gone for good (`failed_not_delivered`).
-/

namespace AuditTrail

open Coordinating Coordinator History Situation

/-- The state in which the commit of the owned transaction is marked by a flush
that is finished. -/
def CoordinatorState.committingOwn (s : CoordinatorState) : CoordinatorState :=
  { s with phase := .batching, transactionPhase := .committing, captures := [],
           batch := [],
           commitInProgress := true }

namespace OwnCommit

variable {during : Interlude} {event : TransactionEvent} {tx : TransactionId}
  {batch : List AuditRecord} {s ended : CoordinatorState} {ok : Bool}
  {q : History} {due : List Call}

theorem unowned (commit : OwnCommit during event tx batch s ok q due ended) :
    ended.owned = none := by
  cases commit <;> rfl

theorem delivers (commit : OwnCommit during event tx batch s ok q due ended) :
    due.filterMap Call.delivery? = if ok then slices batch else [] := by
  have hreport : ∀ found status,
      (CoordinatorState.dueReport found event status).filterMap Call.delivery? =
        [] :=
    fun found status => by
      unfold CoordinatorState.dueReport
      split <;> rfl
  cases commit with
  | succeeded =>
      rw [List.filterMap_append, delivery?_consuming, hreport, List.append_nil,
        if_pos rfl]
  | failed => exact hreport _ _

end OwnCommit

/-- If nobody calls the coordinator meanwhile, calls leave the state alone. -/
theorem Calling.still {settings : CoordinatorSettings} {depth : Nat}
    {s s' : CoordinatorState} {made : List Call} {q : History}
    (calling : Calling (Interlude.nested settings depth) s made q s')
    (only : OnlyCalls q) :
    s' = s := by
  induction calling with
  | nil => rfl
  | cons lasting _ ih =>
      obtain ⟨meanwhile, lasts, rfl⟩ := lasting
      obtain ⟨hfirst, hrest⟩ := List.forall_mem_append.mp only
      have hmeanwhile : OnlyCalls meanwhile :=
        (List.forall_mem_append.mp (List.forall_mem_cons.mp hfirst).2).1
      rw [ih hrest]
      cases depth with
      | zero => exact lasts.2
      | succ depth =>
          obtain ⟨ts, session, rfl⟩ := lasts
          cases session with
          | nil => rfl
          | cons t _ _ =>
              exact absurd
                (hmeanwhile (.entered t.made t.before) List.mem_cons_self) id

/-! ## The turn -/

/-- The turn reads what is pending, adds it to the batch and commits. -/
theorem Turn.Taken.commits_own {settings : CoordinatorSettings}
    {during : Interlude} {t : Turn} {context : String} {tx : TransactionId}
    (taken : t.Taken settings during) (hmade : t.made = .finish context)
    (admitted : t.Admitted) (hidle : t.before.commitInProgress = false)
    (howned : t.before.owned = some tx) (hcurrent : t.current = some tx) :
    ∃ asked ok q due ended q' cancelled s', Reads asked ∧
      t.promoted = promotions t.before.captures (keys asked) ∧
      t.history = .asked .isCancelled false ::
        (asked ++ [.asked .currentTransaction (some tx)]) ++
        (q ++ (q' ++ [.asked .isCancelled cancelled])) ∧
      OwnCommit during ⟨context, some tx⟩ tx (t.before.batch ++ t.promoted)
        t.before.committingOwn ok q due ended ∧
      Calling during ended due q' s' ∧
        t.after = { s' with phase := .idle } := by
  have hserved := taken
  rw [Turn.Taken, hmade] at hserved
  have hfinished : (finish context t.before).Ensures during
      (fun h outcome s' => FirstSeen (· = some tx) h →
        h.head? = some (.asked .isCancelled false) →
        ∃ asked records ok q due ended q' cancelled s'',
          Reconciled t.before.captures asked records ∧
          h = .asked .isCancelled false ::
            (asked ++ [.asked .currentTransaction (some tx)]) ++
            (q ++ (q' ++ [.asked .isCancelled cancelled])) ∧
          OwnCommit during ⟨context, some tx⟩ tx (t.before.batch ++ records)
            t.before.committingOwn ok q due ended ∧
          Calling during ended due q' s'' ∧
            s' = { s'' with phase := .idle }) [] := by
    refine finish_inside hidle fun asked records reconciled => ?_
    refine joinBatch_owned (s :=
      { t.before with phase := .reconciling, captures := [] }) context
      records howned ?_
    refine (commitOwned_course context tx).mono ?_
    rintro h u s'' ⟨ok, q, due, ended, q', rfl, commit, handedOn⟩
      cancelled outcome
    exact ⟨asked, records, ok, q, due, ended, q', cancelled, s'', reconciled,
      by simp only [List.cons_append, List.nil_append, List.append_assoc],
      commit, handedOn, rfl⟩
  obtain ⟨asked, records, ok, q, due, ended, q', cancelled, s'', reconciled,
    hhistory, commit, handedOn, hafter⟩ :=
      hserved.ensured hfinished (FirstSeen.of_current hcurrent) admitted
  have hpromoted : t.promoted = records :=
    Turn.promoted_eq hmade reconciled hhistory
  refine ⟨asked, ok, q, due, ended, q', cancelled, s'', reconciled.reads, ?_,
    hhistory, ?_, handedOn, hafter⟩
  · rw [hpromoted, reconciled.promotions_eq]
  · rwa [hpromoted]

/-! ## Whose the batch is when the commit comes back -/

section Runs

variable {during : Interlude} {c : Situation} {made : HostCall}
  {rest : List Pending} {s s' : CoordinatorState} {h q : History}
  {context : String} {tx : TransactionId} {batch : List AuditRecord}

/-- The task of a commit whose batch is still to be announced, if there is
anything to announce. -/
def Task.ownCommit (context : String) (tx : TransactionId)
    (batch : List AuditRecord) : Task :=
  if batch = [] then .committing context tx []
  else .announcingOwn context tx batch

theorem Begins.ownCommit {asked : History} (hidle : s.commitInProgress = false)
    (hreads : Reads asked) (howned : s.owned = some tx) :
    Begins s (.finish context)
      (.asked .isCancelled false ::
        (asked ++ [.asked .currentTransaction (some tx)]))
      (.goesOn (.ownCommit context tx
        (s.batch ++ promotions s.captures (keys asked)))
        s.committingOwn) := by
  by_cases hbatch : s.batch ++ promotions s.captures (keys asked) = []
  · rw [Task.ownCommit, if_pos hbatch]
    exact .commits hidle hreads howned hbatch
  · rw [Task.ownCommit, if_neg hbatch]
    exact .announcesOwn hidle hreads howned rfl hbatch

theorem Calling.announced_stands (hd : during.Follows)
    (announced : Calling during s (announcing batch ⟨context, some tx⟩) q s')
    (stands : Stands c made rest (.goesOn (.ownCommit context tx batch) s) h) :
    Stands c made rest (.goesOn (.committing context tx batch) s')
      (h ++ q) := by
  by_cases hbatch : batch = []
  · subst hbatch
    cases announced
    rw [List.append_nil]
    exact stands
  · rw [Task.ownCommit, if_neg hbatch] at stands
    rw [announcing, slices_of_ne hbatch] at announced
    cases announced with
    | @cons _ _ _ _ answer _ _ _ lasting nothing =>
        cases nothing
        obtain ⟨meanwhile, lasts, rfl⟩ := lasting
        have hrun := (stands _ _ (.waits s rfl)).append (hd _ _ _ lasts _)
        have hanswered : Resumes s' (.announcingOwn context tx batch) _ _ :=
          .announcedOwn answer
        exact hrun.resume hanswered (by simp)

/-- When the commit comes back, its batch is in the hands of the turn. -/
theorem OwnCommit.underway_eq {ok : Bool} {due : List Call}
    {ended : CoordinatorState} (hd : during.Follows)
    (commit : OwnCommit during ⟨context, some tx⟩ tx batch s ok q due ended)
    (stands : Stands ⟨CoordinatorState.initial, []⟩ made rest
      (.goesOn (.ownCommit context tx batch) s) h) :
    ∃ before after answer,
      q = before ++ .returned (.commit tx) answer :: after ∧
      underway (h ++ before) = batch :: rest.map (·.task.holds) ∧
      (ok = true → answer = .ok ()) ∧
        (ok = false → ∃ e, answer = .error e) := by
  have hheld : ∀ {q₁ s₁ answer q₂ s₂},
      Calling during s (announcing batch ⟨context, some tx⟩) q₁ s₁ →
      Lasting during s₁ (.commit tx) answer q₂ s₂ →
      ∃ before, q₁ ++ q₂ = before ++ [.returned (.commit tx) answer] ∧
        underway (h ++ before) = batch :: rest.map (·.task.holds) := by
    intro q₁ s₁ answer q₂ s₂ announced lasting
    obtain ⟨meanwhile, lasts, rfl⟩ := lasting
    have hrun :=
      ((announced.announced_stands hd stands) _ _ (.waits s₁ rfl)).append
        (hd _ _ _ lasts _)
    refine ⟨q₁ ++ .called (.commit tx) :: meanwhile, by simp, ?_⟩
    have := hrun.underway_eq
    rw [List.append_assoc, List.append_assoc] at this
    exact this
  cases commit with
  | succeeded announced lasting =>
      obtain ⟨before, hsplit, hunderway⟩ := hheld announced lasting
      exact ⟨before, [], .ok (), hsplit, hunderway, fun _ => rfl, nofun⟩
  | @failed _ _ h₃ _ _ _ e _ _ announced lasting undone =>
      obtain ⟨before, hsplit, hunderway⟩ := hheld announced lasting
      refine ⟨before, h₃, .error e, ?_, hunderway, nofun, fun _ => ⟨e, rfl⟩⟩
      rw [← List.append_assoc, hsplit, List.append_assoc]
      rfl

end Runs

/-! ## What becomes of the batch -/

section Sessions

variable {settings : CoordinatorSettings} {depth : Nat} {ts : List Turn}
  {s' : CoordinatorState}

/-- What is in the hands of a turn whose commit comes back with an error is
not delivered, neither before nor afterwards. -/
theorem failed_not_delivered {before after : History} {tx : TransactionId}
    {e : AuditError} {batch : List AuditRecord}
    {outer : List (List AuditRecord)}
    (session : Session settings (Interlude.nested settings depth)
      CoordinatorState.initial ts s')
    (fresh : (issued (accountOf ts)).Nodup)
    (hsplit : accountOf ts =
      before ++ .returned (.commit tx) (.error e) :: after)
    (hunderway : underway before = batch :: outer) :
    ∀ r ∈ batch, r.id ∉ idsOf (delivered (accountOf ts)) ∧
      r.id ∉ idsOf s'.batch := by
  obtain ⟨c₁, c₂, later, rest, hbefore, hstep, hrest, rfl⟩ :=
    Run.cut (x := .returned (.commit tx) (.error e)) trivial
      session.run_nested hsplit
  obtain ⟨⟨made, task⟩, waiting, asked, next, more, hpending, hresumes,
      honward, rfl⟩ :=
    hstep.of_returned
  rw [hbefore.underway_eq, hpending] at hunderway
  obtain ⟨context, rfl, rfl, rfl⟩ : ∃ context,
      task = .committing context tx batch ∧
      asked = [] ∧ next = .goesOn (.undoing context tx) c₁.state := by
    cases hresumes with
    | failedToCommit =>
        cases hunderway
        exact ⟨_, rfl, rfl, rfl⟩
  rw [hsplit] at fresh ⊢
  intro r hr
  -- The record is in the hands of the turn, and so nowhere else.
  have hfresh : (issued before).Nodup := by
    rw [issued_append] at fresh
    exact fresh.of_append_left
  obtain ⟨honce, hissued⟩ := hbefore.found_once hfresh r.id
  have hheld : 0 < (idsOf batch).count r.id :=
    List.count_pos_iff.mpr (List.mem_map_of_mem hr)
  have hfound : c₁.found r.id = c₁.state.found r.id +
      ((idsOf batch).count r.id + Pending.total (Task.found r.id) waiting) := by
    rw [Situation.found, hpending]
    rfl
  have hlater : r.id ∉ issued more ++ issued rest := by
    rw [← issued_append]
    exact not_issued_later fresh (hissued (by omega))
  have hundoing : Next.found r.id (.goesOn (.undoing context tx) c₁.state) =
      c₁.state.found r.id := Nat.zero_add _
  obtain ⟨hafter, hbatch⟩ := Run.gone honward hrest (by omega)
    fun hmem => hlater (List.mem_append_right _ hmem)
  refine ⟨fun hmem => ?_, hbatch⟩
  rw [delivered_append, idsOf_append] at hmem
  rcases List.mem_append.mp hmem with hmem | hmem
  · have := List.count_pos_iff.mpr hmem
    omega
  · exact hafter hmem

/-- The turn commits the owned transaction in the middle of a session. What it
announced has been delivered once at the end if the commit succeeded, and has
not been if it failed. -/
theorem OwnCommit.delivered_iff {inner : Nat} {before after : History}
    {asked q : History} {s : CoordinatorState} {context : String}
    {tx : TransactionId} {ok : Bool} {due : List Call}
    {ended : CoordinatorState}
    (session : Session settings (Interlude.nested settings depth)
      CoordinatorState.initial ts s')
    (fresh : (issued (accountOf ts)).Nodup) (hidle : s.commitInProgress = false)
    (hreads : Reads asked) (howned : s.owned = some tx)
    (commit : OwnCommit (Interlude.nested settings inner) ⟨context, some tx⟩ tx
      (s.batch ++ promotions s.captures (keys asked)) s.committingOwn ok
        q due ended)
    (hsplit : accountOf ts = before ++ .entered (.finish context) s ::
      .asked .isCancelled false ::
        (asked ++ [.asked .currentTransaction (some tx)]) ++ (q ++ after)) :
    ∀ r ∈ s.batch ++ promotions s.captures (keys asked),
      (idsOf (delivered (accountOf ts))).count r.id = (if ok then 1 else 0) ∧
        r.id ∉ idsOf s'.batch := by
  have hentered : accountOf ts = before ++ .entered (.finish context) s ::
      (.asked .isCancelled false ::
        (asked ++ [.asked .currentTransaction (some tx)]) ++
        (q ++ after)) := by
    rw [hsplit, List.append_assoc]
    rfl
  obtain ⟨⟨found, rest⟩, _, _, _, hbefore, hstep, -, -⟩ :=
    Run.cut (x := .entered (.finish context) s) trivial session.run_nested
      hentered
  obtain ⟨-, -, -, hstate, -, -, -⟩ := hstep.of_entered
  obtain rfl : s = found := hstate.symm
  have hbegins : Begins s (.finish context) _ _ :=
    .ownCommit hidle hreads howned
  have stands := hbefore.enter hbegins (List.append_assoc _ _ _)
  obtain ⟨gone, left, answer, rfl, hunderway, hok, hfailed⟩ :=
    commit.underway_eq (Interlude.nested_follows settings inner) stands
  have hreturned : accountOf ts = (before ++ .entered (.finish context) s ::
      .asked .isCancelled false ::
        (asked ++ [.asked .currentTransaction (some tx)]) ++ gone) ++
        .returned (.commit tx) answer :: (left ++ after) := by
    rw [hsplit]
    simp only [List.append_assoc, List.cons_append]
  intro r hr
  cases ok with
  | true =>
      obtain rfl := hok rfl
      have learns : Learns ⟨context, some tx⟩ (accountOf ts)
          (s.batch ++ promotions s.captures (keys asked)) :=
            .done hreturned hunderway rfl
      exact delivered_once session fresh
        (learns.delivered session.run_nested hr)
  | false =>
      obtain ⟨e, rfl⟩ := hfailed rfl
      obtain ⟨hnever, hbatch⟩ :=
        failed_not_delivered session fresh hreturned hunderway r hr
      exact ⟨List.count_eq_zero.mpr hnever, hbatch⟩

end Sessions

/-- A flush that is finished inside the transaction of the coordinator commits
it, whoever calls the coordinator meanwhile and whatever is answered. All that
is in the batch is announced, and what the flush promotes is behind it. If the
commit succeeds the same records are delivered, once and by nobody else, and if
it fails the transaction is rolled back and they are never delivered. In
either case nothing is owned when the commit is over, and nothing is when the
turn is, unless somebody calls the coordinator again in between. -/
theorem own_commit_delivers_announced {settings : CoordinatorSettings}
    {depth : Nat} {t : Turn} {context : String} {tx : TransactionId}
    (taken : t.Taken settings (Interlude.nested settings depth))
    (hmade : t.made = .finish context) (admitted : t.Admitted)
    (hidle : t.before.commitInProgress = false)
    (howned : t.before.owned = some tx) (hcurrent : t.current = some tx) :
    let during := Interlude.nested settings depth
    let batch := t.before.batch ++ t.promoted
    ∃ asked ok q due ended q' cancelled s', OnlyAsks asked ∧
      t.history = asked ++ (q ++ (q' ++ [.asked .isCancelled cancelled])) ∧
      OwnCommit during ⟨context, some tx⟩ tx batch t.before.committingOwn ok
        q due ended ∧
      Calling during ended due q' s' ∧
      due.filterMap Call.delivery? = (if ok then slices batch else []) ∧
        ended.owned = none ∧
      t.after = { s' with phase := .idle } ∧
        (OnlyCalls q' → t.after.owned = none) ∧
      ∀ outer ts s'' before after,
        Session settings (Interlude.nested settings outer)
          CoordinatorState.initial ts s'' →
        (issued (accountOf ts)).Nodup →
          accountOf ts = before ++ (t.account ++ after) →
        ∀ r ∈ batch, (idsOf (delivered (accountOf ts))).count r.id =
          (if ok then 1 else 0) ∧
          r.id ∉ idsOf s''.batch := by
  intro during batch
  obtain ⟨asked, ok, q, due, ended, q', cancelled, s', hreads, hpromoted,
    hhistory, commit, handedOn, hafter⟩ :=
      taken.commits_own hmade admitted hidle howned hcurrent
  refine ⟨_, ok, q, due, ended, q', cancelled, s', ?_, hhistory,
    commit, handedOn, commit.delivers, commit.unowned, hafter,
    fun only => ?_, ?_⟩
  · exact asks_cons (hreads.asks.append (asks_cons asks_nil))
  · rw [hafter, handedOn.still only]
    exact commit.unowned
  · intro outer ts s'' before after session fresh hsplit
    have hbatch : batch = t.before.batch ++ promotions t.before.captures
        (keys asked) :=
      congrArg (t.before.batch ++ ·) hpromoted
    change OwnCommit _ _ _ batch _ _ _ _ _ at commit
    rw [hbatch] at commit ⊢
    have hentered : accountOf ts = before ++
        .entered (.finish context) t.before ::
        .asked .isCancelled false ::
          (asked ++ [.asked .currentTransaction (some tx)]) ++
          (q ++ (q' ++ .asked .isCancelled cancelled ::
            .left t.made t.outcome t.after :: after)) := by
      rw [hsplit, Turn.account, hhistory, hmade]
      simp only [List.append_assoc, List.cons_append, List.nil_append]
    exact commit.delivered_iff session fresh hidle hreads howned hentered

/-- A commit is reported while it lasts, and a flush is started. What was
announced is delivered once all the same. -/
theorem own_commit_delivers_announced_disturbed :
    let settings := Sample.settings true
    let during := Interlude.nested settings 1
    let first :=
      Turn.inCompany settings
        (Sample.company none (Sample.order 1) Sample.undisturbed)
        (.startCollecting "req") CoordinatorState.initial
    let t := Turn.inCompany settings
      (Sample.company (some (Sample.transaction 1)) (Sample.order 1)
        Sample.disturbed)
      (.finish "req") first.after
    let batch := t.before.batch ++ t.promoted
    batch.length = 1 ∧
      (∃ q due ended q' s',
          OwnCommit during ⟨"req", some (Sample.transaction 1)⟩
          (Sample.transaction 1) batch t.before.committingOwn true q due ended ∧
        Calling during ended due q' s' ∧
          due.filterMap Call.delivery? = [batch] ∧
        ended.owned = none) ∧
      ∀ r ∈ batch, (idsOf (delivered (accountOf Sample.ownThenHost))).count
        r.id = 1 := by
  intro settings during first t batch
  have htaken : t.Taken settings during :=
    Turn.taken_inCompany (Sample.disturbed_within _ _) _ _
  have howned : t.before.owned = some (Sample.transaction 1) := by
    decide +kernel
  obtain ⟨_, ok, q, due, ended, q', _, s', -, -, commit, handedOn, hdue,
      hunowned, -, -, honce⟩ :=
    own_commit_delivers_announced htaken rfl (Turn.admitted_inCompany rfl rfl _)
      (by decide +kernel) howned (by decide +kernel)
  have hcounts :=
    honce 1 Sample.ownThenHost _ first.account _ Sample.ownThenHost_session
      (by decide +kernel) rfl
  obtain ⟨r, hr⟩ : ∃ r, batch = [r] :=
    List.length_eq_one_iff.mp (by decide +kernel)
  have hok : ok = true := by
    have hdelivered : ∀ r ∈ batch,
        r.id ∈ idsOf (delivered (accountOf Sample.ownThenHost)) := by
      decide +kernel
    have hmem : r ∈ batch := hr ▸ List.mem_singleton_self r
    by_contra hfailed
    have hnone := (hcounts r hmem).1
    rw [if_neg hfailed] at hnone
    exact List.count_eq_zero.mp hnone (hdelivered r hmem)
  subst hok
  have hslices : slices batch = [batch] :=
    slices_of_ne (hr ▸ List.cons_ne_nil r [])
  rw [if_pos rfl, hslices] at hdue
  exact ⟨hr ▸ rfl, ⟨q, due, ended, q', s', commit, handedOn, hdue, hunowned⟩,
    fun r hr => (hcounts r hr).1⟩

end AuditTrail
