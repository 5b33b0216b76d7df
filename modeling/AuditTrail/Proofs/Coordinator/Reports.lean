import AuditTrail.Proofs.Coordinator.Settlement

/-!
# How often an end is reported

The consumer is told how a transaction ended when the coordinator has settled
it, and when the host says so. For a transaction of the coordinator's own the
two may coincide, and then one report is enough: a notice that comes in while
the transaction is being committed finds it owned and takes it, and the commit
finds that there is nothing left to report.

`Balance` is the account of one transaction. Each report of it, made or still
owed by a piece that is under way, is matched by the opening of the
transaction or by a *stray* notice, one that finds the transaction neither
owned nor settled last. A transaction that is being rolled back is in just
this position, for it is no longer owned and not yet settled, so a notice
that is raised by the rollback itself is a stray one. It follows that a
transaction is reported once and then once more for each stray notice
(`reported_once_and_strays`).
-/

namespace AuditTrail

open Coordinator History Situation

/-- A notice about a transaction that the coordinator neither owns nor knows
to be settled. -/
def HostCall.strays (tx : TransactionId) (made : HostCall)
    (s : CoordinatorState) : Bool :=
  match made.ending? with
  | some (event, _) =>
      event.transaction = some tx ∧ s.owned ≠ some tx ∧ s.settled ≠ some tx
  | none => false

def Act.strays (tx : TransactionId) : Act → Bool
  | .turn made s => made.strays tx s
  | .back _ _ => false

namespace History

/-- How many notices about a transaction were stray. -/
def strays (tx : TransactionId) (h : History) : Nat :=
  (acts h).countP (Act.strays tx)

/-- How often the end of a transaction was reported. -/
def reported (tx : TransactionId) (h : History) : Nat :=
  (reports h).countP fun report => report.1.transaction = some tx

@[simp] theorem reported_append (tx : TransactionId) (h h' : History) :
    reported tx (h ++ h') = reported tx h + reported tx h' := by
  rw [reported, reports_append, List.countP_append]
  rfl

theorem reported_of_calls {h : History} (hnone : calls h = [])
    (tx : TransactionId) :
    reported tx h = 0 := by
  rw [reported, reports, hnone]
  rfl

theorem strays_of_acts {h h' : History} {l : List Act}
    (hacts : acts h' = acts h ++ l) (tx : TransactionId) :
    strays tx h' = strays tx h + l.countP (Act.strays tx) := by
  rw [strays, hacts, List.countP_append]
  rfl

end History

/-! ## What is owed -/

/-- Whether a task will report the end of a transaction. -/
@[simp] def Task.owes (tx : TransactionId) : Task → Nat
  | .errand _ (some (event, _)) => if event.transaction = some tx then 1 else 0
  | _ => 0

/-- Whether a task is to settle a transaction that is being rolled back. -/
@[simp] def Task.releases (tx : TransactionId) : Task → Nat
  | .releasing _ released => if released = tx then 1 else 0
  | _ => 0

@[simp] def Next.owes (tx : TransactionId) : Next → Nat
  | ends _ _ => 0
  | goesOn task _ => task.owes tx

@[simp] def Next.releases (tx : TransactionId) : Next → Nat
  | ends _ _ => 0
  | goesOn task _ => task.releases tx

def CoordinatorState.owns (tx : TransactionId) (s : CoordinatorState) : Nat :=
  if s.owned = some tx then 1 else 0

def owedBy (tx : TransactionId) (pending : List Pending) : Nat :=
  Pending.total (Task.owes tx) pending

def releasedBy (tx : TransactionId) (pending : List Pending) : Nat :=
  Pending.total (Task.releases tx) pending

theorem owedBy_cons (tx : TransactionId) (made : HostCall) (task : Task)
    (rest : List Pending) :
    owedBy tx (⟨made, task⟩ :: rest) = task.owes tx + owedBy tx rest := rfl

theorem releasedBy_cons (tx : TransactionId) (made : HostCall) (task : Task)
    (rest : List Pending) :
    releasedBy tx (⟨made, task⟩ :: rest) = task.releases tx +
      releasedBy tx rest := rfl

/-- What is made of a transaction by a piece: it brings so much that was owned
or opened, so many stray notices, so much that was owed, and it may settle the
transaction. -/
structure Fair (tx : TransactionId) (had stray owed : Nat) (settles : Prop)
    (next : Next) : Prop where
  atMost : next.owes tx + next.releases tx + next.state.owns tx ≤ had + stray
  strayed : owed + stray ≤ next.owes tx
  settled : settles → owed + stray + 1 ≤ next.owes tx

variable {tx : TransactionId}

theorem Fair.of_silent {had stray : Nat} {settles : Prop} {next : Next}
    (hstray : stray = 0) (hsettles : ¬ settles)
    (hkept : next.owes tx + next.releases tx + next.state.owns tx ≤ had) :
    Fair tx had stray 0 settles next where
  atMost := Nat.le_add_right_of_le hkept
  strayed := by rw [hstray]; exact Nat.zero_le _
  settled := fun h => absurd h hsettles

theorem HostCall.strays_of_not_ending {made : HostCall}
    (hnone : made.ending? = none) (s : CoordinatorState) :
    made.strays tx s = false := by
  rw [strays, hnone]

theorem HostCall.strays_of_ending {made : HostCall} {event : TransactionEvent}
    {status : TransactionStatus} (hending : made.ending? = some (event, status))
    (s : CoordinatorState) :
    made.strays tx s =
      decide (event.transaction = some tx ∧ s.owned ≠ some tx ∧
          s.settled ≠ some tx) := by
  rw [strays, hending]

theorem Begins.fair_of_not_ending {s : CoordinatorState} {made : HostCall}
    {asked : History} {next : Next} (hnone : made.ending? = none)
    (hkept : next.owes tx + next.releases tx + next.state.owns tx ≤ s.owns tx) :
    Fair tx (s.owns tx) (admits asked && made.strays tx s).toNat 0
      (admits asked ∧ made.settles? s = some tx) next := by
  refine .of_silent ?_ ?_ hkept
  · rw [HostCall.strays_of_not_ending hnone, Bool.and_false]
    rfl
  · rw [HostCall.settles?_of_not_ending hnone]
    exact fun h => nomatch h.2

theorem Begins.fair {s : CoordinatorState} {made : HostCall} {asked : History}
    {next : Next} (hbegins : Begins s made asked next) :
    Fair tx (s.owns tx) (admits asked && made.strays tx s).toNat 0
      (admits asked ∧ made.settles? s = some tx) next := by
  have hsame : 0 + 0 + s.owns tx ≤ s.owns tx := by omega
  cases hbegins with
  | refused => exact .of_silent rfl (fun h => nomatch h.1) hsame
  | busy hwaits =>
      exact fair_of_not_ending (HostCall.not_ending_of_waits hwaits) hsame
  | @ignored _ event status tx' hending hnamed hsettled =>
      refine .of_silent ?_ ?_ hsame
      · have hnone : made.strays tx s = false := by
          rw [HostCall.strays_of_ending hending, decide_eq_false_iff_not]
          intro h
          exact h.2.2 (hsettled.trans (hnamed.symm.trans h.1))
        rw [hnone]
        rfl
      · rw [HostCall.settles?_of_settled hending (hsettled.trans hnamed.symm)]
        exact fun h => nomatch h.2
  | collected _ _ _ hcollects =>
      cases hcollects <;> exact fair_of_not_ending rfl hsame
  | abandons hmade =>
      exact fair_of_not_ending (HostCall.not_ending_of_abandoned hmade) hsame
  | @releases _ _ own hmade howned =>
      refine fair_of_not_ending (HostCall.not_ending_of_abandoned hmade) ?_
      simp [Next.owes, Next.releases, Next.state, Task.owes, Task.releases,
        CoordinatorState.owns, howned]
  | @ended _ event status hending hopen phase =>
      -- The report is owed for the owned transaction, or for a stray notice.
      rw [HostCall.strays_of_ending hending,
        HostCall.settles?_of_open hending hopen]
      have howns := owned_settleOwned event s
      by_cases hnamed : event.transaction = some tx
      · have hsettled := hopen tx hnamed
        by_cases howned : s.owned = some tx <;> constructor <;>
          simp [howns, hnamed, howned, hsettled, admits, Next.state,
            CoordinatorState.owns]
      · by_cases howned : s.owned = event.transaction <;> constructor <;>
          simp [howns, hnamed, howned, Next.state, CoordinatorState.owns]
  | _ => exact fair_of_not_ending rfl hsame

theorem Fair.of_settled {done : TransactionId} {had : Nat} {settles : Prop}
    {next : Next} (howes : next.owes tx = if some done = some tx then 1 else 0)
    (hsettles : settles → tx = done)
    (hkept : next.owes tx + next.releases tx + next.state.owns tx ≤ had) :
    Fair tx had 0 0 settles next where
  atMost := hkept
  strayed := Nat.zero_le _
  settled := fun h =>
    Nat.le_of_eq (howes.trans (if_pos (congrArg some (hsettles h).symm))).symm

theorem Resumes.fair {s : CoordinatorState} {made : HostCall} {task : Task}
    {rest : List Pending} {asked : History} {next : Next}
    (orderly : Orderly s (⟨made, task⟩ :: rest))
    (hresumes : Resumes s task asked next) :
    Fair tx
      (task.owes tx + task.releases tx + s.owns tx + (begun asked).count tx)
      0 (task.owes tx)
      (tx ∈ settlements asked ∧ s.settled ≠ some tx) next := by
  have hquiet : ∀ {asked}, settlements asked = [] →
      ¬ (tx ∈ settlements asked ∧ s.settled ≠ some tx) := by
    intro asked hnone h
    rw [hnone] at h
    cases h.1
  cases hresumes with
  | failedToOpen | announcedOwn | failedToCommit | announced | reported =>
      exact .of_silent rfl (hquiet rfl) (Nat.le_add_right _ _)
  | delivered =>
      exact ⟨Nat.le_add_right_of_le (Nat.le_add_right _ _), Nat.le_refl _,
        fun h => absurd h (hquiet rfl)⟩
  | @opened _ own more _ hcollects =>
      have hasks : OnlyAsks (.asked .isCancelled false :: more) :=
        asks_cons hcollects.asks
      have hnone : settlements
          (.returned .begin (.ok own) :: .asked .isCancelled false :: more) =
            [] :=
        congrArg (List.filterMap Act.settles?)
          (@acts_returned .begin (.ok own) _ hasks)
      have hbegun : begun
          (.returned .begin (.ok own) :: .asked .isCancelled false :: more) =
          own :: begun more := rfl
      refine .of_silent rfl (hquiet hnone) ?_
      rw [hbegun, List.count_cons]
      cases hcollects <;>
        simp only [Next.owes, Next.releases, Next.state, CoordinatorState.owns,
          Option.some.injEq, beq_iff_eq] <;>
        omega
  | @withdrawn _ own =>
      have hbegun : begun [.returned .begin (.ok own),
        .asked .isCancelled true] = [own] := rfl
      refine .of_silent rfl (hquiet rfl) ?_
      rw [hbegun, List.count_singleton]
      simp [Next.state, CoordinatorState.owns]
  | released =>
      refine .of_settled rfl (fun h => List.mem_singleton.mp h.1)
        (Nat.le_add_right_of_le ?_)
      exact Nat.add_le_add_right (by simp) _
  | committed howned | undone _ _ howned =>
      obtain rfl := orderly.owned_eq rfl howned
      refine .of_settled rfl (fun h => List.mem_singleton.mp h.1) ?_
      simp [Next.state, CoordinatorState.owns, howned]
  | committedElsewhere hnone | undoneElsewhere _ hnone =>
      refine .of_silent rfl (fun h => h.2 ?_) (Nat.le_add_right _ _)
      rw [List.mem_singleton.mp h.1]
      exact orderly.settled_of_owned_none rfl hnone

theorem Task.report?_of_call {task : Task} {call : Call}
    (hcall : task.call? = some call) :
    call.report? = none := by
  cases task <;> cases hcall <;> rfl

theorem reported_of_reports {h : History} (hnone : reports h = []) :
    reported tx h = 0 := by
  rw [reported, hnone]
  rfl

theorem Onward.begun_eq {made : HostCall} {rest : List Pending} {next : Next}
    {later : History} {c : Situation}
    (honward : Onward made rest next later c) : begun later = [] := by
  cases honward <;> rfl

/-- However a piece goes on, what it owes it reports or owes still. -/
theorem Onward.fair {made : HostCall} {rest : List Pending} {next : Next}
    {later : History} {c : Situation} (honward : Onward made rest next later c)
    (tx : TransactionId) :
    reported tx later + owedBy tx c.pending = next.owes tx + owedBy tx rest ∧
      releasedBy tx c.pending = next.releases tx + releasedBy tx rest ∧
      c.state.owns tx = next.state.owns tx := by
  cases honward with
  | ends | gives =>
      exact ⟨by rw [reported_of_reports rfl]; rfl, (Nat.zero_add _).symm, rfl⟩
  | @waits _ call s hcall =>
      have hnone : History.reports [.called call] = [] :=
        List.filterMap_cons_none (Task.report?_of_call hcall)
      refine ⟨?_, releasedBy_cons tx made _ rest, rfl⟩
      rw [reported_of_reports hnone, owedBy_cons, Nat.zero_add]
      rfl
  | delivers hne report =>
      refine ⟨?_, releasedBy_cons tx made _ rest, rfl⟩
      rw [reported_of_reports rfl, owedBy_cons, Nat.zero_add]
      cases report <;> rfl
  | reports event status =>
      refine ⟨?_, releasedBy_cons tx made _ rest, rfl⟩
      have hone : reported tx [.called (.finished event status)] =
          if event.transaction = some tx then 1 else 0 := by
        simp [reported, History.reports, calls, Happening.call?, Call.report?,
          List.countP_cons]
      rw [hone, owedBy_cons]
      exact congrArg _ (Nat.zero_add _)
  | closes =>
      refine ⟨?_, (Nat.zero_add _).symm, ?_⟩
      · rw [reported_of_reports rfl]
        rfl
      · cases made <;> rfl

/-- The account of one transaction: what was reported of it and what is owed,
what is being released and what is owned, against what was opened and
strayed. -/
structure Balance (tx : TransactionId) (h : History)
    (owed released owned : Nat) : Prop where
  atMost : reported tx h + owed + released + owned ≤
    (begun h).count tx + strays tx h
  strayed : strays tx h ≤ reported tx h + owed
  settled : tx ∈ settlements h → strays tx h + 1 ≤ reported tx h + owed

namespace Balance

variable {h : History} {s : CoordinatorState} {rest : List Pending}
  {made : HostCall}

/-- A piece that owed and released so much has come to something. -/
theorem move {chunk : History} {next : Next}
    {had stray owes releases owned : Nat} {settles : Prop}
    (balance : Balance tx h (owes + owedBy tx rest)
      (releases + releasedBy tx rest) owned)
    (fair : Fair tx had stray owes settles next)
    (hhad : had ≤ owes + releases + owned + (begun chunk).count tx)
    (hcalls : calls chunk = [])
    (hacts : acts (h ++ chunk) = acts h ++ acts chunk)
    (hstray : strays tx chunk = stray)
    (hsettles : tx ∈ settlements chunk → tx ∈ settlements h ∨ settles) :
    Balance tx (h ++ chunk) (next.owes tx + owedBy tx rest)
      (next.releases tx + releasedBy tx rest)
      (next.state.owns tx) := by
  have hreported : reported tx (h ++ chunk) = reported tx h := by
    rw [reported_append, reported_of_calls hcalls, Nat.add_zero]
  have hbegun : (begun (h ++ chunk)).count tx = (begun h).count tx +
      (begun chunk).count tx := by
    rw [begun_append, List.count_append]
  have hstrays : strays tx (h ++ chunk) = strays tx h + stray := by
    rw [strays_of_acts hacts, ← hstray]
    rfl
  have hsettlements : settlements (h ++ chunk) = settlements h ++
      settlements chunk := by
    rw [settlements, hacts, List.filterMap_append]
    rfl
  have hatMost := fair.atMost
  have howes := fair.strayed
  have hbefore := balance.atMost
  have hstrayed := balance.strayed
  constructor
  · omega
  · omega
  · rw [hsettlements, List.mem_append]
    intro hmem
    rcases hmem.elim .inl hsettles with hpast | hnow
    · have := balance.settled hpast
      omega
    · have := fair.settled hnow
      omega

theorem begins {asked : History} {next : Next}
    (balance : Balance tx h (owedBy tx rest) (releasedBy tx rest) (s.owns tx))
    (hbegins : Begins s made asked next) :
    Balance tx (h ++ .entered made s :: asked) (next.owes tx + owedBy tx rest)
      (next.releases tx + releasedBy tx rest) (next.state.owns tx) := by
  have hstart : Balance tx h (0 + owedBy tx rest) (0 + releasedBy tx rest)
      (s.owns tx) := by
    rwa [Nat.zero_add, Nat.zero_add]
  have hacts := acts_entered made s hbegins.asks
  refine hstart.move hbegins.fair ?_ hbegins.asks.calls_eq
    (acts_append h id _) ?_ ?_
  · omega
  · rw [strays, hacts]
    cases admits asked with
    | false => rfl
    | true =>
        refine List.countP_singleton.trans ?_
        rw [Act.strays, Bool.true_and]
        cases made.strays tx s <;> rfl
  · rw [settlements, hacts]
    intro hmem
    split at hmem
    · next hadmits =>
        obtain ⟨a, ha, hsettles⟩ := List.mem_filterMap.mp hmem
        rw [List.mem_singleton.mp ha] at hsettles
        exact .inr ⟨hadmits, hsettles⟩
    · cases hmem

theorem resumes {task : Task} {asked : History} {next : Next}
    (remembers : Remembers h ⟨s, ⟨made, task⟩ :: rest⟩)
    (balance : Balance tx h (owedBy tx (⟨made, task⟩ :: rest))
      (releasedBy tx (⟨made, task⟩ :: rest)) (s.owns tx))
    (hresumes : Resumes s task asked next) :
    Balance tx (h ++ asked) (next.owes tx + owedBy tx rest)
      (next.releases tx + releasedBy tx rest) (next.state.owns tx) := by
  rw [owedBy_cons, releasedBy_cons] at balance
  obtain ⟨call, answer, later, rfl, hasks⟩ := hresumes.head
  refine balance.move (hresumes.fair remembers.orderly) (Nat.le_refl _)
    hasks.calls_eq
    (acts_append h id _) ?_ ?_
  · rw [strays, acts_returned answer hasks]
    rfl
  · intro hmem
    -- What is remembered was settled before, and nothing new is known of it.
    by_cases hsettled : s.settled = some tx
    · left
      have hlast := remembers.settled.symm.trans hsettled
      exact List.mem_of_getLast? hlast
    · exact .inr ⟨hmem, hsettled⟩

theorem onward {next : Next} {later : History} {c : Situation}
    (balance : Balance tx h (next.owes tx + owedBy tx rest)
      (next.releases tx + releasedBy tx rest) (next.state.owns tx))
    (hasked : next.Asked h) (honward : Onward made rest next later c) :
    Balance tx (h ++ later) (owedBy tx c.pending) (releasedBy tx c.pending)
      (c.state.owns tx) := by
  obtain ⟨howed, hreleased, howned⟩ := honward.fair tx
  have hacts := honward.acts hasked
  have hstrays : strays tx (h ++ later) = strays tx h := by
    rw [strays, strays, hacts]
  have hsettlements : settlements (h ++ later) = settlements h :=
    congrArg (List.filterMap Act.settles?) hacts
  have hbefore := balance.atMost
  have hstrayed := balance.strayed
  constructor
  · rw [reported_append, begun_append, honward.begun_eq, List.append_nil,
      hstrays]
    omega
  · rw [reported_append, hstrays]
    omega
  · rw [hsettlements, reported_append, hstrays]
    intro hmem
    have := balance.settled hmem
    omega

theorem initial (tx : TransactionId) :
    Balance tx [] (owedBy tx []) (releasedBy tx [])
      (CoordinatorState.initial.owns tx) where
  atMost := Nat.le_refl 0
  strayed := Nat.le_refl 0
  settled := fun hmem => nomatch hmem

end Balance

theorem Situation.Run.balance {c : Situation} {h : History}
    (run : Run ⟨CoordinatorState.initial, []⟩ h c) (tx : TransactionId) :
    Balance tx h (owedBy tx c.pending) (releasedBy tx c.pending)
      (c.state.owns tx) := by
  have hkept := run.keeps
    (fun h c => Remembers h c ∧
      Balance tx h (owedBy tx c.pending) (releasedBy tx c.pending)
        (c.state.owns tx))
    (fun h made rest next => Remembers h (next.situation made rest) ∧
      Balance tx h (next.owes tx + owedBy tx rest)
        (next.releases tx + releasedBy tx rest)
        (next.state.owns tx))
    (fun hinv hbegins => ⟨hinv.1.begins hbegins, hinv.2.begins hbegins⟩)
    (fun hinv hresumes =>
      ⟨hinv.1.resumes hresumes, hinv.2.resumes hinv.1 hresumes⟩)
    (fun hmid hasked honward =>
      ⟨hmid.1.onward hasked honward, hmid.2.onward hasked honward⟩)
    ⟨.initial, .initial tx⟩
  exact hkept.2

/-- The end of a transaction that the coordinator opened and that was settled
is reported exactly once, and then once more for each stray notice about it,
whatever was nested in whatever. -/
theorem reported_once_and_strays {settings : CoordinatorSettings} {depth : Nat}
    {ts : List Turn} {s : CoordinatorState} {tx : TransactionId}
    (session : Session settings (Interlude.nested settings depth)
      CoordinatorState.initial ts s)
    (hopened : (begun (accountOf ts)).count tx = 1)
    (hsettled : tx ∈ settlements (accountOf ts)) :
    reported tx (accountOf ts) = 1 + strays tx (accountOf ts) := by
  have balance := session.run_nested.balance tx
  have hatMost := balance.atMost
  have hatLeast : strays tx (accountOf ts) + 1 ≤
      reported tx (accountOf ts) + 0 :=
    balance.settled hsettled
  omega

/-- A notice that is raised inside the commit it is about is no stray one, and
the end of the transaction is reported once. -/
theorem reported_once_disturbed :
    let ts := turnsIn (Sample.settings true) CoordinatorState.initial
      (Sample.ownFlushes Sample.disturbed ++ [Sample.reported 2])
    let tx := Sample.transaction 1
    (begun (accountOf ts)).count tx = 1 ∧ tx ∈ settlements (accountOf ts) ∧
      strays tx (accountOf ts) = 0 ∧ reported tx (accountOf ts) = 1 := by
  intro ts tx
  have hopened : (begun (accountOf ts)).count tx = 1 := by decide +kernel
  have hsettled : tx ∈ settlements (accountOf ts) := by decide +kernel
  have hstrays : strays tx (accountOf ts) = 0 := by decide +kernel
  refine ⟨hopened, hsettled, hstrays, ?_⟩
  rw [reported_once_and_strays
    (Sample.ownFlushes_session (Sample.disturbed_within _ _) 2) hopened
    hsettled, hstrays]

namespace Sample

/-- A rollback is reported while it lasts. -/
def rollbackReported : Call → CoordinatorState → History × CoordinatorState :=
  interrupted true (fun made => made matches .rollback _)
    [(company none (order 1) undisturbed, .transactionRolledBack (notice 1))]

/-- A flush that fails after a transaction was opened for it. -/
def failedFlush : List (Company × HostCall) :=
  [(company none (order 1) undisturbed, .startCollecting "req"),
    (company (some (transaction 1)) (order 1) rollbackReported,
      .saveFailed "req")]

end Sample

/-- A notice that is raised inside a rollback is reported, and the rollback
then reports the end of the same transaction again. -/
theorem rollback_reported_twice :
    let ts := turnsIn (Sample.settings true) CoordinatorState.initial
      Sample.failedFlush
    Session (Sample.settings true) (Interlude.nested (Sample.settings true) 1)
        CoordinatorState.initial ts (endOf CoordinatorState.initial ts) ∧
      begun (accountOf ts) = [Sample.transaction 1] ∧
      settlements (accountOf ts) = [Sample.transaction 1] ∧
      uncancelled (accountOf ts) ∧
      reports (accountOf ts) =
        [(Sample.notice 1, .rolledBack), (Sample.notice 1, .rolledBack)] := by
  intro ts
  refine ⟨session_turnsIn _ _ fun play hmem => ?_, by decide +kernel,
    by decide +kernel, by decide +kernel, by decide +kernel⟩
  rcases List.mem_pair.mp hmem with rfl | rfl
  · exact Sample.undisturbed_within _ _ _ 1
  · refine Sample.interrupted_within (fun play hmem => ?_) _ _
    rw [List.mem_singleton.mp hmem]
    exact Sample.undisturbed_within _ _ _ 0

end AuditTrail
