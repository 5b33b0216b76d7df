import AuditTrail.Proofs.Coordinator.Accounting
import AuditTrail.Proofs.Coordinator.OwnCommit

/-!
# The transaction that was settled last

A coordinator remembers one transaction, the one that it settled last, and
ignores what the host says about its end. Which one that is can be read off
the history alone. The coordinator settles a transaction of its own when its
commit succeeds or its rollback is over, and it takes the word of the host for
it when the host says that the owned transaction has ended. `settlements`
lists these moments, whatever was nested in whatever, and the transaction
that is remembered is the last of the list (`settled_eq_last_settlement`).

So a notice is ignored exactly if the list ends with the transaction that it
names. After the coordinator has settled another transaction it no longer
knows of the first, and a late notice of it is taken for news.
-/

namespace AuditTrail

open Coordinator History Situation

/-- What makes the coordinator act: the host tells it something and it does
not refuse, or a call that it made comes back. -/
inductive Act where
  | turn (made : HostCall) (s : CoordinatorState)
  | back (call : Call) (answer : call.Answer)

/-- The token is looked at first, and an answer that it is not cancelled admits
what the host said just before. -/
def Happening.act? : Happening → Option Happening → Option Act
  | .returned call answer, _ => some (.back call answer)
  | .asked .isCancelled false, some (.entered made s) => some (.turn made s)
  | _, _ => none

/-- The transaction that the host settles for the coordinator by what it
says. -/
def HostCall.settles? (made : HostCall) (s : CoordinatorState) :
    Option TransactionId :=
  match made.ending? with
  | some (event, _) =>
    if s.owned = event.transaction ∧ s.settled ≠ event.transaction then s.owned
    else none
  | none => none

def Act.settles? : Act → Option TransactionId
  | .turn made s => made.settles? s
  | .back (.commit tx) (.ok _) => some tx
  | .back (.rollback tx) _ => some tx
  | _ => none

namespace History

/-- The acts of a history that goes on after something else. -/
def actsAfter : Option Happening → History → List Act
  | _, [] => []
  | last, x :: h => (x.act? last).toList ++ actsAfter (some x) h

def acts (h : History) : List Act := actsAfter none h

/-- The transactions that the coordinator settled, or the host settled for
it. -/
def settlements (h : History) : List TransactionId :=
  (acts h).filterMap Act.settles?

/-- A history begins with an admission. -/
def admits : History → Bool
  | .asked .isCancelled false :: _ => true
  | _ => false

theorem actsAfter_append (h h' : History) : ∀ last,
    actsAfter last (h ++ h') = actsAfter last h ++
      actsAfter (h.getLast?.or last) h' := by
  induction h with
  | nil => intro last; rfl
  | cons x h ih =>
      intro last
      rw [List.cons_append, actsAfter, ih, actsAfter, List.append_assoc]
      cases h with
      | nil => rfl
      | cons y h =>
          rw [List.getLast?_cons_cons,
            List.getLast?_eq_some_getLast (List.cons_ne_nil y h)]
          rfl

theorem acts_append (h : History) {x : Happening} (hx : ¬ x.IsQuestion)
    (h' : History) :
    acts (h ++ x :: h') = acts h ++ acts (x :: h') := by
  rw [acts, actsAfter_append, acts, acts, actsAfter, actsAfter]
  cases x with
  | asked query answer => exact absurd trivial hx
  | _ => rfl

theorem actsAfter_asked {h : History} :
    ∀ {last : Option Happening}, OnlyAsks h →
    (∀ made s, last ≠ some (.entered made s)) → actsAfter last h = [] := by
  induction h with
  | nil => intro last _ _; rfl
  | cons x h ih =>
      intro last asks hlast
      obtain ⟨hx, hrest⟩ := List.forall_mem_cons.mp asks
      obtain ⟨query, answer, rfl⟩ := hx.exists_asked
      have hnone : (Happening.asked query answer).act? last = none := by
        rcases last with _ | ⟨_ | _ | _ | ⟨made, s⟩ | _⟩
        case some.entered => exact absurd rfl (hlast made s)
        all_goals
          cases query <;> first | rfl | (cases answer <;> rfl)
      rw [actsAfter, hnone, ih hrest (by rintro _ _ ⟨⟩)]
      rfl

theorem acts_entered (made : HostCall) (s : CoordinatorState) {asked : History}
    (asks : OnlyAsks asked) :
    acts (.entered made s :: asked) =
      if admits asked then [.turn made s] else [] := by
  cases asked with
  | nil => rfl
  | cons x later =>
      obtain ⟨hx, hlater⟩ := List.forall_mem_cons.mp asks
      obtain ⟨query, answer, rfl⟩ := hx.exists_asked
      have hnone : actsAfter (some (.asked query answer)) later = [] :=
        actsAfter_asked hlater (by rintro _ _ ⟨⟩)
      cases query with
      | isCancelled =>
          cases answer <;> simp [acts, actsAfter, hnone, Happening.act?, admits]
      | _ => simp [acts, actsAfter, hnone, Happening.act?, admits]

theorem acts_returned {call : Call} (answer : call.Answer) {later : History}
    (asks : OnlyAsks later) :
    acts (.returned call answer :: later) = [.back call answer] := by
  have hnone : actsAfter (some (.returned call answer)) later = [] :=
    actsAfter_asked asks (by rintro _ _ ⟨⟩)
  rw [acts, actsAfter, hnone]
  rfl

end History

/-! ## The acts of a step -/

theorem Begins.acts {s : CoordinatorState} {made : HostCall} {asked : History}
    {next : Next} (hbegins : Begins s made asked next) (h : History) :
    acts (h ++ .entered made s :: asked) =
      acts h ++ if admits asked then [.turn made s] else [] := by
  rw [acts_append h id, acts_entered made s hbegins.asks]

theorem acts_resumed (h : History) {call : Call} (answer : call.Answer)
    {later : History} (asks : OnlyAsks later) :
    acts (h ++ .returned call answer :: later) = acts h ++
      [.back call answer] := by
  rw [acts_append h id, acts_returned answer asks]

theorem Onward.acts {made : HostCall} {rest : List Pending} {next : Next}
    {later h : History} {c : Situation}
    (honward : Onward made rest next later c) (hasked : next.Asked h) :
    acts (h ++ later) = acts h := by
  cases honward with
  | closes cancelled s =>
      have hnone : ∀ told found, (h.getLast?.or none) ≠
          some (.entered told found) := by
        rw [Option.or_none]
        exact hasked _ s rfl
      have hquestion : actsAfter (h.getLast?.or none)
          [.asked .isCancelled cancelled] = [] :=
        actsAfter_asked (asks_cons asks_nil) hnone
      rw [List.append_cons, acts_append _ id, History.acts, actsAfter_append,
        hquestion, List.append_nil]
      exact List.append_nil _
  | _ => rw [acts_append h id]; exact List.append_nil _

/-! ## What is remembered -/

theorem last_settlement_of_act {h h' : History} {a : Act}
    (hacts : acts h' = acts h ++ [a]) :
    (settlements h').getLast? = a.settles?.or (settlements h).getLast? := by
  have hone : ([a].filterMap Act.settles?).getLast? = a.settles? := by
    rw [List.filterMap_cons]
    cases a.settles? <;> rfl
  rw [settlements, hacts, List.filterMap_append, List.getLast?_append, hone]
  rfl

theorem HostCall.settles?_of_not_ending {made : HostCall}
    (hnone : made.ending? = none) (s : CoordinatorState) :
    made.settles? s = none := by
  rw [settles?, hnone]

theorem HostCall.settles?_of_settled {made : HostCall}
    {event : TransactionEvent} {status : TransactionStatus}
    {s : CoordinatorState} (hending : made.ending? = some (event, status))
    (hsettled : s.settled = event.transaction) :
    made.settles? s = none := by
  rw [settles?, hending]
  exact if_neg fun hboth => hboth.2 hsettled

theorem HostCall.settles?_of_open {made : HostCall} {event : TransactionEvent}
    {status : TransactionStatus} {s : CoordinatorState}
    (hending : made.ending? = some (event, status))
    (hopen : ∀ tx, event.transaction = some tx → s.settled ≠ some tx) :
    made.settles? s =
      if s.owned = event.transaction then event.transaction else none := by
  rw [settles?, hending]
  simp only []
  cases hnamed : event.transaction with
  | none => cases s.owned <;> simp
  | some tx =>
      by_cases howned : s.owned = some tx
      · rw [if_pos ⟨howned, hopen tx hnamed⟩, if_pos howned, howned]
      · rw [if_neg fun hboth => howned hboth.1, if_neg howned]

theorem settled_settleOwned (event : TransactionEvent) (s : CoordinatorState) :
    (settleOwned event s).settled =
      (if s.owned = event.transaction then event.transaction else none).or
        s.settled := by
  unfold settleOwned
  cases s.owned with
  | none => cases event.transaction <;> simp
  | some own =>
      cases event.transaction with
      | none => rfl
      | some tx =>
          by_cases hsame : own = tx
          · simp [hsame]
          · simp [hsame]

theorem owned_settleOwned (event : TransactionEvent) (s : CoordinatorState) :
    (settleOwned event s).owned =
      if s.owned = event.transaction then none else s.owned := by
  unfold settleOwned
  cases howned : s.owned with
  | none => cases event.transaction <;> simp [howned]
  | some own =>
      cases event.transaction with
      | none => simp [howned]
      | some tx => by_cases hsame : own = tx <;> simp [hsame, howned]

theorem Begins.settled {s : CoordinatorState} {made : HostCall}
    {asked : History} {next : Next} (hbegins : Begins s made asked next) :
    next.state.settled = (if admits asked then made.settles? s else none).or
      s.settled := by
  have hsame : made.ending? = none →
      (if admits asked then made.settles? s else none).or s.settled =
        s.settled := by
    intro hnone
    rw [HostCall.settles?_of_not_ending hnone, ite_self, Option.none_or]
  cases hbegins with
  | refused => rfl
  | busy hwaits => exact (hsame (HostCall.not_ending_of_waits hwaits)).symm
  | ignored hending hnamed hsettled =>
      rw [HostCall.settles?_of_settled hending (hsettled.trans hnamed.symm)]
      rfl
  | collected _ _ _ hcollects => cases hcollects <;> rfl
  | abandons hmade | releases hmade =>
      exact (hsame (HostCall.not_ending_of_abandoned hmade)).symm
  | ended hending hopen =>
      rw [HostCall.settles?_of_open hending hopen]
      exact settled_settleOwned _ s
  | _ => rfl

theorem Resumes.settled {s : CoordinatorState} {made : HostCall} {task : Task}
    {asked : History} {rest : List Pending} {next : Next}
    (orderly : Orderly s (⟨made, task⟩ :: rest))
    (hresumes : Resumes s task asked next) :
    ∃ (call : Call) (answer : call.Answer) (later : History),
      asked = .returned call answer :: later ∧ OnlyAsks later ∧
        next.state.settled = (Act.settles? (.back call answer)).or
          s.settled := by
  cases hresumes with
  | opened hcollects =>
      refine ⟨_, _, _, rfl, asks_cons hcollects.asks, ?_⟩
      cases hcollects <;> rfl
  | withdrawn => exact ⟨_, _, _, rfl, asks_cons asks_nil, rfl⟩
  | committed howned | undone _ _ howned =>
      exact ⟨_, _, _, rfl, asks_nil,
        congrArg some (orderly.owned_eq rfl howned)⟩
  | committedElsewhere hnone | undoneElsewhere _ hnone =>
      exact ⟨_, _, _, rfl, asks_nil, orderly.settled_of_owned_none rfl hnone⟩
  | _ => exact ⟨_, _, _, rfl, asks_nil, rfl⟩

theorem Onward.settled {made : HostCall} {rest : List Pending} {next : Next}
    {later : History} {c : Situation}
    (honward : Onward made rest next later c) :
    c.state.settled = next.state.settled := by
  cases honward with
  | closes => cases made <;> rfl
  | _ => rfl

/-- A situation whose state remembers the last settlement of the history. -/
structure Remembers (h : History) (c : Situation) : Prop where
  orderly : Orderly c.state c.pending
  settled : c.state.settled = (settlements h).getLast?

namespace Remembers

variable {h : History} {s : CoordinatorState} {rest : List Pending}
  {made : HostCall}

theorem begins {asked : History} {next : Next}
    (remembers : Remembers h ⟨s, rest⟩) (hbegins : Begins s made asked next) :
    Remembers (h ++ .entered made s :: asked) (next.situation made rest) where
  orderly := remembers.orderly.begins hbegins
  settled := by
    have hacts := hbegins.acts h
    rw [Next.state_situation, hbegins.settled]
    split at hacts
    · next hadmits =>
        rw [last_settlement_of_act hacts, ← remembers.settled, if_pos hadmits]
        rfl
    · next hrefused =>
        rw [settlements, hacts, List.append_nil, if_neg hrefused,
          Option.none_or]
        exact remembers.settled

theorem resumes {task : Task} {asked : History} {next : Next}
    (remembers : Remembers h ⟨s, ⟨made, task⟩ :: rest⟩)
    (hresumes : Resumes s task asked next) :
    Remembers (h ++ asked) (next.situation made rest) where
  orderly := remembers.orderly.resumes hresumes
  settled := by
    obtain ⟨call, answer, later, rfl, hasks, hsettled⟩ :=
      hresumes.settled remembers.orderly
    rw [Next.state_situation,
      last_settlement_of_act (acts_resumed h answer hasks), ← remembers.settled,
      hsettled]

theorem onward {next : Next} {later : History} {c : Situation}
    (remembers : Remembers h (next.situation made rest)) (hasked : next.Asked h)
    (honward : Onward made rest next later c) : Remembers (h ++ later) c where
  orderly := remembers.orderly.onward honward
  settled := by
    have hsettled := remembers.settled
    rw [Next.state_situation] at hsettled
    rw [honward.settled, hsettled, settlements, settlements,
      honward.acts hasked]

theorem initial : Remembers [] ⟨CoordinatorState.initial, []⟩ where
  orderly := .free rfl fun _ hp => absurd hp List.not_mem_nil
  settled := rfl

end Remembers

/-- The transaction that the coordinator remembers is the one that was settled
last, at any moment of a session. -/
theorem settled_eq_last_settlement {c : Situation} {h : History}
    (run : Run ⟨CoordinatorState.initial, []⟩ h c) :
    c.state.settled = (settlements h).getLast? :=
  (run.keeps Remembers
    (fun h made rest next => Remembers h (next.situation made rest))
    .begins .resumes .onward .initial).settled

/-- The host's word that a transaction has ended is ignored exactly if it is
the one that was settled last. It is then answered at once, nobody is called
and nothing of the state is changed. Otherwise someone is called. -/
theorem ignored_iff_settled_last {settings : CoordinatorSettings} {depth : Nat}
    {ts : List Turn} {s s' : CoordinatorState} {before after : History}
    {made : HostCall} {event : TransactionEvent} {status : TransactionStatus}
    {tx : TransactionId}
    (session : Session settings (Interlude.nested settings depth)
      CoordinatorState.initial ts s')
    (hsplit : accountOf ts =
      before ++ .entered made s :: .asked .isCancelled false :: after)
    (hending : made.ending? = some (event, status))
    (hnamed : event.transaction = some tx) :
    (∃ later, after = .left made (.ok ()) s :: later) ↔
      (settlements before).getLast? = some tx := by
  obtain ⟨c, c', step, rest, hbefore, hstep, -, hafter⟩ :=
    Run.cut (x := .entered made s) trivial session.run_nested hsplit
  obtain ⟨asked, next, later, rfl, hbegins, honward, rfl⟩ := hstep.of_entered
  rw [← settled_eq_last_settlement hbefore]
  rcases hbegins.of_ending hending with
    ⟨rfl, -⟩ | ⟨rfl, ⟨⟨own, hown, hsettled⟩, rfl⟩ | ⟨hopen, phase, rfl⟩⟩
  · cases hafter
  · -- The notice is ignored, so its turn is over at once.
    cases honward
    cases hafter
    refine ⟨fun _ => ?_, fun _ => ⟨rest, rfl⟩⟩
    rw [hsettled, ← hown, hnamed]
  · -- It is taken, so the report is still to be made.
    obtain ⟨call, rfl⟩ := honward.of_report
    cases hafter
    refine ⟨?_, fun hsettled => absurd hsettled (hopen tx hnamed)⟩
    rintro ⟨later, ⟨⟩⟩

namespace Sample

/-- The company, where the transaction that is opened is the n-th. -/
def opening (n : Nat) (c : Company) : Company where
  answers := c.answers
  replies
    | .begin => .ok (transaction n)
    | made => c.replies made
  meanwhile := c.meanwhile

/-- Two flushes, each in a transaction of its own. -/
def ownFlushes
    (meanwhile : Call → CoordinatorState → History × CoordinatorState) :
    List (Company × HostCall) :=
  [(opening 1 (company none (order 1) undisturbed), .startCollecting "req"),
    (company (some (transaction 1)) (order 1) meanwhile, .finish "req"),
    (opening 2 (company none (order 2) undisturbed), .startCollecting "req"),
    (company (some (transaction 2)) (order 2) undisturbed, .finish "req")]

theorem ownFlushes_session
    {meanwhile : Call → CoordinatorState → History × CoordinatorState}
    {depth : Nat}
    (within : (company (some (transaction 1)) (order 1) meanwhile).Within
      (Interlude.nested (settings true) depth))
    (n : Nat) :
    let ts := turnsIn (settings true) CoordinatorState.initial
      (ownFlushes meanwhile ++ [reported n])
    Session (settings true) (Interlude.nested (settings true) depth)
      CoordinatorState.initial ts
      (endOf CoordinatorState.initial ts) := by
  have quiet : ∀ current entry,
      (company current entry undisturbed).Within
        (Interlude.nested (settings true) depth) :=
    fun current entry => undisturbed_within _ current entry depth
  refine session_turnsIn _ _ fun play hmem => ?_
  simp only [ownFlushes, List.cons_append, List.nil_append, List.mem_cons,
    List.not_mem_nil, or_false] at hmem
  rcases hmem with rfl | rfl | rfl | rfl | rfl
  · exact quiet none (order 1)
  · exact within
  · exact quiet none (order 2)
  · exact quiet _ _
  · exact quiet _ _

end Sample

/-- A notice is raised inside the first of two commits, and a late one about
the second is ignored. -/
theorem ignored_iff_settled_last_disturbed :
    let past := turnsIn (Sample.settings true) CoordinatorState.initial
      (Sample.ownFlushes Sample.disturbed)
    let t := Turn.inCompany (Sample.settings true) (Sample.reported 2).1
      (Sample.reported 2).2
      (endOf CoordinatorState.initial past)
    t.Admitted ∧
      (settlements (accountOf past)).getLast? = some (Sample.transaction 2) ∧
      ∃ later, t.history.tail ++ [.left t.made t.outcome t.after] =
        .left t.made (.ok ()) t.before :: later := by
  intro past t
  have admitted : t.Admitted := Turn.admitted_inCompany rfl rfl _
  have hlast : (settlements (accountOf past)).getLast? =
      some (Sample.transaction 2) := by
    decide +kernel
  have hsplit : accountOf
      (turnsIn (Sample.settings true) CoordinatorState.initial
      (Sample.ownFlushes Sample.disturbed ++ [Sample.reported 2])) =
      accountOf past ++ .entered t.made t.before :: .asked .isCancelled false ::
        (t.history.tail ++ [.left t.made t.outcome t.after]) := by
    rw [turnsIn_append, accountOf_append, ← admitted.account_eq]
    exact congrArg (accountOf past ++ ·) (List.append_nil t.account)
  have hending : t.made.ending? = some (Sample.notice 2, .committed) := by
    rw [show t.made = .transactionCommitted (Sample.notice 2) from
      Turn.made_inCompany _ _ _ _]
    rfl
  exact ⟨admitted, hlast, (ignored_iff_settled_last
    (Sample.ownFlushes_session (Sample.disturbed_within _ _) 2) hsplit hending
      rfl).mpr hlast⟩

/-- When the second commit is over the first transaction is forgotten. A late
notice about it is reported to the consumer once more. -/
theorem forgotten_settlement_reported_again :
    let past := turnsIn (Sample.settings true) CoordinatorState.initial
      (Sample.ownFlushes Sample.undisturbed)
    let t := Turn.inCompany (Sample.settings true) (Sample.reported 1).1
      (Sample.reported 1).2
      (endOf CoordinatorState.initial past)
    Session (Sample.settings true) Interlude.quiet CoordinatorState.initial
      (past ++ [t]) t.after ∧
      begun (accountOf past) = [Sample.transaction 1, Sample.transaction 2] ∧
      settlements (accountOf past) =
        [Sample.transaction 1, Sample.transaction 2] ∧
      t.Admitted ∧ t.made = .transactionCommitted (Sample.notice 1) ∧
      reports t.history = [(Sample.notice 1, .committed)] := by
  intro past t
  have session :=
    Sample.ownFlushes_session (Sample.undisturbed_within _ _ _ 0) 1
  rw [turnsIn_append] at session
  exact ⟨session, by decide +kernel, by decide +kernel,
    Turn.admitted_inCompany rfl rfl _, Turn.made_inCompany _ _ _ _,
    by decide +kernel⟩

end AuditTrail
