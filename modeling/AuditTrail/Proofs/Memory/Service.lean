import AuditTrail.Proofs.Coordinator.Course
import AuditTrail.Proofs.Memory.Edits

/-!
# Serving a unit of work in memory

A coordinator whose unit of work is one in memory, and whom nobody calls
while it calls others. Most of what it is told is then settled: the snapshot,
the keys, the current transaction, and what becomes of a commit. What is left
open are the `Circumstances`, and they may depend on everything that happened
before, so a theorem about all circumstances is about every consumer, every
token and every source of identities.

With the circumstances given a conversation is a function, `Exchange.hold`,
and so is a whole run, `Desk.run`. It keeps the history and what the log was
told. `Exchange.way_hold` ties the function to the ways of `Way.lean`: what it
computes is an undisturbed way, so nothing proved of those has to be proved
again.
-/

namespace AuditTrail

/-- What neither a coordinator nor its unit of work decides, as it turns out
after a history. -/
structure Circumstances where
  cancelled : History → Bool
  recordId : History → RecordId
  time : History → Instant
  transactionId : History → TransactionId
  /-- What the consumer answers to the call that comes last in the history. -/
  consumer : History → Outcome

/-- The token is never cancelled. -/
def Circumstances.Uncancelled (c : Circumstances) : Prop :=
  ∀ h, c.cancelled h = false

/-- A unit of work, and what has happened and was logged at it so far. -/
structure Proceedings where
  work : MemoryUnitOfWork
  history : History
  log : List LogEvent

namespace Proceedings

def answer (c : Circumstances) (p : Proceedings) :
    (query : Query) → query.Answer
  | .isCancelled => c.cancelled p.history
  | .currentTransaction => p.work.transaction
  | .entries => p.work.entries
  | .primaryKey entity => p.work.primaryKey entity
  | .freshRecordId => c.recordId p.history
  | .now => c.time p.history

/-- What is answered to a call, and the unit of work after it. -/
def reply (c : Circumstances) (p : Proceedings) :
    (made : Call) → made.Answer × MemoryUnitOfWork
  | .begin => p.work.begin (c.transactionId p.history)
  | .commit tx => p.work.commit tx
  | .rollback tx => p.work.rollback tx
  | .consume records =>
      (c.consumer (p.history ++ [.called (.consume records)]), p.work)
  | .preCommit records event =>
      (c.consumer (p.history ++ [.called (.preCommit records event)]), p.work)
  | .finished event status =>
      (c.consumer (p.history ++ [.called (.finished event status)]), p.work)

/-- The unit of work takes the answer that it gives at its word. -/
theorem transaction_reply (c : Circumstances) (p : Proceedings) (made : Call) :
    (p.reply c made).2.transaction =
      Happening.leavesOpen p.work.transaction
        (.returned made (p.reply c made).1) := by
  cases made with
  | begin =>
      cases htx : p.work.transaction with
      | none => rw [reply, p.work.begin_of_none htx]; rfl
      | some tx => simp only [reply, MemoryUnitOfWork.begin, htx]; rfl
  | commit tx =>
      by_cases htx : p.work.transaction = some tx
      · cases harmed : p.work.commitFailureArmed with
        | true => rw [reply, p.work.commit_of_armed htx harmed]; rfl
        | false =>
            rw [reply, p.work.commit_of_unarmed htx harmed]
            exact (if_pos htx).symm
      · rw [reply, MemoryUnitOfWork.commit, if_pos htx]
        rfl
  | rollback tx =>
      by_cases htx : p.work.transaction = some tx
      · exact (p.work.transaction_release htx).trans (if_pos htx).symm
      · rw [reply, MemoryUnitOfWork.rollback, if_pos htx]
        exact (if_neg htx).symm
  | consume _ | preCommit _ _ | finished _ _ => rfl

def asked (c : Circumstances) (p : Proceedings) (query : Query) : Proceedings :=
  { p with history := p.history ++ [.asked query (p.answer c query)] }

def called (c : Circumstances) (p : Proceedings) (made : Call) : Proceedings :=
  { p with
    work := (p.reply c made).2
    history := p.history ++ [.called made, .returned made (p.reply c made).1] }

def logged (p : Proceedings) (event : LogEvent) : Proceedings :=
  { p with log := p.log ++ [event] }

end Proceedings

namespace Exchange

variable {α β : Type}

/-- Holds a conversation: its result, the state it leaves and the proceedings
after it. -/
def hold (c : Circumstances) :
    Exchange α → Proceedings → α × CoordinatorState × Proceedings
  | .done s a, p => (a, s, p)
  | .ask query resume, p => (resume (p.answer c query)).hold c (p.asked c query)
  | .call s made resume, p =>
      (resume s (p.reply c made).1).hold c (p.called c made)
  | .log event next, p => next.hold c (p.logged event)

theorem hold_bind (c : Circumstances) (x : Exchange α)
    (next : α → CoordinatorState → Exchange β) : ∀ p : Proceedings,
    (x.bind next).hold c p =
      (next (x.hold c p).1 (x.hold c p).2.1).hold c (x.hold c p).2.2 := by
  induction x with
  | done s a => intro p; rfl
  | ask query resume ih => intro p; exact ih _ _
  | call s made resume ih => intro p; exact ih _ _ _
  | log event next ih => intro p; exact ih _

/-- What is held is an undisturbed way, and the unit of work has the
transaction that is open after it. -/
theorem way_hold (c : Circumstances) (x : Exchange α) : ∀ p : Proceedings, ∃ h,
    (x.hold c p).2.2.history = p.history ++ h ∧
      x.Way Interlude.quiet h (x.hold c p).1 (x.hold c p).2.1 ∧
      (x.hold c p).2.2.work.transaction = h.openAfter p.work.transaction := by
  induction x with
  | done s a => intro p; exact ⟨[], (List.append_nil _).symm, .done s a, rfl⟩
  | ask query resume ih =>
      intro p
      obtain ⟨h, hhistory, way, htx⟩ := ih (p.answer c query) (p.asked c query)
      exact ⟨_, hhistory.trans (List.append_assoc _ _ _),
        .ask query resume _ way, htx⟩
  | call s made resume ih =>
      intro p
      obtain ⟨h, hhistory, way, htx⟩ :=
        ih s (p.reply c made).1 (p.called c made)
      have lasts : Interlude.quiet s [] s := ⟨rfl, rfl⟩
      refine ⟨_, hhistory.trans (List.append_assoc _ _ _),
        .call s made resume _ lasts way, ?_⟩
      refine htx.trans ?_
      rw [show (p.called c made).work = (p.reply c made).2 from rfl,
        p.transaction_reply]
      rfl
  | log event next ih =>
      intro p
      obtain ⟨h, hhistory, way, htx⟩ := ih (p.logged event)
      exact ⟨h, hhistory, .log event next way, htx⟩

end Exchange

namespace Coordinating

variable {α β : Type} {c : Circumstances} {s s' : CoordinatorState}
  {p p' : Proceedings}

/-- What is done first is held first. -/
theorem hold_bind_of {m : Coordinating α} {f : α → Coordinating β} {a : α}
    (hm : (m s).hold c p = (a, s', p')) :
    ((m >>= f) s).hold c p = (f a s').hold c p' := by
  refine (Exchange.hold_bind c (m s) f p).trans ?_
  rw [hm]

theorem hold_bind_grows (c : Circumstances) (m : Coordinating α)
    (f : α → Coordinating β) (s : CoordinatorState) (p : Proceedings) :
    ∃ later, (((m >>= f) s).hold c p).2.2.history =
      ((m s).hold c p).2.2.history ++ later := by
  obtain ⟨later, hlater, -⟩ :=
    Exchange.way_hold c (f ((m s).hold c p).1 ((m s).hold c p).2.1)
      ((m s).hold c p).2.2
  exact ⟨later,
    (congrArg (·.2.2.history) (Exchange.hold_bind c (m s) f p)).trans hlater⟩

theorem hold_pure (a : α) :
    ((pure a : Coordinating α) s).hold c p = (a, s, p) := rfl

theorem hold_state : (state s).hold c p = (s, s, p) := rfl

theorem hold_change (f : CoordinatorState → CoordinatorState) :
    (change f s).hold c p = ((), f s, p) := rfl

theorem hold_log (event : LogEvent) :
    (log event s).hold c p = ((), s, p.logged event) := rfl

theorem hold_ask (query : Query) :
    (ask query s).hold c p = (p.answer c query, s, p.asked c query) := rfl

theorem hold_call (made : Call) :
    (call made s).hold c p = ((p.reply c made).1, s, p.called c made) := rfl

theorem hold_enter (phase : LifecyclePhase) :
    (Coordinator.enter phase s).hold c p = ((), { s with phase := phase }, p) :=
  rfl

end Coordinating

/-! ## Desks -/

/-- The calls with which a host goes around a flush. -/
inductive SaveCall where
  | start
  | finish
  | abandon (reason : FlushFailure)
  deriving DecidableEq

namespace SaveCall

def toHostCall (context : String) : SaveCall → HostCall
  | start => .startCollecting context
  | finish => .finish context
  | abandon .failed => .saveFailed context
  | abandon .canceled => .saveCanceled context

theorem serve_abandon (settings : CoordinatorSettings) (context : String)
    (reason : FlushFailure) :
    Coordinator.serve settings ((abandon reason).toHostCall context) =
      Coordinator.abandonFlush context reason := by
  cases reason <;> rfl

end SaveCall

/-- A coordinator with its unit of work, and the results of the calls so far. -/
structure Desk extends Proceedings where
  coordinator : CoordinatorState
  outcomes : List Outcome

/-- What a host does: it edits the unit of work, or calls the coordinator. -/
inductive HostStep where
  | edit (edit : Edit)
  | save (call : SaveCall)

namespace Desk

/-- A desk where nothing has happened yet. -/
def new (s : CoordinatorState) (u : MemoryUnitOfWork) : Desk :=
  ⟨⟨u, [], []⟩, s, []⟩

def edit (e : Edit) (d : Desk) : Desk := { d with work := e.apply d.work }

def save (settings : CoordinatorSettings) (c : Circumstances) (call : SaveCall)
    (d : Desk) : Desk :=
  let held := (Coordinator.serve settings (call.toHostCall d.work.contextId)
    d.coordinator).hold c d.toProceedings
  ⟨held.2.2, held.2.1, d.outcomes ++ [held.1]⟩

def step (settings : CoordinatorSettings) (c : Circumstances) (d : Desk) :
    HostStep → Desk
  | .edit e => d.edit e
  | .save call => d.save settings c call

def run (settings : CoordinatorSettings) (c : Circumstances) (d : Desk)
    (script : List HostStep) :
    Desk :=
  script.foldl (step settings c) d

theorem save_eq (settings : CoordinatorSettings) (call : SaveCall)
    {c : Circumstances} {d : Desk} {outcome : Outcome} {s : CoordinatorState}
    {p : Proceedings}
    (hheld : (Coordinator.serve settings (call.toHostCall d.work.contextId)
      d.coordinator).hold c
      d.toProceedings = (outcome, s, p)) :
    d.save settings c call = ⟨p, s, d.outcomes ++ [outcome]⟩ := by
  unfold save
  rw [hheld]

/-- A call at a desk is an undisturbed turn. -/
theorem taken_save (settings : CoordinatorSettings) (c : Circumstances)
    (call : SaveCall) (d : Desk) :
    ∃ h outcome,
        (Turn.mk d.coordinator (call.toHostCall d.work.contextId) h outcome
        (d.save settings c call).coordinator).Taken settings Interlude.quiet ∧
      (d.save settings c call).history = d.history ++ h ∧
      (d.save settings c call).outcomes = d.outcomes ++ [outcome] ∧
      (d.save settings c call).work.transaction =
        h.openAfter d.work.transaction := by
  obtain ⟨h, hhistory, way, htx⟩ := Exchange.way_hold c
    (Coordinator.serve settings (call.toHostCall d.work.contextId)
      d.coordinator) d.toProceedings
  exact ⟨h, _, way, hhistory, rfl, htx⟩

/-- Between the calls at a desk no commit is ever in progress. -/
theorem idle_save (settings : CoordinatorSettings) (c : Circumstances)
    (call : SaveCall) {d : Desk}
    (hidle : d.coordinator.commitInProgress = false) :
    (d.save settings c call).coordinator.commitInProgress = false := by
  obtain ⟨_, _, taken, -⟩ := taken_save settings c call d
  exact taken.course.idle hidle

theorem run_append (settings : CoordinatorSettings) (c : Circumstances)
    (d : Desk) (first second : List HostStep) :
    d.run settings c (first ++ second) =
      (d.run settings c first).run settings c second :=
  List.foldl_append

theorem run_cons (settings : CoordinatorSettings) (c : Circumstances) (d : Desk)
    (first : HostStep) (rest : List HostStep) :
    d.run settings c (first :: rest) =
      (d.step settings c first).run settings c rest := rfl

end Desk

namespace Sample

/-- Nothing is cancelled, identities count up with the history, and the
consumer always gives one answer. -/
def circumstances (answer : Outcome) : Circumstances where
  cancelled _ := false
  recordId h := ⟨⟨BitVec.ofNat 128 h.length⟩⟩
  time _ := Instant.epoch
  transactionId h := transaction h.length
  consumer _ := answer

theorem uncancelled_circumstances (answer : Outcome) :
    (circumstances answer).Uncancelled :=
  fun _ => rfl

end Sample
end AuditTrail
