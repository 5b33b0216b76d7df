import AuditTrail.Proofs.Coordinator.Course

/-!
# The situation of a coordinator

A collaborator that is called may call the coordinator again, so at any moment
several pieces of the coordinator can be under way: one that is at work, and
others that wait for the end of the calls they made, each inside the one
before. A `Situation` is the state together with what these pieces still have
to do, the innermost first.

Between two calls the state is the coordinator's own. What it does from one
moment at which the state is handed to it to the next at which it gives it
away is a single `Step`. There are two kinds, a new turn begins or a call
comes back, and `Begins` and `Resumes` list what each can come to, with all
that becomes of the state. `Onward` is the end that all steps share: the
coordinator calls someone and waits, or it has done what it was told.

`Following.lean` shows that whatever is nested in whatever, a session is a
`Situation.Run`. So what each step keeps holds throughout every session, also
in the middle of a call, where the account of a session has no state to show.
-/

namespace AuditTrail

open Coordinator History

/-- What a piece of the coordinator still has to do. -/
inductive Task where
  /-- To own the transaction that is being opened. -/
  | opening (context : String)
  /-- To settle a transaction that was taken from the state and is being rolled
  back. -/
  | releasing (context : String) (tx : TransactionId)
  /-- To commit the owned transaction, whose batch is being announced. -/
  | announcingOwn (context : String) (tx : TransactionId)
      (batch : List AuditRecord)
  /-- To deliver the batch of the owned transaction if its commit succeeds. -/
  | committing (context : String) (tx : TransactionId)
      (batch : List AuditRecord)
  /-- To settle the owned transaction, whose commit failed. -/
  | undoing (context : String) (tx : TransactionId)
  /-- To put back a batch that is being announced for the host. -/
  | announcing (event : TransactionEvent) (batch : List AuditRecord)
  /-- To deliver records and to report an end, if there is anything of it
  left. -/
  | errand (records : List AuditRecord)
      (report : Option (TransactionEvent × TransactionStatus))

/-- The call that a piece makes and waits for before it does its task. An
errand is a task about which nothing needs to be awaited. -/
def Task.call? : Task → Option Call
  | opening _ => some .begin
  | releasing _ tx => some (.rollback tx)
  | announcingOwn context tx batch => some (.preCommit batch ⟨context, some tx⟩)
  | committing _ tx _ => some (.commit tx)
  | undoing _ tx => some (.rollback tx)
  | announcing event batch => some (.preCommit batch event)
  | errand _ _ => none

/-- A piece that is under way: what the host said, and what is left of it. -/
structure Pending where
  made : HostCall
  task : Task

/-- What the pieces under way amount to when each task weighs so much. -/
def Pending.total (weight : Task → Nat) : List Pending → Nat
  | [] => 0
  | p :: rest => weight p.task + total weight rest

@[simp] theorem Pending.total_cons (weight : Task → Nat) (made : HostCall)
    (task : Task) (rest : List Pending) :
    total weight (⟨made, task⟩ :: rest) = weight task + total weight rest := rfl

/-- The state of a coordinator and its pieces that are under way, the
innermost first. -/
structure Situation where
  state : CoordinatorState
  pending : List Pending

/-- What a piece comes to when it has worked on the state: its end, or a
task. -/
inductive Next where
  | ends (outcome : Outcome) (s : CoordinatorState)
  | goesOn (task : Task) (s : CoordinatorState)

def Next.state : Next → CoordinatorState
  | ends _ s => s
  | goesOn _ s => s

/-- The situation in which a piece has come to something. -/
def Next.situation (made : HostCall) (rest : List Pending) : Next → Situation
  | ends _ s => ⟨s, rest⟩
  | goesOn task s => ⟨s, ⟨made, task⟩ :: rest⟩

@[simp] theorem Next.state_situation (made : HostCall) (rest : List Pending)
    (next : Next) :
    (next.situation made rest).state = next.state := by
  cases next <;> rfl

/-- Whether the host may say this only while no commit is in progress. Said in
the middle of one, it does nothing. -/
def HostCall.waitsForCommit : HostCall → Bool
  | .startCollecting _ => true
  | .finish _ => true
  | .transactionCommitting _ => true
  | _ => false

theorem HostCall.not_ending_of_waits {made : HostCall}
    (hwaits : made.waitsForCommit) :
    made.ending? = none := by
  cases made <;> first | rfl | cases hwaits

/-- What becomes of the state at the end of a turn. -/
def HostCall.close (made : HostCall) (s : CoordinatorState) :
    CoordinatorState :=
  match made with
  | .finish _ => { s with phase := .idle }
  | _ => s

/-- The snapshot is captured, or a rule refuses it. -/
inductive Collects (s : CoordinatorState) : History → Next → Prop where
  | captured {asked : History} {captures : List Capture} (hreads : Reads asked)
      (hissued : captures.map (·.id) = issued asked) :
      Collects s asked (.ends (.ok ())
        { s with captures := CoordinatorState.mergeCaptures s.captures captures,
                 phase := .awaitingWrite })
  | refused {asked : History} (hreads : Reads asked) (e : AuditError) :
      Collects s asked (.ends (.error e) { s with phase := .idle })

/-- What the coordinator does when it is told something, up to its first
call. -/
inductive Begins (s : CoordinatorState) : HostCall → History → Next → Prop where
  | refused {made : HostCall} (htoken : made.hasToken) :
      Begins s made [.asked .isCancelled true] (.ends (.error .cancelled) s)
  | busy {made : HostCall} (hwaits : made.waitsForCommit)
      (hbusy : s.commitInProgress = true) :
      Begins s made [.asked .isCancelled false] (.ends (.ok ()) s)
  | ignored {made : HostCall} {event : TransactionEvent}
      {status : TransactionStatus} {tx : TransactionId}
      (hending : made.ending? = some (event, status))
      (hnamed : event.transaction = some tx) (hsettled : s.settled = some tx) :
      Begins s made [.asked .isCancelled false] (.ends (.ok ()) s)
  | collected {context : String} {asked : History} {next : Next}
      (hidle : s.commitInProgress = false) (current : Option TransactionId)
      (transactionPhase : TransactionPhase)
      (hcollects : Collects
        { s with phase := .capturing, transactionPhase := transactionPhase }
        asked next) :
      Begins s (.startCollecting context)
        (.asked .isCancelled false :: .asked .currentTransaction current ::
          asked) next
  | opens {context : String} (hidle : s.commitInProgress = false) :
      Begins s (.startCollecting context)
        [.asked .isCancelled false, .asked .currentTransaction none]
        (.goesOn (.opening context) { s with phase := .capturing })
  | flushed {context : String} {asked : History}
      (hidle : s.commitInProgress = false) (hreads : Reads asked) :
      Begins s (.finish context)
        (.asked .isCancelled false ::
          (asked ++ [.asked .currentTransaction none]))
        (.goesOn (.errand (promotions s.captures (keys asked)) none)
          { s with phase := .immediateDispatch, captures := [], batch := [] })
  | batched {context : String} {asked : History} {tx : TransactionId}
      (hidle : s.commitInProgress = false) (hreads : Reads asked)
      (hother : s.owned ≠ some tx) (transactionPhase : TransactionPhase) :
      Begins s (.finish context)
        (.asked .isCancelled false ::
          (asked ++ [.asked .currentTransaction (some tx)]))
        (.goesOn (.errand [] none)
          { s with phase := .batching, transactionPhase := transactionPhase,
                   captures := [],
                   batch := s.batch ++ promotions s.captures (keys asked) })
  | commits {context : String} {asked : History} {tx : TransactionId}
      (hidle : s.commitInProgress = false) (hreads : Reads asked)
      (howned : s.owned = some tx)
      (hempty : s.batch ++ promotions s.captures (keys asked) = []) :
      Begins s (.finish context)
        (.asked .isCancelled false ::
          (asked ++ [.asked .currentTransaction (some tx)]))
        (.goesOn (.committing context tx [])
          { s with phase := .batching, transactionPhase := .committing,
                   captures := [],
                   batch := [], commitInProgress := true })
  | announcesOwn {context : String} {asked : History} {tx : TransactionId}
      {batch : List AuditRecord} (hidle : s.commitInProgress = false)
      (hreads : Reads asked) (howned : s.owned = some tx)
      (hbatch : s.batch ++ promotions s.captures (keys asked) = batch)
      (hne : batch ≠ []) :
      Begins s (.finish context)
        (.asked .isCancelled false ::
          (asked ++ [.asked .currentTransaction (some tx)]))
        (.goesOn (.announcingOwn context tx batch)
          { s with phase := .batching, transactionPhase := .committing,
                   captures := [],
                   batch := [], commitInProgress := true })
  | abandons {made : HostCall} {context : String}
      (hmade : made.abandoned? = some context) (hnone : s.owned = none) :
      Begins s made [.asked .isCancelled false]
        (.goesOn (.errand [] none) { s with captures := [], phase := .idle })
  | releases {made : HostCall} {context : String} {tx : TransactionId}
      (hmade : made.abandoned? = some context) (howned : s.owned = some tx) :
      Begins s made [.asked .isCancelled false]
        (.goesOn (.releasing context tx)
          { s with captures := [], phase := .idle, owned := none })
  | passes {event : TransactionEvent} (hidle : s.commitInProgress = false)
      (hempty : s.batch = []) :
      Begins s (.transactionCommitting event) [.asked .isCancelled false]
        (.goesOn (.errand [] none) { s with transactionPhase := .committing })
  | announces {event : TransactionEvent} (hidle : s.commitInProgress = false)
      (hne : s.batch ≠ []) :
      Begins s (.transactionCommitting event) [.asked .isCancelled false]
        (.goesOn (.announcing event s.batch)
          { s with transactionPhase := .committing, batch := [] })
  | ended {made : HostCall} {event : TransactionEvent}
      {status : TransactionStatus}
      (hending : made.ending? = some (event, status))
      (hopen : ∀ tx, event.transaction = some tx → s.settled ≠ some tx)
      (transactionPhase : TransactionPhase) :
      Begins s made [.asked .isCancelled false]
        (.goesOn (.errand (if status = .committed then s.batch else [])
          (some (event, status)))
          { settleOwned event s with
            transactionPhase := transactionPhase, batch := [] })
  | clearedCaptures :
      Begins s .clearCaptures [] (.ends (.ok ()) { s with captures := [] })
  | clearedBatch :
      Begins s .clearBatch [] (.ends (.ok ()) { s with batch := [] })

/-- What the coordinator does when a call comes back to a piece with a task,
up to the next call. -/
inductive Resumes (s : CoordinatorState) : Task → History → Next → Prop where
  | failedToOpen {context : String} (e : AuditError) :
      Resumes s (.opening context) [.returned .begin (.error e)]
        (.ends (.error e) { s with phase := .idle })
  | opened {context : String} {tx : TransactionId} {asked : History}
      {next : Next}
      (hcollects : Collects
        { s with owned := some tx, transactionPhase := .opened } asked next) :
      Resumes s (.opening context)
        (.returned .begin (.ok tx) :: .asked .isCancelled false :: asked) next
  | withdrawn {context : String} (tx : TransactionId) :
      Resumes s (.opening context) [.returned .begin (.ok tx),
        .asked .isCancelled true]
        (.goesOn (.releasing context tx)
          { s with owned := none, transactionPhase := .opened })
  | released {context : String} {tx : TransactionId}
      (answer : (Call.rollback tx).Answer)
      (transactionPhase : TransactionPhase) :
      Resumes s (.releasing context tx) [.returned (.rollback tx) answer]
        (.goesOn (.errand [] (some (⟨context, some tx⟩, .rolledBack)))
          { s with settled := some tx, transactionPhase := transactionPhase,
                   batch := [] })
  | announcedOwn {context : String} {tx : TransactionId}
      {batch : List AuditRecord}
      (answer : (Call.preCommit batch ⟨context, some tx⟩).Answer) :
      Resumes s (.announcingOwn context tx batch)
        [.returned (.preCommit batch ⟨context, some tx⟩) answer]
        (.goesOn (.committing context tx batch) s)
  | committed {context : String} {tx own : TransactionId}
      {batch : List AuditRecord} (howned : s.owned = some own) :
      Resumes s (.committing context tx batch) [.returned (.commit tx) (.ok ())]
        (.goesOn (.errand batch (some (⟨context, some tx⟩, .committed)))
          { s with commitInProgress := false, owned := none,
                   settled := some own,
                   transactionPhase := .committed })
  | committedElsewhere {context : String} {tx : TransactionId}
      {batch : List AuditRecord} (hnone : s.owned = none) :
      Resumes s (.committing context tx batch) [.returned (.commit tx) (.ok ())]
        (.goesOn (.errand batch none) { s with commitInProgress := false })
  | failedToCommit {context : String} {tx : TransactionId}
      {batch : List AuditRecord} (e : AuditError) :
      Resumes s (.committing context tx batch)
        [.returned (.commit tx) (.error e)]
        (.goesOn (.undoing context tx) s)
  | undone {context : String} {tx own : TransactionId}
      (answer : (Call.rollback tx).Answer) (transactionPhase : TransactionPhase)
      (howned : s.owned = some own) :
      Resumes s (.undoing context tx) [.returned (.rollback tx) answer]
        (.goesOn (.errand [] (some (⟨context, some tx⟩, .failed)))
          { s with commitInProgress := false, owned := none,
                   settled := some own,
                   transactionPhase := transactionPhase })
  | undoneElsewhere {context : String} {tx : TransactionId}
      (answer : (Call.rollback tx).Answer) (hnone : s.owned = none) :
      Resumes s (.undoing context tx) [.returned (.rollback tx) answer]
        (.goesOn (.errand [] none) { s with commitInProgress := false })
  | announced {event : TransactionEvent} {batch : List AuditRecord}
      (answer : (Call.preCommit batch event).Answer) :
      Resumes s (.announcing event batch)
        [.returned (.preCommit batch event) answer]
        (.goesOn (.errand [] none) { s with batch := batch ++ s.batch })
  | delivered {records : List AuditRecord}
      {report : Option (TransactionEvent × TransactionStatus)}
      (answer : (Call.consume records).Answer) :
      Resumes s (.errand [] report) [.returned (.consume records) answer]
        (.goesOn (.errand [] report) s)
  | reported {event : TransactionEvent} {status : TransactionStatus}
      (answer : (Call.finished event status).Answer) :
      Resumes s (.errand [] none) [.returned (.finished event status) answer]
        (.goesOn (.errand [] none) s)

/-- How a piece that has come to something goes on: it calls and waits, or its
turn is over. -/
inductive Onward (made : HostCall) (rest : List Pending) :
    Next → History → Situation → Prop where
  | ends (outcome : Outcome) (s : CoordinatorState) :
      Onward made rest (.ends outcome s) [.left made outcome s] ⟨s, rest⟩
  | waits {task : Task} {call : Call} (s : CoordinatorState)
      (hcall : task.call? = some call) :
      Onward made rest (.goesOn task s) [.called call] ⟨s, ⟨made, task⟩ :: rest⟩
  | delivers {records : List AuditRecord} (hne : records ≠ [])
      (report : Option (TransactionEvent × TransactionStatus))
      (s : CoordinatorState) :
      Onward made rest (.goesOn (.errand records report) s)
        [.called (.consume records)]
        ⟨s, ⟨made, .errand [] report⟩ :: rest⟩
  | reports (event : TransactionEvent) (status : TransactionStatus)
      (s : CoordinatorState) :
      Onward made rest (.goesOn (.errand [] (some (event, status))) s)
        [.called (.finished event status)] ⟨s, ⟨made, .errand [] none⟩ :: rest⟩
  | closes (cancelled : Bool) (s : CoordinatorState)
      (hother : ∀ context, made ≠ .startCollecting context) :
      Onward made rest (.goesOn (.errand [] none) s)
        [.asked .isCancelled cancelled,
          .left made (if cancelled then .error .cancelled else .ok ())
            (made.close s)]
        ⟨made.close s, rest⟩
  | gives {context : String} (s : CoordinatorState)
      (hmade : made = .startCollecting context) :
      Onward made rest (.goesOn (.errand [] none) s)
        [.left made (.error .cancelled) { s with phase := .idle }]
        ⟨{ s with phase := .idle }, rest⟩

/-! ## Notices -/

/-- A notice is refused, or ignored, or it takes the batch. -/
theorem Begins.of_ending {s : CoordinatorState} {made : HostCall}
    {asked : History} {next : Next} {event : TransactionEvent}
    {status : TransactionStatus} (hbegins : Begins s made asked next)
    (hending : made.ending? = some (event, status)) :
    (asked = [.asked .isCancelled true] ∧ next = .ends (.error .cancelled) s) ∨
      asked = [.asked .isCancelled false] ∧
        ((∃ tx, event.transaction = some tx ∧ s.settled = some tx) ∧
          next = .ends (.ok ()) s ∨
          (∀ tx, event.transaction = some tx → s.settled ≠ some tx) ∧
            ∃ transactionPhase, next = .goesOn
              (.errand (if status = .committed then s.batch else [])
                (some (event, status)))
              { settleOwned event s with
                transactionPhase := transactionPhase, batch := [] }) := by
  cases hbegins with
  | refused => exact .inl ⟨rfl, rfl⟩
  | busy hwaits =>
      rw [HostCall.not_ending_of_waits hwaits] at hending
      cases hending
  | ignored hother hnamed hsettled =>
      cases hending.symm.trans hother
      exact .inr ⟨rfl, .inl ⟨⟨_, hnamed, hsettled⟩, rfl⟩⟩
  | ended hother hopen transactionPhase =>
      cases hending.symm.trans hother
      exact .inr ⟨rfl, .inr ⟨hopen, transactionPhase, rfl⟩⟩
  | abandons hmade | releases hmade =>
      rw [HostCall.not_ending_of_abandoned hmade] at hending
      cases hending
  | _ => cases hending

theorem Onward.of_report {made : HostCall} {rest : List Pending}
    {records : List AuditRecord} {report : TransactionEvent × TransactionStatus}
    {s : CoordinatorState} {later : History} {c : Situation}
    (honward : Onward made rest (.goesOn (.errand records (some report)) s)
      later c) :
    ∃ call, later = [.called call] := by
  cases honward with
  | waits _ hcall => cases hcall
  | delivers | reports => exact ⟨_, rfl⟩

/-! ## What a step asks

Besides the moment at which the state is handed over and the one at which it
is given away, a step consists of questions. -/

theorem Collects.asks {s : CoordinatorState} {asked : History} {next : Next}
    (hcollects : Collects s asked next) : OnlyAsks asked := by
  cases hcollects with
  | captured hreads | refused hreads => exact hreads.asks

theorem Begins.asks {s : CoordinatorState} {made : HostCall} {asked : History}
    {next : Next} (hbegins : Begins s made asked next) : OnlyAsks asked := by
  cases hbegins with
  | collected _ _ _ hcollects => exact asks_cons (asks_cons hcollects.asks)
  | flushed _ hreads | batched _ hreads | commits _ hreads
  | announcesOwn _ hreads =>
      exact asks_cons (hreads.asks.append (asks_cons asks_nil))
  | clearedCaptures | clearedBatch => exact asks_nil
  | opens => exact asks_cons (asks_cons asks_nil)
  | _ => exact asks_cons asks_nil

theorem Resumes.head {s : CoordinatorState} {task : Task} {asked : History}
    {next : Next} (hresumes : Resumes s task asked next) :
    ∃ (call : Call) (answer : call.Answer) (later : History),
      asked = .returned call answer :: later ∧ OnlyAsks later := by
  cases hresumes with
  | opened hcollects => exact ⟨_, _, _, rfl, asks_cons hcollects.asks⟩
  | withdrawn => exact ⟨_, _, _, rfl, asks_cons asks_nil⟩
  | _ => exact ⟨_, _, _, rfl, asks_nil⟩

/-- A piece that goes on is not at the moment at which it is told something. -/
def Next.Asked (next : Next) (h : History) : Prop :=
  ∀ task s, next = .goesOn task s →
    ∀ made s', h.getLast? ≠ some (.entered made s')

theorem Begins.asked {s : CoordinatorState} {made : HostCall} {asked : History}
    {next : Next} (hbegins : Begins s made asked next) (h : History) :
    next.Asked (h ++ .entered made s :: asked) := by
  intro task s' hnext told found hlast
  have hasks := hbegins.asks
  cases asked with
  | nil => cases hbegins <;> cases hnext
  | cons x later =>
      rw [List.append_cons] at hlast
      exact hasks _ (mem_of_last hlast)

theorem Resumes.asked {s : CoordinatorState} {task : Task} {asked : History}
    {next : Next} (hresumes : Resumes s task asked next) (h : History) :
    next.Asked (h ++ asked) := by
  intro _ _ _ told found hlast
  obtain ⟨call, answer, later, rfl, hasks⟩ := hresumes.head
  rcases List.mem_cons.mp (mem_of_last hlast) with hcall | hlater
  · cases hcall
  · exact hasks _ hlater

theorem Onward.not_handsOver {made : HostCall} {rest : List Pending}
    {next : Next} {later : History} {c : Situation}
    (honward : Onward made rest next later c) :
    ∀ x ∈ later, ¬ x.HandsOver := by
  cases honward with
  | closes =>
      exact List.forall_mem_cons.mpr ⟨id, List.forall_mem_singleton.mpr id⟩
  | _ => exact List.forall_mem_singleton.mpr id

theorem Onward.last {made : HostCall} {rest : List Pending} {next : Next}
    {later : History} {c : Situation}
    (honward : Onward made rest next later c) :
    ∃ earlier x, later = earlier ++ [x] ∧ x.GivesAway ∧
      ∀ y ∈ earlier, ¬ y.GivesAway := by
  cases honward with
  | closes => exact ⟨[_], _, rfl, trivial, List.forall_mem_singleton.mpr id⟩
  | _ => exact ⟨[], _, rfl, trivial, fun _ hy => absurd hy List.not_mem_nil⟩

namespace Situation

/-- What happens from one moment at which the state is handed to the
coordinator to the next at which it gives it away. -/
inductive Step : Situation → History → Situation → Prop where
  | enter {s : CoordinatorState} {rest : List Pending} {made : HostCall}
      {h later : History} {next : Next} {c : Situation}
      (hbegins : Begins s made h next)
      (honward : Onward made rest next later c) :
      Step ⟨s, rest⟩ (.entered made s :: (h ++ later)) c
  | resume {s : CoordinatorState} {rest : List Pending} {made : HostCall}
      {task : Task} {h later : History} {next : Next} {c : Situation}
      (hresumes : Resumes s task h next)
      (honward : Onward made rest next later c) :
      Step ⟨s, ⟨made, task⟩ :: rest⟩ (h ++ later) c

/-- Steps that follow on each other. -/
inductive Run (c : Situation) : History → Situation → Prop where
  | nil : Run c [] c
  | snoc {h h' : History} {c' c'' : Situation} (run : Run c h c')
      (step : Step c' h' c'') :
      Run c (h ++ h') c''

theorem Run.append {c c' c'' : Situation} {h h' : History} (first : Run c h c')
    (second : Run c' h' c'') : Run c (h ++ h') c'' := by
  induction second with
  | nil => rwa [List.append_nil]
  | snoc run step ih =>
      rw [← List.append_assoc]
      exact .snoc ih step

/-- A property that is kept by whole steps may be broken within them: what
holds of the task that a piece comes to is said apart. -/
theorem Run.keeps (inv : History → Situation → Prop)
    (mid : History → HostCall → List Pending → Next → Prop)
    (begins : ∀ {h s rest made asked next}, inv h ⟨s, rest⟩ →
      Begins s made asked next →
      mid (h ++ .entered made s :: asked) made rest next)
    (resumes : ∀ {h s rest made task asked next},
      inv h ⟨s, ⟨made, task⟩ :: rest⟩ →
      Resumes s task asked next → mid (h ++ asked) made rest next)
    (onward : ∀ {h rest made next later c}, mid h made rest next →
      next.Asked h →
      Onward made rest next later c → inv (h ++ later) c)
    {c c' : Situation} {h h' : History} (run : Run c h' c') (start : inv h c) :
    inv (h ++ h') c' := by
  induction run with
  | nil => rwa [List.append_nil]
  | snoc run step ih =>
      rw [← List.append_assoc]
      cases step with
      | enter hbegins honward =>
          have := onward (begins ih hbegins) (hbegins.asked _) honward
          rwa [List.append_assoc, List.cons_append] at this
      | resume hresumes honward =>
          have := onward (resumes ih hresumes) (hresumes.asked _) honward
          rwa [List.append_assoc] at this

/-! ## Cutting a run

The state is handed over at the head of each step and nowhere else, so a run
can be cut wherever its history says that this happens. -/

theorem Step.head {c c' : Situation} {h : History} (step : Step c h c') :
    ∃ x later, h = x :: later ∧ ∀ y ∈ later, ¬ y.HandsOver := by
  cases step with
  | enter hbegins honward =>
      exact ⟨_, _, rfl,
        List.forall_mem_append.mpr ⟨hbegins.asks.not_handsOver,
          honward.not_handsOver⟩⟩
  | resume hresumes honward =>
      obtain ⟨call, answer, later, rfl, hasks⟩ := hresumes.head
      exact ⟨_, _, rfl,
        List.forall_mem_append.mpr ⟨hasks.not_handsOver, honward.not_handsOver⟩⟩

theorem Run.cut {c c' : Situation} {x : Happening} {after : History}
    (hands : x.HandsOver) :
    ∀ {h before : History}, Run c h c' → h = before ++ x :: after →
      ∃ c₁ c₂ later rest, Run c before c₁ ∧ Step c₁ (x :: later) c₂ ∧
        Run c₂ rest c' ∧
        after = later ++ rest := by
  intro h before run
  induction run generalizing before after with
  | nil =>
      intro hsplit
      exact absurd hsplit.symm
        (List.append_ne_nil_of_right_ne_nil _ (List.cons_ne_nil _ _))
  | snoc run step ih =>
      intro hsplit
      rcases split_append hsplit with ⟨more, hrun, rfl⟩ | ⟨gap, rfl, hstep⟩
      · obtain ⟨c₁, c₂, later, rest, hfirst, hmiddle, hlast, rfl⟩ := ih hrun
        exact ⟨c₁, c₂, later, _, hfirst, hmiddle, hlast.snoc step,
          List.append_assoc _ _ _⟩
      · -- In the last step this can only be its head.
        obtain ⟨y, later, rfl, hlater⟩ := step.head
        cases gap with
        | nil =>
            cases hstep
            rw [List.append_nil]
            exact ⟨_, _, _, [], run, step, .nil, (List.append_nil _).symm⟩
        | cons z gap =>
            cases hstep
            exact absurd hands
              (hlater x (List.mem_append_right _ List.mem_cons_self))

/-! It gives the state away at the end of each step and nowhere else, and a run
can be cut there too. -/

theorem Step.last {c c' : Situation} {h : History} (step : Step c h c') :
    ∃ earlier x, h = earlier ++ [x] ∧ x.GivesAway ∧
      ∀ y ∈ earlier, ¬ y.GivesAway := by
  cases step with
  | @enter s _ made asked _ _ _ hbegins honward =>
      obtain ⟨earlier, x, rfl, hx, hearlier⟩ := honward.last
      refine ⟨.entered made s :: (asked ++ earlier), x, ?_, hx, ?_⟩
      · rw [List.cons_append, List.append_assoc]
      · exact List.forall_mem_cons.mpr
          ⟨id, List.forall_mem_append.mpr
            ⟨hbegins.asks.not_givesAway, hearlier⟩⟩
  | resume hresumes honward =>
      obtain ⟨earlier, x, rfl, hx, hearlier⟩ := honward.last
      obtain ⟨call, answer, asked, rfl, hasks⟩ := hresumes.head
      refine ⟨_, x, (List.append_assoc _ _ _).symm, hx, ?_⟩
      exact List.forall_mem_append.mpr
        ⟨List.forall_mem_cons.mpr ⟨id, hasks.not_givesAway⟩, hearlier⟩

/-- The end of a step is that of its last piece, be it a new one or one that
has been waiting. -/
theorem Step.ending {c c' : Situation} {h : History} {x : Happening}
    (step : Step c (h ++ [x]) c') :
    ∃ made rest asked next later, Onward made rest next later c' ∧
      later.getLast? = some x ∧
      (Begins c.state made asked next ∧ c.pending = rest ∨
        ∃ task, c.pending = ⟨made, task⟩ :: rest ∧
          Resumes c.state task asked next) := by
  generalize hwhole : h ++ [x] = h' at step
  have hlast : h'.getLast? = some x := by rw [← hwhole, List.getLast?_concat]
  have hend : ∀ {made rest next later} (asked : History),
      Onward made rest next later c' →
      h' = asked ++ later → later.getLast? = some x := by
    intro made rest next later asked honward happended
    obtain ⟨earlier, y, rfl, -⟩ := honward.last
    rw [happended, ← List.append_assoc, List.getLast?_concat] at hlast
    rw [List.getLast?_concat, hlast]
  cases step with
  | enter hbegins honward =>
      exact ⟨_, _, _, _, _, honward, hend (_ :: _) honward rfl,
        .inl ⟨hbegins, rfl⟩⟩
  | resume hresumes honward =>
      exact ⟨_, _, _, _, _, honward, hend _ honward rfl,
        .inr ⟨_, rfl, hresumes⟩⟩

theorem Run.cut_after {c c' : Situation} {x : Happening} {after : History}
    (gives : x.GivesAway) :
    ∀ {h before : History}, Run c h c' → h = before ++ x :: after →
      ∃ c₁ c₂ earlier asked, Run c earlier c₁ ∧ Step c₁ (asked ++ [x]) c₂ ∧
        Run c₂ after c' ∧
        before = earlier ++ asked := by
  intro h before run
  induction run generalizing before after with
  | nil =>
      intro hsplit
      exact absurd hsplit.symm
        (List.append_ne_nil_of_right_ne_nil _ (List.cons_ne_nil _ _))
  | snoc run step ih =>
      intro hsplit
      rcases split_append hsplit with ⟨more, hrun, rfl⟩ | ⟨gap, rfl, hstep⟩
      · obtain ⟨c₁, c₂, earlier, asked, hfirst, hmiddle, hlast, rfl⟩ := ih hrun
        exact ⟨c₁, c₂, earlier, asked, hfirst, hmiddle, hlast.snoc step, rfl⟩
      · -- In the last step this can only be its end.
        obtain ⟨earlier, y, rfl, -, hearlier⟩ := step.last
        rcases List.eq_nil_or_concat after with rfl | ⟨later, z, rfl⟩
        · rw [hstep] at step
          exact ⟨_, _, _, gap, run, step, .nil, rfl⟩
        · rw [List.concat_eq_append, ← List.cons_append,
            ← List.append_assoc] at hstep
          obtain ⟨rfl, -⟩ := List.append_inj' hstep rfl
          exact absurd gives
            (hearlier x (List.mem_append_right _ List.mem_cons_self))

theorem Step.of_entered {c c' : Situation} {made : HostCall}
    {s : CoordinatorState} {after : History}
    (step : Step c (.entered made s :: after) c') :
    ∃ asked next later, c.state = s ∧ Begins s made asked next ∧
      Onward made c.pending next later c' ∧ after = asked ++ later := by
  generalize hwhole : Happening.entered made s :: after = h at step
  cases step with
  | enter hbegins honward =>
      cases hwhole
      exact ⟨_, _, _, rfl, hbegins, honward, rfl⟩
  | resume hresumes honward =>
      obtain ⟨call, answer, later, rfl, -⟩ := hresumes.head
      cases hwhole

theorem Step.of_returned {c c' : Situation} {call : Call} {answer : call.Answer}
    {after : History} (step : Step c (.returned call answer :: after) c') :
    ∃ p rest asked next later, c.pending = p :: rest ∧
      Resumes c.state p.task (.returned call answer :: asked) next ∧
      Onward p.made rest next later c' ∧ after = asked ++ later := by
  generalize hwhole : Happening.returned call answer :: after = h at step
  cases step with
  | enter hbegins honward => cases hwhole
  | resume hresumes honward =>
      obtain ⟨_, _, later, rfl, -⟩ := hresumes.head
      cases hwhole
      exact ⟨_, _, _, _, _, rfl, hresumes, honward, rfl⟩

end Situation
end AuditTrail
