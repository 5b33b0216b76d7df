import AuditTrail.Proofs.Coordinator.Way

/-!
# Sessions

A `Turn` is one call of the coordinator from its beginning to its end, and a
`Session` is a sequence of turns in which each begins in the state that the
one before it left. Whether the collaborators may call the coordinator while
they are being called themselves is decided by the interlude of the session:
`Interlude.quiet` forbids it, and `Interlude.nested` lets them hold a whole
session of their own, whose turns may be interrupted in turn, down to a depth
that is as large as one likes.

The end of the file has a company to try theorems in, and the rules that take
a piece of the coordinator apart.
-/

namespace AuditTrail

/-- One call of the coordinator, from the state in which it begins to the
state in which it ends. -/
structure Turn where
  before : CoordinatorState
  made : HostCall
  history : History
  outcome : Outcome
  after : CoordinatorState

namespace Turn

/-- The coordinator can take the turn. -/
def Taken (settings : CoordinatorSettings) (during : Interlude) (t : Turn) :
    Prop :=
  (Coordinator.serve settings t.made t.before).Way during t.history
    t.outcome t.after

/-- What happens in a turn, its beginning and its end included. -/
def account (t : Turn) : History :=
  .entered t.made t.before :: (t.history ++ [.left t.made t.outcome t.after])

end Turn

/-- Turns that follow on each other, from a state to a state. -/
inductive Session (settings : CoordinatorSettings) (during : Interlude) :
    CoordinatorState → List Turn → CoordinatorState → Prop where
  | nil (s : CoordinatorState) : Session settings during s [] s
  | cons (t : Turn) {ts : List Turn} {s : CoordinatorState}
      (taken : t.Taken settings during)
      (rest : Session settings during t.after ts s) :
      Session settings during t.before (t :: ts) s

def accountOf (ts : List Turn) : History := ts.flatMap Turn.account

@[simp] theorem Turn.deliveries_account (t : Turn) :
    History.deliveries t.account = History.deliveries t.history := by
  rw [account, ← List.singleton_append, History.deliveries_append,
    History.deliveries_append]
  exact List.append_nil _

@[simp] theorem Turn.begun_account (t : Turn) :
    History.begun t.account = History.begun t.history := by
  rw [account, ← List.singleton_append, History.begun_append,
    History.begun_append]
  exact List.append_nil _

@[simp] theorem Turn.delivered_account (t : Turn) :
    History.delivered t.account = History.delivered t.history := by
  rw [History.delivered, deliveries_account]
  rfl

@[simp] theorem Turn.issued_account (t : Turn) :
    History.issued t.account = History.issued t.history := by
  rw [account, ← List.singleton_append, History.issued_append,
    History.issued_append]
  exact List.append_nil _

@[simp] theorem accountOf_cons (t : Turn) (ts : List Turn) :
    accountOf (t :: ts) = t.account ++ accountOf ts := rfl

@[simp] theorem accountOf_append (ts us : List Turn) :
    accountOf (ts ++ us) = accountOf ts ++ accountOf us := List.flatMap_append

/-- While a call lasts, the coordinator may be called again, and these calls
may be interrupted in the same way, so many levels deep. -/
def Interlude.nested (settings : CoordinatorSettings) : Nat → Interlude
  | 0 => Interlude.quiet
  | depth + 1 => fun s h s' =>
      ∃ ts, Session settings (Interlude.nested settings depth) s ts s' ∧
        h = accountOf ts

namespace Session

variable {settings : CoordinatorSettings} {during : Interlude}

/-- Around any of its turns a session is two sessions. -/
theorem cut {t : Turn} {ts us : List Turn} : ∀ {s s' : CoordinatorState},
    Session settings during s (ts ++ t :: us) s' →
    Session settings during s ts t.before ∧ t.Taken settings during ∧
      Session settings during t.after us s' := by
  induction ts with
  | nil =>
      intro s s' session
      cases session with
      | cons _ taken rest => exact ⟨.nil t.before, taken, rest⟩
  | cons u ts ih =>
      intro s s' session
      cases session with
      | cons _ taken rest =>
          obtain ⟨first, second, third⟩ := ih rest
          exact ⟨.cons u taken first, second, third⟩

end Session

/-! ## Sessions in company -/

/-- The turn that the coordinator takes in some company. -/
def Turn.inCompany (settings : CoordinatorSettings) (c : Company)
    (made : HostCall) (s : CoordinatorState) : Turn :=
  let way := (Coordinator.serve settings made s).follow c
  ⟨s, made, way.1, way.2.1, way.2.2⟩

@[simp] theorem Turn.before_inCompany (settings : CoordinatorSettings)
    (c : Company) (made : HostCall) (s : CoordinatorState) :
    (Turn.inCompany settings c made s).before = s := rfl

@[simp] theorem Turn.made_inCompany (settings : CoordinatorSettings)
    (c : Company) (made : HostCall) (s : CoordinatorState) :
    (Turn.inCompany settings c made s).made = made := rfl

theorem Turn.taken_inCompany {settings : CoordinatorSettings}
    {during : Interlude} {c : Company} (within : c.Within during)
    (made : HostCall) (s : CoordinatorState) :
    (Turn.inCompany settings c made s).Taken settings during :=
  Exchange.way_follow within _

/-- The turns that the coordinator takes, each in its own company. -/
def turnsIn (settings : CoordinatorSettings) :
    CoordinatorState → List (Company × HostCall) → List Turn
  | _, [] => []
  | s, (c, made) :: rest =>
      Turn.inCompany settings c made s ::
        turnsIn settings (Turn.inCompany settings c made s).after rest

def endOf : CoordinatorState → List Turn → CoordinatorState
  | s, [] => s
  | _, t :: ts => endOf t.after ts

/-- Whatever the coordinator is told, in whichever company, there is such a
session. -/
theorem session_turnsIn {settings : CoordinatorSettings} {during : Interlude} :
    ∀ (plays : List (Company × HostCall)) (s : CoordinatorState),
      (∀ play ∈ plays, play.1.Within during) →
      Session settings during s (turnsIn settings s plays)
        (endOf s (turnsIn settings s plays)) := by
  intro plays
  induction plays with
  | nil => intro s _; exact .nil s
  | cons play rest ih =>
      intro s within
      exact .cons _
        (Turn.taken_inCompany (within play List.mem_cons_self) play.2 s)
        (ih _ fun other hmem => within other (List.mem_cons_of_mem play hmem))

theorem turnsIn_append (settings : CoordinatorSettings)
    (more : List (Company × HostCall)) :
    ∀ (plays : List (Company × HostCall)) (s : CoordinatorState),
      turnsIn settings s (plays ++ more) =
        turnsIn settings s plays ++
          turnsIn settings (endOf s (turnsIn settings s plays)) more := by
  intro plays
  induction plays with
  | nil => intro s; rfl
  | cons play rest ih =>
      intro s
      rw [List.cons_append, turnsIn, ih]
      rfl

theorem mem_turnsIn {settings : CoordinatorSettings} {u : Turn} :
    ∀ {plays : List (Company × HostCall)} {s : CoordinatorState},
      u ∈ turnsIn settings s plays →
      ∃ play ∈ plays, ∃ s', u = Turn.inCompany settings play.1 play.2 s' := by
  intro plays
  induction plays with
  | nil => intro s hu; cases hu
  | cons play rest ih =>
      intro s hu
      rcases List.mem_cons.mp hu with rfl | hu
      · exact ⟨play, List.mem_cons_self, s, rfl⟩
      · obtain ⟨other, hother, s', rfl⟩ := ih hu
        exact ⟨other, List.mem_cons_of_mem play hother, s', rfl⟩

namespace Sample

/-! A company to try theorems in: orders are audited, and nothing fails. -/

def settings (autoOpen : Bool) : CoordinatorSettings :=
  ⟨⟨"String", [(⟨"Order", "String", none⟩,
    EntityRule.verbatim "Order" "sales")]⟩, ⟨autoOpen⟩, none⟩

def transaction (n : Nat) : TransactionId := ⟨⟨BitVec.ofNat 128 n⟩⟩

def notice (n : Nat) : TransactionEvent := ⟨"req", some (transaction n)⟩

def order (n : Nat) : TrackedEntry := ⟨⟨n⟩, "Order", .added, []⟩

/-- A unit of work with a transaction and one entry. The transaction it opens
is the first. -/
def company (current : Option TransactionId) (entry : TrackedEntry)
    (meanwhile : Call → CoordinatorState → History × CoordinatorState) :
    Company where
  answers
    | .isCancelled => false
    | .currentTransaction => current
    | .entries => [entry]
    | .primaryKey entity => some (.int (Int64.ofNat entity.number))
    | .freshRecordId => ⟨⟨BitVec.ofNat 128 entry.entity.number⟩⟩
    | .now => Instant.epoch
  replies
    | .begin => .ok (transaction 1)
    | .commit _ | .rollback _ | .consume _ | .preCommit _ _ | .finished _ _ =>
        .ok ()
  meanwhile := meanwhile

def undisturbed : Call → CoordinatorState → History × CoordinatorState :=
  fun _ s => ([], s)

theorem undisturbed_within (settings : CoordinatorSettings)
    (current : Option TransactionId) (entry : TrackedEntry) :
    ∀ depth, (company current entry undisturbed).Within
      (Interlude.nested settings depth)
  | 0, _, _ => ⟨rfl, rfl⟩
  | _ + 1, _, s => ⟨[], .nil s, rfl⟩

/-- During some calls the coordinator is told these things. -/
def interrupted (autoOpen : Bool) (when : Call → Bool)
    (plays : List (Company × HostCall)) :
    Call → CoordinatorState → History × CoordinatorState :=
  fun made s =>
    let ts := turnsIn (settings autoOpen) s (if when made then plays else [])
    (accountOf ts, endOf s ts)

theorem interrupted_within {autoOpen : Bool} {when : Call → Bool}
    {plays : List (Company × HostCall)} {depth : Nat}
    (within : ∀ play ∈ plays,
      play.1.Within (Interlude.nested (settings autoOpen) depth))
    (current : Option TransactionId) (entry : TrackedEntry) :
    (company current entry (interrupted autoOpen when plays)).Within
      (Interlude.nested (settings autoOpen) (depth + 1)) := by
  intro made s
  refine ⟨_, session_turnsIn _ s fun play hmem => ?_, rfl⟩
  split at hmem
  · exact within play hmem
  · cases hmem

/-- A notice that the n-th transaction was committed. -/
def reported (n : Nat) : Company × HostCall :=
  (company none (order 3) undisturbed, .transactionCommitted (notice n))

/-- What the host says while a transaction is the current one and an entry is
changed, and nobody interrupts. -/
def quietly (plays : List (Option TransactionId × TrackedEntry × HostCall)) :
    List (Company × HostCall) :=
  plays.map fun play => (company play.1 play.2.1 undisturbed, play.2.2)

theorem quietly_session (settings : CoordinatorSettings)
    (plays : List (Option TransactionId × TrackedEntry × HostCall))
    (s : CoordinatorState) :
    let ts := turnsIn settings s (quietly plays)
    Session settings Interlude.quiet s ts (endOf s ts) := by
  refine session_turnsIn _ s fun play hmem => ?_
  obtain ⟨told, -, rfl⟩ := List.mem_map.mp hmem
  exact undisturbed_within settings _ _ 0

end Sample

/-! ## Taking a piece of the coordinator apart -/

namespace Coordinating

variable {α β : Type} {during : Interlude} {s : CoordinatorState} {h : History}

theorem ensures_bind {post : History → β → CoordinatorState → Prop}
    (m : Coordinating α) (f : α → Coordinating β) :
    ((m >>= f) s).Ensures during post h ↔
      (m s).Ensures during (fun h a s => (f a s).Ensures during post h) h :=
  Exchange.ensures_bind

theorem ensures_pure {post : History → α → CoordinatorState → Prop} (a : α) :
    ((pure a : Coordinating α) s).Ensures during post h ↔ post h a s := Iff.rfl

theorem ensures_state
    {post : History → CoordinatorState → CoordinatorState → Prop} :
    (state s).Ensures during post h ↔ post h s s := Iff.rfl

theorem ensures_change {post : History → Unit → CoordinatorState → Prop}
    (f : CoordinatorState → CoordinatorState) :
    (change f s).Ensures during post h ↔ post h () (f s) := Iff.rfl

theorem ensures_log {post : History → Unit → CoordinatorState → Prop}
    (event : LogEvent) :
    (log event s).Ensures during post h ↔ post h () s := Iff.rfl

theorem ensures_enter {post : History → Unit → CoordinatorState → Prop}
    (phase : LifecyclePhase) :
    (Coordinator.enter phase s).Ensures during post h ↔
      post h () { s with phase := phase } :=
  Iff.rfl

theorem ensures_ask {query : Query}
    {post : History → query.Answer → CoordinatorState → Prop} :
    (ask query s).Ensures during post h ↔
      ∀ answer, post (h ++ [.asked query answer]) answer s := Iff.rfl

theorem ensures_call {made : Call}
    {post : History → made.Answer → CoordinatorState → Prop} :
    (call made s).Ensures during post h ↔
      ∀ meanwhile found answer, during s meanwhile found →
        post (h ++ .called made :: (meanwhile ++ [.returned made answer]))
          answer found := Iff.rfl

end Coordinating
end AuditTrail
