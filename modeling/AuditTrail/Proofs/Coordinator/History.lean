import AuditTrail.Coordinator.Basic

/-!
# Histories

What happens while a coordinator is at work, one thing after the other: the
questions and their answers, the calls of collaborators and what they gave
back, and where the coordinator is told something and has done it. The rest of
the file is the vocabulary in which theorems speak of a history: the records
that were delivered in it, the identities that were issued, the transactions
that were committed.

What a happening of some kind can be is said once for each kind (`Reads.cases`,
`IsCall.cases`, `IsQuestion.exists_asked`). That a stretch of one kind has no
part in something is read off there.
-/

namespace AuditTrail

/-- Something that happens while a coordinator is at work. -/
inductive Happening where
  | asked (query : Query) (answer : query.Answer)
  | called (made : Call)
  | returned (made : Call) (answer : made.Answer)
  /-- The coordinator is told something, in the state that is given. -/
  | entered (made : HostCall) (state : CoordinatorState)
  /-- The coordinator has done what it was told. -/
  | left (made : HostCall) (outcome : Outcome) (state : CoordinatorState)

abbrev History := List Happening

/-- The records that a call hands to the consumer for delivery. -/
def Call.delivery? : Call → Option (List AuditRecord)
  | .consume records => some records
  | _ => none

/-- The records that a call announces to the consumer before a commit. -/
def Call.announcement? : Call → Option (List AuditRecord)
  | .preCommit records _ => some records
  | _ => none

/-- The end of a transaction that a call reports to the consumer. -/
def Call.report? : Call → Option (TransactionEvent × TransactionStatus)
  | .finished event status => some (event, status)
  | _ => none

namespace Happening

def call? : Happening → Option Call
  | .called made => some made
  | _ => none

def issued? : Happening → Option RecordId
  | .asked .freshRecordId id => some id
  | _ => none

def key? : Happening → Option (Option FieldValue)
  | .asked (.primaryKey _) key => some key
  | _ => none

def seen? : Happening → Option (Option TransactionId)
  | .asked .currentTransaction tx => some tx
  | _ => none

def committed? : Happening → Option TransactionId
  | .returned (.commit tx) (.ok _) => some tx
  | _ => none

def begun? : Happening → Option TransactionId
  | .returned .begin (.ok tx) => some tx
  | _ => none

/-- It is not said that the token was cancelled. -/
def uncancelled : Happening → Bool
  | .asked .isCancelled cancelled => !cancelled
  | _ => true

/-- The transaction that is open after something happened, given the one that
was open before. A rollback discards it whether or not it succeeds. -/
def leavesOpen (current : Option TransactionId) :
    Happening → Option TransactionId
  | .returned .begin (.ok tx) => some tx
  | .returned (.commit tx) (.ok _) =>
      if current = some tx then none else current
  | .returned (.rollback tx) _ => if current = some tx then none else current
  | _ => current

/-- A question about the changes themselves, and not about the token or the
transaction. -/
def Reads : Happening → Prop
  | .asked .entries _ => True
  | .asked (.primaryKey _) _ => True
  | .asked .freshRecordId _ => True
  | .asked .now _ => True
  | _ => False

/-- A call of a collaborator, at its beginning or at its end. -/
def IsCall : Happening → Prop
  | .called _ => True
  | .returned _ _ => True
  | _ => False

/-- The coordinator asks a question. -/
def IsQuestion : Happening → Prop
  | .asked _ _ => True
  | _ => False

/-- The state is handed to the coordinator. -/
def HandsOver : Happening → Prop
  | .entered _ _ => True
  | .returned _ _ => True
  | _ => False

/-- The coordinator gives the state away: it calls someone, or it has done what
it was told. -/
def GivesAway : Happening → Prop
  | .called _ => True
  | .left _ _ _ => True
  | _ => False

variable {x : Happening}

theorem IsQuestion.exists_asked (asks : x.IsQuestion) :
    ∃ query answer, x = .asked query answer := by
  cases x with
  | asked query answer => exact ⟨query, answer, rfl⟩
  | _ => exact False.elim asks

/-- What a question about the changes can be. -/
theorem Reads.cases (reads : x.Reads) :
    (∃ entries, x = .asked .entries entries) ∨
    (∃ entity key, x = .asked (.primaryKey entity) key) ∨
    (∃ id, x = .asked .freshRecordId id) ∨
    ∃ time, x = .asked .now time := by
  cases x with
  | asked query answer =>
      cases query with
      | entries => exact .inl ⟨answer, rfl⟩
      | primaryKey entity => exact .inr (.inl ⟨entity, answer, rfl⟩)
      | freshRecordId => exact .inr (.inr (.inl ⟨answer, rfl⟩))
      | now => exact .inr (.inr (.inr ⟨answer, rfl⟩))
      | isCancelled | currentTransaction => exact False.elim reads
  | _ => exact False.elim reads

theorem Reads.isQuestion (reads : x.Reads) : x.IsQuestion := by
  obtain ⟨_, rfl⟩ | ⟨_, _, rfl⟩ | ⟨_, rfl⟩ | ⟨_, rfl⟩ := reads.cases <;>
    exact trivial

theorem IsCall.cases (calls : x.IsCall) :
    (∃ made, x = .called made) ∨ ∃ made answer, x = .returned made answer := by
  cases x with
  | called made => exact .inl ⟨made, rfl⟩
  | returned made answer => exact .inr ⟨made, answer, rfl⟩
  | _ => exact False.elim calls

end Happening

namespace History

def calls (h : History) : List Call := h.filterMap Happening.call?

/-- The slices of records that were passed to the consumer, in their order. -/
def deliveries (h : History) : List (List AuditRecord) :=
  (calls h).filterMap Call.delivery?

/-- The slices of records that were announced to the consumer. -/
def announcements (h : History) : List (List AuditRecord) :=
  (calls h).filterMap Call.announcement?

/-- The ends of transactions that were reported to the consumer. -/
def reports (h : History) : List (TransactionEvent × TransactionStatus) :=
  (calls h).filterMap Call.report?

/-- The records that were passed to the consumer, one after the other. -/
def delivered (h : History) : List AuditRecord := (deliveries h).flatten

/-- The identities that were given to captures. -/
def issued (h : History) : List RecordId := h.filterMap Happening.issued?

def keys (h : History) : List (Option FieldValue) := h.filterMap Happening.key?

/-- The current transactions that were answered. -/
def seen (h : History) : List (Option TransactionId) :=
  h.filterMap Happening.seen?

/-- The transactions that collaborators committed when they were called to. -/
def committed (h : History) : List TransactionId :=
  h.filterMap Happening.committed?

/-- The transactions that collaborators opened when they were called to. -/
def begun (h : History) : List TransactionId := h.filterMap Happening.begun?

/-- Whenever the token was looked at, it was not cancelled. -/
def uncancelled (h : History) : Bool := h.all Happening.uncancelled

def openAfter (current : Option TransactionId) (h : History) :
    Option TransactionId :=
  h.foldl Happening.leavesOpen current

/-- Nothing but the changes was asked about. -/
def Reads (h : History) : Prop := ∀ x ∈ h, x.Reads

/-- Nothing was asked, and the coordinator was told nothing. -/
def OnlyCalls (h : History) : Prop := ∀ x ∈ h, x.IsCall

/-- Nothing happened but questions of the coordinator. -/
def OnlyAsks (h : History) : Prop := ∀ x ∈ h, x.IsQuestion

@[simp] theorem calls_append (h h' : History) :
    calls (h ++ h') = calls h ++ calls h' :=
  List.filterMap_append

@[simp] theorem issued_append (h h' : History) :
    issued (h ++ h') = issued h ++ issued h' :=
  List.filterMap_append

@[simp] theorem keys_append (h h' : History) :
    keys (h ++ h') = keys h ++ keys h' :=
  List.filterMap_append

@[simp] theorem seen_append (h h' : History) :
    seen (h ++ h') = seen h ++ seen h' :=
  List.filterMap_append

@[simp] theorem committed_append (h h' : History) :
    committed (h ++ h') = committed h ++ committed h' := List.filterMap_append

@[simp] theorem begun_append (h h' : History) :
    begun (h ++ h') = begun h ++ begun h' :=
  List.filterMap_append

@[simp] theorem deliveries_append (h h' : History) :
    deliveries (h ++ h') = deliveries h ++ deliveries h' := by
  rw [deliveries, calls_append, List.filterMap_append]; rfl

@[simp] theorem announcements_append (h h' : History) :
    announcements (h ++ h') = announcements h ++ announcements h' := by
  rw [announcements, calls_append, List.filterMap_append]; rfl

@[simp] theorem reports_append (h h' : History) :
    reports (h ++ h') = reports h ++ reports h' := by
  rw [reports, calls_append, List.filterMap_append]; rfl

@[simp] theorem delivered_append (h h' : History) :
    delivered (h ++ h') = delivered h ++ delivered h' := by
  rw [delivered, deliveries_append, List.flatten_append]; rfl

/-! ## Asking -/

theorem asks_nil : OnlyAsks [] := fun _ hx => absurd hx List.not_mem_nil

theorem asks_cons {query : Query} {answer : query.Answer} {h : History}
    (asks : OnlyAsks h) : OnlyAsks (.asked query answer :: h) :=
  List.forall_mem_cons.mpr ⟨trivial, asks⟩

section Asking

variable {α : Type} {h h' : History}

theorem OnlyAsks.append (first : OnlyAsks h) (second : OnlyAsks h') :
    OnlyAsks (h ++ h') :=
  List.forall_mem_append.mpr ⟨first, second⟩

theorem OnlyAsks.filterMap_eq_nil {f : Happening → Option α} (asks : OnlyAsks h)
    (passes : ∀ query answer, f (.asked query answer) = none) :
    h.filterMap f = [] :=
  List.filterMap_eq_nil_iff.mpr fun x hx => by
    obtain ⟨query, answer, rfl⟩ := (asks x hx).exists_asked
    exact passes query answer

/-- What is told of a history by something that questions do not touch is not
touched by them together. -/
theorem OnlyAsks.foldl_eq {f : α → Happening → α} (asks : OnlyAsks h)
    (still : ∀ a query answer, f a (.asked query answer) = a) (a : α) :
    h.foldl f a = a := by
  induction h with
  | nil => rfl
  | cons x h ih =>
      obtain ⟨hx, hrest⟩ := List.forall_mem_cons.mp asks
      obtain ⟨query, answer, rfl⟩ := hx.exists_asked
      rw [List.foldl_cons, still]
      exact ih hrest

theorem OnlyAsks.calls_eq (asks : OnlyAsks h) : calls h = [] :=
  asks.filterMap_eq_nil fun _ _ => rfl

theorem OnlyAsks.deliveries_eq (asks : OnlyAsks h) : deliveries h = [] := by
  rw [deliveries, asks.calls_eq]; rfl

theorem OnlyAsks.announcements_eq (asks : OnlyAsks h) :
    announcements h = [] := by
  rw [announcements, asks.calls_eq]; rfl

theorem OnlyAsks.begun_eq (asks : OnlyAsks h) : begun h = [] :=
  asks.filterMap_eq_nil fun _ _ => rfl

theorem OnlyAsks.openAfter_eq (asks : OnlyAsks h)
    (current : Option TransactionId) : openAfter current h = current :=
  asks.foldl_eq (fun _ _ _ => rfl) current

theorem OnlyAsks.not_handsOver (asks : OnlyAsks h) :
    ∀ x ∈ h, ¬ x.HandsOver := by
  intro x hx
  obtain ⟨_, _, rfl⟩ := (asks x hx).exists_asked
  exact id

theorem OnlyAsks.not_givesAway (asks : OnlyAsks h) :
    ∀ x ∈ h, ¬ x.GivesAway := by
  intro x hx
  obtain ⟨_, _, rfl⟩ := (asks x hx).exists_asked
  exact id

end Asking

/-! ## Reading -/

section Reading

variable {h h' : History}

theorem reads_nil : Reads [] := fun _ hx => absurd hx List.not_mem_nil

theorem reads_cons {x : Happening} (hx : x.Reads) (reads : Reads h) :
    Reads (x :: h) :=
  List.forall_mem_cons.mpr ⟨hx, reads⟩

theorem Reads.append (first : Reads h) (second : Reads h') : Reads (h ++ h') :=
  List.forall_mem_append.mpr ⟨first, second⟩

theorem Reads.asks (reads : Reads h) : OnlyAsks h :=
  fun x hx => (reads x hx).isQuestion

theorem Reads.uncancelled_eq (reads : Reads h) : uncancelled h = true :=
  List.all_eq_true.mpr fun x hx => by
    obtain ⟨_, rfl⟩ | ⟨_, _, rfl⟩ | ⟨_, rfl⟩ | ⟨_, rfl⟩ :=
      (reads x hx).cases <;> rfl

theorem Reads.seen_eq (reads : Reads h) : seen h = [] :=
  List.filterMap_eq_nil_iff.mpr fun x hx => by
    obtain ⟨_, rfl⟩ | ⟨_, _, rfl⟩ | ⟨_, rfl⟩ | ⟨_, rfl⟩ :=
      (reads x hx).cases <;> rfl

end Reading

/-- The last thing that happened is among the last things. -/
theorem mem_of_last {h later : History} {x y : Happening}
    (hlast : (h ++ x :: later).getLast? = some y) : y ∈ x :: later := by
  rw [List.getLast?_append,
    List.getLast?_eq_some_getLast (List.cons_ne_nil x later),
    Option.some_or] at hlast
  rw [← Option.some.inj hlast]
  exact List.getLast_mem _

/-- What happens in two stretches happens in the first or in the second. -/
theorem split_append {h h' before after : History} {x : Happening}
    (hsplit : h ++ h' = before ++ x :: after) :
    (∃ more, h = before ++ x :: more ∧ after = more ++ h') ∨
      ∃ gap, before = h ++ gap ∧ h' = gap ++ x :: after := by
  rcases List.append_eq_append_iff.mp hsplit with
    ⟨gap, hbefore, hlater⟩ | ⟨gap, hfirst, hafter⟩
  · exact .inr ⟨gap, hbefore, hlater⟩
  · cases gap with
    | nil =>
        rw [List.append_nil] at hfirst
        exact .inr ⟨[], by rw [hfirst, List.append_nil], hafter.symm⟩
    | cons y more =>
        cases hafter
        exact .inl ⟨more, hfirst, rfl⟩

end History
end AuditTrail
