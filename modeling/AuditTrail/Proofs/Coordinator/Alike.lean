import AuditTrail.Proofs.Coordinator.Content
import Mathlib.Data.List.Forall2

/-!
# Runs that look alike

Two runs of a coordinator are never the same, because identities and times are
not. They are *alike* if nothing else is different. A `Veil` hides one thing
more: what the consumer answers, or whether the token is cancelled. Behind a
veil two runs are compared in spite of it, and the question is whether the
difference shows anywhere else.

States, calls and histories are compared by the contents of what they hold.
Of the answers everything has to be equal that the veil does not hide.
-/

namespace AuditTrail

/-- What two runs may be answered differently, besides identities and times. -/
inductive Veil where
  /-- What the consumer answers. -/
  | consumer
  /-- Whether the token is cancelled. -/
  | token
  deriving DecidableEq

/-- States that remember the same, apart from identities and times. -/
structure CoordinatorState.Alike (s s' : CoordinatorState) : Prop where
  phase_eq : s.phase = s'.phase
  transactionPhase_eq : s.transactionPhase = s'.transactionPhase
  owned_eq : s.owned = s'.owned
  settled_eq : s.settled = s'.settled
  commitInProgress_eq : s.commitInProgress = s'.commitInProgress
  captures_eq : s.captures.map Capture.content = s'.captures.map Capture.content
  batch_eq : s.batch.map AuditRecord.content = s'.batch.map AuditRecord.content

theorem CoordinatorState.Alike.refl (s : CoordinatorState) : s.Alike s :=
  ⟨rfl, rfl, rfl, rfl, rfl, rfl, rfl⟩

def Call.isConsumer : Call → Bool
  | .begin | .commit _ | .rollback _ => false
  | .consume _ | .preCommit _ _ | .finished _ _ => true

/-- An answer to a call, whatever the call is. -/
def Call.result :
    (made : Call) → made.Answer → Except AuditError (Option TransactionId)
  | .begin, answer => answer.map some
  | .commit _, answer | .rollback _, answer => answer.map fun _ => none
  | .consume _, answer | .preCommit _ _, answer | .finished _ _, answer =>
      answer.map fun _ => none

theorem Call.result_injective (made : Call) {answer answer' : made.Answer}
    (h : made.result answer = made.result answer') : answer = answer' := by
  cases made <;> cases answer <;> cases answer' <;>
    simp_all [Call.result, Except.map]

/-- Calls of the same kind, with the same arguments. -/
inductive Call.Alike : Call → Call → Prop where
  | begin : Alike .begin .begin
  | commit (tx : TransactionId) : Alike (.commit tx) (.commit tx)
  | rollback (tx : TransactionId) : Alike (.rollback tx) (.rollback tx)
  | consume {records records' : List AuditRecord}
      (hrecords : records.map AuditRecord.content =
        records'.map AuditRecord.content) :
      Alike (.consume records) (.consume records')
  | preCommit {records records' : List AuditRecord} (event : TransactionEvent)
      (hrecords : records.map AuditRecord.content =
        records'.map AuditRecord.content) :
      Alike (.preCommit records event) (.preCommit records' event)
  | finished (event : TransactionEvent) (status : TransactionStatus) :
      Alike (.finished event status) (.finished event status)

theorem Call.Alike.isConsumer_eq {made made' : Call}
    (hmade : made.Alike made') :
    made.isConsumer = made'.isConsumer := by
  cases hmade <;> rfl

namespace Veil

/-- Answers to a question that look the same behind the veil. -/
def Answers (v : Veil) : (query : Query) → query.Answer → query.Answer → Prop
  | .isCancelled, answer, answer' => v = .token ∨ answer = answer'
  | .freshRecordId, _, _ => True
  | .now, _, _ => True
  | _, answer, answer' => answer = answer'

/-- Answers to calls that look the same behind the veil. -/
def Replies (v : Veil) (made : Call) (answer : made.Answer) (made' : Call)
    (answer' : made'.Answer) : Prop :=
  (v = .consumer ∧ made.isConsumer = true) ∨
    made.result answer = made'.result answer'

/-- Results of calls of the coordinator that look the same behind the veil. -/
def Outcomes (v : Veil) (outcome outcome' : Outcome) : Prop :=
  v = .token ∨ outcome = outcome'

theorem Answers.of_common {v : Veil} {query : Query}
    {answer answer' common : query.Answer} (h : v.Answers query answer common)
    (h' : v.Answers query answer' common) :
    v.Answers query answer answer' := by
  cases query with
  | isCancelled =>
      rcases h with hv | h
      · exact .inl hv
      · exact h'.imp id fun h' => h.trans h'.symm
  | freshRecordId | now => trivial
  | currentTransaction | entries | primaryKey _ => exact Eq.trans h (Eq.symm h')

end Veil

/-- Things that happen alike. -/
inductive Happening.Alike (v : Veil) : Happening → Happening → Prop where
  | asked (query : Query) {answer answer' : query.Answer}
      (hanswer : v.Answers query answer answer') :
      Alike v (.asked query answer) (.asked query answer')
  | called {made made' : Call} (hmade : made.Alike made') :
      Alike v (.called made) (.called made')
  | returned {made made' : Call} {answer : made.Answer} {answer' : made'.Answer}
      (hmade : made.Alike made')
      (hreply : v.Replies made answer made' answer') :
      Alike v (.returned made answer) (.returned made' answer')
  | entered (made : HostCall) {s s' : CoordinatorState} (hs : s.Alike s') :
      Alike v (.entered made s) (.entered made s')
  | left (made : HostCall) {outcome outcome' : Outcome}
      {s s' : CoordinatorState} (houtcome : v.Outcomes outcome outcome')
      (hs : s.Alike s') :
      Alike v (.left made outcome s) (.left made outcome' s')

namespace History

/-- The same things happen, one after the other. -/
def Alike (v : Veil) (h h' : History) : Prop :=
  List.Forall₂ (Happening.Alike v) h h'

variable {v : Veil} {h h' g g' : History}

theorem Alike.append (first : h.Alike v h') (second : g.Alike v g') :
    (h ++ g).Alike v (h' ++ g') :=
  List.rel_append first second

theorem Alike.snoc (before : h.Alike v h') {x y : Happening}
    (hxy : x.Alike v y) :
    (h ++ [x]).Alike v (h' ++ [y]) :=
  before.append (.cons hxy .nil)

theorem Alike.calls (halike : h.Alike v h') :
    List.Forall₂ Call.Alike h.calls h'.calls := by
  induction halike with
  | nil => exact .nil
  | cons hxy _ ih =>
      cases hxy with
      | called hmade => exact .cons hmade ih
      | asked | returned | entered | left => exact ih

theorem delivery?_alike {made made' : List Call}
    (hmade : List.Forall₂ Call.Alike made made') :
    (made.filterMap Call.delivery?).map (List.map AuditRecord.content) =
      (made'.filterMap Call.delivery?).map (List.map AuditRecord.content) := by
  induction hmade with
  | nil => rfl
  | cons hfirst _ ih =>
      cases hfirst with
      | consume hrecords => exact congrArg₂ List.cons hrecords ih
      | begin | commit _ | rollback _ | preCommit _ _ | finished _ _ => exact ih

theorem Alike.deliveries_eq (halike : h.Alike v h') :
    h.deliveries.map (List.map AuditRecord.content) =
      h'.deliveries.map (List.map AuditRecord.content) :=
  delivery?_alike halike.calls

end History
end AuditTrail
