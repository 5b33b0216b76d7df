import AuditTrail.Proofs.Coordinator.Filling

/-!
# Answers of the consumer

A consumer is handed records, hears of commits and ends of transactions, and
may fail each time. The coordinator logs the failure and goes on. So two
consumers who answer differently cannot be told apart by anyone else: in the
same world they see the coordinator in the same states, making the same calls
and giving the same results.

The world may call the coordinator again during any call, also during those of
the consumer, so long as it does not go by what the consumer answered. Whatever
session is held with one consumer is held with any other.
-/

namespace AuditTrail

open Coordinating Coordinator History

/-- What a consumer answers when he is called, after all that happened
before. -/
abbrev ConsumerAnswers := History → (made : Call) → made.Answer

/-- If the consumer is back from a call, this is his answer. -/
def ConsumerAnswers.Gives (c : ConsumerAnswers) (past : History) :
    Happening → Prop
  | .returned made answer => made.isConsumer = true → answer = c past made
  | _ => True

/-- A session in the world, with the consumer. -/
structure World.Hosts (w : World .consumer) (c : ConsumerAnswers)
    (settings : CoordinatorSettings) (depth : Nat) (s : CoordinatorState)
    (ts : List Turn) (e : CoordinatorState) : Prop where
  session : Session settings (Interlude.nested settings depth) s ts e
  allowed : Always w.Allows [] (accountOf ts)
  given : Always c.Gives [] (accountOf ts)

/-- The world and the consumer. -/
def World.among (w : World .consumer) (c : ConsumerAnswers) : w.Filling where
  answer := w.answer
  reply past made := if made.isConsumer then c past made else w.reply past made
  answers _ _ := .refl _
  replies past made := by
    by_cases hconsumer : made.isConsumer = true
    · exact .inl ⟨rfl, hconsumer⟩
    · rw [if_neg hconsumer]
      exact .inr rfl

theorem World.Filling.Allows.gives {w : World .consumer} {c : ConsumerAnswers}
    {past : History} {x : Happening} (h : (w.among c).Allows past x) :
    c.Gives past x := by
  cases x with
  | returned made answer => exact fun hconsumer => h.2.trans (if_pos hconsumer)
  | asked _ _ | called _ | entered _ _ | left _ _ _ => trivial

theorem World.Hosts.of_allowed {w : World .consumer} {c : ConsumerAnswers}
    {settings : CoordinatorSettings} {depth : Nat} {s e : CoordinatorState}
    {ts : List Turn}
    (session : Session settings (Interlude.nested settings depth) s ts e)
    (hallowed : Always (w.among c).Allows [] (accountOf ts)) :
    w.Hosts c settings depth s ts e :=
  ⟨session, hallowed.mono fun _ _ => Filling.Allows.world,
    hallowed.mono fun _ _ => Filling.Allows.gives⟩

/-- Whatever another consumer answers, there is such a session with him. The
same turns are taken, the same calls are made and the host gets the same
results. -/
theorem consumer_answers_show_nowhere {settings : CoordinatorSettings}
    (w : World .consumer) {c : ConsumerAnswers} (c' : ConsumerAnswers)
    {depth : Nat} {s s' e : CoordinatorState} (hs : s.Alike s') {ts : List Turn}
    (hosts : w.Hosts c settings depth s ts e) :
    (∃ ts' e', w.Hosts c' settings depth s' ts' e' ∧ ts.length = ts'.length) ∧
      ∀ {depth' : Nat} {ts' : List Turn} {e' : CoordinatorState},
        w.Hosts c' settings depth' s' ts' e' → ts.length = ts'.length →
          List.Forall₂ (Turn.Alike .consumer) ts ts' ∧
            ts.map (·.outcome) = ts'.map (·.outcome) ∧
            List.Forall₂ Call.Alike (accountOf ts).calls (accountOf ts').calls ∧
              e.Alike e' := by
  have hserve := serve_alike settings
  constructor
  · obtain ⟨ts', e', session', hallowed', hlength⟩ := Session.goes hserve
      (w.determines_nested hserve depth depth)
        ((w.among c').supplies_nested hserve depth) .nil hs
      hosts.session hosts.allowed
    exact ⟨ts', e', .of_allowed session' hallowed', hlength⟩
  · intro depth' ts' e' hosts' hlength
    obtain ⟨hturns, hends⟩ :=
      Session.alike hserve (w.determines_nested hserve depth depth') .nil hs
        hosts.session hosts'.session hosts.allowed hosts'.allowed (.inl hlength)
    refine ⟨hturns, ?_, (accountOf_alike hturns).calls, hends⟩
    rw [← List.forall₂_eq_eq_eq, List.forall₂_map_left_iff,
      List.forall₂_map_right_iff]
    exact hturns.imp fun t t' ht => ht.outcome.resolve_left nofun

namespace Sample

def done? : Happening → Option HostCall
  | .left made _ _ => some made
  | _ => none

/-- What a host says next that saves inside a transaction of its own, after
what happened last. -/
def nextCall : Option (Option HostCall) → Option HostCall
  | none => some (.startCollecting "req")
  | some (some (.startCollecting _)) => some (.finish "req")
  | some (some (.finish _)) => some (.transactionCommitting (notice 5))
  | some (some (.transactionCommitting event)) =>
      some (.transactionCommitted event)
  | some _ => none

theorem done?_alike {v : Veil} {h h' : History} (halike : h.Alike v h') :
    h.map done? = h'.map done? := by
  induction halike with
  | nil => rfl
  | cons hxy _ ih => exact congrArg₂ List.cons (by cases hxy <;> rfl) ih

/-- The company of a host with a transaction, and a consumer who always gives
one answer. -/
def answering (answer : Outcome) : Company :=
  { company (some (transaction 5)) (order 1) undisturbed with
    replies
      | .begin => .ok (transaction 1)
      | .commit _ | .rollback _ => .ok ()
      | .consume _ | .preCommit _ _ | .finished _ _ => answer }

def bystanders (v : Veil) : World v where
  answer _ := (answering (.ok ())).answers
  reply _ := (answering (.ok ())).replies
  tells _ := none
  answer_congr _ := rfl
  reply_congr _ := fun hmade => by cases hmade <;> rfl
  tells_congr _ := rfl

def host : World .consumer :=
  { bystanders .consumer with
    tells h := nextCall (h.map done?).getLast?
    tells_congr halike := by rw [done?_alike halike] }

def always (answer : Outcome) : ConsumerAnswers :=
  fun _ => (answering answer).replies

theorem allowed_follow (answer : Outcome) {α : Type} (x : Exchange α) :
    ∀ past : History,
      past.Always (host.among (always answer)).Allows
        (x.follow (answering answer)).1 := by
  induction x with
  | done s a => intro past; trivial
  | ask query resume ih => intro past; exact ⟨rfl, ih _ _⟩
  | call s made resume ih =>
      intro past
      refine ⟨trivial, ⟨?_, ?_⟩, ih _ _ _⟩
      · simp [host, done?, nextCall]
      · cases made <;> rfl
  | log event next ih => exact ih

theorem allowed_turn (answer : Outcome) {settings : CoordinatorSettings}
    {made : HostCall} (s : CoordinatorState) {past : History}
    (htold : host.tells past = some made) :
    past.Always (host.among (always answer)).Allows
      (Turn.inCompany settings (answering answer) made s).account :=
  ⟨htold, always_append.mpr ⟨allowed_follow answer _ _, trivial, trivial⟩⟩

def saving : List HostCall :=
  [.startCollecting "req", .finish "req", .transactionCommitting (notice 5),
    .transactionCommitted (notice 5)]

def savingTurns (answer : Outcome) : List Turn :=
  turnsIn (settings false) .initial
    (saving.map fun made => (answering answer, made))

theorem allowed_saving (answer : Outcome) :
    Always (host.among (always answer)).Allows []
      (accountOf (savingTurns answer)) := by
  have htold : ∀ (past : History) (t : Turn), host.tells (past ++ t.account) =
      nextCall (some (some t.made)) := by
    intro past t
    change nextCall ((past ++ t.account).map done?).getLast? = _
    rw [Turn.account, ← List.cons_append, ← List.append_assoc, List.map_append,
      List.map_singleton, List.getLast?_concat]
    rfl
  refine always_append.mpr ⟨allowed_turn answer _ rfl, ?_⟩
  refine always_append.mpr ⟨allowed_turn answer _ (htold _ _), ?_⟩
  refine always_append.mpr ⟨allowed_turn answer _ (htold _ _), ?_⟩
  exact always_append.mpr ⟨allowed_turn answer _ (htold _ _), trivial⟩

theorem hosts_saving (answer : Outcome) :
    host.Hosts (always answer) (settings false) 0 .initial
    (savingTurns answer) (endOf .initial (savingTurns answer)) := by
  refine .of_allowed (session_turnsIn _ _ fun play hmem => ?_)
    (allowed_saving answer)
  obtain ⟨made, -, rfl⟩ := List.mem_map.mp hmem
  exact fun _ _ => ⟨rfl, rfl⟩

end Sample

/-- One consumer takes everything and one rejects everything: an announcement,
a delivery and a report. -/
theorem consumer_answers_sample :
    let taken := Sample.savingTurns (.ok ())
    let rejected := Sample.savingTurns (.error (.consumer "full"))
    List.Forall₂ (Turn.Alike .consumer) taken rejected ∧
      taken.map (·.outcome) = rejected.map (·.outcome) ∧
      (accountOf rejected).calls.map Call.isConsumer = [true, true, true] := by
  intro taken rejected
  obtain ⟨-, halike⟩ := consumer_answers_show_nowhere Sample.host
    (Sample.always (.error (.consumer "full"))) (.refl .initial)
      (Sample.hosts_saving (.ok ()))
  obtain ⟨hturns, houtcomes, -, -⟩ :=
    halike (Sample.hosts_saving (.error (.consumer "full"))) rfl
  exact ⟨hturns, houtcomes, by decide +kernel⟩

end AuditTrail
