import AuditTrail.Proofs.Coordinator.History

/-!
# Ways through a conversation

An `Exchange` is a tree, and a run of the coordinator is a way from its root
to one of its ends. A way is described by the history of what happened on it:
the questions and their answers, the calls of collaborators and what they gave
back, and between the two whatever the coordinator was told meanwhile.

What can happen during a call is a parameter, an `Interlude`. The quiet one
lets nothing happen. `Session.lean` builds from it the interludes in which
collaborators call the coordinator again, to any depth.

`Exchange.Ensures` is the other side of the same coin: a condition on the
root of the tree that makes a property hold at the end of every way. It goes
through a conversation piece by piece, so it is the form in which the pieces
of the coordinator are specified, and `Way.ensured` takes what they ensure to
the runs.
-/

namespace AuditTrail

/-- What may become of the state of the coordinator while a call lasts, and
what happens meanwhile. -/
abbrev Interlude := CoordinatorState → History → CoordinatorState → Prop

/-- Nothing happens while a call lasts. -/
def Interlude.quiet : Interlude := fun s h s' => h = [] ∧ s' = s

namespace Exchange

variable {α β : Type} {during : Interlude}

/-- A way through a conversation: what happened on it, the result at its end
and the state that is left. -/
inductive Way (during : Interlude) {α : Type} :
    Exchange α → History → α → CoordinatorState → Prop where
  | done (s : CoordinatorState) (a : α) : Way during (.done s a) [] a s
  | ask (query : Query) (resume : query.Answer → Exchange α)
      (answer : query.Answer) {h : History} {a : α} {s : CoordinatorState}
      (rest : Way during (resume answer) h a s) :
      Way during (.ask query resume) (.asked query answer :: h) a s
  | call (s : CoordinatorState) (made : Call)
      (resume : CoordinatorState → made.Answer → Exchange α)
      (answer : made.Answer) {meanwhile : History} {found : CoordinatorState}
      {h : History} {a : α} {s' : CoordinatorState}
      (lasts : during s meanwhile found)
      (rest : Way during (resume found answer) h a s') :
      Way during (.call s made resume)
        (.called made :: (meanwhile ++ .returned made answer :: h)) a s'
  | log (event : LogEvent) (next : Exchange α) {h : History} {a : α}
      {s : CoordinatorState} (rest : Way during next h a s) :
      Way during (.log event next) h a s

/-- Whatever is answered and whatever happens meanwhile, the conversation ends
with `post`, which sees the whole history from `h` on. -/
def Ensures (during : Interlude)
    (post : History → α → CoordinatorState → Prop) :
    Exchange α → History → Prop
  | .done s a, h => post h a s
  | .ask query resume, h =>
      ∀ answer, Ensures during post (resume answer) (h ++ [.asked query answer])
  | .call s made resume, h =>
      ∀ meanwhile found answer, during s meanwhile found →
        Ensures during post (resume found answer)
          (h ++ .called made :: (meanwhile ++ [.returned made answer]))
  | .log _ next, h => Ensures during post next h

/-- What is ensured at the root holds at the end of every way. -/
theorem Way.ensured {post : History → α → CoordinatorState → Prop}
    {x : Exchange α} {h' : History} {a : α} {s : CoordinatorState}
    (way : x.Way during h' a s) :
    ∀ {h : History}, x.Ensures during post h → post (h ++ h') a s := by
  induction way with
  | done s a => intro h hx; simpa [Ensures] using hx
  | ask query resume answer rest ih =>
      intro h hx
      have := ih (hx answer)
      rwa [List.append_assoc, List.singleton_append] at this
  | call s made resume answer lasts rest ih =>
      intro h hx
      have := ih (hx _ _ answer lasts)
      simpa only [List.append_assoc, List.cons_append,
        List.nil_append] using this
  | log event next rest ih => intro h hx; exact ih hx

/-- What is ensured may be weakened. -/
theorem Ensures.mono {post post' : History → α → CoordinatorState → Prop}
    {x : Exchange α} (himp : ∀ h a s, post h a s → post' h a s) :
    ∀ {h : History}, x.Ensures during post h → x.Ensures during post' h := by
  induction x with
  | done s a => intro h hx; exact himp h a s hx
  | ask query resume ih => intro h hx answer; exact ih answer (hx answer)
  | call s made resume ih =>
      intro h hx meanwhile found answer lasts
      exact ih found answer (hx meanwhile found answer lasts)
  | log event next ih => intro h hx; exact ih hx

theorem Ensures.and {post post' : History → α → CoordinatorState → Prop}
    {x : Exchange α} :
    ∀ {h : History}, x.Ensures during post h → x.Ensures during post' h →
      x.Ensures during (fun h a s => post h a s ∧ post' h a s) h := by
  induction x with
  | done s a => intro h hx hx'; exact ⟨hx, hx'⟩
  | ask query resume ih =>
      intro h hx hx' answer; exact ih answer (hx answer) (hx' answer)
  | call s made resume ih =>
      intro h hx hx' meanwhile found answer lasts
      exact ih found answer (hx meanwhile found answer lasts)
        (hx' meanwhile found answer lasts)
  | log event next ih => intro h hx hx'; exact ih hx hx'

/-- What has happened stays in the history. -/
theorem ensures_grows (x : Exchange α) :
    ∀ h : History,
      x.Ensures during (fun h' _ _ => ∃ later, h' = h ++ later) h := by
  induction x with
  | done s a => intro h; exact ⟨[], (List.append_nil h).symm⟩
  | ask query resume ih =>
      intro h answer
      refine (ih answer _).mono ?_
      intro h' a s hpost
      obtain ⟨later, rfl⟩ := hpost
      exact ⟨_, List.append_assoc _ _ _⟩
  | call s made resume ih =>
      intro h meanwhile found answer _
      refine (ih found answer _).mono ?_
      intro h' a s' hpost
      obtain ⟨later, rfl⟩ := hpost
      exact ⟨_, List.append_assoc _ _ _⟩
  | log event next ih => intro h; exact ih h

/-- What is only ensured of certain histories need only be ensured as long as
the history can still become one of them. -/
theorem ensures_suppose {supposed : History → Prop}
    (hback : ∀ h later, supposed (h ++ later) → supposed h)
    {post : History → α → CoordinatorState → Prop} {x : Exchange α}
    {h : History} (hx : supposed h → x.Ensures during post h) :
    x.Ensures during (fun h' a s => supposed h' → post h' a s) h := by
  by_cases hstill : supposed h
  · refine (hx hstill).mono fun h' a s hpost => ?_
    exact fun _ => hpost
  · refine (ensures_grows x h).mono ?_
    rintro h' a s ⟨later, rfl⟩ hsupposed
    exact absurd (hback h later hsupposed) hstill

/-- A conversation that goes on with another ensures what the first makes the
second ensure. -/
theorem ensures_bind {post : History → β → CoordinatorState → Prop}
    {x : Exchange α} {next : α → CoordinatorState → Exchange β} :
    ∀ {h : History}, (x.bind next).Ensures during post h ↔
      x.Ensures during (fun h a s => (next a s).Ensures during post h) h := by
  induction x with
  | done s a => intro h; exact Iff.rfl
  | ask query resume ih => intro h; exact forall_congr' fun answer => ih answer
  | call s made resume ih =>
      intro h
      exact forall_congr' fun meanwhile => forall_congr' fun found =>
        forall_congr' fun answer => imp_congr_right fun _ => ih found answer
  | log event next ih => intro h; exact ih

end Exchange

/-! ## Ways that exist

Every question has an answer, every call gives something back, and a
conversation is a finite tree, so in any company there is a way to its end. -/

/-- Someone who answers every question and every call, and who decides what
happens while a call lasts. -/
structure Company where
  answers : (query : Query) → query.Answer
  replies : (made : Call) → made.Answer
  meanwhile : Call → CoordinatorState → History × CoordinatorState

/-- What the company does during a call may happen. -/
def Company.Within (c : Company) (during : Interlude) : Prop :=
  ∀ made s, during s (c.meanwhile made s).1 (c.meanwhile made s).2

/-- The way of a conversation in some company: what happens on it, its result
and the state it leaves. -/
def Exchange.follow {α : Type} (c : Company) :
    Exchange α → History × α × CoordinatorState
  | .done s a => ([], a, s)
  | .ask query resume =>
      let (h, a, s) := (resume (c.answers query)).follow c
      (.asked query (c.answers query) :: h, a, s)
  | .call s made resume =>
      let (during, found) := c.meanwhile made s
      let (h, a, s') := (resume found (c.replies made)).follow c
      (.called made :: (during ++ .returned made (c.replies made) :: h), a, s')
  | .log _ next => next.follow c

theorem Exchange.way_follow {α : Type} {during : Interlude} {c : Company}
    (within : c.Within during) (x : Exchange α) :
    x.Way during (x.follow c).1 (x.follow c).2.1 (x.follow c).2.2 := by
  induction x with
  | done s a => exact .done s a
  | ask query resume ih => exact .ask query resume _ (ih _)
  | call s made resume ih =>
      exact .call s made resume _ (within made s) (ih _ _)
  | log event next ih => exact .log event next ih

end AuditTrail
