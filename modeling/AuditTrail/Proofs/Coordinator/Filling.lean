import AuditTrail.Proofs.Coordinator.World

/-!
# Filling in what is hidden

A world leaves open what is behind the veil. A `World.Filling` leaves nothing
open: everybody gives one answer, and it looks as the world has it. So a run
that goes by a filling is a run in the world, and here is the converse, that
there always is such a run.

Among collaborators who never tell the coordinator anything this is plain
recursion, `Filling.goes`. Otherwise a session that is held during a call need
not come to an end, and it takes a run by which to go: where there is one at
all, there is one by any other filling, `Session.goes`, and it is as long,
because at every point the two are alike and the world makes them go on the
same way.
-/

namespace AuditTrail

open Coordinating Coordinator

variable {v : Veil}

theorem Veil.Answers.refl {query : Query} (answer : query.Answer) :
    v.Answers query answer answer := by
  cases query with
  | isCancelled => exact .inr rfl
  | freshRecordId | now => trivial
  | currentTransaction | entries | primaryKey _ => exact rfl

namespace World

/-- What everybody answers. -/
structure Filling (w : World v) where
  answer : History → (query : Query) → query.Answer
  reply : History → (made : Call) → made.Answer
  answers : ∀ (past : History) (query : Query),
    v.Answers query (answer past query) (w.answer past query)
  replies : ∀ (past : History) (made : Call),
    v.Replies made (reply past made) made (w.reply past made)

variable {w : World v}

namespace Filling

/-- This happens next, or it is up to the coordinator. -/
def Allows (f : w.Filling) (past : History) : Happening → Prop
  | .asked query answer => answer = f.answer past query
  | .called _ => True
  | .returned made answer => w.tells past = none ∧ answer = f.reply past made
  | .entered made _ => w.tells past = some made
  | .left .. => True

theorem Allows.world {f : w.Filling} {past : History} {x : Happening}
    (h : f.Allows past x) :
    w.Allows past x := by
  cases x with
  | asked query answer =>
      rw [show answer = _ from h]
      exact f.answers past query
  | returned made answer =>
      obtain ⟨hnone, rfl⟩ := h
      exact ⟨hnone, f.replies past made⟩
  | called _ | entered _ _ | left _ _ _ => exact h

/-- Where nobody tells the coordinator anything, every conversation has a
run. -/
theorem goes (f : w.Filling) (hquiet : ∀ past, w.tells past = none) {α : Type}
    (x : Exchange α) :
    ∀ past : History, ∃ h a s, x.Way Interlude.quiet h a s ∧
      past.Always f.Allows h := by
  induction x with
  | done s a => intro past; exact ⟨[], a, s, .done s a, trivial⟩
  | ask query resume ih =>
      intro past
      let answer := f.answer past query
      obtain ⟨h, a, s, way, hallowed⟩ :=
        ih answer (past ++ [.asked query answer])
      exact ⟨_, a, s, .ask query resume answer way, rfl, hallowed⟩
  | call s made resume ih =>
      intro past
      let called := past ++ [.called made]
      let answer := f.reply called made
      obtain ⟨h, a, s', way, hallowed⟩ :=
        ih s answer (called ++ [.returned made answer])
      exact ⟨_, a, s', .call s made resume answer ⟨rfl, rfl⟩ way, trivial,
        ⟨hquiet called, rfl⟩, hallowed⟩
  | log event next ih =>
      intro past
      obtain ⟨h, a, s, way, hallowed⟩ := ih past
      exact ⟨h, a, s, .log event next way, hallowed⟩

/-- Whatever happens during a call, something like it may happen by the
filling. -/
def Supplies (f : w.Filling) (during during' : Interlude) : Prop :=
  ∀ {past past' h : History} {s s' found : CoordinatorState},
    past.Alike v past' → s.Alike s' →
    during s h found → past.Always w.Allows h →
    ∃ h' found', during' s' h' found' ∧ past'.Always f.Allows h' ∧
      h.Alike v h' ∧
      found.Alike found'

end Filling
end World

/-! ## Another run -/

/-- Of two conversations that are alike, the second goes by the filling if the
first goes at all. -/
theorem Exchange.Alike.goes {α : Type} {R : α → α → Prop} {x x' : Exchange α}
    (hx : Exchange.Alike v R x x') {w : World v} {f : w.Filling}
    {during during' : Interlude} (hsupplies : f.Supplies during during') :
    ∀ {past past' h : History} {a : α} {s : CoordinatorState},
      past.Alike v past' →
      x.Way during h a s → past.Always w.Allows h →
      ∃ h' a' s', x'.Way during' h' a' s' ∧ past'.Always f.Allows h' := by
  induction hx with
  | @done _ s' _ a' _ _ =>
      intro past past' h a s _ _ _
      exact ⟨[], a', s', .done s' a', trivial⟩
  | ask query _ ih =>
      intro past past' h a s hpast way hallowed
      cases way with
      | ask _ _ answer rest =>
          have hchosen : f.Allows past' (.asked query (f.answer past' query)) :=
            rfl
          have hanswer := World.answers_alike hpast hallowed.1 hchosen.world
          obtain ⟨h', a', s', way', hallowed'⟩ := ih _ _ hanswer
            (hpast.snoc (.asked query hanswer)) rest hallowed.2
          exact ⟨_, a', s', .ask _ _ _ way', hchosen, hallowed'⟩
  | @call _ _ made made' _ _ hs hmade _ ih =>
      intro past past' h a s hpast way hallowed
      cases way with
      | call _ _ _ answer lasts rest =>
          have hcalled := Happening.Alike.called (v := v) hmade
          obtain ⟨hmeanwhile, hreturned, hrest⟩ :=
            History.always_append.mp hallowed.2
          obtain ⟨meanwhile', found', lasts', hmeanwhile', hsame, hfound⟩ :=
            hsupplies (hpast.snoc hcalled) hs lasts hmeanwhile
          have hlong := (hpast.snoc hcalled).append hsame
          let answer' := f.reply (past' ++ [.called made'] ++ meanwhile') made'
          have hchosen : f.Allows (past' ++ [.called made'] ++ meanwhile')
              (.returned made' answer') :=
                ⟨w.tells_congr hlong ▸ hreturned.1, rfl⟩
          have hreply := World.replies_alike hlong hmade hreturned hchosen.world
          obtain ⟨h', a', s', way', hrest'⟩ :=
            ih _ found' answer answer' hfound hreply
              (hlong.snoc (.returned hmade hreply)) rest hrest
          exact ⟨_, a', s', .call _ _ _ answer' lasts' way', trivial,
            History.always_append.mpr ⟨hmeanwhile', hchosen, hrest'⟩⟩
  | logLeft event _ ih =>
      intro past past' h a s hpast way hallowed
      cases way with
      | log _ _ rest => exact ih hpast rest hallowed
  | logRight event _ ih =>
      intro past past' h a s hpast way hallowed
      obtain ⟨h', a', s', way', hallowed'⟩ := ih hpast way hallowed
      exact ⟨h', a', s', .log event _ way', hallowed'⟩

section Sessions

variable {settings : CoordinatorSettings} {w : World v} {f : w.Filling}
  {during during' : Interlude}

theorem Turn.goes
    (hserve : ∀ made, Coordinating.Alike v v.Outcomes (serve settings made)
      (serve settings made))
    (hsupplies : f.Supplies during during') {past past' : History}
    (hpast : past.Alike v past') {t : Turn} {s' : CoordinatorState}
    (hbefore : t.before.Alike s') (taken : t.Taken settings during)
    (hallowed : past.Always w.Allows t.account) :
    ∃ t' : Turn, t'.before = s' ∧ t'.Taken settings during' ∧
      past'.Always f.Allows t'.account := by
  have htold : w.tells past' = some t.made := w.tells_congr hpast ▸ hallowed.1
  obtain ⟨h', outcome', after', way', hallowed'⟩ :=
    (hserve t.made _ _ hbefore).goes hsupplies
      (hpast.snoc (.entered t.made hbefore)) taken
      (History.always_append.mp hallowed.2).1
  exact ⟨⟨s', t.made, h', outcome', after'⟩, rfl, way', htold,
    History.always_append.mpr ⟨hallowed', trivial, trivial⟩⟩

theorem Session.goes
    (hserve : ∀ made, Coordinating.Alike v v.Outcomes (serve settings made)
      (serve settings made))
    (hdetermines : w.Determines during during')
    (hsupplies : f.Supplies during during') {ts : List Turn} :
    ∀ {past past' : History} {s s' e : CoordinatorState}, past.Alike v past' →
      s.Alike s' →
      Session settings during s ts e → past.Always w.Allows (accountOf ts) →
      ∃ ts' e', Session settings during' s' ts' e' ∧
        past'.Always f.Allows (accountOf ts') ∧
        ts.length = ts'.length := by
  induction ts with
  | nil =>
      intro past past' s s' e _ _ _ _
      exact ⟨[], s', .nil s', trivial, rfl⟩
  | cons t ts ih =>
      intro past past' s s' e hpast hs session hallowed
      cases session with
      | cons _ taken rest =>
          rw [accountOf_cons] at hallowed
          obtain ⟨hturn, hrest⟩ := History.always_append.mp hallowed
          obtain ⟨t', rfl, taken', hturn'⟩ :=
            Turn.goes hserve hsupplies hpast hs taken hturn
          have halike :=
            Turn.alike_of_taken hserve hdetermines hpast hs taken taken' hturn
              (hturn'.mono fun _ _ => World.Filling.Allows.world)
          obtain ⟨ts', e', session', hrest', hlength⟩ :=
            ih (hpast.append halike.account) halike.after rest hrest
          exact ⟨t' :: ts', e', .cons t' taken' session',
            History.always_append.mpr ⟨hturn', hrest'⟩,
            congrArg Nat.succ hlength⟩

theorem World.Filling.supplies_nested (f : w.Filling)
    (hserve : ∀ made, Coordinating.Alike v v.Outcomes (serve settings made)
      (serve settings made))
    (depth : Nat) :
    f.Supplies (Interlude.nested settings depth)
      (Interlude.nested settings depth) := by
  induction depth with
  | zero =>
      rintro past past' _ s s' _ - hs ⟨rfl, rfl⟩ -
      exact ⟨[], s', ⟨rfl, rfl⟩, trivial, .nil, hs⟩
  | succ depth ih =>
      rintro past past' _ s s' found hpast hs ⟨ts, session, rfl⟩ hallowed
      have hdetermines : w.Determines (Interlude.nested settings depth)
          (Interlude.nested settings depth) :=
            w.determines_nested hserve depth depth
      obtain ⟨ts', e', session', hallowed', hlength⟩ :=
        Session.goes hserve hdetermines ih hpast hs session hallowed
      obtain ⟨hturns, hends⟩ :=
        Session.alike hserve hdetermines hpast hs session session' hallowed
          (hallowed'.mono fun _ _ => World.Filling.Allows.world) (.inl hlength)
      exact ⟨_, e', ⟨ts', session', rfl⟩, hallowed',
        accountOf_alike hturns, hends⟩

end Sessions
end AuditTrail
