import AuditTrail.Proofs.Coordinator.Blind
import AuditTrail.Proofs.Coordinator.Session

/-!
# The same world twice

To say that a difference shows nowhere one has to run the same coordinator
twice among the same collaborators. A `World` is everyone who answers a
coordinator or tells it something, and what he does is a function of what
happened before, but not of what a veil hides. What is behind the veil is left
open, so it may differ from run to run.

`Exchange.Alike.ways` is what conversations that are alike are good for: in
one world they have one history. The induction is on the conversations; what
happens while a call lasts is dealt with by induction on the depth to which
calls are nested, and there the world decides when the coordinator is called
again and by whom.
-/

namespace AuditTrail

open Coordinating Coordinator

variable {v : Veil}

/-! ## What may happen next -/

namespace History

/-- Everything that happens is allowed after what happened before it. -/
def Always (allowed : History → Happening → Prop) : History → History → Prop
  | _, [] => True
  | past, x :: rest => allowed past x ∧ Always allowed (past ++ [x]) rest

theorem always_append {allowed : History → Happening → Prop} {h h' : History} :
    ∀ {past : History}, Always allowed past (h ++ h') ↔
      Always allowed past h ∧ Always allowed (past ++ h) h' := by
  induction h with
  | nil => intro past; simp [Always]
  | cons x rest ih =>
      intro past
      rw [List.cons_append, Always, Always, ih, and_assoc,
        List.append_cons past x rest]

theorem Always.mono {allowed allowed' : History → Happening → Prop}
    {h : History} :
    ∀ {past : History}, Always allowed past h →
      (∀ past x, allowed past x → allowed' past x) →
        Always allowed' past h := by
  induction h with
  | nil => intro past _ _; trivial
  | cons x rest ih =>
      intro past halways himp; exact ⟨himp past x halways.1, ih halways.2 himp⟩

end History

/-- Everyone around a coordinator. While a call lasts, and between the calls of
the host, somebody may tell the coordinator something. -/
structure World (v : Veil) where
  answer : History → (query : Query) → query.Answer
  reply : History → (made : Call) → made.Answer
  tells : History → Option HostCall
  answer_congr : ∀ {h h' : History}, h.Alike v h' → answer h = answer h'
  reply_congr : ∀ {h h' : History}, h.Alike v h' →
    ∀ {made made' : Call}, made.Alike made' →
    made.result (reply h made) = made'.result (reply h' made')
  tells_congr : ∀ {h h' : History}, h.Alike v h' → tells h = tells h'

namespace World

/-- The world does this next, or it is not up to the world. -/
def Allows (w : World v) (past : History) : Happening → Prop
  | .asked query answer => v.Answers query answer (w.answer past query)
  | .called _ => True
  | .returned made answer =>
      w.tells past = none ∧ v.Replies made answer made (w.reply past made)
  | .entered made _ => w.tells past = some made
  | .left .. => True

variable {w : World v} {past past' : History}

theorem answers_alike (hpast : past.Alike v past') {query : Query}
    {answer answer' : query.Answer} (h : w.Allows past (.asked query answer))
    (h' : w.Allows past' (.asked query answer')) :
    v.Answers query answer answer' :=
  Veil.Answers.of_common h (w.answer_congr hpast ▸ h')

theorem replies_alike (hpast : past.Alike v past') {made made' : Call}
    (hmade : made.Alike made') {answer : made.Answer} {answer' : made'.Answer}
    (h : w.Allows past (.returned made answer))
    (h' : w.Allows past' (.returned made' answer')) :
    v.Replies made answer made' answer' := by
  rcases h.2 with hconsumer | h
  · exact .inl hconsumer
  · rcases h'.2 with ⟨hv, hconsumer⟩ | h'
    · exact .inl ⟨hv, hmade.isConsumer_eq.trans hconsumer⟩
    · exact .inr (h.trans ((w.reply_congr hpast hmade).trans h'.symm))

/-- In the world the same things happen during a call, whichever of the two
interludes the call allows. -/
def Determines (w : World v) (during during' : Interlude) : Prop :=
  ∀ {past past' h h' : History} {s s' found found' : CoordinatorState},
    past.Alike v past' →
    s.Alike s' → during s h found → during' s' h' found' →
    past.Always w.Allows h → past'.Always w.Allows h' →
    w.tells (past ++ h) = none → w.tells (past' ++ h') = none →
    h.Alike v h' ∧ found.Alike found'

theorem determines_quiet (w : World v) :
    w.Determines Interlude.quiet Interlude.quiet := by
  rintro past past' h h' s s' found found' - hs ⟨rfl, rfl⟩ ⟨rfl, rfl⟩ - - - -
  exact ⟨.nil, hs⟩

end World

/-! ## Conversations -/

/-- Conversations that are alike go the same way in the same world. -/
theorem Exchange.Alike.ways {α : Type} {R : α → α → Prop} {x x' : Exchange α}
    (hx : Exchange.Alike v R x x') {w : World v} {during during' : Interlude}
    (hdetermines : w.Determines during during') :
    ∀ {past past' h h' : History} {a a' : α} {s s' : CoordinatorState},
      past.Alike v past' →
      x.Way during h a s → x'.Way during' h' a' s' →
      past.Always w.Allows h → past'.Always w.Allows h' →
      h.Alike v h' ∧ R a a' ∧ s.Alike s' := by
  induction hx with
  | done hs ha =>
      intro past past' h h' a a' s s' _ way way' _ _
      cases way
      cases way'
      exact ⟨.nil, ha, hs⟩
  | ask query _ ih =>
      intro past past' h h' a a' s s' hpast way way' hallowed hallowed'
      cases way with
      | ask _ _ answer rest =>
          cases way' with
          | ask _ _ answer' rest' =>
              have hanswer := World.answers_alike hpast hallowed.1 hallowed'.1
              have hasked := Happening.Alike.asked query hanswer
              obtain ⟨hrest, hends⟩ :=
                ih answer answer' hanswer (hpast.snoc hasked) rest rest'
                  hallowed.2 hallowed'.2
              exact ⟨.cons hasked hrest, hends⟩
  | call hs hmade _ ih =>
      -- Before there are answers to compare, the world settles what happens
      -- meanwhile.
      intro past past' h h' a a' s s' hpast way way' hallowed hallowed'
      cases way with
      | call _ _ _ answer lasts rest =>
          cases way' with
          | call _ _ _ answer' lasts' rest' =>
              have hcalled := Happening.Alike.called (v := v) hmade
              obtain ⟨hmeanwhile, hreturned, hrest⟩ :=
                History.always_append.mp hallowed.2
              obtain ⟨hmeanwhile', hreturned', hrest'⟩ :=
                History.always_append.mp hallowed'.2
              obtain ⟨hsame, hfound⟩ :=
                hdetermines (hpast.snoc hcalled) hs lasts lasts' hmeanwhile
                  hmeanwhile' hreturned.1 hreturned'.1
              have hlong := (hpast.snoc hcalled).append hsame
              have hreply :=
                World.replies_alike hlong hmade hreturned hreturned'
              have hback := Happening.Alike.returned hmade hreply
              obtain ⟨hlater, hends⟩ :=
                ih _ _ answer answer' hfound hreply (hlong.snoc hback) rest
                  rest' hrest hrest'
              exact ⟨.cons hcalled (hsame.append (.cons hback hlater)), hends⟩
  | logLeft event _ ih =>
      intro past past' h h' a a' s s' hpast way way' hallowed hallowed'
      cases way with
      | log _ _ rest => exact ih hpast rest way' hallowed hallowed'
  | logRight event _ ih =>
      intro past past' h h' a a' s s' hpast way way' hallowed hallowed'
      cases way' with
      | log _ _ rest => exact ih hpast way rest hallowed hallowed'

/-! ## Sessions -/

/-- Turns that begin and end alike, with the same calls between. -/
structure Turn.Alike (v : Veil) (t t' : Turn) : Prop where
  before : t.before.Alike t'.before
  made_eq : t.made = t'.made
  history : t.history.Alike v t'.history
  outcome : v.Outcomes t.outcome t'.outcome
  after : t.after.Alike t'.after

theorem Turn.Alike.account {t t' : Turn} (h : t.Alike v t') :
    t.account.Alike v t'.account := by
  rw [Turn.account, Turn.account, h.made_eq]
  exact .cons (.entered _ h.before) (h.history.snoc (.left _ h.outcome h.after))

section Sessions

variable {settings : CoordinatorSettings} {w : World v}
  {during during' : Interlude}

theorem Turn.alike_of_taken
    (hserve : ∀ made, Coordinating.Alike v v.Outcomes (serve settings made)
      (serve settings made))
    (hdetermines : w.Determines during during') {past past' : History}
    (hpast : past.Alike v past') {t t' : Turn}
    (hbefore : t.before.Alike t'.before) (taken : t.Taken settings during)
    (taken' : t'.Taken settings during')
    (hallowed : past.Always w.Allows t.account)
    (hallowed' : past'.Always w.Allows t'.account) :
    t.Alike v t' := by
  have hmade : t.made = t'.made :=
    Option.some.inj
      (hallowed.1.symm.trans ((w.tells_congr hpast).trans hallowed'.1))
  rw [Turn.Taken, ← hmade] at taken'
  have hentered : (past ++ [Happening.entered t.made t.before]).Alike v
      (past' ++ [Happening.entered t'.made t'.before]) := by
    rw [← hmade]
    exact hpast.snoc (.entered _ hbefore)
  obtain ⟨hhistory, houtcome, hafter⟩ :=
    (hserve t.made _ _ hbefore).ways hdetermines hentered taken taken'
      (History.always_append.mp hallowed.2).1
      (History.always_append.mp hallowed'.2).1
  exact ⟨hbefore, hmade, hhistory, houtcome, hafter⟩

theorem eq_nil_of_tells_none {ts : List Turn} {past : History}
    (hallowed : past.Always w.Allows (accountOf ts))
    (hnone : w.tells past = none) : ts = [] := by
  cases ts with
  | nil => rfl
  | cons t ts =>
      have htold : w.tells past = some t.made := hallowed.1
      rw [hnone] at htold
      cases htold

/-- Two sessions that begin alike are alike, if they are as long as each other
or each ends when nobody tells the coordinator anything. -/
theorem Session.alike
    (hserve : ∀ made, Coordinating.Alike v v.Outcomes (serve settings made)
      (serve settings made))
    (hdetermines : w.Determines during during') {ts : List Turn} :
    ∀ {ts' : List Turn} {past past' : History} {s s' e e' : CoordinatorState},
      past.Alike v past' → s.Alike s' →
      Session settings during s ts e → Session settings during' s' ts' e' →
      past.Always w.Allows (accountOf ts) →
        past'.Always w.Allows (accountOf ts') →
      (ts.length = ts'.length ∨
        (w.tells (past ++ accountOf ts) = none ∧
          w.tells (past' ++ accountOf ts') = none)) →
      List.Forall₂ (Turn.Alike v) ts ts' ∧ e.Alike e' := by
  induction ts with
  | nil =>
      intro ts' past past' s s' e e' hpast hs session session' _ hallowed' hend
      cases session
      cases session' with
      | nil => exact ⟨.nil, hs⟩
      | cons t' _ _ =>
          -- The world would tell one coordinator something and the other
          -- nothing.
          rcases hend with hlength | ⟨hnone, -⟩
          · cases hlength
          · rw [accountOf, List.flatMap_nil, List.append_nil,
              w.tells_congr hpast] at hnone
            cases eq_nil_of_tells_none hallowed' hnone
  | cons t ts ih =>
      intro ts' past past' s s' e e' hpast hs session session' hallowed
        hallowed' hend
      cases session with
      | cons _ taken rest =>
          cases session' with
          | nil =>
              rcases hend with hlength | ⟨-, hnone⟩
              · cases hlength
              · rw [accountOf, List.flatMap_nil, List.append_nil,
                  ← w.tells_congr hpast] at hnone
                cases eq_nil_of_tells_none hallowed hnone
          | cons t' taken' rest' =>
              rw [accountOf_cons] at hallowed hallowed' hend
              rw [accountOf_cons] at hend
              obtain ⟨hturn, hrest⟩ := History.always_append.mp hallowed
              obtain ⟨hturn', hrest'⟩ := History.always_append.mp hallowed'
              have halike :=
                Turn.alike_of_taken hserve hdetermines hpast hs taken taken'
                  hturn hturn'
              rw [← List.append_assoc, ← List.append_assoc] at hend
              obtain ⟨hlater, hends⟩ :=
                ih (hpast.append halike.account) halike.after rest rest' hrest
                  hrest' (hend.imp_left Nat.succ.inj)
              exact ⟨.cons halike hlater, hends⟩

theorem accountOf_alike {ts ts' : List Turn}
    (h : List.Forall₂ (Turn.Alike v) ts ts') :
    (accountOf ts).Alike v (accountOf ts') := by
  induction h with
  | nil => exact .nil
  | cons ht _ ih => exact ht.account.append ih

/-- However deep calls are nested, what happens during a call is determined. -/
theorem World.determines_nested (w : World v)
    (hserve : ∀ made, Coordinating.Alike v v.Outcomes (serve settings made)
      (serve settings made))
    (depth : Nat) :
    ∀ depth' : Nat,
      w.Determines (Interlude.nested settings depth)
        (Interlude.nested settings depth') := by
  induction depth with
  | zero =>
      rintro (_ | depth')
      · exact w.determines_quiet
      · rintro past past' _ _ s s' _ found' hpast hs ⟨rfl, rfl⟩
          ⟨ts', session', rfl⟩ _ hallowed'
          hnone _
        rw [List.append_nil, w.tells_congr hpast] at hnone
        obtain rfl := eq_nil_of_tells_none hallowed' hnone
        cases session'
        exact ⟨.nil, hs⟩
  | succ depth ih =>
      rintro (_ | depth')
      · rintro past past' _ _ s s' found _ hpast hs ⟨ts, session, rfl⟩
          ⟨rfl, rfl⟩ hallowed _ _
          hnone
        rw [List.append_nil, ← w.tells_congr hpast] at hnone
        obtain rfl := eq_nil_of_tells_none hallowed hnone
        cases session
        exact ⟨.nil, hs⟩
      · rintro past past' _ _ s s' found found' hpast hs ⟨ts, session, rfl⟩
          ⟨ts', session', rfl⟩
          hallowed hallowed' hnone hnone'
        obtain ⟨hturns, hends⟩ :=
          Session.alike hserve (ih depth') hpast hs session session' hallowed
            hallowed' (.inr ⟨hnone, hnone'⟩)
        exact ⟨accountOf_alike hturns, hends⟩

end Sessions
end AuditTrail
