import AuditTrail.Rule.Host

/-!
# Nested chains

A chain is a rule, so chains nest to any depth. What such a tree does is what
its single rules do one after the other, from left to right: the names of the
chains and the places where they begin and end leave no trace. Nothing is
assumed of the host, who may keep a state and answer as he likes, so the two
runs agree in how often and in which order he is asked as well.

The only law this needs is that going on after a run is associative
(`andThen_assoc`). A run that stops inside a chain stops everything around it,
because to go on after what has stopped is not to go on at all.

What becomes of single rules in a row has a plain description, `Passage`: they
all hand on, or the run ends with the first that does not. What else there is
to say is read off it. Rules behind the one that stops are never run, nothing
comes past a rule that discards, and what a decrypting rule complains of is
the value that has reached it, under the names the rules are run for.
-/

namespace AuditTrail.RuleHost

variable {σ : Type}

/-! ## Going on after a run -/

theorem andThen_of_some {first : RuleRun × σ} {value : NamedValue}
    (hsome : first.1.outcome = .ok (some value))
    (next : NamedValue → σ → RuleRun × σ) :
    andThen first next =
      (⟨first.1.ran ++ (next value first.2).1.ran,
          (next value first.2).1.outcome⟩,
        (next value first.2).2) := by
  unfold andThen
  rw [hsome]

theorem andThen_of_stop {first : RuleRun × σ}
    (hstop : ∀ value, first.1.outcome ≠ .ok (some value))
    (next : NamedValue → σ → RuleRun × σ) : andThen first next = first := by
  unfold andThen
  split
  · next value hsome => exact absurd hsome (hstop value)
  · rfl
  · rfl

theorem andThen_assoc (first : RuleRun × σ)
    (next more : NamedValue → σ → RuleRun × σ) :
    andThen (andThen first next) more =
      andThen first fun value s => andThen (next value s) more := by
  obtain ⟨⟨ran, outcome⟩, s⟩ := first
  cases outcome with
  | error e => rfl
  | ok result =>
      cases result with
      | none => rfl
      | some value =>
          have hfirst : ∀ f, andThen (⟨ran, .ok (some value)⟩, s) f = _ :=
            fun f => andThen_of_some rfl f
          rw [hfirst, hfirst]
          cases hsecond : (next value s).1.outcome with
          | error e =>
              rw [andThen_of_stop (by simp),
                andThen_of_stop (by simp [hsecond]), hsecond]
          | ok result =>
              cases result with
              | none =>
                  rw [andThen_of_stop (by simp),
                    andThen_of_stop (by simp [hsecond]), hsecond]
              | some last =>
                  rw [andThen_of_some rfl, andThen_of_some hsecond,
                    List.append_assoc]

theorem andThen_pass (first : RuleRun × σ) :
    andThen first (fun value s => (RuleRun.pass value, s)) = first := by
  obtain ⟨⟨ran, outcome⟩, s⟩ := first
  cases outcome with
  | error e => rfl
  | ok result =>
      cases result with
      | none => rfl
      | some value => rw [andThen_of_some rfl, RuleRun.pass, List.append_nil]

/-! ## A tree and its leaves -/

section Trees

variable (host : RuleHost σ) (context : RuleContext)

/-- Runs single rules one after the other. -/
def runLeaves (input : NamedValue) : List SingleRule → σ → RuleRun × σ
  | [], s => (RuleRun.pass input, s)
  | leaf :: rest, s =>
      andThen (host.runLeaf context input leaf s) fun value s =>
        runLeaves value rest s

theorem runLeaves_append (leaves more : List SingleRule) :
    ∀ (input : NamedValue) (s : σ),
      host.runLeaves context input (leaves ++ more) s =
        andThen (host.runLeaves context input leaves s)
          fun value s => host.runLeaves context value more s := by
  induction leaves with
  | nil => intro input s; rfl
  | cons leaf rest ih =>
      intro input s
      rw [List.cons_append, runLeaves, runLeaves, andThen_assoc]
      exact congrArg (andThen _)
        (funext fun value => funext fun s => ih value s)

mutual

theorem run_eq_runLeaves (input : NamedValue) (rule : PropertyRule) (s : σ) :
    host.run context input rule s =
      host.runLeaves context input rule.leaves s := by
  match rule with
  | .single leaf =>
      rw [run, PropertyRule.leaves, runLeaves]
      exact (andThen_pass _).symm
  | .chain _ rules =>
      rw [run, PropertyRule.leaves]
      exact runAll_eq_runLeaves input rules s

theorem runAll_eq_runLeaves (input : NamedValue) (rules : List PropertyRule)
    (s : σ) :
    host.runAll context input rules s =
      host.runLeaves context input (PropertyRule.leavesOfAll rules) s := by
  match rules with
  | [] => rfl
  | rule :: rest =>
      rw [runAll, PropertyRule.leavesOfAll, runLeaves_append,
        run_eq_runLeaves input rule s]
      exact congrArg (andThen _) (funext fun value => funext fun s =>
        runAll_eq_runLeaves value rest s)

end

theorem leavesOfAll_single (leaves : List SingleRule) :
    PropertyRule.leavesOfAll (leaves.map .single) = leaves := by
  induction leaves with
  | nil => rfl
  | cons leaf rest ih => exact congrArg (leaf :: ·) ih

end Trees

/-! ## Single rules in a row -/

/-- Single rules hand a property on, each to the next. -/
inductive HandsOn (host : RuleHost σ) (context : RuleContext) :
    NamedValue → σ → List SingleRule → NamedValue → σ → Prop where
  | nil (value : NamedValue) (s : σ) : HandsOn host context value s [] value s
  | cons {value next last : NamedValue} {s s' s'' : σ} {leaf : SingleRule}
      {rest : List SingleRule}
      (hleaf : host.apply context value leaf s = (.ok (some next), s'))
      (hrest : HandsOn host context next s' rest last s'') :
      HandsOn host context value s (leaf :: rest) last s''

/-- What becomes of single rules that are run one after the other, which of
them are run, and in which state the host is left. -/
inductive Passage (host : RuleHost σ) (context : RuleContext)
    (input : NamedValue) (s : σ) (leaves : List SingleRule) :
    RuleRun × σ → Prop where
  | through {value : NamedValue} {s' : σ}
      (hands : HandsOn host context input s leaves value s') :
      Passage host context input s leaves (⟨leaves, .ok (some value)⟩, s')
  | stopped {before after : List SingleRule} {leaf : SingleRule}
      {value : NamedValue} {s' : σ} (hsplit : leaves = before ++ leaf :: after)
      (hands : HandsOn host context input s before value s')
      (hstops : ∀ next,
        (host.apply context value leaf s').1 ≠ .ok (some next)) :
      Passage host context input s leaves
        (⟨before ++ [leaf], (host.apply context value leaf s').1⟩,
          (host.apply context value leaf s').2)

section Passing

variable {host : RuleHost σ} {context : RuleContext} {input : NamedValue}
  {s : σ} {leaves : List SingleRule} {run : RuleRun × σ}

theorem Passage.cons {value next : NamedValue} {s' : σ} {leaf : SingleRule}
    (hleaf : host.apply context value leaf s = (.ok (some next), s'))
    (passage : host.Passage context next s' leaves run) :
    host.Passage context value s (leaf :: leaves)
      (⟨leaf :: run.1.ran, run.1.outcome⟩, run.2) := by
  cases passage with
  | through hands => exact .through (.cons hleaf hands)
  | stopped hsplit hands hstops =>
      exact .stopped (congrArg (leaf :: ·) hsplit) (.cons hleaf hands) hstops

theorem runLeaves_passage (leaves : List SingleRule) :
    ∀ (input : NamedValue) (s : σ),
    host.Passage context input s leaves
      (host.runLeaves context input leaves s) := by
  induction leaves with
  | nil => intro input s; exact .through (.nil input s)
  | cons leaf rest ih =>
      intro input s
      rw [runLeaves]
      by_cases hhands : ∃ value, (host.apply context input leaf s).1 =
        .ok (some value)
      · obtain ⟨value, hvalue⟩ := hhands
        have hleaf : host.apply context input leaf s =
            (.ok (some value), (host.apply context input leaf s).2) := by
          rw [← hvalue]
        have hrun : (host.runLeaf context input leaf s).1.outcome =
          .ok (some value) := hvalue
        rw [andThen_of_some hrun]
        exact (ih value _).cons hleaf
      · have hstops := not_exists.mp hhands
        have hrun : ∀ value, (host.runLeaf context input leaf s).1.outcome ≠
            .ok (some value) :=
          hstops
        rw [andThen_of_stop hrun]
        exact .stopped (List.nil_append _).symm (.nil input s) hstops

/-- Nothing is handed past a rule that discards. -/
theorem HandsOn.ignore_not_mem {value : NamedValue} {s' : σ}
    (hands : HandsOn host context input s leaves value s') :
    .ignore ∉ leaves := by
  induction hands with
  | nil => exact List.not_mem_nil
  | cons hleaf _ ih =>
      rintro (_ | ⟨_, hrest⟩)
      · cases hleaf
      · exact ih hrest

/-- What a run comes to that meets a rule that discards: nothing is handed on,
and an error is that of an earlier rule. -/
theorem Passage.of_ignore (passage : host.Passage context input s leaves run)
    {before after : List SingleRule}
    (hignore : leaves = before ++ .ignore :: after) :
    run.1.outcome = .ok none ∨
      ∃ first leaf rest value s' e, before = first ++ leaf :: rest ∧
        HandsOn host context input s first value s' ∧
        (host.apply context value leaf s').1 = .error e ∧
          run.1.outcome = .error e := by
  cases passage with
  | through hands =>
      exact absurd (hignore ▸ List.mem_append_right before List.mem_cons_self)
        hands.ignore_not_mem
  | @stopped first rest leaf value s' hsplit hands hstops =>
      rcases List.append_eq_append_iff.mp (hsplit.symm.trans hignore) with
        ⟨gap, hbefore, hgap⟩ | ⟨gap, hfirst, hgap⟩
      · cases gap with
        | nil =>
            cases hgap
            exact .inl rfl
        | cons _ gap =>
            cases hgap
            cases houtcome : (host.apply context value leaf s').1 with
            | error e =>
                exact .inr ⟨first, leaf, gap, value, s', e, hbefore, hands,
                  houtcome, rfl⟩
            | ok result =>
                cases result with
                | none => exact .inl rfl
                | some next => exact absurd houtcome (hstops next)
      · cases gap with
        | nil =>
            cases hgap
            exact .inl rfl
        | cons _ gap =>
            cases hgap
            exact absurd
              (hfirst ▸ List.mem_append_right before List.mem_cons_self)
              hands.ignore_not_mem

/-- An error of a run is the error of one of its rules. -/
theorem Passage.of_error (passage : host.Passage context input s leaves run)
    {e : AuditError} (herror : run.1.outcome = .error e) :
    ∃ leaf ∈ leaves,
      ∃ value s', (host.apply context value leaf s').1 = .error e := by
  cases passage with
  | through hands => cases herror
  | @stopped before after leaf value s' hsplit hands hstops =>
      exact ⟨leaf, hsplit ▸ List.mem_append_right before List.mem_cons_self,
        value, s', herror⟩

theorem decrypted_eq_error {name : String}
    {plain : Except AuditError (Option String)} {e : AuditError}
    (herror : decrypted name plain = .error e) : plain = .error e := by
  cases plain with
  | error e' => exact congrArg Except.error (Except.error.inj herror)
  | ok text => cases text <;> cases herror

/-- What a run comes to that a decrypting rule ends with a mismatch of types:
the rule names what it was run for and the value that had reached it, or the
mismatch is one that decryption itself reports. -/
theorem Passage.of_mismatch (passage : host.Passage context input s leaves run)
    {decryption : Decryption} {includesHash : Bool}
    {type property expected actual : String}
    (hlast : run.1.ran.getLast? = some (.decrypt decryption includesHash))
    (herror : run.1.outcome =
      .error (.typeMismatch type property expected actual)) :
    ∃ before after value s',
      leaves = before ++ .decrypt decryption includesHash :: after ∧
      HandsOn host context input s before value s' ∧
      ((value.value.encrypted? = none ∧ type = context.entityType ∧
          property = context.property ∧ expected = "bytes" ∧
            actual = value.value.typeName) ∨
        ∃ bytes, value.value.encrypted? = some bytes ∧
          (host.decrypt decryption bytes includesHash s').1 =
            .error (.typeMismatch type property expected actual)) := by
  cases passage with
  | through hands => cases herror
  | @stopped before after leaf value s' hsplit hands hstops =>
      rw [List.getLast?_concat] at hlast
      cases hlast
      refine ⟨before, after, value, s', hsplit, hands, ?_⟩
      simp only [apply] at herror
      cases hencrypted : value.value.encrypted? with
      | none =>
          rw [hencrypted] at herror
          cases herror
          exact .inl ⟨rfl, rfl, rfl, rfl, rfl⟩
      | some bytes =>
          rw [hencrypted] at herror
          exact .inr ⟨bytes, rfl, decrypted_eq_error herror⟩

end Passing

/-- A tree of chains does what its single rules do in a row, whatever the names
of the chains, and for every host: the outcome, the rules that were run and the
state of the host are the same. The rules that are run are those up to the
first that discards or fails. A tree with a discarding rule somewhere never
hands a value on; it discards the property, or an earlier rule fails. If a
decrypting rule ends the run with a mismatch of types, it names the entity type
and the property that the tree is run for and the type of the value that had
reached it, unless decryption reported the mismatch itself. -/
theorem nested_chains_flatten (host : RuleHost σ) (context : RuleContext)
    (input : NamedValue) (tree : PropertyRule) (s : σ) :
    let run := host.run context input tree s
    (∀ property, host.run context input
      (.chain property (tree.leaves.map .single)) s = run) ∧
      plain.run context input tree () = (tree.run context input, ()) ∧
      host.Passage context input s tree.leaves run ∧
      (∀ before after, tree.leaves = before ++ .ignore :: after →
        run.1.outcome = .ok none ∨
          ∃ first leaf rest value s' e, before = first ++ leaf :: rest ∧
            HandsOn host context input s first value s' ∧
            (host.apply context value leaf s').1 = .error e ∧
              run.1.outcome = .error e) ∧
      ∀ decryption includesHash type property expected actual,
        run.1.ran.getLast? = some (.decrypt decryption includesHash) →
        run.1.outcome = .error (.typeMismatch type property expected actual) →
        ∃ before after value s',
          tree.leaves = before ++ .decrypt decryption includesHash :: after ∧
          HandsOn host context input s before value s' ∧
          ((value.value.encrypted? = none ∧ type = context.entityType ∧
              property = context.property ∧ expected = "bytes" ∧
              actual = value.value.typeName) ∨
            ∃ bytes, value.value.encrypted? = some bytes ∧
              (host.decrypt decryption bytes includesHash s').1 =
                .error (.typeMismatch type property expected actual)) := by
  intro run
  have hflat : run = host.runLeaves context input tree.leaves s :=
    host.run_eq_runLeaves context input tree s
  have passage : host.Passage context input s tree.leaves run := by
    rw [hflat]
    exact runLeaves_passage tree.leaves input s
  refine ⟨fun property => ?_, run_plain context input tree, passage,
    fun before after hignore => passage.of_ignore hignore,
    fun _ _ _ _ _ _ hlast herror => passage.of_mismatch hlast herror⟩
  rw [run_eq_runLeaves, PropertyRule.leaves, leavesOfAll_single, hflat]

/-- A host that counts its own rules and fails from the second one on. -/
def Sample.tiring : RuleHost Nat where
  decrypt decryption bytes includesHash count :=
    (decryption.decrypt bytes includesHash, count)
  change _ f answer count := (f answer, count)
  custom _ f context input count :=
    (if count = 0 then f context input else .error (.serialization "tired"),
      count + 1)

-- The second rule of the host's own is in the inner chain and stops the outer
-- one.
example (context : RuleContext) (keep : RuleContext → NamedValue → RuleOutcome)
    (hkeep : ∀ input, keep context input = .ok (some input))
    (input : NamedValue) :
    let own : PropertyRule := .single (.custom "own" keep)
    Sample.tiring.run context input
        (.chain "A" [own, .chain "B" [.single (.rename "C"), own],
          .single .ignore]) 0 =
      (⟨[.custom "own" keep, .rename "C", .custom "own" keep],
        .error (.serialization "tired")⟩, 2) := by
  simp [run, runAll, runLeaf, apply, andThen, Sample.tiring, hkeep]

end AuditTrail.RuleHost
