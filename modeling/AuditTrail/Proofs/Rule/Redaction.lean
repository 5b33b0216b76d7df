import AuditTrail.Coordinator.Capture
import Mathlib.Data.List.Forall2

/-!
# Redacted properties

A property is redacted if its chain has a rule that discards it, no matter
where: the rules before it may rename the property, decrypt it or compute a
new value, and chains may be nested to any depth. Whatever they make of it,
nothing comes out at the end, so nothing is recorded. What a value can still
do is make an earlier rule fail.

The argument is about runs. A run that hands nothing on never will, whatever
follows it (`Discards.andThen`), and one that is followed by such a run hands
nothing on either. So it is enough that one leaf of the chain discards, and
the induction is on the nesting.
-/

namespace AuditTrail

def RuleRun.Discards (run : RuleRun) : Prop :=
  ∀ value, run.outcome ≠ .ok (some value)

namespace RuleRun

theorem Discards.andThen {run : RuleRun} (hrun : run.Discards)
    (next : NamedValue → RuleRun) :
    (run.andThen next).Discards := by
  unfold RuleRun.andThen
  split
  · next value houtcome => exact absurd houtcome (hrun value)
  · exact hrun
  · exact hrun

theorem andThen_discards (run : RuleRun) {next : NamedValue → RuleRun}
    (hnext : ∀ value, (next value).Discards) : (run.andThen next).Discards := by
  unfold RuleRun.andThen
  split
  · next value _ => exact hnext value
  · next houtcome => exact fun value h => nomatch houtcome.symm.trans h
  · next e houtcome => exact fun value h => nomatch houtcome.symm.trans h

end RuleRun

namespace PropertyRule

mutual

theorem discards_run {rule : PropertyRule} (hignore : .ignore ∈ rule.leaves)
    (context : RuleContext) (input : NamedValue) :
    (run context input rule).Discards := by
  match rule with
  | single leaf =>
      obtain rfl := List.mem_singleton.mp hignore
      exact fun value h => nomatch h
  | chain _ rules => exact discards_runAll hignore context input

theorem discards_runAll {rules : List PropertyRule}
    (hignore : .ignore ∈ leavesOfAll rules) (context : RuleContext)
    (input : NamedValue) : (runAll context input rules).Discards := by
  match rules with
  | [] => exact absurd hignore List.not_mem_nil
  | rule :: rest =>
      rcases List.mem_append.mp hignore with hfirst | hrest
      · exact (discards_run hfirst context input).andThen _
      · exact RuleRun.andThen_discards _ (discards_runAll hrest context)

end

end PropertyRule

namespace EntityRule

/-- A property has a chain that discards it somewhere. -/
def Redacts (rule : EntityRule) (name : String) : Prop :=
  ∃ rules : EntityRules, rule = rules.toRule ∧
    ∃ chain, rules.chain? name = some chain ∧
      .ignore ∈ PropertyRule.leavesOfAll chain.rules

theorem Redacts.record_eq {rule : EntityRule} {name : String}
    (hredacts : rule.Redacts name) {value : FieldValue}
    {properties recorded : TrackedProperties}
    (hrecord : rule.record name value properties = .ok recorded) :
    recorded = properties := by
  obtain ⟨rules, rfl, chain, hchain, hignore⟩ := hredacts
  have hdiscards : (rules.run name value).Discards := by
    rw [EntityRules.run, hchain]
    exact PropertyRule.discards_runAll hignore _ _
  change rules.store (rules.run name value).outcome properties =
    .ok recorded at hrecord
  cases houtcome : (rules.run name value).outcome with
  | error e => rw [houtcome] at hrecord; cases hrecord
  | ok result =>
      cases result with
      | some value => exact absurd houtcome (hdiscards value)
      | none =>
          rw [houtcome] at hrecord
          cases hrecord
          rfl

/-- Properties of the same names are recorded alike if their values differ
only where they are redacted. -/
theorem recordAll_eq_of_redacts {rule : EntityRule} {ps qs : List PropertyEntry}
    (hsame : List.Forall₂
      (fun p q => p.name = q.name ∧
        (p.value = q.value ∨ rule.Redacts p.name)) ps qs) :
    ∀ {before recorded recorded' : TrackedProperties},
      rule.recordAll ps before = .ok recorded →
      rule.recordAll qs before = .ok recorded' → recorded = recorded' := by
  induction hsame with
  | nil =>
      rintro before _ _ ⟨⟩ ⟨⟩
      rfl
  | @cons p q ps qs hfirst _ ih =>
      intro before recorded recorded' hps hqs
      obtain ⟨hname, hvalue⟩ := hfirst
      rw [recordAll] at hps hqs
      cases hp : rule.record p.name p.value before with
      | error e => rw [hp] at hps; cases hps
      | ok mid =>
          cases hq : rule.record q.name q.value before with
          | error e => rw [hq] at hqs; cases hqs
          | ok mid' =>
              rw [hp] at hps
              rw [hq] at hqs
              have hmid : mid = mid' := by
                rcases hvalue with hvalue | hredacts
                · rw [hname, hvalue, hq] at hp
                  exact (Except.ok.inj hp).symm
                · rw [← hname] at hq
                  rw [hredacts.record_eq hp, hredacts.record_eq hq]
              rw [← hmid] at hqs
              exact ih hps hqs

end EntityRule
end AuditTrail
