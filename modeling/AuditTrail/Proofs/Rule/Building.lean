import AuditTrail.Rule.Entity
import Mathlib.Data.List.Nodup
import Mathlib.Data.List.Perm.Basic

/-!
# Building rules call by call

Rules are built by calls that each name a property and bring rules for it, in
any order of the names and as often as one likes. Every call takes the chain of
its property out and puts it back, so what has to be ruled out is that a chain
gets lost, is started anew or is put in behind another.

One call is settled by `chain?_property`. Over all calls the chain of a name is
the rules that the calls for that name bring, one behind the other
(`chain?_configure`); calls for other names pass by it. Each name has one chain
(`names_configure`), so the chains themselves are settled by what is found under
the names, up to their order, and nothing that rules do depends on that.
-/

namespace AuditTrail.EntityRules

variable {rules : EntityRules} {calls : List (String × List PropertyRule)}

/-- The rules that calls bring for a property, in the order of the calls. -/
def rulesFor (name : String) (calls : List (String × List PropertyRule)) :
    List PropertyRule :=
  (calls.filter (·.1 = name)).flatMap Prod.snd

/-- The rules that come of building further with calls. -/
def configure (rules : EntityRules)
    (calls : List (String × List PropertyRule)) : EntityRules :=
  calls.foldl (fun rules call => rules.property call.1 call.2) rules

theorem rulesFor_cons (name : String) (call : String × List PropertyRule)
    (calls : List (String × List PropertyRule)) :
    rulesFor name (call :: calls) =
      (if call.1 = name then call.2 else []) ++ rulesFor name calls := by
  rw [rulesFor, List.filter_cons]
  by_cases hname : call.1 = name
  · rw [if_pos (decide_eq_true hname), List.flatMap_cons, if_pos hname]
    rfl
  · rw [if_neg (by simpa using hname), if_neg hname]
    rfl

theorem rulesFor_eq_nil {name : String} (hname : name ∉ calls.map Prod.fst) :
    rulesFor name calls = [] := by
  rw [rulesFor, List.filter_eq_nil_iff.mpr, List.flatMap_nil]
  intro call hcall hsame
  exact hname (of_decide_eq_true hsame ▸ List.mem_map_of_mem hcall)

theorem mem_names_congr {others : List (String × List PropertyRule)}
    {name : String}
    (hsame : others.filter (·.1 = name) = calls.filter (·.1 = name)) :
    name ∈ others.map Prod.fst ↔ name ∈ calls.map Prod.fst := by
  have hnamed (calls : List (String × List PropertyRule)) :
      name ∉ calls.map Prod.fst ↔ calls.filter (·.1 = name) = [] := by
    rw [List.filter_eq_nil_iff, List.mem_map, not_exists]
    exact forall_congr' fun call => by rw [not_and, decide_eq_true_iff]
  rw [← not_iff_not, hnamed, hnamed, hsame]

/-! ## The chain of a name -/

theorem chain?_configure (name : String)
    (calls : List (String × List PropertyRule)) :
    ∀ rules : EntityRules, (rules.configure calls).chain? name =
      if name ∈ calls.map Prod.fst then
        some (((rules.chain? name).getD (RuleChain.empty name)).append
          (rulesFor name calls))
      else rules.chain? name := by
  induction calls with
  | nil => intro rules; rfl
  | cons call calls ih =>
      intro rules
      have hcalls : (rules.configure (call :: calls)) =
          (rules.property call.1 call.2).configure calls := rfl
      rw [hcalls, ih, chain?_property, rulesFor_cons]
      by_cases hname : name = call.1
      · subst hname
        by_cases hmore : call.1 ∈ calls.map Prod.fst
        · simp [hmore, RuleChain.append]
        · simp [hmore, rulesFor_eq_nil hmore]
      · have hmem : name ∈ (call :: calls).map Prod.fst ↔
            name ∈ calls.map Prod.fst :=
          List.mem_cons.trans (or_iff_right hname)
        simp only [hmem, if_neg hname, if_neg (Ne.symm hname), List.nil_append]

/-- A call changes nothing but the chains. -/
theorem configure_eq (calls : List (String × List PropertyRule)) :
    ∀ rules : EntityRules,
    rules.configure calls =
      { rules with chains := (rules.configure calls).chains } := by
  induction calls with
  | nil => intro rules; rfl
  | cons call calls ih => intro rules; exact ih (rules.property call.1 call.2)

/-! ## One chain for each name -/

/-- No name has two chains. -/
def OneEach (rules : EntityRules) : Prop := (rules.chains.map Prod.fst).Nodup

theorem OneEach.property (hrules : rules.OneEach) (name : String)
    (added : List PropertyRule) :
    (rules.property name added).OneEach := by
  have hothers : ((rules.chains.filter (·.1 ≠ name)).map Prod.fst).Sublist
      (rules.chains.map Prod.fst) := List.filter_sublist.map _
  refine List.nodup_cons.mpr ⟨fun hmem => ?_, hrules.sublist hothers⟩
  obtain ⟨chain, hchain, hname⟩ := List.mem_map.mp hmem
  exact of_decide_eq_true (List.mem_filter.mp hchain).2 hname

theorem OneEach.configure (hrules : rules.OneEach)
    (calls : List (String × List PropertyRule)) :
    (rules.configure calls).OneEach := by
  induction calls generalizing rules with
  | nil => exact hrules
  | cons call calls ih => exact ih (hrules.property call.1 call.2)

/-- Rules in which the same chains are found have the same chains. -/
theorem OneEach.chains_perm {others : EntityRules} (hrules : rules.OneEach)
    (hothers : others.OneEach)
    (hchain : ∀ name, others.chain? name = rules.chain? name) :
    others.chains.Perm rules.chains := by
  refine (List.perm_ext_iff_of_nodup (.of_map _ hothers) (.of_map _ hrules)).mpr
    ?_
  rintro ⟨name, chain⟩
  rw [Named.mem_iff_lookup hothers, Named.mem_iff_lookup hrules]
  exact iff_of_eq (congrArg (· = some chain) (hchain name))

/-- Rules with the same head in which the same chains are found do the same. -/
theorem toRule_congr {others : EntityRules}
    (hothers : others = { rules with chains := others.chains })
    (hchain : ∀ name, others.chain? name = rules.chain? name) :
    others.toRule = rules.toRule := by
  have hrun (name : String) (value : FieldValue) :
      others.run name value = rules.run name value := by
    rw [run, run, hchain, hothers]
  have hrecord : others.record = rules.record := by
    funext name value properties
    rw [record, record, hrun, hothers]
    rfl
  rw [toRule, toRule, hrecord, hothers]

/-- However the calls for several properties are interleaved, exactly those
that are named have a chain, one each, and it has the rules of all calls for
its property in the order of the calls. To record a property is to run these
rules on it. So calls that are the same for each name build rules that have the
same chains and do the same. -/
theorem calls_accumulate (entityType permission : String)
    (scope displayName : Option String)
    (calls : List (String × List PropertyRule)) :
    let bare : EntityRules := ⟨entityType, scope, displayName, permission, []⟩
    let built := bare.configure calls
    built.OneEach ∧
      (∀ name, built.chain? name =
        if name ∈ calls.map Prod.fst then some ⟨name, rulesFor name calls⟩
        else none) ∧
      (∀ name value, built.run name value =
        PropertyRule.runAll ⟨entityType, name⟩ ⟨name, value⟩
          (rulesFor name calls)) ∧
      (∀ name value properties, built.record name value properties =
        bare.store (PropertyRule.runAll ⟨entityType, name⟩ ⟨name, value⟩
          (rulesFor name calls)).outcome properties) ∧
      ∀ others : List (String × List PropertyRule),
        (∀ name, others.filter (·.1 = name) = calls.filter (·.1 = name)) →
          (bare.configure others).chains.Perm built.chains ∧
            (bare.configure others).toRule = built.toRule := by
  intro bare built
  have hbare : bare.OneEach := List.nodup_nil
  have hchain (calls : List (String × List PropertyRule)) (name : String) :
      (bare.configure calls).chain? name =
        if name ∈ calls.map Prod.fst then some ⟨name, rulesFor name calls⟩
        else none :=
    chain?_configure name calls bare
  have hhead : built = { bare with chains := built.chains } :=
    configure_eq calls bare
  have hrun (name : String) (value : FieldValue) : built.run name value =
      PropertyRule.runAll ⟨entityType, name⟩ ⟨name, value⟩
        (rulesFor name calls) := by
    rw [run, hchain, congrArg EntityRules.entityType hhead]
    by_cases hname : name ∈ calls.map Prod.fst
    · rw [if_pos hname]
      rfl
    · rw [if_neg hname, rulesFor_eq_nil hname, PropertyRule.runAll]
  refine ⟨hbare.configure calls, hchain calls, hrun,
    fun name value properties => ?_, fun others hsame => ?_⟩
  · rw [record, hrun, hhead]
    rfl
  · have hfound (name : String) : (bare.configure others).chain? name =
        built.chain? name := by
      rw [hchain, hchain, rulesFor, rulesFor, hsame]
      exact if_congr (mem_names_congr (hsame name)) rfl rfl
    refine ⟨(hbare.configure calls).chains_perm (hbare.configure others) hfound,
      ?_⟩
    refine toRule_congr ?_ hfound
    rw [hhead]
    exact configure_eq others bare

example :
    ((forType "Invoice" "finance").configure
      [("Total", [.single (.rename "Net")]), ("Notes", []),
        ("Total", [.single .ignore])]).chain?
        "Total" = some ⟨"Total", [.single (.rename "Net"), .single .ignore]⟩ :=
          rfl

end AuditTrail.EntityRules
