import AuditTrail.Proofs.Rule.Nesting
import AuditTrail.Rule.Recording
import Mathlib.Data.List.Find
import Mathlib.Data.List.Nodup

/-!
# Recording one property after another

Under which name a property is recorded is up to its chain, so any two of them
can meet on one name, ruled or not, in any order and with discards and errors
in between. Recording never overwrites: the first to come to a name keeps it,
and whoever comes later is refused.

`Records` lists what can become of one property. What is found under a name
afterwards is what was found there before, or else what this property brings
(`Records.get?_after`), and by induction what is found in the end is what the
first to come there brought (`get?_recorded`).

A list of properties meets with no error exactly if no chain fails and no two
of them come to one name (`clean_iff`). Neither depends on their order, and if
only one of them comes to a name, it does not matter when.
-/

namespace AuditTrail.EntityRules

variable {rules : EntityRules} {name : String} {value : FieldValue}

/-- What comes out of the chain of a property, if anything does. -/
def output? (rules : EntityRules) (property : String × FieldValue) :
    Option NamedValue :=
  match (rules.run property.1 property.2).outcome with
  | .ok result => result
  | .error _ => none

theorem output?_of_ok {result : Option NamedValue}
    (hrun : (rules.run name value).outcome = .ok result) :
    rules.output? (name, value) = result := by rw [output?, hrun]

theorem output?_of_error {e : AuditError}
    (hrun : (rules.run name value).outcome = .error e) :
    rules.output? (name, value) = none := by rw [output?, hrun]

theorem output?_of_unruled (hnone : rules.chain? name = none) :
    rules.output? (name, value) = some ⟨name, value⟩ := by
  rw [output?, run, hnone]
  rfl

/-- No rule says itself that a property is recorded twice. -/
def RaisesNoDuplicates (rules : EntityRules) : Prop :=
  ∀ name chain, rules.chain? name = some chain →
    ∀ leaf ∈ PropertyRule.leavesOfAll chain.rules,
      ∀ context input type property,
      leaf.apply context input ≠ .error (.duplicateProperty type property)

theorem RaisesNoDuplicates.run_ne (honest : rules.RaisesNoDuplicates)
    (type property : String) :
    (rules.run name value).outcome ≠
      .error (.duplicateProperty type property) := by
  intro herror
  rw [run] at herror
  cases hchain : rules.chain? name with
  | none =>
      rw [hchain] at herror
      cases herror
  | some chain =>
      rw [hchain] at herror
      have hplain :=
        RuleHost.runAll_plain ⟨rules.entityType, name⟩ ⟨name, value⟩ chain.rules
      have passage : RuleHost.plain.Passage ⟨rules.entityType, name⟩
          ⟨name, value⟩ () _ _ :=
        RuleHost.runLeaves_passage (PropertyRule.leavesOfAll chain.rules)
          ⟨name, value⟩ ()
      rw [← RuleHost.runAll_eq_runLeaves, hplain] at passage
      obtain ⟨leaf, hleaf, input, s, hfails⟩ := passage.of_error herror
      rw [RuleHost.apply_plain] at hfails
      exact honest name chain hchain leaf hleaf _ input type property hfails

/-! ## A single property -/

/-- What becomes of recording a property. -/
inductive Records (rules : EntityRules) (name : String) (value : FieldValue)
    (before : TrackedProperties) :
    Except AuditError Unit → TrackedProperties → Prop where
  | failed {e : AuditError} (hrun : (rules.run name value).outcome = .error e) :
      Records rules name value before (.error e) before
  | discarded (hrun : (rules.run name value).outcome = .ok none) :
      Records rules name value before (.ok ()) before
  | refused {result : NamedValue}
      (hrun : (rules.run name value).outcome = .ok (some result))
      (htaken : before.contains result.name) :
      Records rules name value before
        (.error (.duplicateProperty rules.entityType result.name)) before
  | added {result : NamedValue}
      (hrun : (rules.run name value).outcome = .ok (some result))
      (hnew : before.get? result.name = none) :
      Records rules name value before (.ok ())
        (before.insert result.name result.value)

theorem recordInPlace_records (rules : EntityRules) (name : String)
    (value : FieldValue) (before : TrackedProperties) :
    let recorded := (rules.recordInPlace name value).run.run before
    rules.Records name value before recorded.1 recorded.2 := by
  rw [recordInPlace_eq, record]
  cases hrun : (rules.run name value).outcome with
  | error e => exact .failed hrun
  | ok result =>
      cases result with
      | none => exact .discarded hrun
      | some result =>
          by_cases htaken : before.contains result.name
          · simp only [store, htaken, if_true]
            exact .refused hrun htaken
          · simp only [store, htaken, Bool.false_eq_true, if_false]
            exact .added hrun (Option.not_isSome_iff_eq_none.mp htaken)

section Records

variable {before after : TrackedProperties} {outcome : Except AuditError Unit}

/-- The first to come to a name keeps it. -/
theorem Records.get?_after
    (records : rules.Records name value before outcome after) (other : String) :
    after.get? other = (before.get? other).or
      (((rules.output? (name, value)).toList.find? (·.name = other)).map
        (·.value)) := by
  cases records with
  | failed hrun =>
      rw [output?_of_error hrun]
      exact (Option.or_none).symm
  | discarded hrun =>
      rw [output?_of_ok hrun]
      exact (Option.or_none).symm
  | @refused result hrun htaken =>
      rw [output?_of_ok hrun]
      by_cases hsame : result.name = other
      · subst hsame
        obtain ⟨there, hthere⟩ := Option.isSome_iff_exists.mp htaken
        rw [hthere, Option.some_or]
      · simp [hsame]
  | @added result hrun hnew =>
      rw [output?_of_ok hrun, TrackedProperties.get?_insert]
      by_cases hsame : result.name = other
      · subst hsame
        simp [hnew]
      · simp [hsame, Ne.symm hsame]

theorem Records.unchanged_or_added
    (records : rules.Records name value before outcome after) :
    (after = before ∧
        ((rules.run name value).outcome = .ok none ∧ outcome = .ok () ∨
        ∃ e, outcome = .error e)) ∨
      ∃ result, rules.output? (name, value) = some result ∧ outcome = .ok () ∧
        before.get? result.name = none ∧
          after = before.insert result.name result.value := by
  cases records with
  | failed | refused => exact .inl ⟨rfl, .inr ⟨_, rfl⟩⟩
  | discarded hrun => exact .inl ⟨rfl, .inl ⟨hrun, rfl⟩⟩
  | added hrun hnew => exact .inr ⟨_, output?_of_ok hrun, rfl, hnew, rfl⟩

theorem Records.duplicate_iff (honest : rules.RaisesNoDuplicates)
    (records : rules.Records name value before outcome after)
    (type property : String) :
    outcome = .error (.duplicateProperty type property) ↔
      type = rules.entityType ∧
        (rules.output? (name, value)).map (·.name) = some property ∧
        before.contains property := by
  cases records with
  | failed hrun =>
      rw [output?_of_error hrun]
      refine ⟨fun herror => ?_, fun ⟨_, hout, _⟩ => by cases hout⟩
      cases herror
      exact absurd hrun (honest.run_ne type property)
  | discarded hrun =>
      rw [output?_of_ok hrun]
      exact ⟨nofun, fun ⟨_, hout, _⟩ => by cases hout⟩
  | refused hrun htaken =>
      rw [output?_of_ok hrun]
      constructor
      · rintro ⟨⟩
        exact ⟨rfl, rfl, htaken⟩
      · rintro ⟨rfl, ⟨⟩, -⟩
        rfl
  | added hrun hnew =>
      rw [output?_of_ok hrun]
      refine ⟨nofun, ?_⟩
      rintro ⟨-, ⟨⟩, htaken⟩
      rw [TrackedProperties.contains, hnew] at htaken
      cases htaken

/-- A property meets with no error and leaves names free exactly if its chain
does not fail, it comes to a free name that is not among them, and they are
free. -/
theorem Records.ok_iff (records : rules.Records name value before outcome after)
    (results : List NamedValue) :
    (outcome = .ok () ∧ ∀ result ∈ results, after.get? result.name = none) ↔
      (∀ e, (rules.run name value).outcome ≠ .error e) ∧
        (∀ own ∈ rules.output? (name, value),
          before.get? own.name = none ∧ own.name ∉ results.map (·.name)) ∧
        ∀ result ∈ results, before.get? result.name = none := by
  cases records with
  | failed hrun => exact ⟨fun h => (nomatch h.1), fun h => absurd hrun (h.1 _)⟩
  | discarded hrun => simp [output?, hrun]
  | refused hrun htaken =>
      rw [TrackedProperties.contains, Option.isSome_iff_ne_none] at htaken
      simp [output?, hrun, htaken]
  | @added result hrun hnew =>
      have hout : rules.output? (name, value) = some result :=
        output?_of_ok hrun
      simp only [TrackedProperties.get?_insert_eq_none, hout]
      constructor
      · rintro ⟨-, hfree⟩
        refine ⟨by simp [hrun], ?_, fun other hother => (hfree other hother).2⟩
        rintro _ ⟨⟩
        refine ⟨hnew, fun htaken => ?_⟩
        obtain ⟨other, hother, hname⟩ := List.mem_map.mp htaken
        exact (hfree other hother).1 hname
      · rintro ⟨-, hown, hfree⟩
        refine ⟨trivial,
          fun other hother => ⟨fun hname => ?_, hfree other hother⟩⟩
        exact (hown result rfl).2 (List.mem_map.mpr ⟨other, hother, hname⟩)

end Records

/-! ## A list of properties -/

theorem mem_recordings {step : Recording} :
    ∀ {properties : List (String × FieldValue)}
    {before : TrackedProperties}, step ∈ rules.recordings properties before →
      rules.Records step.property step.value step.before step.outcome
        step.after := by
  intro properties
  induction properties with
  | nil => intro before hstep; cases hstep
  | cons property rest ih =>
      intro before hstep
      rcases List.mem_cons.mp hstep with rfl | hrest
      · exact recordInPlace_records rules _ _ before
      · exact ih hrest

theorem map_recordings (properties : List (String × FieldValue)) :
    ∀ before : TrackedProperties,
      (rules.recordings properties before).map
        (fun step => (step.property, step.value)) =
        properties := by
  induction properties with
  | nil => intro before; rfl
  | cons property rest ih => intro before; exact congrArg (property :: ·) (ih _)

/-- What comes out of the chains, in the order of the properties. -/
def outputs (rules : EntityRules) (properties : List (String × FieldValue)) :
    List NamedValue :=
  properties.filterMap rules.output?

theorem outputs_cons (property : String × FieldValue)
    (rest : List (String × FieldValue)) :
    rules.outputs (property :: rest) = (rules.output? property).toList ++
      rules.outputs rest := by
  rw [outputs, List.filterMap_cons]
  cases rules.output? property <;> rfl

/-- What is found under a name in the end is what was there from the beginning,
or else what the first to come there brought. -/
theorem get?_recorded (other : String)
    (properties : List (String × FieldValue)) :
    ∀ before : TrackedProperties,
      (rules.recorded properties before).get? other = (before.get? other).or
        (((rules.outputs properties).find? (·.name = other)).map
          (·.value)) := by
  induction properties with
  | nil => intro before; exact (Option.or_none).symm
  | cons property rest ih =>
      intro before
      have records := recordInPlace_records rules property.1 property.2 before
      rw [recorded, ih, records.get?_after, Option.or_assoc, outputs_cons,
        List.find?_append, Option.map_or]

/-- No property meets with an error. -/
def Clean (rules : EntityRules) (properties : List (String × FieldValue))
    (before : TrackedProperties) : Prop :=
  ∀ step ∈ rules.recordings properties before, step.outcome = .ok ()

theorem clean_cons {property : String × FieldValue}
    {rest : List (String × FieldValue)} {before : TrackedProperties} :
    rules.Clean (property :: rest) before ↔
      ((rules.recordInPlace property.1 property.2).run.run before).1 = .ok () ∧
        rules.Clean rest
          ((rules.recordInPlace property.1 property.2).run.run before).2 :=
  List.forall_mem_cons

/-- Properties meet with no error exactly if no chain fails, no two of them come
to one name, and none comes to a name that is taken from the beginning. -/
theorem clean_iff (properties : List (String × FieldValue)) :
    ∀ before : TrackedProperties,
    rules.Clean properties before ↔
      (∀ property ∈ properties, ∀ e,
        (rules.run property.1 property.2).outcome ≠ .error e) ∧
        ((rules.outputs properties).map (·.name)).Nodup ∧
        ∀ result ∈ rules.outputs properties,
          before.get? result.name = none := by
  induction properties with
  | nil => intro before; simp [Clean, recordings, outputs]
  | cons property rest ih =>
      intro before
      have step :=
        (recordInPlace_records rules property.1 property.2 before).ok_iff
          (rules.outputs rest)
      rw [clean_cons, outputs_cons, ih, List.forall_mem_cons, List.map_append]
      cases hout : rules.output? property with
      | none =>
          simp only [hout, Option.mem_def, reduceCtorEq, false_implies,
            implies_true, true_and]
            at step
          simp only [Option.toList_none, List.map_nil, List.nil_append]
          grind
      | some own =>
          simp only [hout, Option.mem_def, Option.some.injEq,
            forall_eq'] at step
          simp only [Option.toList_some, List.map_singleton,
            List.singleton_append, List.nodup_cons, List.forall_mem_cons]
          grind

/-! ## In any order -/

section Perm

variable {properties others : List (String × FieldValue)}
  {before : TrackedProperties}

theorem outputs_perm (hperm : properties.Perm others) :
    (rules.outputs properties).Perm (rules.outputs others) :=
  hperm.filterMap _

theorem Clean.perm (hperm : properties.Perm others)
    (hclean : rules.Clean properties before) :
    rules.Clean others before := by
  obtain ⟨hruns, hnodup, hfree⟩ := (clean_iff properties before).mp hclean
  refine (clean_iff others before).mpr
    ⟨fun property hmem => hruns property ?_, ?_, ?_⟩
  · exact hperm.mem_iff.mpr hmem
  · exact ((outputs_perm hperm).map _).nodup_iff.mp hnodup
  · exact fun result hmem =>
      hfree result ((outputs_perm hperm).mem_iff.mpr hmem)

/-- If no two properties come to one name, what is recorded is the same in any
order. -/
theorem recorded_perm (hperm : properties.Perm others)
    (hnodup : ((rules.outputs properties).map (·.name)).Nodup) :
    rules.recorded others before = rules.recorded properties before := by
  refine TrackedProperties.ext_get? fun name => ?_
  have hfind : (rules.outputs properties).find? (·.name = name) =
      (rules.outputs others).find? (·.name = name) := by
    refine List.find?_eq_find?_of_perm (outputs_perm hperm) ?_
    rintro first ⟨hfirst, hname⟩ second ⟨hsecond, hsame⟩
    refine List.inj_on_of_nodup_map hnodup hfirst hsecond ?_
    exact (of_decide_eq_true hname).trans (of_decide_eq_true hsame).symm
  rw [get?_recorded, get?_recorded, hfind]

end Perm

/-- Recording one property after another from nothing never overwrites, and what
no two properties compete for does not depend on their order. -/
theorem recording_never_overwrites (rules : EntityRules)
    (honest : rules.RaisesNoDuplicates)
    (properties : List (String × FieldValue)) :
    let steps := rules.recordings properties .empty
    steps.map (fun step => (step.property, step.value)) = properties ∧
      rules.recorded properties .empty =
        (steps.getLast?.map (·.after)).getD .empty ∧
      (∀ step ∈ steps,
        (step.after = step.before ∧
            ((rules.run step.property step.value).outcome = .ok none ∧
              step.outcome = .ok () ∨
              ∃ e, step.outcome = .error e)) ∨
          ∃ result, rules.output? (step.property, step.value) = some result ∧
            step.outcome = .ok () ∧ step.before.get? result.name = none ∧
            step.after = step.before.insert result.name result.value) ∧
      (∀ step ∈ steps, ∀ type property,
        step.outcome = .error (.duplicateProperty type property) ↔
          type = rules.entityType ∧
            (rules.output? (step.property, step.value)).map (·.name) =
              some property ∧
            step.before.contains property) ∧
      (∀ name value, rules.chain? name = none →
        rules.output? (name, value) = some ⟨name, value⟩) ∧
      (∀ name, (rules.recorded properties .empty).get? name =
        ((properties.filterMap rules.output?).find? (·.name = name)).map
          (·.value)) ∧
      ((∀ step ∈ steps, step.outcome = .ok ()) →
        ∀ others, properties.Perm others →
        (∀ step ∈ rules.recordings others .empty, step.outcome = .ok ()) ∧
          rules.recorded others .empty = rules.recorded properties .empty) := by
  refine ⟨map_recordings properties .empty,
    recorded_eq_last rules properties .empty, ?_, ?_, ?_, ?_, ?_⟩
  · exact fun step hstep => (mem_recordings hstep).unchanged_or_added
  · exact fun step hstep => (mem_recordings hstep).duplicate_iff honest
  · exact fun name value => output?_of_unruled
  · intro name
    rw [get?_recorded, TrackedProperties.get?_empty, Option.none_or, outputs]
  · intro hclean others hperm
    have hclean : rules.Clean properties .empty := hclean
    exact ⟨hclean.perm hperm,
      recorded_perm hperm ((clean_iff _ _).mp hclean).2.1⟩

namespace Sample

/-- The total of an invoice goes by another name, and notes are kept out. -/
def invoiceRules : EntityRules :=
  ((forType "Invoice" "finance").property "Total"
    [.single (.rename "Amount")]).property "Notes" [.single .ignore]

/-- An invoice with an amount of its own. -/
def invoice : List (String × FieldValue) :=
  [("Notes", .text "vip"), ("Amount", .int 1), ("Customer", .text "ACME"),
    ("Total", .int 2)]

theorem invoiceRules_raisesNoDuplicates : invoiceRules.RaisesNoDuplicates := by
  intro name chain hchain leaf hleaf context input type property
  have hbuiltin : leaf = .ignore ∨ leaf = .rename "Amount" := by
    simp only [invoiceRules, chain?_property] at hchain
    split at hchain
    · cases hchain
      exact .inl (List.mem_singleton.mp hleaf)
    · split at hchain
      · cases hchain
        exact .inr (List.mem_singleton.mp hleaf)
      · cases hchain
  rcases hbuiltin with rfl | rfl <;> exact nofun

end Sample

open Sample in
/-- The total comes second to the name of the amount and is refused. -/
theorem invoice_total_refused :
    invoiceRules.RaisesNoDuplicates ∧
      (∃ step ∈ invoiceRules.recordings invoice .empty,
        step.property = "Total" ∧
        step.outcome = .error (.duplicateProperty "Invoice" "Amount")) ∧
      (invoiceRules.recorded invoice .empty).get? "Amount" = some (.int 1) := by
  have hhonest := invoiceRules_raisesNoDuplicates
  obtain ⟨-, -, -, hduplicate, -, hfinal, -⟩ :=
    recording_never_overwrites invoiceRules hhonest invoice
  refine ⟨hhonest, ⟨_, .tail _ (.tail _ (.tail _ (.head _))), rfl, ?_⟩, ?_⟩
  · exact (hduplicate _ (.tail _ (.tail _ (.tail _ (.head _)))) _ _).mpr
      ⟨rfl, rfl, rfl⟩
  · rw [hfinal]
    rfl

end AuditTrail.EntityRules
