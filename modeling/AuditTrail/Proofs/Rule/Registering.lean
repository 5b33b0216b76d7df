import AuditTrail.Rule.Scanner

/-!
# Registering rules one after another

A registry only grows. Rules are offered to it one at a time, be it by a call
for a single rule or by a scanner, which offers the rules it keeps until one is
refused. A rule is taken exactly if its key is free, and then it goes behind
those that are there; otherwise nothing changes (`offer_cases`). So after any
calls the registry is what it was before with the rules behind it that were
taken on the way (`Offered.extends`), and whatever is asked of it is answered
by the list of these rules.

A key is a type together with a scope or none. What is found under it is the
first rule of just that key, and a rule that is found once is found for ever,
because a rule that goes behind others hides none of them (`find?_extend`).
-/

namespace AuditTrail

/-- A call that registers rules: a single one, or those that a scanner keeps. -/
inductive RegistryCall where
  | register (rule : EntityRule)
  | scan (scanner : RuleScanner)

namespace RuleRegistry

/-- A rule that was offered to a registry, and what came of it. -/
structure Offer where
  before : RuleRegistry
  rule : EntityRule
  outcome : Except AuditError Unit
  after : RuleRegistry

/-- The rule that was offered, if it was taken. -/
def Offer.taken? (offer : Offer) : Option EntityRule :=
  match offer.outcome with
  | .ok () => some offer.rule
  | .error _ => none

variable {registry last : RuleRegistry} {rule : EntityRule} {key : RuleKey}
  {made : List Offer}

/-- Registers a rule; a registry that refuses it stays as it is. -/
def offer (registry : RuleRegistry) (rule : EntityRule) : Offer :=
  match registry.register rule with
  | .ok after => ⟨registry, rule, .ok (), after⟩
  | .error e => ⟨registry, rule, .error e, registry⟩

/-- The offers of rules until one is refused. -/
def offersUntilRefused (registry : RuleRegistry) : List EntityRule → List Offer
  | [] => []
  | rule :: rest =>
    match registry.register rule with
    | .ok after => registry.offer rule :: after.offersUntilRefused rest
    | .error _ => [registry.offer rule]

/-- What a call does to a registry, and what it answers. -/
def call (registry : RuleRegistry) :
    RegistryCall → RuleRegistry × Except AuditError Unit
  | .register rule =>
      ((registry.offer rule).after, (registry.offer rule).outcome)
  | .scan scanner => registry.registerScanned scanner

/-- The offers that a call makes. -/
def callOffers (registry : RuleRegistry) : RegistryCall → List Offer
  | .register rule => [registry.offer rule]
  | .scan scanner =>
      registry.offersUntilRefused (scanner.kept registry.permissionType)

/-- The registry after calls. -/
def run (registry : RuleRegistry) : List RegistryCall → RuleRegistry
  | [] => registry
  | first :: rest => (registry.call first).1.run rest

/-- The offers that calls make. -/
def offers (registry : RuleRegistry) : List RegistryCall → List Offer
  | [] => []
  | first :: rest =>
      registry.callOffers first ++ (registry.call first).1.offers rest

/-! ## More rules behind the others -/

/-- The registry with rules behind those that it has. -/
def extend (registry : RuleRegistry) (rules : List EntityRule) : RuleRegistry :=
  { registry with
    rules := registry.rules ++
      rules.map fun rule => (registry.keyOf rule, rule) }

@[simp] theorem keyOf_extend (rules : List EntityRule) :
    (registry.extend rules).keyOf = registry.keyOf := rfl

@[simp] theorem extend_nil : registry.extend [] = registry := by
  rw [extend, List.map_nil, List.append_nil]

theorem extend_extend (rules more : List EntityRule) :
    (registry.extend rules).extend more = registry.extend (rules ++ more) := by
  simp only [extend, List.map_append, List.append_assoc]
  rfl

theorem keys_extend (rules : List EntityRule) :
    (registry.extend rules).keys = registry.keys ++
      rules.map registry.keyOf := by
  simp only [keys, extend, List.map_append, List.map_map, Function.comp_def]

/-- Rules that go behind others hide none of them. -/
theorem find?_extend (rules : List EntityRule) (key : RuleKey) :
    (registry.extend rules).find? key =
      (registry.find? key).or
        (rules.find? fun rule => registry.keyOf rule = key) := by
  have hnew : (rules.map fun rule => (registry.keyOf rule, rule)).lookup key =
      rules.find? fun rule => registry.keyOf rule = key := by
    induction rules with
    | nil => rfl
    | cons rule rest ih =>
        rw [List.map_cons, List.lookup_cons, List.find?_cons, ih]
        by_cases hkey : registry.keyOf rule = key
        · rw [decide_eq_true hkey, hkey, beq_self_eq_true]
        · rw [decide_eq_false hkey, beq_eq_false_iff_ne.mpr (Ne.symm hkey)]
  rw [find?, extend, List.lookup_append, hnew]
  rfl

theorem resolveKey_eq_ok_iff :
    registry.resolveKey key = .ok rule ↔ registry.find? key = some rule := by
  unfold resolveKey
  split
  · next found => simp [found]
  · next missing => simp [missing]

theorem resolveKey_eq_error_iff {e : AuditError} :
    registry.resolveKey key = .error e ↔
      key ∉ registry.keys ∧ e = .missingRule key := by
  rw [← find?_eq_none_iff]
  unfold resolveKey
  split
  · next found => simp [found]
  · next missing => simp [missing, eq_comm]

theorem exists_resolveKey_iff :
    (∃ rule, registry.resolveKey key = .ok rule) ↔ key ∈ registry.keys := by
  simp only [resolveKey_eq_ok_iff, ← Option.isSome_iff_exists,
    Option.isSome_iff_ne_none]
  exact (not_congr find?_eq_none_iff).trans Decidable.not_not

/-! ## A single offer -/

/-- A rule is taken if its key is free, and is refused otherwise. -/
theorem offer_cases (registry : RuleRegistry) (rule : EntityRule) :
    registry.keyOf rule ∉ registry.keys ∧
        registry.register rule = .ok (registry.extend [rule]) ∧
        registry.offer rule = ⟨registry, rule, .ok (), registry.extend [rule]⟩ ∨
      registry.keyOf rule ∈ registry.keys ∧
        registry.register rule = .error (.duplicateRule (registry.keyOf rule)) ∧
        registry.offer rule =
          ⟨registry, rule, .error (.duplicateRule (registry.keyOf rule)),
            registry⟩ := by
  cases hfound : registry.find? (registry.keyOf rule) with
  | none =>
      have hregister : registry.register rule =
          .ok (registry.extend [rule]) := by
        rw [register, hfound]
        rfl
      exact .inl ⟨find?_eq_none_iff.mp hfound, hregister,
        by rw [offer, hregister]⟩
  | some there =>
      have hregister : registry.register rule =
          .error (.duplicateRule (registry.keyOf rule)) := by
        rw [register, hfound]
      have hkey : registry.keyOf rule ∈ registry.keys :=
        exists_resolveKey_iff.mp ⟨there, resolveKey_eq_ok_iff.mpr hfound⟩
      exact .inr ⟨hkey, hregister, by rw [offer, hregister]⟩

@[simp] theorem before_offer : (registry.offer rule).before = registry := by
  rcases offer_cases registry rule with ⟨-, -, heq⟩ | ⟨-, -, heq⟩ <;> rw [heq]

@[simp] theorem rule_offer : (registry.offer rule).rule = rule := by
  rcases offer_cases registry rule with ⟨-, -, heq⟩ | ⟨-, -, heq⟩ <;> rw [heq]

theorem after_offer :
    (registry.offer rule).after =
      registry.extend (registry.offer rule).taken?.toList := by
  rcases offer_cases registry rule with ⟨-, -, heq⟩ | ⟨-, -, heq⟩
  · rw [heq]
    rfl
  · rw [heq]
    exact extend_nil.symm

theorem outcome_offer_eq_error_iff {e : AuditError} :
    (registry.offer rule).outcome = .error e ↔
      registry.keyOf rule ∈ registry.keys ∧
        e = .duplicateRule (registry.keyOf rule) := by
  rcases offer_cases registry rule with ⟨hfree, -, heq⟩ | ⟨htaken, -, heq⟩
  · rw [heq]
    exact ⟨nofun, fun h => absurd h.1 hfree⟩
  · rw [heq]
    exact ⟨fun h => ⟨htaken, (Except.error.inj h).symm⟩,
      fun h => congrArg _ h.2.symm⟩

theorem after_offer_of_error {e : AuditError}
    (herror : (registry.offer rule).outcome = .error e) :
    (registry.offer rule).after = registry := by
  rcases offer_cases registry rule with ⟨-, -, heq⟩ | ⟨-, -, heq⟩
  · rw [heq] at herror
    cases herror
  · rw [heq]

/-! ## Offers one after another -/

/-- Offers one after another lead from one registry to another. -/
inductive Offered : RuleRegistry → List Offer → RuleRegistry → Prop where
  | nil (registry : RuleRegistry) : Offered registry [] registry
  | cons {registry last : RuleRegistry} (rule : EntityRule) {rest : List Offer}
      (hrest : Offered (registry.offer rule).after rest last) :
      Offered registry (registry.offer rule :: rest) last

theorem Offered.append {middle : RuleRegistry} {more : List Offer}
    (hfirst : Offered registry made middle) (hmore : Offered middle more last) :
    Offered registry (made ++ more) last := by
  induction hfirst with
  | nil => exact hmore
  | cons rule _ ih => exact .cons rule (ih hmore)

theorem offered_untilRefused (rules : List EntityRule) :
    ∀ registry : RuleRegistry,
    Offered registry (registry.offersUntilRefused rules)
      (registry.registerUntilFailure rules).1 := by
  induction rules with
  | nil => exact fun registry => .nil registry
  | cons rule rest ih =>
      intro registry
      rcases offer_cases registry rule with
        ⟨-, hregister, heq⟩ | ⟨-, hregister, heq⟩
      · rw [offersUntilRefused, registerUntilFailure, hregister]
        refine .cons rule ?_
        rw [heq]
        exact ih _
      · rw [offersUntilRefused, registerUntilFailure, hregister]
        refine .cons rule ?_
        rw [heq]
        exact .nil registry

theorem offered_call (registry : RuleRegistry) (c : RegistryCall) :
    Offered registry (registry.callOffers c) (registry.call c).1 := by
  cases c with
  | register rule => exact .cons rule (.nil _)
  | scan scanner => exact offered_untilRefused _ registry

theorem offered_run (calls : List RegistryCall) : ∀ registry : RuleRegistry,
    Offered registry (registry.offers calls) (registry.run calls) := by
  induction calls with
  | nil => exact fun registry => .nil registry
  | cons c rest ih =>
      exact fun registry => (offered_call registry c).append (ih _)

/-- After offers the registry has the rules that were taken behind those it
had. -/
theorem Offered.extends (hoffered : Offered registry made last) :
    last = registry.extend (made.filterMap Offer.taken?) := by
  induction hoffered with
  | nil => exact extend_nil.symm
  | @cons registry last rule rest _ ih =>
      rw [ih, after_offer, extend_extend, List.filterMap_cons]
      cases (registry.offer rule).taken? <;> rfl

/-- What an offer is made to only grows afterwards. -/
theorem Offered.cut {o : Offer} (hoffered : Offered registry made last)
    (hmem : o ∈ made) :
    ∃ (there : RuleRegistry) (rule : EntityRule), o = there.offer rule ∧
      ∃ rest, last = there.extend rest := by
  induction hoffered with
  | nil => cases hmem
  | @cons registry last rule rest hrest ih =>
      rcases List.mem_cons.mp hmem with rfl | hlater
      -- The offer itself is among what was made since, so its own rule is
      -- counted too.
      · exact ⟨registry, rule, rfl, _, (Offered.cons rule hrest).extends⟩
      · exact ih hlater

theorem run_append (earlier later : List RegistryCall) :
    ∀ registry : RuleRegistry,
    registry.run (earlier ++ later) = (registry.run earlier).run later := by
  induction earlier with
  | nil => exact fun registry => rfl
  | cons c rest ih => exact fun registry => ih _

theorem resolveKey_extend (rules : List EntityRule)
    (hfound : registry.resolveKey key = .ok rule) :
    (registry.extend rules).resolveKey key = .ok rule := by
  rw [resolveKey_eq_ok_iff] at hfound ⊢
  rw [find?_extend, hfound, Option.some_or]

/-! ## The rules of a registry that was empty -/

section Taken

variable {permissionType : String} {taken : List EntityRule}

theorem find?_extend_empty (key : RuleKey) :
    ((empty permissionType).extend taken).find? key =
      taken.find? fun rule => (empty permissionType).keyOf rule = key := by
  rw [find?_extend]
  rfl

theorem size_extend_empty :
    ((empty permissionType).extend taken).size = taken.length := by
  rw [size, extend, List.length_append, List.length_map]
  exact Nat.zero_add _

theorem mem_keys_extend_empty {key : RuleKey} :
    key ∈ ((empty permissionType).extend taken).keys ↔
      ∃ rule ∈ taken, (empty permissionType).keyOf rule = key := by
  rw [keys_extend]
  exact List.mem_map

/-- A type has rules in some scope exactly if there are rules for it without a
scope or in a scope. -/
theorem isTracked_extend_empty_iff {type : String} :
    ((empty permissionType).extend taken).isTracked type = true ↔
      ∃ scope rule, ((empty permissionType).extend taken).resolve type scope =
        .ok rule := by
  simp only [isTracked, List.any_eq_true, beq_iff_eq, resolve,
    exists_resolveKey_iff]
  constructor
  · rintro ⟨key, hkey, rfl⟩
    obtain ⟨rule, hrule, rfl⟩ := mem_keys_extend_empty.mp hkey
    exact ⟨rule.scope, hkey⟩
  · rintro ⟨scope, hkey⟩
    exact ⟨_, hkey, rfl⟩

end Taken

/-- Whatever is done to a registry that was empty. A rule that is offered is
refused if its key is taken, and only then, with the key for a reason and
without a trace. Under a key the first rule that was taken with just this key
is found, from then on for ever, and nothing if there was none; there are as
many keys as rules that were taken; and the types that have rules are those
that have some without a scope or in a scope, listed once each in order. -/
theorem first_rule_stays (permissionType : String) (calls : List RegistryCall) :
    let registry := (empty permissionType).run calls
    let offers := (empty permissionType).offers calls
    let taken := offers.filterMap Offer.taken?
    (∀ offer ∈ offers,
      (∀ e, offer.outcome = .error e ↔
        offer.before.keyOf offer.rule ∈ offer.before.keys ∧
          e = .duplicateRule (offer.before.keyOf offer.rule)) ∧
      (∀ e, offer.outcome = .error e → offer.after = offer.before) ∧
      ∀ key rule, offer.before.resolveKey key = .ok rule →
        registry.resolveKey key = .ok rule) ∧
    (∀ earlier later, calls = earlier ++ later → ∀ key rule,
      ((empty permissionType).run earlier).resolveKey key = .ok rule →
        registry.resolveKey key = .ok rule) ∧
    (∀ key rule, registry.resolveKey key = .ok rule ↔
      taken.find? (fun rule => registry.keyOf rule = key) = some rule) ∧
    (∀ key e, registry.resolveKey key = .error e ↔
      (∀ rule ∈ taken, registry.keyOf rule ≠ key) ∧ e = .missingRule key) ∧
    registry.size = taken.length ∧
    (∀ type, registry.isTracked type = true ↔
      (∃ rule, registry.resolve type none = .ok rule) ∨
        ∃ scope rule, registry.resolve type (some scope) = .ok rule) ∧
    registry.trackedTypes.Pairwise (· < ·) ∧
    ∀ type, type ∈ registry.trackedTypes ↔ registry.isTracked type = true := by
  intro registry offers taken
  have hoffered : Offered (empty permissionType) offers registry :=
    offered_run calls _
  have hregistry : registry = (empty permissionType).extend taken :=
    hoffered.extends
  refine ⟨fun offer hmem => ?_, ?_, fun key rule => ?_, fun key e => ?_, ?_,
    fun type => ?_, Named.pairwise_distinct _, fun type => ?_⟩
  · obtain ⟨there, offered, rfl, rest, hlast⟩ := hoffered.cut hmem
    rw [before_offer, rule_offer]
    refine ⟨fun e => outcome_offer_eq_error_iff, fun e => after_offer_of_error,
      fun key rule hfound => ?_⟩
    rw [hlast]
    exact resolveKey_extend rest hfound
  · -- The same at the end of a call: what comes later is offered to what is
    -- there then.
    rintro earlier later hcalls key rule hfound
    have hlater :=
      (offered_run later ((empty permissionType).run earlier)).extends
    have hsplit : registry =
        ((empty permissionType).run earlier).run later := by
      rw [← run_append, ← hcalls]
    rw [hsplit, hlater]
    exact resolveKey_extend _ hfound
  · rw [resolveKey_eq_ok_iff, hregistry, find?_extend_empty]
    rfl
  · rw [resolveKey_eq_error_iff, hregistry, mem_keys_extend_empty]
    simp only [not_exists, not_and]
    rfl
  · rw [hregistry, size_extend_empty]
  · rw [hregistry, isTracked_extend_empty_iff, Option.exists]
  · rw [trackedTypes, Named.mem_distinct, List.mem_map, isTracked,
      List.any_eq_true]
    simp only [beq_iff_eq]

end RuleRegistry
end AuditTrail
