import AuditTrail.Proofs.Rule.Registering
import Mathlib.Data.List.Forall2
import Mathlib.Data.List.Nodup

/-!
# Scanning and registering

A scanner lists rules and registers them. Both go through the candidates and
leave out those that the filter does not let pass, so what is listed is a
description of what is offered to the registry, in the same order
(`scan_eq_map_kept`).

Whether the offers are all taken is a question about keys. A rule clashes with
the rules offered before it if its key is one of theirs or was in the registry
already. The first rule that clashes is refused and ends the registration, and
the rules before it stay (`registerUntilFailure_cases`); if there is none, all
are taken. Several scanners are one scanner of all their rules, put one behind
another (`registerScanners_eq`), so they can be registered together if no key
is listed twice. That is no matter of order, and then neither is what is found
under a key.
-/

namespace AuditTrail

open RuleScanner (describe)

/-! ## What is listed and what is offered -/

theorem RuleScanner.scan_eq_map_kept (scanner : RuleScanner)
    (permissionType : String) :
    scanner.scan permissionType = (scanner.kept permissionType).map
      (describe permissionType) := by
  rw [scan, kept, List.filter_map]
  rfl

theorem RuleScanner.map_key_scan (scanner : RuleScanner)
    (registry : RuleRegistry) :
    (scanner.scan registry.permissionType).map ScanResult.key =
      (scanner.kept registry.permissionType).map registry.keyOf := by
  rw [scan_eq_map_kept, List.map_map]
  rfl

/-- The same scanners in another order, each with its filter and its candidates
in another order. -/
def RuleScanner.Reordered (scanners others : List RuleScanner) : Prop :=
  ∃ middle : List RuleScanner, scanners.Perm middle ∧
    List.Forall₂ (fun scanner other => scanner.filter = other.filter ∧
      scanner.candidates.Perm other.candidates) middle others

theorem RuleScanner.Reordered.kept_perm {scanners others : List RuleScanner}
    (hreordered : Reordered scanners others) (permissionType : String) :
    (scanners.flatMap (·.kept permissionType)).Perm
      (others.flatMap (·.kept permissionType)) := by
  obtain ⟨middle, hperm, hsame⟩ := hreordered
  refine (hperm.flatMap_right _).trans ?_
  clear hperm
  induction hsame with
  | nil => exact .nil
  | @cons scanner other _ _ hfirst _ ih =>
      obtain ⟨hfilter, hcandidates⟩ := hfirst
      have hkeeps : scanner.keeps = other.keeps := by
        funext result
        rw [keeps, keeps, hfilter]
      rw [List.flatMap_cons, List.flatMap_cons, kept, kept, hkeeps]
      exact (hcandidates.filter _).append ih

namespace RuleRegistry

variable {registry : RuleRegistry} {rule : EntityRule}
  {rules before : List EntityRule}

/-! ## Clashes -/

/-- The key of a rule is in the registry or is that of a rule before it. -/
def Clashes (registry : RuleRegistry) (before : List EntityRule)
    (rule : EntityRule) : Prop :=
  registry.keyOf rule ∈ registry.keys ∨
    ∃ earlier ∈ before, registry.keyOf earlier = registry.keyOf rule

/-- No rule clashes with those before it. -/
def Fits (registry : RuleRegistry) (rules : List EntityRule) : Prop :=
  ∀ before rule rest, rules = before ++ rule :: rest →
    ¬ registry.Clashes before rule

theorem clashes_nil :
    registry.Clashes [] rule ↔ registry.keyOf rule ∈ registry.keys :=
  or_iff_left fun ⟨_, hmem, _⟩ => List.not_mem_nil hmem

theorem clashes_extend {first : EntityRule} :
    (registry.extend [first]).Clashes before rule ↔
      registry.Clashes (first :: before) rule := by
  simp only [Clashes, keyOf_extend, keys_extend, List.mem_append,
    List.map_singleton, List.mem_singleton, List.exists_mem_cons_iff, or_assoc,
    eq_comm (a := registry.keyOf rule)]

theorem fits_nil : registry.Fits [] :=
  fun _ _ _ hsplit => absurd hsplit.symm (by simp)

theorem fits_cons : registry.Fits (rule :: rules) ↔
    registry.keyOf rule ∉ registry.keys ∧
      (registry.extend [rule]).Fits rules := by
  constructor
  · intro hfits
    refine ⟨fun hkey => hfits [] rule rules rfl (clashes_nil.mpr hkey), ?_⟩
    intro before later rest hsplit hclash
    exact hfits (rule :: before) later rest (congrArg _ hsplit)
      (clashes_extend.mp hclash)
  · rintro ⟨hfree, hfits⟩ before later rest hsplit
    cases before with
    | nil =>
        obtain ⟨rfl, -⟩ := List.cons.inj hsplit
        exact fun hclash => hfree (clashes_nil.mp hclash)
    | cons first before =>
        obtain ⟨rfl, hrest⟩ := List.cons.inj hsplit
        exact fun hclash =>
          hfits before later rest hrest (clashes_extend.mpr hclash)

theorem fits_iff (rules : List EntityRule) :
    ∀ registry : RuleRegistry, registry.Fits rules ↔
    (∀ rule ∈ rules, registry.keyOf rule ∉ registry.keys) ∧
      (rules.map registry.keyOf).Nodup := by
  induction rules with
  | nil => exact fun registry => iff_of_true fits_nil ⟨nofun, List.nodup_nil⟩
  | cons rule rest ih =>
      intro registry
      rw [fits_cons, ih]
      simp only [keyOf_extend, keys_extend, List.mem_append, List.map_cons,
        List.map_nil, List.mem_singleton, List.nodup_cons, List.forall_mem_cons,
        List.mem_map]
      -- Only the first key moves: it is one of the registry there, and one of
      -- the list here.
      grind

/-! ## Registering until a rule is refused -/

theorem registerUntilFailure_of_ok {after : RuleRegistry}
    (hregister : registry.register rule = .ok after) (rest : List EntityRule) :
    registry.registerUntilFailure (rule :: rest) =
      after.registerUntilFailure rest := by
  rw [registerUntilFailure, hregister]

theorem registerUntilFailure_of_error {e : AuditError}
    (hregister : registry.register rule = .error e) (rest : List EntityRule) :
    registry.registerUntilFailure (rule :: rest) = (registry, .error e) := by
  rw [registerUntilFailure, hregister]

/-- A registration goes on until the first rule that clashes. -/
theorem registerUntilFailure_cases (rules : List EntityRule) :
    ∀ registry : RuleRegistry,
    registry.Fits rules ∧
      registry.registerUntilFailure rules = (registry.extend rules, .ok ()) ∨
      ∃ before rule rest, rules = before ++ rule :: rest ∧
        registry.Fits before ∧ registry.Clashes before rule ∧
        registry.registerUntilFailure rules =
          (registry.extend before,
            .error (.duplicateRule (registry.keyOf rule))) := by
  induction rules with
  | nil =>
      exact fun registry =>
        .inl ⟨fits_nil, by rw [extend_nil, registerUntilFailure]⟩
  | cons first rest ih =>
      intro registry
      rcases offer_cases registry first with
        ⟨hfree, hregister, -⟩ | ⟨htaken, hregister, -⟩
      · rw [registerUntilFailure_of_ok hregister]
        rcases ih (registry.extend [first]) with
          ⟨hfits, heq⟩ | ⟨before, rule, later, hsplit, hfits, hclash, heq⟩
        · rw [heq, extend_extend]
          exact .inl ⟨fits_cons.mpr ⟨hfree, hfits⟩, rfl⟩
        · rw [heq, extend_extend]
          exact .inr ⟨first :: before, rule, later, congrArg _ hsplit,
            fits_cons.mpr ⟨hfree, hfits⟩, clashes_extend.mp hclash, rfl⟩
      · rw [registerUntilFailure_of_error hregister]
        exact .inr ⟨[], first, rest, rfl, fits_nil, clashes_nil.mpr htaken,
          by rw [extend_nil]⟩

/-! ## Several scanners -/

theorem registerUntilFailure_append (rules more : List EntityRule) :
    ∀ registry : RuleRegistry,
    registry.registerUntilFailure (rules ++ more) =
      match registry.registerUntilFailure rules with
      | (last, .ok ()) => last.registerUntilFailure more
      | (last, .error e) => (last, .error e) := by
  induction rules with
  | nil => exact fun registry => rfl
  | cons rule rest ih =>
      intro registry
      cases hregister : registry.register rule with
      | ok after =>
          rw [List.cons_append, registerUntilFailure_of_ok hregister, ih,
            registerUntilFailure_of_ok hregister]
      | error e =>
          rw [List.cons_append, registerUntilFailure_of_error hregister,
            registerUntilFailure_of_error hregister]

theorem permissionType_registerUntilFailure (registry : RuleRegistry)
    (rules : List EntityRule) :
    (registry.registerUntilFailure rules).1.permissionType =
      registry.permissionType := by
  rw [(offered_untilRefused rules registry).extends]
  rfl

/-- Registering several scanners is registering all that they keep. -/
theorem registerScanners_eq (scanners : List RuleScanner) :
    ∀ registry : RuleRegistry,
    registry.registerScanners scanners =
      match registry.registerUntilFailure
        (scanners.flatMap (·.kept registry.permissionType)) with
      | (last, .ok ()) => .ok last
      | (_, .error e) => .error e := by
  induction scanners with
  | nil => exact fun registry => rfl
  | cons scanner rest ih =>
      intro registry
      rw [registerScanners, registerScanned, List.flatMap_cons,
        registerUntilFailure_append]
      -- What the next scanner keeps is up to the permission type, which a
      -- registration leaves.
      have hpermission := permissionType_registerUntilFailure registry
        (scanner.kept registry.permissionType)
      generalize registry.registerUntilFailure
        (scanner.kept registry.permissionType) = first
        at hpermission ⊢
      obtain ⟨last, outcome⟩ := first
      cases outcome with
      | error e => rfl
      | ok => exact hpermission ▸ ih last

/-- Scanners can be registered in an empty registry if no two rules they keep
have one key, and then it has just these rules. -/
theorem ofScanners_eq_ok_iff {permissionType : String}
    {scanners : List RuleScanner} :
    let kept := scanners.flatMap (·.kept permissionType)
    ofScanners permissionType scanners = .ok registry ↔
      (kept.map (empty permissionType).keyOf).Nodup ∧
        registry = (empty permissionType).extend kept := by
  intro kept
  have hfits : (empty permissionType).Fits kept ↔
      (kept.map (empty permissionType).keyOf).Nodup :=
    (fits_iff kept _).trans (and_iff_right fun _ _ => List.not_mem_nil)
  rw [ofScanners, registerScanners_eq]
  change (match (empty permissionType).registerUntilFailure kept with
      | (last, .ok ()) => Except.ok last
      | (_, .error e) => .error e) = .ok registry ↔ _
  rcases registerUntilFailure_cases kept (empty permissionType) with
    ⟨hall, heq⟩ | ⟨before, rule, rest, hsplit, -, hclash, heq⟩
  · rw [heq, ← hfits, Except.ok.injEq, and_iff_right hall, eq_comm]
  · rw [heq, ← hfits]
    exact iff_of_false nofun fun h => h.1 before rule rest hsplit hclash

section Distinct

variable {permissionType : String}
  (hnodup : (rules.map (empty permissionType).keyOf).Nodup)

include hnodup

theorem find?_eq_some_iff {key : RuleKey} :
    ((empty permissionType).extend rules).find? key = some rule ↔
      rule ∈ rules ∧ (empty permissionType).keyOf rule = key := by
  rw [find?_extend_empty]
  constructor
  · intro hfound
    exact ⟨List.mem_of_find?_eq_some hfound,
      by simpa using List.find?_some hfound⟩
  · rintro ⟨hmem, rfl⟩
    cases hfound : rules.find? fun other =>
        (empty permissionType).keyOf other =
          (empty permissionType).keyOf rule with
    | none =>
        exact absurd (decide_eq_true rfl)
          (List.find?_eq_none.mp hfound rule hmem)
    | some other =>
        have hsame : (empty permissionType).keyOf other =
            (empty permissionType).keyOf rule := by
          simpa using List.find?_some hfound
        exact congrArg some
          (List.inj_on_of_nodup_map hnodup
            (List.mem_of_find?_eq_some hfound) hmem hsame)

/-- If no key is there twice, what is found under a key is the same in any
order. -/
theorem resolveKey_perm {others : List EntityRule} (hperm : rules.Perm others)
    (key : RuleKey) :
    ((empty permissionType).extend others).resolveKey key =
      ((empty permissionType).extend rules).resolveKey key := by
  have hfind : ((empty permissionType).extend others).find? key =
      ((empty permissionType).extend rules).find? key := by
    refine Option.ext fun rule => ?_
    rw [find?_eq_some_iff hnodup,
      find?_eq_some_iff ((hperm.map _).nodup_iff.mp hnodup), hperm.mem_iff]
  rw [resolveKey, resolveKey, hfind]

end Distinct

/-- Scanners can be registered together exactly if no key is listed twice, and
then the registry has the keys that are listed, under each the rule it is listed
for, whatever the order. A scanner is refused by a registry exactly if a rule it
keeps clashes with what is there or with a rule before it. The reason given is
the key of the first such rule; those before it are registered, and nothing
takes the place of what was there. -/
theorem listed_as_registered (permissionType : String)
    (scanners : List RuleScanner) :
    let listed := scanners.flatMap fun scanner =>
      (scanner.scan permissionType).map ScanResult.key
    ((∃ registry, ofScanners permissionType scanners = .ok registry) ↔
      listed.Nodup) ∧
    (∀ registry, ofScanners permissionType scanners = .ok registry →
      registry.keys = listed ∧
      (∀ scanner ∈ scanners, ∀ rule ∈ scanner.candidates,
        scanner.keeps (describe permissionType rule) = true →
          registry.resolveKey (describe permissionType rule).key = .ok rule) ∧
      ∀ others, RuleScanner.Reordered scanners others →
        ∃ again, ofScanners permissionType others = .ok again ∧
          again.keys.Perm registry.keys ∧
          ∀ key, again.resolveKey key = registry.resolveKey key) ∧
    ∀ (registry : RuleRegistry) (scanner : RuleScanner),
      let kept := scanner.candidates.filter fun rule =>
        scanner.keeps (describe registry.permissionType rule)
      let result := registry.registerScanned scanner
      ((∃ e, result.2 = .error e) ↔
        ∃ before rule rest, kept = before ++ rule :: rest ∧
          registry.Clashes before rule) ∧
      (result.2 = .ok () → result.1 = registry.extend kept) ∧
      (∀ e, result.2 = .error e →
        ∃ before rule rest, kept = before ++ rule :: rest ∧
          registry.Clashes before rule ∧
          (∀ front first back, before = front ++ first :: back →
            ¬ registry.Clashes front first) ∧
          e = .duplicateRule (registry.keyOf rule) ∧
            result.1 = registry.extend before) ∧
      ∀ key rule, registry.resolveKey key = .ok rule →
        result.1.resolveKey key = .ok rule := by
  intro listed
  have hlisted : listed = (scanners.flatMap (·.kept permissionType)).map
      (empty permissionType).keyOf := by
    rw [List.map_flatMap]
    exact List.flatMap_congr fun scanner _ =>
      scanner.map_key_scan (empty permissionType)
  refine ⟨?_, fun registry hregistry => ?_, fun registry scanner => ?_⟩
  · simp only [ofScanners_eq_ok_iff, exists_and_left, exists_eq, and_true,
      hlisted]
  · obtain ⟨hnodup, rfl⟩ := ofScanners_eq_ok_iff.mp hregistry
    refine ⟨?_, fun scanner hscanner rule hrule hkeeps => ?_,
      fun others hreordered => ?_⟩
    · rw [keys_extend, hlisted]
      rfl
    · have hkept : rule ∈ scanners.flatMap (·.kept permissionType) :=
        List.mem_flatMap.mpr ⟨scanner, hscanner,
          List.mem_filter.mpr ⟨hrule, hkeeps⟩⟩
      exact resolveKey_eq_ok_iff.mpr
        ((find?_eq_some_iff hnodup).mpr ⟨hkept, rfl⟩)
    · -- Another order of scanners is another order of what they keep, all in
      -- one list.
      have hperm := hreordered.kept_perm permissionType
      refine
        ⟨_, ofScanners_eq_ok_iff.mpr ⟨(hperm.map _).nodup_iff.mp hnodup, rfl⟩,
          ?_, resolveKey_perm hnodup hperm⟩
      rw [keys_extend, keys_extend]
      exact ((hperm.map _).symm).append_left _
  · intro kept result
    rcases registerUntilFailure_cases kept registry with
      ⟨hfits, heq⟩ | ⟨before, rule, rest, hsplit, hfits, hclash, heq⟩
    · have hresult : result = (registry.extend kept, .ok ()) := heq
      rw [hresult]
      refine ⟨iff_of_false nofun ?_, fun _ => rfl, nofun,
        fun key rule => resolveKey_extend kept⟩
      exact fun ⟨before, rule, rest, hsplit, hclash⟩ =>
        hfits before rule rest hsplit hclash
    · have hresult : result =
        (registry.extend before,
          .error (.duplicateRule (registry.keyOf rule))) := heq
      rw [hresult]
      refine ⟨iff_of_true ⟨_, rfl⟩ ⟨before, rule, rest, hsplit, hclash⟩, nofun,
        ?_, fun key rule => resolveKey_extend before⟩
      exact fun e herror =>
        ⟨before, rule, rest, hsplit, hclash, hfits,
          (Except.error.inj herror).symm, rfl⟩

end RuleRegistry
end AuditTrail
