import AuditTrail.Rule.Basic

/-!
# Hosts of rules

Three things about a rule are not the library's: how bytes are decrypted, what a
value is changed to, and what a rule of the host's own does. A host may keep a
state while it does them. It can count how often it was asked, fail from the
second time on, or answer with what it was asked before, so a rule that is run
once too often, or in another order, shows.

The plain host does what the rules say and remembers nothing. With it rules do
what they do by themselves (`run_plain`).
-/

namespace AuditTrail

/-- What a decrypting rule has to decrypt: bytes, or no bytes for a value that
is null. Other values are not encrypted. -/
def FieldValue.encrypted? : FieldValue → Option (Option (List UInt8))
  | .bytes bs => some (some bs)
  | .null => some none
  | _ => none

/-- A host that may look at its state, and change it, whenever a rule asks
something of it. -/
structure RuleHost (σ : Type) where
  decrypt : Decryption → Option (List UInt8) → (includesHash : Bool) → σ →
    Except AuditError (Option String) × σ
  change : (kind : ValueKind) → (Option kind.Carrier → FieldValue) →
    Option kind.Carrier → σ → FieldValue × σ
  custom : (label : String) → (RuleContext → NamedValue → RuleOutcome) →
    RuleContext → NamedValue → σ → RuleOutcome × σ

namespace RuleHost

/-- The host that does what the rules say. -/
def plain : RuleHost Unit where
  decrypt decryption bytes includesHash s :=
    (decryption.decrypt bytes includesHash, s)
  change _ f answer s := (f answer, s)
  custom _ f context input s := (f context input, s)

variable {σ : Type}

/-- What a decrypting rule hands on. -/
def decrypted (name : String) : Except AuditError (Option String) → RuleOutcome
  | .ok (some text) => .ok (some ⟨name, .text text⟩)
  | .ok none => .ok (some ⟨name, .null⟩)
  | .error e => .error e

/-- Runs a single rule. -/
def apply (host : RuleHost σ) (context : RuleContext) (input : NamedValue) :
    SingleRule → σ → RuleOutcome × σ
  | .ignore, s => (.ok none, s)
  | .rename name, s => (.ok (some ⟨name, input.value⟩), s)
  | .decrypt decryption includesHash, s =>
    match input.value.encrypted? with
    | some bytes =>
      let (plain, s) := host.decrypt decryption bytes includesHash s
      (decrypted input.name plain, s)
    | none =>
        (.error (.typeMismatch context.entityType context.property "bytes"
            input.value.typeName), s)
  | .change kind f, s =>
    let (value, s) := host.change kind f (input.value.cast? kind) s
    (.ok (some ⟨input.name, value⟩), s)
  | .custom label f, s => host.custom label f context input s

/-- A run followed by another on what it hands on, if it hands anything on. -/
def andThen (first : RuleRun × σ) (next : NamedValue → σ → RuleRun × σ) :
    RuleRun × σ :=
  match first.1.outcome with
  | .ok (some value) =>
    let second := next value first.2
    (⟨first.1.ran ++ second.1.ran, second.1.outcome⟩, second.2)
  | .ok none => first
  | .error _ => first

/-- Runs a single rule and gives an account of it. -/
def runLeaf (host : RuleHost σ) (context : RuleContext) (input : NamedValue)
    (rule : SingleRule) (s : σ) : RuleRun × σ :=
  let (outcome, s) := host.apply context input rule s
  (⟨[rule], outcome⟩, s)

mutual

/-- Runs a rule and gives an account of it. -/
def run (host : RuleHost σ) (context : RuleContext) (input : NamedValue) :
    PropertyRule → σ → RuleRun × σ
  | .single rule, s => host.runLeaf context input rule s
  | .chain _ rules, s => runAll host context input rules s

/-- Runs rules one after the other. -/
def runAll (host : RuleHost σ) (context : RuleContext) (input : NamedValue) :
    List PropertyRule → σ → RuleRun × σ
  | [], s => (RuleRun.pass input, s)
  | rule :: rest, s =>
      andThen (run host context input rule s) fun value s =>
        runAll host context value rest s

end

theorem apply_plain (context : RuleContext) (input : NamedValue)
    (rule : SingleRule) :
    plain.apply context input rule () = (rule.apply context input, ()) := by
  obtain ⟨name, value⟩ := input
  cases rule with
  | decrypt decryption includesHash => cases value <;> rfl
  | _ => rfl

theorem andThen_plain (first : RuleRun) (next : NamedValue → RuleRun) :
    andThen (first, ()) (fun value _ => (next value, ())) =
      (first.andThen next, ()) := by
  obtain ⟨ran, outcome⟩ := first
  cases outcome with
  | error e => rfl
  | ok result => cases result <;> rfl

mutual

/-- With the plain host a rule does what it does by itself. -/
theorem run_plain (context : RuleContext) (input : NamedValue) :
    (rule : PropertyRule) →
      plain.run context input rule () = (rule.run context input, ())
  | .single rule => by
    rw [run, runLeaf, apply_plain, PropertyRule.run]
  | .chain _ rules => by
    rw [run, PropertyRule.run]
    exact runAll_plain context input rules

theorem runAll_plain (context : RuleContext) (input : NamedValue) :
    (rules : List PropertyRule) →
      plain.runAll context input rules () =
        (PropertyRule.runAll context input rules, ())
  | [] => rfl
  | rule :: rest => by
    rw [runAll, PropertyRule.runAll, run_plain context input rule,
      ← andThen_plain]
    exact congrArg (andThen _)
      (funext fun value => funext fun _ => runAll_plain context value rest)

end

end RuleHost
end AuditTrail
