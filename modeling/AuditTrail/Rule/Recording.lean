import AuditTrail.Rule.Entity

/-!
# Recording in place

The properties of an entity are recorded one after the other in properties that
are changed in place. A property whose chain fails, or whose name is taken, is
an error at the moment at which it is recorded; the next one can be recorded all
the same, in whatever is there by then.
-/

namespace AuditTrail

/-- A property that was recorded: what was there before, what came of it, and
what is there afterwards. -/
structure Recording where
  property : String
  value : FieldValue
  before : TrackedProperties
  outcome : Except AuditError Unit
  after : TrackedProperties

namespace EntityRules

/-- Runs the chain of a property on its value and puts what it hands on among
the properties that are there. -/
def recordInPlace (rules : EntityRules) (name : String) (value : FieldValue) :
    ExceptT AuditError (StateM TrackedProperties) Unit := do
  match ← ofExcept (rules.run name value).outcome with
  | none => return ()
  | some result =>
    if (← get).contains result.name then
      throw (.duplicateProperty rules.entityType result.name)
    else modify fun properties => properties.insert result.name result.value

/-- In place the properties are the ones that recording gives, and an error
leaves them as they were. -/
theorem recordInPlace_eq (rules : EntityRules) (name : String)
    (value : FieldValue) (properties : TrackedProperties) :
    (rules.recordInPlace name value).run.run properties =
      match rules.record name value properties with
      | .ok recorded => (.ok (), recorded)
      | .error e => (.error e, properties) := by
  unfold recordInPlace record store
  cases (rules.run name value).outcome with
  | error e => rfl
  | ok result =>
    cases result with
    | none => rfl
    | some result =>
      change StateT.run
        (ExceptT.run (if properties.contains result.name then _ else _))
        properties = _
      simp only []
      split <;> rfl

/-- Records properties one after the other, going on after errors. -/
def recordings (rules : EntityRules) :
    List (String × FieldValue) → TrackedProperties → List Recording
  | [], _ => []
  | (name, value) :: rest, before =>
    let came := (rules.recordInPlace name value).run.run before
    ⟨name, value, before, came.1, came.2⟩ :: rules.recordings rest came.2

/-- The properties that are there in the end. -/
def recorded (rules : EntityRules) :
    List (String × FieldValue) → TrackedProperties → TrackedProperties
  | [], properties => properties
  | (name, value) :: rest, properties =>
      rules.recorded rest
        ((rules.recordInPlace name value).run.run properties).2

/-- What is there in the end is what is there after the last property. -/
theorem recorded_eq_last (rules : EntityRules)
    (properties : List (String × FieldValue)) (before : TrackedProperties) :
    rules.recorded properties before =
      ((rules.recordings properties before).getLast?.map (·.after)).getD
        before := by
  induction properties generalizing before with
  | nil => rfl
  | cons property rest ih =>
    simp only [recorded, ih, recordings, List.getLast?_cons, Option.map_some,
      Option.getD_some]
    cases (rules.recordings rest _).getLast? <;> rfl

end EntityRules
end AuditTrail
