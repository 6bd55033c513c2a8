import RecordMapping.Schema.Basic

/-!
# Guard keys

A null test on a relation is made on the field that holds its key. The key of a relation is the
one it declares; a relation to one record without a declared key falls back to the field of its
own model that is named after it.

## Implementation notes

A declared key is final: if it cannot be used, the naming rule is not tried. A collection and
plain data have no key.
-/

namespace RecordMapping

/-- The field that stands in for a relation in null tests, if there is one, and whether it holds a
number that may be null. -/
structure GuardKey where
  field : Option FieldId
  nullable : Bool
  deriving DecidableEq

namespace GuardKey

/-- The answer for a relation without a usable key. -/
def absent : GuardKey := ⟨none, false⟩

/-- The field that a null test reads: the key, if it may be null. -/
def guardField (key : GuardKey) : Option FieldId := if key.nullable then key.field else none

/-- The shape of the key for a reader. -/
def outline (key : GuardKey) : Text.Outline :=
  .record "NullableKey"
    [.named "field" (.option (key.field.map FieldId.outline)),
      .named "nullable" (.word (if key.nullable then "true" else "false"))]
    false

theorem guardField_eq_some_iff (key : GuardKey) (field : FieldId) :
    key.guardField = some field ↔ key.nullable = true ∧ key.field = some field := by
  simp [guardField]

end GuardKey

namespace Schema

/-- The field that holds the key of a relation to one record: the declared key, or else the field
of the same model that is named after the relation. -/
def keyField? (schema : Schema) (navigation : FieldId) : Option Field :=
  (schema.field? navigation).bind fun field =>
    match field.kind with
    | .belongsTo _ (some key) => schema.field? key
    | .belongsTo _ none | .hasOne _ =>
        (schema.model? navigation.model).bind fun model => model.fieldByName? (field.name ++ "_id")
    | .hasMany _ | .primitive _ => none

/-- The guard key of a field, as the schema knows it. -/
def guardKey (schema : Schema) (navigation : FieldId) : GuardKey :=
  match schema.keyField? navigation with
  | some key => if key.kind.isPrimitive then ⟨some key.id, key.isNullableNumber⟩ else .absent
  | none => .absent

end Schema

end RecordMapping
