import RecordMapping.Text.Outline

/-!
# Identifiers of models and fields

A model is known by its number in the schema, a field by its model and its position in the records
of that model.
-/

namespace RecordMapping

/-- A model, by its number in the schema. -/
structure ModelId where
  number : Nat
  deriving DecidableEq, Hashable

/-- A field, by its model and its position in the records of that model. -/
structure FieldId where
  model : ModelId
  index : Nat
  deriving DecidableEq, Hashable

/-- The written form of a model, such as `ModelId(3)`. -/
def ModelId.text (m : ModelId) : String := "ModelId(" ++ toString m.number ++ ")"

/-- The written form of a field, such as `FieldId(3/1)`. -/
def FieldId.text (f : FieldId) : String :=
  "FieldId(" ++ toString f.model.number ++ "/" ++ toString f.index ++ ")"

/-- A model stands in an outline as one word. -/
def ModelId.outline (m : ModelId) : Text.Outline := .word m.text

/-- A field stands in an outline as one word. -/
def FieldId.outline (f : FieldId) : Text.Outline := .word f.text

end RecordMapping
