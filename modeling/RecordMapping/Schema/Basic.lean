import RecordMapping.Ty

/-!
# Schemas

A schema lists models, and a model lists its fields in the order of its records. A field holds
plain data, or leads to one or many records of another model.

## Implementation notes

Looking up an identifier finds nothing when no model or field has it. The schemas that are built
from declarations number models and fields by position, but the look-up does not rely on that.
-/

namespace RecordMapping

/-- What a field holds. -/
inductive FieldKind where
  /-- Plain data of the given type. -/
  | primitive (ty : Ty)
  /-- One record of the target, whose key is held by the declaring model. -/
  | belongsTo (target : ModelId) (key : Option FieldId)
  /-- One record of the target, whose key is held by the target. -/
  | hasOne (target : ModelId)
  /-- Any number of records of the target. -/
  | hasMany (target : ModelId)
  deriving DecidableEq

namespace FieldKind

/-- Whether the field holds plain data. -/
def isPrimitive : FieldKind → Bool
  | .primitive _ => true
  | _ => false

/-- Whether the field leads to records of another model. -/
def isRelation (kind : FieldKind) : Bool := !kind.isPrimitive

/-- The model that a relation leads to. -/
def target? : FieldKind → Option ModelId
  | .primitive _ => none
  | .belongsTo target _ | .hasOne target | .hasMany target => some target

/-- The type of reading the field from a record. -/
def readTy : FieldKind → Ty
  | .primitive ty => ty
  | .belongsTo target _ | .hasOne target => .model target
  | .hasMany target => .list (.model target)

/-- The target and the declared key of a relation that holds its key on its own side. -/
def asBelongsTo? : FieldKind → Option (ModelId × Option FieldId)
  | .belongsTo target key => some (target, key)
  | _ => none

/-- The shape of the kind for a reader. -/
def outline : FieldKind → Text.Outline
  | .primitive ty => .record "FieldPrimitive" [.named "ty" ty.outline] false
  | .belongsTo target key =>
      .record "BelongsTo"
        [.named "target" target.outline, .named "foreign_key" (.option (key.map FieldId.outline))]
        false
  | .hasOne target => .record "HasOne" [.named "target" target.outline] false
  | .hasMany target => .record "HasMany" [.named "target" target.outline] false

end FieldKind

/-- A field of a model. -/
structure Field where
  id : FieldId
  name : String
  kind : FieldKind
  /-- Whether the field may hold null. -/
  nullable : Bool
  deriving DecidableEq

/-- Whether the field holds a number that may be null, as an optional key does. -/
def Field.isNullableNumber (field : Field) : Bool :=
  field.nullable &&
    match field.kind with
    | .primitive ty => ty.isNumeric
    | _ => false

/-- A model with its fields in the order of its records. -/
structure Model where
  id : ModelId
  name : String
  fields : List Field
  deriving DecidableEq

/-- The first field with the given name. -/
def Model.fieldByName? (model : Model) (name : String) : Option Field :=
  model.fields.find? fun field => field.name = name

/-- The models that mappings are written against. -/
structure Schema where
  models : List Model
  deriving DecidableEq

namespace Schema

/-- The model with the given identifier. -/
def model? (schema : Schema) (id : ModelId) : Option Model :=
  schema.models.find? fun model => model.id = id

/-- The field with the given identifier. -/
def field? (schema : Schema) (id : FieldId) : Option Field :=
  (schema.model? id.model).bind fun model => model.fields[id.index]?

/-- The first model with the given name. -/
def modelByName? (schema : Schema) (name : String) : Option Model :=
  schema.models.find? fun model => model.name = name

/-- The type of reading a field from a record; unknown for a field that the schema lacks. -/
def readTy (schema : Schema) (id : FieldId) : Ty :=
  match schema.field? id with
  | some field => field.kind.readTy
  | none => .unknown

theorem id_of_model? {schema : Schema} {id : ModelId} {model : Model}
    (h : schema.model? id = some model) : model.id = id := by
  simpa using List.find?_some h

theorem mem_of_model? {schema : Schema} {id : ModelId} {model : Model}
    (h : schema.model? id = some model) : model ∈ schema.models :=
  List.mem_of_find?_eq_some h

end Schema

end RecordMapping
