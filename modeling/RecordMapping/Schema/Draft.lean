import RecordMapping.Schema.Basic
import RecordMapping.Fault.Basic

/-!
# Declaring and validating schemas

A draft takes declarations one after the other and hands out an identifier for each, so that a
relation can lead to a model that is declared later. Building a draft checks all of it and gives
the schema or the first defect.

## Implementation notes

Models are checked in the order of their declaration, and the fields of a model right after its
name. Whether a relation may be null is settled when it is declared: its key counts only if it has
been declared by then.
-/

namespace RecordMapping

/-- One declaration of a draft. -/
inductive Declaration where
  | model (name : String)
  /-- A field of plain data. -/
  | field (model : ModelId) (name : String) (ty : Ty) (nullable : Bool)
  | belongsTo (model : ModelId) (name : String) (target : ModelId) (key : Option FieldId)
  | hasOne (model : ModelId) (name : String) (target : ModelId)
  | hasMany (model : ModelId) (name : String) (target : ModelId)
  deriving DecidableEq

/-- The identifier that a declaration gets. -/
inductive DeclaredId where
  | model (id : ModelId)
  | field (id : FieldId)
  deriving DecidableEq

/-- The models and fields declared so far. -/
structure Draft where
  models : List Model := []
  deriving DecidableEq

namespace Draft

/-- The declarations as a schema that has not been checked. -/
def unchecked (draft : Draft) : Schema := ⟨draft.models⟩

/-- Declare a model under the next number. -/
def addModel (draft : Draft) (name : String) : Draft × ModelId :=
  let id : ModelId := ⟨draft.models.length⟩
  (⟨draft.models ++ [⟨id, name, []⟩]⟩, id)

/-- Declare a field behind the other fields of its model, if that model is declared. -/
def addField (draft : Draft) (id : ModelId) (name : String) (kind : FieldKind) (nullable : Bool) :
    Option (Draft × FieldId) :=
  (draft.unchecked.model? id).map fun model =>
    let field : Field := ⟨⟨id, model.fields.length⟩, name, kind, nullable⟩
    let extend (m : Model) : Model :=
      if m.id = id then { m with fields := m.fields ++ [field] } else m
    (⟨draft.models.map extend⟩, field.id)

/-- Whether a relation with the given key may be null: it may unless the key is a declared field
that may not. -/
def keyNullable (draft : Draft) (key : Option FieldId) : Bool :=
  match key.bind draft.unchecked.field? with
  | some field => field.nullable
  | none => true

/-- Take one declaration; there is no result for a field of an undeclared model. -/
def declare (draft : Draft) : Declaration → Option (Draft × DeclaredId)
  | .model name =>
      let added := draft.addModel name
      some (added.1, .model added.2)
  | .field model name ty nullable =>
      (draft.addField model name (.primitive ty) nullable).map fun added =>
        (added.1, .field added.2)
  | .belongsTo model name target key =>
      (draft.addField model name (.belongsTo target key) (draft.keyNullable key)).map fun added =>
        (added.1, .field added.2)
  | .hasOne model name target =>
      (draft.addField model name (.hasOne target) true).map fun added =>
        (added.1, .field added.2)
  | .hasMany model name target =>
      (draft.addField model name (.hasMany target) false).map fun added =>
        (added.1, .field added.2)

/-- Take declarations in order, with the identifiers they get. -/
def declareAll (draft : Draft) : List Declaration → Option (Draft × List DeclaredId)
  | [] => some (draft, [])
  | declaration :: rest =>
      (draft.declare declaration).bind fun step =>
        (step.1.declareAll rest).map fun done => (done.1, step.2 :: done.2)

/-- Whether the declared key of a relation is a primitive field of the given model. -/
def keyValid (model : Model) : FieldKind → Bool
  | .belongsTo _ (some key) =>
      decide (key.model = model.id) &&
        match model.fields[key.index]? with
        | some field => field.kind.isPrimitive
        | none => false
  | _ => true

/-- Check the key and then the target of a relation; plain data needs no check. -/
def checkField (draft : Draft) (model : Model) (field : Field) : Except SchemaDefect Unit :=
  if !keyValid model field.kind then
    .error (.invalidKey model.name field.name)
  else
    match field.kind.target? with
    | none => .ok ()
    | some target =>
        if (draft.unchecked.model? target).isSome then .ok ()
        else .error (.undeclaredTarget model.name field.name target)

/-- Check the fields of a model in order, where `seen` are the names of the earlier ones. -/
def checkFields (draft : Draft) (model : Model) :
    List String → List Field → Except SchemaDefect Unit
  | _, [] => .ok ()
  | seen, field :: rest =>
      if field.name ∈ seen then .error (.duplicateField model.name field.name)
      else
        match draft.checkField model field with
        | .error defect => .error defect
        | .ok () => draft.checkFields model (field.name :: seen) rest

/-- Check models in order, where `seen` are the names of the earlier ones. -/
def checkModels (draft : Draft) : List String → List Model → Except SchemaDefect Unit
  | _, [] => .ok ()
  | seen, model :: rest =>
      if model.name ∈ seen then .error (.duplicateModel model.name)
      else
        match draft.checkFields model [] model.fields with
        | .error defect => .error defect
        | .ok () => draft.checkModels (model.name :: seen) rest

/-- The schema of the declarations, or the first defect among them. -/
def build (draft : Draft) : Except SchemaDefect Schema :=
  match draft.checkModels [] draft.models with
  | .error defect => .error defect
  | .ok () => .ok draft.unchecked

end Draft

end RecordMapping
