import RecordMapping.KeyCache
import RecordMapping.Marker
import RecordMapping.Expr.Infer

/-!
# Putting a mapping in the place of a marker

A composer replaces a marker by the body of the mapping it refers to, bound to the related entity.
If the entity is read over a relation whose key may be null, the body is guarded by a null test on
that key.

## Implementation notes

What a composer uses up and learns stands in a `Workspace`: identities, labels, and the keys of
relations. The workspace is passed on after a fault too, so a failed run may have learned keys.
-/

namespace RecordMapping

/-- Whether replaced markers are protected against an absent entity. -/
inductive GuardPolicy where
  /-- Test the key of the relation, where it has one that may be null. -/
  | surrogateKey
  /-- Never test. -/
  | disabled
  deriving DecidableEq

/-- The word for a policy in a listing. -/
def GuardPolicy.name : GuardPolicy → String
  | .surrogateKey => "SurrogateKey"
  | .disabled => "Disabled"

/-- Puts mappings in the place of markers, for one schema. -/
structure Composer where
  schema : Schema
  /-- The guard key of a relation. -/
  keys : FieldId → GuardKey
  policy : GuardPolicy

/-- What a composer is made with; keys that are not given are those of the schema. -/
structure ComposerSettings where
  keys : Option (FieldId → GuardKey) := none
  policy : GuardPolicy := .surrogateKey

/-- The composer for a schema. -/
def ComposerSettings.build (settings : ComposerSettings) (schema : Schema) : Composer :=
  ⟨schema, settings.keys.getD schema.guardKey, settings.policy⟩

/-- What runs of composers use up and learn. -/
structure Workspace where
  /-- The next unused identity of a parameter. -/
  nextParam : Nat
  /-- The next unused label. -/
  nextLabel : Nat
  /-- The guard keys known so far. -/
  cache : KeyCache
  /-- The relations whose key was looked up, in order. -/
  asked : List FieldId

namespace Workspace

/-- Use identities from the workspace; a run that fails uses none. -/
def withParams {α : Type} (run : Nat → Outcome (α × Nat)) : Stateful Workspace α := fun w =>
  match run w.nextParam with
  | .ok (a, next) => (.ok a, { w with nextParam := next })
  | .fault f => (.fault f, w)
  | .stuck => (.stuck, w)
  | .outOfDepth => (.outOfDepth, w)

/-- A label that was not used before. -/
def freshLabel : Stateful Workspace Nat := fun w =>
  (.ok w.nextLabel, { w with nextLabel := w.nextLabel + 1 })

/-- The guard key of a relation, looked up only if it is not known. -/
def guardKey (keys : FieldId → GuardKey) (navigation : FieldId) : Stateful Workspace GuardKey :=
  fun w =>
    let fetched := w.cache.fetch keys navigation
    let asked := if fetched.asked then w.asked ++ [navigation] else w.asked
    (.ok fetched.key, { w with cache := fetched.cache, asked := asked })

end Workspace

namespace Composer

/-- The composer with the keys of its schema. -/
def ofSchema (schema : Schema) : Composer := ({} : ComposerSettings).build schema

/-- The expression that a null test for the entity reads: the guard key of the record from which
the entity is read, if there is one. -/
def guardSubject (c : Composer) (entity : Expr) : Stateful Workspace (Option Expr) :=
  match c.policy, entity.asField? with
  | .surrogateKey, some (base, navigation) => do
      let key ← Workspace.guardKey c.keys navigation
      return key.guardField.map (Expr.field base)
  | _, _ => pure none

/-- An expression that is evaluated only if the subject is not null, and is null otherwise. -/
def guarded (subject : Option Expr) (body : Expr) : Expr :=
  match subject with
  | some e => .cond e.isNotNull body .null
  | none => body

/-- The expression that stands for a marker. Markers in it are left in place. -/
def inlineOnce (c : Composer) (depth : Nat) (m : Marker) : Stateful Workspace Expr := do
  let entity ← Workspace.withParams m.entity
  let target ← Stateful.lift (m.resolve depth)
  Stateful.lift (checkArity 1 target.function.arity)
  let subject ← c.guardSubject entity
  let body ← Workspace.withParams (target.function.bindBody [some entity])
  let inferred := body.infer c.schema
  if m.ty.accepts inferred then return guarded subject body
  else Stateful.lift (.fail (.mismatch m.ty inferred))

/-- The shape of the composer for a reader, with what its cache holds. -/
def outline (c : Composer) (cache : KeyCache) : Text.Outline :=
  .record "Composer"
    [.named "cache" cache.outline, .named "null_guard" (.word c.policy.name)] true

end Composer

end RecordMapping
