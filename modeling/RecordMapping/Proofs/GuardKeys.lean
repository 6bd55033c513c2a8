import RecordMapping.Schema.GuardKey
import RecordMapping.Proofs.Validation

/-!
# Which fields stand in for a relation

A null test on a relation to one record reads the field that holds its key: the declared key, or, if
none is declared, the field of the same model that is named after the relation. In a schema that is
built this is always another field of the model that has the relation, and it is read only if it
holds a number that may be null.
-/

namespace RecordMapping

namespace Field

variable {key relation : Field} {target : ModelId}

/-- The field is the key of the relation: it is declared as such, or it bears the name of a relation
to one record for which no key is declared. -/
inductive KeyOf (key relation : Field) : Prop
  | declared {target : ModelId} (kind : relation.kind = .belongsTo target (some key.id))
  | named {target : ModelId}
      (kind : relation.kind = .belongsTo target none ∨ relation.kind = .hasOne target)
      (model : key.id.model = relation.id.model) (name : key.name = relation.name ++ "_id")

/-- Only the declared key is the key of a relation that declares one. -/
theorem keyOf_iff_of_declared {declared : FieldId}
    (kind : relation.kind = .belongsTo target (some declared)) :
    key.KeyOf relation ↔ key.id = declared := by
  constructor
  · rintro (other | ⟨other | other, _, _⟩) <;> cases kind.symm.trans other
    rfl
  · rintro rfl
    exact .declared kind

/-- Only the field with its name is the key of a relation to one record that declares none. -/
theorem keyOf_iff_of_undeclared
    (kind : relation.kind = .belongsTo target none ∨ relation.kind = .hasOne target) :
    key.KeyOf relation ↔ key.id.model = relation.id.model ∧ key.name = relation.name ++ "_id" := by
  constructor
  · rintro (other | ⟨_, model, name⟩)
    · rcases kind with kind | kind <;> cases kind.symm.trans other
    · exact ⟨model, name⟩
  · exact fun ⟨model, name⟩ => .named kind model name

/-- Plain data and collections have no key. -/
theorem not_keyOf
    (kind : (∃ ty, relation.kind = .primitive ty) ∨ ∃ target, relation.kind = .hasMany target) :
    ¬ key.KeyOf relation := by
  rintro (other | ⟨other | other, _, _⟩) <;> simp [other] at kind

theorem isNullableNumber_iff (field : Field) : field.isNullableNumber = true ↔
    field.nullable = true ∧ (field.kind = .primitive .i32 ∨ field.kind = .primitive .i64) := by
  unfold isNullableNumber
  cases field.kind with
  | primitive ty => cases ty <;> simp [Ty.isNumeric]
  | belongsTo | hasOne | hasMany => simp

end Field

namespace Schema

/-- The key may stand in for the relation in null tests: it is the key of the relation, and it holds
a number that may be null. -/
def Guards (schema : Schema) (key navigation : FieldId) : Prop :=
  ∃ relation field, schema.field? navigation = some relation ∧ schema.field? key = some field ∧
    field.KeyOf relation ∧ field.nullable = true ∧
      (field.kind = .primitive .i32 ∨ field.kind = .primitive .i64)

/-- A null test reads the key that is looked up, if it holds a number that may be null. -/
theorem guardField_eq_some_iff (schema : Schema) (navigation key : FieldId) :
    (schema.guardKey navigation).guardField = some key ↔
      ∃ field, schema.keyField? navigation = some field ∧ field.id = key ∧
        field.isNullableNumber = true := by
  rw [GuardKey.guardField_eq_some_iff, guardKey]
  cases schema.keyField? navigation with
  | none => simp [GuardKey.absent]
  | some field =>
      have primitive (h : field.isNullableNumber = true) : field.kind.isPrimitive = true := by
        obtain ⟨_, kind | kind⟩ := field.isNullableNumber_iff.mp h <;> rw [kind] <;> rfl
      simp only [Option.some.injEq, exists_eq_left']
      split
      · simp [and_comm]
      · next other => simpa [GuardKey.absent] using fun _ => mt primitive other

end Schema

namespace Draft

variable {draft : Draft} {schema : Schema}

theorem id_of_field?_of_build (h : draft.Numbered) (built : draft.build = .ok schema) {x : FieldId}
    {f : Field} (found : schema.field? x = some f) : f.id = x := by
  obtain ⟨rfl, -⟩ := build_eq_ok_iff.mp built
  exact h.id_of_field? found

/-- The field that a model has under a name is the only one. -/
theorem fieldByName?_eq_some_iff (h : draft.Numbered) {x : ModelId} {model : Model}
    (found : draft.unchecked.model? x = some model)
    (distinct : (model.fields.map Field.name).Nodup) {name : String} {f : Field} :
    model.fieldByName? name = some f ↔
      draft.unchecked.field? f.id = some f ∧ f.id.model = x ∧ f.name = name := by
  refine (find?_eq_some_iff_mem distinct).trans ?_
  obtain ⟨mem, rfl⟩ := h.model?_eq_some_iff.mp found
  constructor
  · rintro ⟨hf, rfl⟩
    obtain ⟨hfield, owner⟩ := h.field?_of_mem mem hf
    exact ⟨hfield, owner, rfl⟩
  · rintro ⟨hfield, owner, rfl⟩
    obtain ⟨m, hm, hf⟩ := Option.bind_eq_some_iff.mp hfield
    rw [owner] at hm
    cases found.symm.trans hm
    exact ⟨List.mem_of_getElem? hf, rfl⟩

/-- In a schema that is built, looking for the key of a relation finds the field that is its key. -/
theorem keyField?_eq_some_iff (h : draft.Numbered) (built : draft.build = .ok schema)
    {navigation : FieldId} {key : Field} : schema.keyField? navigation = some key ↔
      ∃ relation, schema.field? navigation = some relation ∧
        schema.field? key.id = some key ∧ key.KeyOf relation := by
  obtain ⟨rfl, -, checked⟩ := build_eq_ok_iff.mp built
  rw [Schema.keyField?, Option.bind_eq_some_iff]
  refine exists_congr fun relation => and_congr_right fun found => ?_
  obtain rfl := h.id_of_field? found
  have byName : ((draft.unchecked.model? relation.id.model).bind fun model =>
      model.fieldByName? (relation.name ++ "_id")) = some key ↔
        draft.unchecked.field? key.id = some key ∧ key.id.model = relation.id.model ∧
          key.name = relation.name ++ "_id" := by
    obtain ⟨model, hm, -⟩ := Option.bind_eq_some_iff.mp found
    rw [hm, Option.bind_some]
    exact fieldByName?_eq_some_iff h hm (checked model (Schema.mem_of_model? hm)).1
  cases kind : relation.kind with
  | primitive ty => simp [Field.not_keyOf (.inl ⟨ty, kind⟩)]
  | hasMany target => simp [Field.not_keyOf (.inr ⟨target, kind⟩)]
  | hasOne target => rw [Field.keyOf_iff_of_undeclared (.inr kind), ← byName]
  | belongsTo target declared =>
      cases declared with
      | none => rw [Field.keyOf_iff_of_undeclared (.inl kind), ← byName]
      | some declared =>
          rw [Field.keyOf_iff_of_declared kind]
          constructor
          · intro hkey
            obtain rfl := h.id_of_field? hkey
            exact ⟨hkey, rfl⟩
          · rintro ⟨hkey, rfl⟩
            exact hkey

/-- In a schema that is built, the key of a relation is a field of the same model. -/
theorem model_eq_of_keyOf (h : draft.Numbered) (built : draft.build = .ok schema)
    {relation key : Field} (found : schema.field? relation.id = some relation)
    (keyOf : key.KeyOf relation) : key.id.model = relation.id.model := by
  cases keyOf with
  | named _ model _ => exact model
  | declared kind =>
      obtain ⟨rfl, -, checked⟩ := build_eq_ok_iff.mp built
      obtain ⟨model, hm, hmem⟩ := Option.bind_eq_some_iff.mp found
      obtain ⟨mem, same⟩ := h.model?_eq_some_iff.mp hm
      have valid := (checkField_eq_ok_iff.mp
        ((checked model mem).2 relation (List.mem_of_getElem? hmem))).1
      rw [← same]
      exact ((keyValid_iff (same.symm ▸ hm)).mp valid _ _ kind).1

/-- In a schema that is built, the field that a null test reads is exactly the key that may stand in
for the relation. -/
theorem guardField_iff_guards (h : draft.Numbered) (built : draft.build = .ok schema)
    (navigation key : FieldId) :
    (schema.guardKey navigation).guardField = some key ↔ schema.Guards key navigation := by
  simp only [Schema.guardField_eq_some_iff, keyField?_eq_some_iff h built,
    Field.isNullableNumber_iff]
  constructor
  · rintro ⟨field, ⟨relation, found, hkey, keyOf⟩, rfl, number⟩
    exact ⟨relation, field, found, hkey, keyOf, number⟩
  · rintro ⟨relation, field, found, hkey, keyOf, number⟩
    obtain rfl := id_of_field?_of_build h built hkey
    exact ⟨field, ⟨relation, found, hkey, keyOf⟩, rfl, number⟩

/-- In a schema that is built, the key that may stand in for a relation is another field of the same
model. -/
theorem position_of_guards (h : draft.Numbered) (built : draft.build = .ok schema)
    {navigation key : FieldId} (guards : schema.Guards key navigation) :
    key.model = navigation.model ∧ key ≠ navigation ∧
      ∃ model, schema.model? navigation.model = some model ∧ key.index < model.fields.length := by
  obtain ⟨relation, field, found, hkey, keyOf, -, number⟩ := guards
  obtain rfl := id_of_field?_of_build h built found
  obtain rfl := id_of_field?_of_build h built hkey
  have sameModel := model_eq_of_keyOf h built found keyOf
  refine ⟨sameModel, ?_, ?_⟩
  · intro same
    rw [same, found] at hkey
    cases hkey
    exact Field.not_keyOf (.inl (number.elim (fun k => ⟨_, k⟩) fun k => ⟨_, k⟩)) keyOf
  · obtain ⟨model, hm, hf⟩ := Option.bind_eq_some_iff.mp hkey
    exact ⟨model, sameModel ▸ hm, (List.getElem?_eq_some_iff.mp hf).1⟩

/-- In a schema that is built, a null test reads the key of a relation to one record: the declared
one, or else the field that is named after the relation, if it holds a number that may be null. This
is another field of the same model. The name does not count if a key is declared, and there is no
null test on plain data, on a collection, or on what the schema lacks. -/
theorem guardField_exact {ds : List Declaration} {ids : List DeclaredId}
    (run : declareAll {} ds = some (draft, ids)) (built : draft.build = .ok schema)
    (navigation : FieldId) :
    (∀ key, (schema.guardKey navigation).guardField = some key ↔ schema.Guards key navigation) ∧
    (∀ key, (schema.guardKey navigation).guardField = some key →
      key.model = navigation.model ∧ key ≠ navigation ∧
        ∃ model, schema.model? navigation.model = some model ∧ key.index < model.fields.length) ∧
    (∀ relation target declared, schema.field? navigation = some relation →
      relation.kind = .belongsTo target (some declared) →
        ∀ key, (schema.guardKey navigation).guardField = some key → key = declared) ∧
    ((∀ field, schema.field? navigation = some field →
      (∃ ty, field.kind = .primitive ty) ∨ ∃ target, field.kind = .hasMany target) →
        (schema.guardKey navigation).guardField = none) := by
  obtain ⟨records, -⟩ := records_of_declareAll run
  have exact := guardField_iff_guards records.numbered built navigation
  refine ⟨exact, ?position, ?declared, ?other⟩
  case position =>
      exact fun key hkey => position_of_guards records.numbered built ((exact key).mp hkey)
  case declared =>
      intro relation target declared found kind key hkey
      obtain ⟨relation', field, found', hfield, keyOf, -⟩ := (exact key).mp hkey
      cases found.symm.trans found'
      rw [← id_of_field?_of_build records.numbered built hfield]
      exact (Field.keyOf_iff_of_declared kind).mp keyOf
  case other =>
      intro other
      apply Option.eq_none_iff_forall_ne_some.mpr
      intro key hkey
      obtain ⟨relation, field, found, -, keyOf, -⟩ := (exact key).mp hkey
      exact Field.not_keyOf (other relation found) keyOf

/-- Shipments with a declared key for the sender and a name for the key of the receiver, next to a
relation whose declared key is a text, and a collection. -/
def shipments : List Declaration :=
  [.model "Shipment", .field ⟨0⟩ "origin" .i64 true, .field ⟨0⟩ "receiver_id" .i32 true,
    .belongsTo ⟨0⟩ "sender" ⟨1⟩ (some ⟨⟨0⟩, 0⟩), .hasOne ⟨0⟩ "receiver" ⟨1⟩,
    .field ⟨0⟩ "code" .string true, .field ⟨0⟩ "carrier_id" .i64 true,
    .belongsTo ⟨0⟩ "carrier" ⟨1⟩ (some ⟨⟨0⟩, 4⟩), .hasMany ⟨0⟩ "parcels" ⟨1⟩, .model "Party"]

theorem shipments_guarded : ∃ draft ids schema, declareAll {} shipments = some (draft, ids) ∧
    draft.build = .ok schema ∧ (schema.guardKey ⟨⟨0⟩, 2⟩).guardField = some ⟨⟨0⟩, 0⟩ ∧
      (schema.guardKey ⟨⟨0⟩, 3⟩).guardField = some ⟨⟨0⟩, 1⟩ ∧
      (schema.guardKey ⟨⟨0⟩, 6⟩).guardField = none ∧
      (schema.guardKey ⟨⟨0⟩, 7⟩).guardField = none := by
  have run : declareAll {} shipments = some (_, _) := rfl
  have guard (navigation : FieldId) := guardField_exact run rfl navigation
  refine ⟨_, _, _, run, rfl, ?sender, ?receiver, ?carrier, ?parcels⟩
  case sender =>
      apply ((guard _).1 _).mpr
      exact ⟨_, _, rfl, rfl, .declared rfl, rfl, .inr rfl⟩
  case receiver =>
      apply ((guard _).1 _).mpr
      exact ⟨_, _, rfl, rfl, .named (.inr rfl) rfl rfl, rfl, .inl rfl⟩
  case carrier =>
      -- Its declared key is a text, and so the number with its name does not count either.
      apply Option.eq_none_iff_forall_ne_some.mpr
      intro key hkey
      obtain rfl := (guard _).2.2.1 _ _ _ rfl rfl key hkey
      obtain ⟨_, _, _, hfield, _, _, number⟩ := ((guard _).1 _).mp hkey
      cases hfield
      simp at number
  case parcels =>
      apply (guard _).2.2.2
      rintro field ⟨⟩
      exact .inr ⟨_, rfl⟩

end Draft

end RecordMapping
