import RecordMapping.Proofs.Declarations
import Mathlib.Data.List.Nodup

/-!
# Which declarations make a schema

Building a draft succeeds exactly if the declarations fit each other: no two models have the same
name, and no two fields of one model, a declared key is plain data of the model that declares it,
and a relation leads to a declared model. Keys and targets may be declared later than what refers to
them. The schema then answers every look-up with what was declared.
-/

namespace RecordMapping

/-- The declarations, which got the identifiers, fit each other. -/
structure Declaration.Fit (ds : List Declaration) (ids : List DeclaredId) : Prop where
  modelNames : (ds.filterMap (nameIn? none)).Nodup
  fieldNames : ∀ owner, (ds.filterMap (nameIn? (some owner))).Nodup
  /-- A declared key is the identifier of plain data of the same model. -/
  keys : ∀ owner name target key, Declaration.belongsTo owner name target (some key) ∈ ds →
    ∃ keyName ty nullable,
      (Declaration.field owner keyName ty nullable, DeclaredId.field key) ∈ ds.zip ids
  targets : ∀ d ∈ ds, ∀ target, d.target? = some target →
    ∃ name, (Declaration.model name, DeclaredId.model target) ∈ ds.zip ids

/-- Look-ups in the schema find what was declared, under the identifier that it got, and nothing
else. -/
structure Schema.Answers (schema : Schema) (ds : List Declaration) (ids : List DeclaredId) :
    Prop where
  model : ∀ name x, (Declaration.model name, DeclaredId.model x) ∈ ds.zip ids →
    ∃ m, schema.model? x = some m ∧ m.id = x ∧ m.name = name ∧
      m.fields.map Field.name = ds.filterMap (Declaration.nameIn? (some x))
  noModel : ∀ x, DeclaredId.model x ∉ ids → schema.model? x = none
  field : ∀ d x, (d, DeclaredId.field x) ∈ ds.zip ids →
    ∃ f, schema.field? x = some f ∧ f.id = x ∧ d.Describes f
  noField : ∀ x, DeclaredId.field x ∉ ids → schema.field? x = none
  modelByName : ∀ name m, schema.modelByName? name = some m ↔
    ∃ x, (Declaration.model name, DeclaredId.model x) ∈ ds.zip ids ∧ schema.model? x = some m
  fieldByName : ∀ x m, schema.model? x = some m → ∀ name f, m.fieldByName? name = some f ↔
    ∃ d y, (d, DeclaredId.field y) ∈ ds.zip ids ∧ d.owner? = some x ∧ d.name = name ∧
      schema.field? y = some f

namespace Draft

variable {draft : Draft}

/-- What is checked of a single field. -/
theorem checkField_eq_ok_iff {model : Model} {field : Field} :
    draft.checkField model field = .ok () ↔ keyValid model field.kind = true ∧
      ∀ target, field.kind.target? = some target →
        ∃ m, draft.unchecked.model? target = some m := by
  unfold checkField
  cases hv : keyValid model field.kind with
  | false => simp
  | true =>
      cases ht : field.kind.target? with
      | none => simp
      | some target => cases hm : draft.unchecked.model? target <;> simp [hm]

theorem checkFields_eq_ok_iff {model : Model} {seen : List String} {fields : List Field} :
    draft.checkFields model seen fields = .ok () ↔ (fields.map Field.name).Nodup ∧
      (∀ f ∈ fields, f.name ∉ seen) ∧ ∀ f ∈ fields, draft.checkField model f = .ok () := by
  induction fields generalizing seen with
  | nil => simp [checkFields]
  | cons field rest ih =>
      rw [checkFields]
      split
      · next hseen => simp [hseen]
      · next hseen =>
        cases hf : draft.checkField model field with
        | error defect => simp [hf]
        | ok =>
            simp only [ih, List.map_cons, List.nodup_cons, List.mem_map, List.mem_cons]
            grind

theorem checkModels_eq_ok_iff {seen : List String} {models : List Model} :
    draft.checkModels seen models = .ok () ↔ (models.map Model.name).Nodup ∧
      (∀ m ∈ models, m.name ∉ seen) ∧ ∀ m ∈ models, draft.checkFields m [] m.fields = .ok () := by
  induction models generalizing seen with
  | nil => simp [checkModels]
  | cons model rest ih =>
      rw [checkModels]
      split
      · next hseen => simp [hseen]
      · next hseen =>
        cases hf : draft.checkFields model [] model.fields with
        | error defect => simp [hf]
        | ok =>
            simp only [ih, List.map_cons, List.nodup_cons, List.mem_map, List.mem_cons]
            grind

/-- A draft is built if names are not repeated and every field passes its checks. -/
theorem build_eq_ok_iff {schema : Schema} : draft.build = .ok schema ↔
    schema = draft.unchecked ∧ (draft.models.map Model.name).Nodup ∧
      ∀ m ∈ draft.models, (m.fields.map Field.name).Nodup ∧
        ∀ f ∈ m.fields, draft.checkField m f = .ok () := by
  have checked : draft.checkModels [] draft.models = .ok () ↔ _ := checkModels_eq_ok_iff
  simp only [List.not_mem_nil, not_false_eq_true, implies_true, true_and,
    checkFields_eq_ok_iff] at checked
  rw [← checked, build]
  cases draft.checkModels [] draft.models <;> simp [eq_comm]

theorem isPrimitive_iff {kind : FieldKind} :
    kind.isPrimitive = true ↔ ∃ ty, kind = .primitive ty := by
  cases kind <;> simp [FieldKind.isPrimitive]

/-- A declared key is valid if it is found among the fields of the model and is plain data. -/
theorem keyValid_iff {model : Model} (found : draft.unchecked.model? model.id = some model)
    {kind : FieldKind} : keyValid model kind = true ↔
      ∀ target key, kind = .belongsTo target (some key) → key.model = model.id ∧
        ∃ f ty, draft.unchecked.field? key = some f ∧ f.kind = .primitive ty := by
  cases kind with
  | primitive | hasOne | hasMany => simp [keyValid]
  | belongsTo target key =>
      cases key with
      | none => simp [keyValid]
      | some key =>
          simp only [keyValid, Bool.and_eq_true, decide_eq_true_eq, FieldKind.belongsTo.injEq,
            Option.some.injEq, and_imp, forall_eq', forall_apply_eq_imp_iff]
          apply and_congr_right
          intro owner
          rw [Schema.field?, owner, found, Option.bind_some]
          cases model.fields[key.index]? with
          | none => simp
          | some f => simp [isPrimitive_iff]

namespace Records

variable {ds : List Declaration} {ids : List DeclaredId}

/-- Field names are distinct in each model exactly if those declared for it are. -/
theorem nodup_fieldNames_iff (h : Records (ds.zip ids) draft) (length : ids.length = ds.length) :
    (∀ m ∈ draft.models, (m.fields.map Field.name).Nodup) ↔
      ∀ owner, (ds.filterMap (Declaration.nameIn? (some owner))).Nodup := by
  have names (owner : ModelId) := h.fieldNames owner
  rw [List.map_fst_zip (Nat.le_of_eq length.symm)] at names
  simp only [← names, Draft.fieldNames]
  constructor
  · intro each owner
    cases hm : draft.unchecked.model? owner with
    | none => simp
    | some m => simpa using each m (Schema.mem_of_model? hm)
  · intro each m mem
    have found := h.numbered.model?_eq_some_iff.mpr ⟨mem, rfl⟩
    simpa [found] using each m.id

/-- The keys of all fields are valid exactly if each declared key is plain data of its model. -/
theorem keyValid_iff_keys (h : Records (ds.zip ids) draft) (length : ids.length = ds.length) :
    (∀ m ∈ draft.models, ∀ f ∈ m.fields, keyValid m f.kind = true) ↔
      ∀ owner name target key, Declaration.belongsTo owner name target (some key) ∈ ds →
        ∃ keyName ty nullable,
          (Declaration.field owner keyName ty nullable, DeclaredId.field key) ∈ ds.zip ids := by
  constructor
  · intro valid owner name target key declared
    obtain ⟨x, mem⟩ := h.exists_id (by rwa [List.map_fst_zip (Nat.le_of_eq length.symm)]) rfl
    obtain ⟨f, hf, rfl, describes⟩ := h.exists_field mem
    obtain ⟨m, hm, hmem⟩ := Option.bind_eq_some_iff.mp hf
    obtain ⟨memModel, hid⟩ := h.numbered.model?_eq_some_iff.mp hm
    have kind : f.kind = .belongsTo target (some key) := (Option.some.inj describes.kind).symm
    have sameOwner : owner = f.id.model := Option.some.inj describes.owner
    obtain ⟨sameModel, g, ty, hg, plain⟩ := (keyValid_iff (hid ▸ hm)).mp
      (valid m memModel f (List.mem_of_getElem? hmem)) target key kind
    obtain ⟨d, memKey, describesKey⟩ := h.exists_declaration hg
    rw [describesKey.eq_field plain, h.numbered.id_of_field? hg, sameModel, hid,
      ← sameOwner] at memKey
    exact ⟨_, _, _, memKey⟩
  · intro keys m mem f hf
    apply (keyValid_iff (h.numbered.model?_eq_some_iff.mpr ⟨mem, rfl⟩)).mpr
    intro target key kind
    obtain ⟨found, hid⟩ := h.numbered.field?_of_mem mem hf
    obtain ⟨d, memField, describes⟩ := h.exists_declaration found
    have declared := (List.of_mem_zip memField).1
    rw [describes.eq_belongsTo kind] at declared
    obtain ⟨keyName, ty, nullable, memKey⟩ := keys _ _ _ _ declared
    obtain ⟨g, hg, rfl, describesKey⟩ := h.exists_field memKey
    have sameOwner : f.id.model = g.id.model := Option.some.inj describesKey.owner
    exact ⟨sameOwner ▸ hid, g, ty, hg, (Option.some.inj describesKey.kind).symm⟩

/-- The targets of all fields are found exactly if each declared target is a declared model. -/
theorem target_iff_targets (h : Records (ds.zip ids) draft) (length : ids.length = ds.length) :
    (∀ m ∈ draft.models, ∀ f ∈ m.fields, ∀ target, f.kind.target? = some target →
        ∃ m, draft.unchecked.model? target = some m) ↔
      ∀ d ∈ ds, ∀ target, d.target? = some target →
        ∃ name, (Declaration.model name, DeclaredId.model target) ∈ ds.zip ids := by
  constructor
  · intro found d declared target isTarget
    obtain ⟨owner, isOwner⟩ : ∃ owner, d.owner? = some owner := by
      cases d <;> simp [Declaration.owner?]
      cases isTarget
    obtain ⟨x, mem⟩ := h.exists_id
      (by rwa [List.map_fst_zip (Nat.le_of_eq length.symm)]) isOwner
    obtain ⟨f, hf, rfl, describes⟩ := h.exists_field mem
    obtain ⟨m, hm, hmem⟩ := Option.bind_eq_some_iff.mp hf
    rw [Declaration.target?, describes.kind, Option.bind_some] at isTarget
    obtain ⟨t, ht⟩ :=
      found m (Schema.mem_of_model? hm) f (List.mem_of_getElem? hmem) target isTarget
    exact ⟨t.name, h.model_mem_iff.mpr ⟨t, ht, rfl⟩⟩
  · intro targets m mem f hf target isTarget
    obtain ⟨found, _⟩ := h.numbered.field?_of_mem mem hf
    obtain ⟨d, memField, describes⟩ := h.exists_declaration found
    obtain ⟨name, memTarget⟩ := targets d (List.of_mem_zip memField).1 target
      (by rw [Declaration.target?, describes.kind, Option.bind_some, isTarget])
    obtain ⟨t, ht, _⟩ := h.model_mem_iff.mp memTarget
    exact ⟨t, ht⟩

end Records

/-- The first item with a name is the only one, if names are distinct. -/
theorem find?_eq_some_iff_mem {α : Type} {name : α → String} {items : List α}
    (distinct : (items.map name).Nodup) {s : String} {a : α} :
    items.find? (fun b => name b = s) = some a ↔ a ∈ items ∧ name a = s := by
  constructor
  · exact fun found => ⟨List.mem_of_find?_eq_some found, by simpa using List.find?_some found⟩
  · rintro ⟨mem, rfl⟩
    have found : (items.find? fun b => name b = name a).isSome := by simpa using ⟨a, mem, rfl⟩
    obtain ⟨b, hb⟩ := Option.isSome_iff_exists.mp found
    have same : name b = name a := by simpa using List.find?_some hb
    rw [hb, List.inj_on_of_nodup_map distinct (List.mem_of_find?_eq_some hb) mem same]

/-- A schema that is built answers look-ups with what was declared. -/
theorem Records.answers {ds : List Declaration} {ids : List DeclaredId} {schema : Schema}
    (h : Records (ds.zip ids) draft) (length : ids.length = ds.length)
    (built : draft.build = .ok schema) : schema.Answers ds ids := by
  obtain ⟨rfl, modelNames, checked⟩ := build_eq_ok_iff.mp built
  refine ⟨?model, ?noModel, ?field, ?noField, ?modelByName, ?fieldByName⟩
  case model =>
      intro name x mem
      obtain ⟨m, hm, same⟩ := h.model_mem_iff.mp mem
      have names := h.fieldNames x
      rw [List.map_fst_zip (Nat.le_of_eq length.symm), Draft.fieldNames, hm] at names
      exact ⟨m, hm, Schema.id_of_model? hm, (Declaration.model.inj same).symm, names⟩
  case noModel =>
      intro x hx
      apply Option.eq_none_iff_forall_ne_some.mpr
      intro m hm
      exact hx (List.of_mem_zip (h.model_mem_iff.mpr ⟨m, hm, rfl⟩)).2
  case field => exact fun d x mem => h.exists_field mem
  case noField =>
      intro x hx
      apply Option.eq_none_iff_forall_ne_some.mpr
      intro f hf
      obtain ⟨d, mem, _⟩ := h.exists_declaration hf
      exact hx (List.of_mem_zip mem).2
  case modelByName =>
      intro name m
      refine (find?_eq_some_iff_mem modelNames).trans ?_
      constructor
      · rintro ⟨mem, rfl⟩
        have hm := h.numbered.model?_eq_some_iff.mpr ⟨mem, rfl⟩
        exact ⟨m.id, h.model_mem_iff.mpr ⟨m, hm, rfl⟩, hm⟩
      · rintro ⟨x, mem, hm⟩
        obtain ⟨m', hm', same⟩ := h.model_mem_iff.mp mem
        cases hm.symm.trans hm'
        exact ⟨Schema.mem_of_model? hm, (Declaration.model.inj same).symm⟩
  case fieldByName =>
      intro x m hm name f
      obtain ⟨memModel, rfl⟩ := h.numbered.model?_eq_some_iff.mp hm
      refine (find?_eq_some_iff_mem (checked m memModel).1).trans ?_
      constructor
      · rintro ⟨mem, rfl⟩
        obtain ⟨hf, owner⟩ := h.numbered.field?_of_mem memModel mem
        obtain ⟨d, memField, describes⟩ := h.exists_declaration hf
        exact ⟨d, f.id, memField, owner ▸ describes.owner, describes.name.symm, hf⟩
      · rintro ⟨d, y, mem, owner, rfl, hf⟩
        obtain ⟨f', hf', rfl, describes⟩ := h.exists_field mem
        cases hf.symm.trans hf'
        obtain ⟨m', hm', hmem⟩ := Option.bind_eq_some_iff.mp hf
        rw [Option.some.inj (describes.owner.symm.trans owner)] at hm'
        cases hm.symm.trans hm'
        exact ⟨List.mem_of_getElem? hmem, describes.name⟩

/-- Declarations in order are all taken, under distinct identifiers. They make a schema exactly if
they fit each other, and the schema answers every look-up with what was declared. -/
theorem builds_iff_fit {ds : List Declaration} (order : Declaration.InOrder 0 ds) :
    ∃ draft ids, declareAll {} ds = some (draft, ids) ∧ ids.length = ds.length ∧ ids.Nodup ∧
      ((∃ schema, draft.build = .ok schema) ↔ Declaration.Fit ds ids) ∧
      ∀ schema, draft.build = .ok schema → schema.Answers ds ids := by
  obtain ⟨draft, ids, run⟩ := exists_declareAll numbered_empty order
  obtain ⟨records, length⟩ := records_of_declareAll run
  refine ⟨draft, ids, run, length, ?_, ?_, fun schema => records.answers length⟩
  · have distinct := records.nodup_ids
    rwa [List.map_snd_zip (Nat.le_of_eq length)] at distinct
  · have modelNames := records.modelNames
    rw [List.map_fst_zip (Nat.le_of_eq length.symm)] at modelNames
    simp only [build_eq_ok_iff, exists_eq_left, checkField_eq_ok_iff, forall_and,
      records.nodup_fieldNames_iff length, records.keyValid_iff_keys length,
      records.target_iff_targets length, modelNames]
    exact ⟨fun ⟨models, fields, keys, targets⟩ => ⟨models, fields, keys, targets⟩,
      fun fit => ⟨fit.modelNames, fit.fieldNames, fit.keys, fit.targets⟩⟩

/-- Orders with their customer, where the key and the model of the customer are declared after the
relation that refers to them. -/
def orders : List Declaration :=
  [.model "Order", .belongsTo ⟨0⟩ "customer" ⟨1⟩ (some ⟨⟨0⟩, 1⟩),
    .field ⟨0⟩ "customer_id" .i64 true, .model "Customer", .hasMany ⟨1⟩ "orders" ⟨0⟩]

theorem orders_fit : Declaration.InOrder 0 orders ∧ ∃ draft ids schema,
    declareAll {} orders = some (draft, ids) ∧ draft.build = .ok schema ∧
      Declaration.Fit orders ids ∧ schema.Answers orders ids := by
  have order : Declaration.InOrder 0 orders := by
    simp [orders, Declaration.InOrder, Declaration.owner?]
  have taken : declareAll {} orders = some _ := rfl
  obtain ⟨draft, ids, run, _, _, builds, answers⟩ := builds_iff_fit order
  cases taken.symm.trans run
  exact ⟨order, _, _, _, rfl, rfl, builds.mp ⟨_, rfl⟩, answers _ rfl⟩

end Draft

end RecordMapping
