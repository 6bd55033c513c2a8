import RecordMapping.Proofs.Validation

/-!
# Keys of relations

A relation may be null unless its key is a field that may not. This is settled when the relation is
declared, so it goes by the fields of the model that have been declared by then: a key that is
declared later counts as one that may be null.
-/

namespace RecordMapping

namespace Draft

variable {draft : Draft}

theorem keyNullable_eq_false_iff {key : Option FieldId} : draft.keyNullable key = false ↔
    ∃ k g, key = some k ∧ draft.unchecked.field? k = some g ∧ g.nullable = false := by
  unfold keyNullable
  cases key with
  | none => simp
  | some k => cases hk : draft.unchecked.field? k <;> simp [hk]

/-- A field is found at every position before one that is found. -/
theorem exists_field?_of_lt {x k : FieldId} {f : Field} (hf : draft.unchecked.field? x = some f)
    (owner : k.model = x.model) (before : k.index < x.index) :
    ∃ g, draft.unchecked.field? k = some g := by
  obtain ⟨m, hm, hx⟩ := Option.bind_eq_some_iff.mp hf
  have inside := (List.getElem?_eq_some_iff.mp hx).1
  have hk := List.getElem?_eq_getElem (Nat.lt_trans before inside)
  exact ⟨_, by rw [Schema.field?, owner, hm, Option.bind_some, hk]⟩

/-- The fields before one that is found stay as they are when further declarations are taken. -/
theorem Takes.field?_of_lt {draft' : Draft} {d : Declaration} {id : DeclaredId}
    (h : draft.Numbered) (step : draft.Takes d draft' id) {x k : FieldId} {f : Field}
    (hf : draft.unchecked.field? x = some f) (owner : k.model = x.model)
    (before : k.index < x.index) : draft'.unchecked.field? k = draft.unchecked.field? k := by
  obtain ⟨g, hg⟩ := exists_field?_of_lt hf owner before
  rw [hg, step.field?_of_some h hg]

/-- The fields of a model that are found are those before the next one. -/
theorem index_lt_of_field? {model : Model} (found : draft.unchecked.model? model.id = some model)
    {k : FieldId} (owner : k.model = model.id) {g : Field}
    (hk : draft.unchecked.field? k = some g) : k.index < model.fields.length := by
  obtain ⟨m, hm, hg⟩ := Option.bind_eq_some_iff.mp hk
  rw [owner] at hm
  cases found.symm.trans hm
  exact (List.getElem?_eq_some_iff.mp hg).1

/-- A new relation may not be null exactly if its key is a field in front of it that may not be. -/
theorem nullable_eq_false_iff_of_next {model : Model}
    (found : draft.unchecked.model? model.id = some model) {f : Field}
    (next : f.id = ⟨model.id, model.fields.length⟩) {key : Option FieldId}
    (isNullable : f.nullable = draft.keyNullable key)
    (owner : ∀ k, key = some k → k.model = f.id.model) :
    f.nullable = false ↔ ∃ k g, key = some k ∧ k.index < f.id.index ∧
      (draft.insert f).unchecked.field? k = some g ∧ g.nullable = false := by
  rw [isNullable, keyNullable_eq_false_iff]
  refine exists_congr fun k => exists_congr fun g => and_congr_right fun isKey => ?_
  have sameModel : k.model = model.id := by rw [owner k isKey, next]
  have other (before : k.index < f.id.index) : k ≠ f.id := by
    rintro rfl
    exact Nat.lt_irrefl _ before
  rw [field?_insert found next]
  constructor
  · rintro ⟨hk, notNull⟩
    have before : k.index < f.id.index := by
      rw [next]
      exact index_lt_of_field? found sameModel hk
    exact ⟨before, by rw [if_neg (other before), hk], notNull⟩
  · rintro ⟨before, hk, notNull⟩
    rw [if_neg (other before)] at hk
    exact ⟨hk, notNull⟩

/-- A relation may not be null exactly if its key is a field of the same model that was declared
before it and may not be null. -/
theorem Records.nullable_eq_false_iff {entries : List (Declaration × DeclaredId)}
    (h : Records entries draft) {x : FieldId} {f : Field}
    (hf : draft.unchecked.field? x = some f) {target : ModelId} {key : Option FieldId}
    (kind : f.kind = .belongsTo target key) (owner : ∀ k, key = some k → k.model = x.model) :
    f.nullable = false ↔ ∃ k g, key = some k ∧ k.index < x.index ∧
      draft.unchecked.field? k = some g ∧ g.nullable = false := by
  induction h with
  | nil => simp [unchecked, Schema.field?, Schema.model?] at hf
  | @snoc entries draft draft' d id records step ih =>
      -- A relation that was there before keeps the fields in front of it.
      have kept (hf : draft.unchecked.field? x = some f) : f.nullable = false ↔
          ∃ k g, key = some k ∧ k.index < x.index ∧
            draft'.unchecked.field? k = some g ∧ g.nullable = false := by
        rw [ih hf]
        refine exists_congr fun k => exists_congr fun g => and_congr_right fun isKey =>
          and_congr_right fun before => ?_
        rw [step.field?_of_lt records.numbered hf (owner k isKey) before]
      cases step with
      | model name => exact kept (by rwa [field?_append records.numbered] at hf)
      | @field d model field found next describes isNullable =>
          rw [field?_insert found next] at hf
          split at hf
          · next hx =>
            subst hx
            cases hf
            exact nullable_eq_false_iff_of_next found next (isNullable target key kind) owner
          · exact kept hf

/-- In a schema that is built, a relation may not be null exactly if its key was declared before it
and may not be null. -/
theorem nullable_iff_key_before {ds : List Declaration} {ids : List DeclaredId} {schema : Schema}
    (run : declareAll {} ds = some (draft, ids)) (built : draft.build = .ok schema) {x : FieldId}
    {f : Field} (hf : schema.field? x = some f) {target : ModelId} {key : Option FieldId}
    (kind : f.kind = .belongsTo target key) :
    f.nullable = false ↔ ∃ k g, key = some k ∧ k.index < x.index ∧
      schema.field? k = some g ∧ g.nullable = false := by
  obtain ⟨rfl, -, checked⟩ := build_eq_ok_iff.mp built
  obtain ⟨records, -⟩ := records_of_declareAll run
  refine records.nullable_eq_false_iff hf kind ?_
  rintro k rfl
  obtain ⟨m, hm, hmem⟩ := Option.bind_eq_some_iff.mp hf
  obtain ⟨mem, sameModel⟩ := records.numbered.model?_eq_some_iff.mp hm
  have valid := (checkField_eq_ok_iff.mp ((checked m mem).2 f (List.mem_of_getElem? hmem))).1
  rw [← sameModel]
  exact ((keyValid_iff (sameModel.symm ▸ hm)).mp valid target k kind).1

/-- Invoices, where the key of the customer is declared before the relation, and the key of the
payer after it. -/
def invoices : List Declaration :=
  [.model "Invoice", .field ⟨0⟩ "customer_id" .i64 false,
    .belongsTo ⟨0⟩ "customer" ⟨1⟩ (some ⟨⟨0⟩, 0⟩), .belongsTo ⟨0⟩ "payer" ⟨1⟩ (some ⟨⟨0⟩, 3⟩),
    .field ⟨0⟩ "payer_id" .i64 false, .model "Customer"]

theorem invoices_nullable : ∃ draft ids schema customer payer,
    declareAll {} invoices = some (draft, ids) ∧ draft.build = .ok schema ∧
      schema.field? ⟨⟨0⟩, 1⟩ = some customer ∧ schema.field? ⟨⟨0⟩, 2⟩ = some payer ∧
      customer.nullable = false ∧ payer.nullable ≠ false := by
  refine ⟨_, _, _, _, _, rfl, rfl, rfl, rfl, ?customer, ?payer⟩
  case customer =>
      apply (@nullable_iff_key_before _ invoices _ _ rfl rfl ⟨⟨0⟩, 1⟩ _ rfl _ _ rfl).mpr
      exact ⟨⟨⟨0⟩, 0⟩, _, rfl, by decide, rfl, rfl⟩
  case payer =>
      intro notNull
      obtain ⟨k, g, isKey, before, _⟩ :=
        (@nullable_iff_key_before _ invoices _ _ rfl rfl ⟨⟨0⟩, 2⟩ _ rfl _ _ rfl).mp notNull
      cases isKey
      exact absurd before (by decide)

/-- A relation whose key may not be null may be null itself, if the key is declared after it. -/
theorem nullable_of_later_key : ∃ draft ids schema payer key,
    declareAll {} invoices = some (draft, ids) ∧ draft.build = .ok schema ∧
      schema.field? ⟨⟨0⟩, 2⟩ = some payer ∧ payer.kind = .belongsTo ⟨1⟩ (some ⟨⟨0⟩, 3⟩) ∧
      schema.field? ⟨⟨0⟩, 3⟩ = some key ∧ key.nullable = false ∧ payer.nullable = true :=
  ⟨_, _, _, _, _, rfl, rfl, rfl, rfl, rfl, rfl, rfl⟩

end Draft

end RecordMapping
