import RecordMapping.Schema.Draft

/-!
# What a draft records

A draft numbers the models in the order of their declaration, and the fields of a model as well. So
no identifier is given out twice, and looking one up finds what was declared under it.

## Implementation notes

`Draft.Takes` says once what a declaration adds to a draft, for models and for fields of every kind.
What holds of a whole run of declarations is shown by induction on `Draft.Records`, which grows at
the end of the run, with the identifiers that were given out.
-/

namespace RecordMapping

namespace Declaration

/-- The declared name. -/
def name : Declaration → String
  | .model name | .field _ name _ _ | .belongsTo _ name _ _ | .hasOne _ name _
  | .hasMany _ name _ => name

/-- The model that a field is declared on. -/
def owner? : Declaration → Option ModelId
  | .model _ => none
  | .field owner _ _ _ | .belongsTo owner _ _ _ | .hasOne owner _ _
  | .hasMany owner _ _ => some owner

/-- What a declared field holds. -/
def kind? : Declaration → Option FieldKind
  | .model _ => none
  | .field _ _ ty _ => some (.primitive ty)
  | .belongsTo _ _ target key => some (.belongsTo target key)
  | .hasOne _ _ target => some (.hasOne target)
  | .hasMany _ _ target => some (.hasMany target)

/-- Whether a declared field may be null, where the declaration alone settles that. -/
def nullable? : Declaration → Option Bool
  | .field _ _ _ nullable => some nullable
  | .hasOne _ _ _ => some true
  | .hasMany _ _ _ => some false
  | .model _ | .belongsTo _ _ _ _ => none

/-- The model that a declared relation leads to. -/
def target? (d : Declaration) : Option ModelId := d.kind?.bind FieldKind.target?

/-- The declared name, if it is one of a field of the given model, or of a model if none is
given. -/
def nameIn? (owner : Option ModelId) (d : Declaration) : Option String :=
  if d.owner? = owner then some d.name else none

/-- The field is the declared one. -/
structure Describes (d : Declaration) (field : Field) : Prop where
  owner : d.owner? = some field.id.model
  name : field.name = d.name
  kind : d.kind? = some field.kind
  nullable : ∀ b, d.nullable? = some b → field.nullable = b

/-- A field of plain data is declared as such. -/
theorem Describes.eq_field {d : Declaration} {field : Field} (h : d.Describes field) {ty : Ty}
    (kind : field.kind = .primitive ty) :
    d = .field field.id.model field.name ty field.nullable := by
  obtain ⟨owner, name, isKind, nullable⟩ := h
  cases d <;> simp [kind, kind?, owner?, Declaration.name, nullable?] at owner name isKind nullable
  simp [owner, name, isKind, nullable]

/-- A relation with its key on its own side is declared as such. -/
theorem Describes.eq_belongsTo {d : Declaration} {field : Field} (h : d.Describes field)
    {target : ModelId} {key : Option FieldId} (kind : field.kind = .belongsTo target key) :
    d = .belongsTo field.id.model field.name target key := by
  obtain ⟨owner, name, isKind, -⟩ := h
  cases d <;> simp [kind, kind?, owner?, Declaration.name] at owner name isKind
  simp [owner, name, isKind]

/-- Fields are declared on models that were declared before them, where the first ones, as many as
given, have been declared already. -/
def InOrder : Nat → List Declaration → Prop
  | _, [] => True
  | count, d :: rest =>
      (∀ owner, d.owner? = some owner → owner.number < count) ∧
        InOrder (if d.owner? = none then count + 1 else count) rest

end Declaration

namespace Draft

variable {draft draft' : Draft} {d : Declaration} {id : DeclaredId}

/-- The draft with one more field at the end of its model. -/
def insert (draft : Draft) (field : Field) : Draft :=
  ⟨draft.models.map fun m =>
    if m.id = field.id.model then { m with fields := m.fields ++ [field] } else m⟩

/-- What taking a declaration adds to a draft, and the identifier that is given out for it. -/
inductive Takes (draft : Draft) : Declaration → Draft → DeclaredId → Prop
  | model (name : String) : Takes draft (.model name)
      ⟨draft.models ++ [⟨⟨draft.models.length⟩, name, []⟩]⟩ (.model ⟨draft.models.length⟩)
  | field {d : Declaration} {model : Model} {field : Field}
      (found : draft.unchecked.model? model.id = some model)
      (next : field.id = ⟨model.id, model.fields.length⟩) (describes : d.Describes field)
      (key : ∀ target key, field.kind = .belongsTo target key →
        field.nullable = draft.keyNullable key) :
      Takes draft d (draft.insert field) (.field field.id)

theorem addField_eq_some {owner : ModelId} {name : String} {kind : FieldKind} {nullable : Bool}
    {fid : FieldId} (h : draft.addField owner name kind nullable = some (draft', fid)) :
    ∃ model, draft.unchecked.model? owner = some model ∧ fid = ⟨owner, model.fields.length⟩ ∧
      draft' = draft.insert ⟨fid, name, kind, nullable⟩ := by
  obtain ⟨model, found, h⟩ := Option.map_eq_some_iff.mp h
  cases h
  exact ⟨model, found, rfl, rfl⟩

theorem takes_of_declare (h : draft.declare d = some (draft', id)) : draft.Takes d draft' id := by
  -- All kinds of fields are added in the same way.
  have field {owner : ModelId} {kind : FieldKind} {nullable : Bool}
      (isOwner : d.owner? = some owner) (isKind : d.kind? = some kind)
      (settled : ∀ b, d.nullable? = some b → nullable = b)
      (key : ∀ target key, kind = .belongsTo target key → nullable = draft.keyNullable key)
      (h : (draft.addField owner d.name kind nullable).map (fun added =>
        (added.1, DeclaredId.field added.2)) = some (draft', id)) : draft.Takes d draft' id := by
    obtain ⟨⟨_, fid⟩, added, h⟩ := Option.map_eq_some_iff.mp h
    cases h
    obtain ⟨model, found, rfl, rfl⟩ := addField_eq_some added
    obtain rfl := Schema.id_of_model? found
    exact .field found rfl ⟨isOwner, rfl, isKind, settled⟩ key
  cases d with
  | model name =>
      cases h
      exact .model name
  | field | belongsTo | hasOne | hasMany =>
      exact field rfl rfl (by simp [Declaration.nullable?]) (by simp) h

/-- A declaration is taken if it adds a model, or a field to a model that has been declared. -/
theorem exists_declare (h : ∀ owner, d.owner? = some owner →
    ∃ model, draft.unchecked.model? owner = some model) :
    ∃ draft' id, draft.declare d = some (draft', id) := by
  cases d with
  | model name => exact ⟨_, _, rfl⟩
  | field owner | belongsTo owner | hasOne owner | hasMany owner =>
      obtain ⟨model, found⟩ := h owner rfl
      simp [declare, addField, found]

/-- Models are numbered by their position in the draft, and fields by their position in the
model. -/
structure Numbered (draft : Draft) : Prop where
  models : ∀ (i : Nat) (m : Model), draft.models[i]? = some m → m.id = ⟨i⟩
  fields : ∀ m ∈ draft.models, ∀ (j : Nat) (f : Field), m.fields[j]? = some f → f.id = ⟨m.id, j⟩

namespace Numbered

theorem model?_eq_getElem? (h : draft.Numbered) (x : ModelId) :
    draft.unchecked.model? x = draft.models[x.number]? := by
  obtain ⟨i⟩ := x
  cases hm : draft.models[i]? with
  | none =>
      apply List.find?_eq_none.mpr
      intro m mem hid
      obtain ⟨j, hj⟩ := List.mem_iff_getElem?.mp mem
      have same : (⟨j⟩ : ModelId) = ⟨i⟩ := by rw [← h.models j m hj]; simpa using hid
      cases same
      exact absurd (hj.symm.trans hm) nofun
  | some m =>
      have hid : m.id = ⟨i⟩ := h.models i m hm
      obtain ⟨hlt, hm⟩ := List.getElem?_eq_some_iff.mp hm
      refine List.find?_eq_some_iff_getElem.mpr ⟨by simpa using hid, i, hlt, hm, ?_⟩
      intro j hj
      have other := h.models j _ (List.getElem?_eq_getElem (Nat.lt_trans hj hlt))
      simpa [unchecked, other] using Nat.ne_of_lt hj

theorem model?_eq_some_iff (h : draft.Numbered) {x : ModelId} {m : Model} :
    draft.unchecked.model? x = some m ↔ m ∈ draft.models ∧ m.id = x := by
  constructor
  · exact fun found => ⟨Schema.mem_of_model? found, Schema.id_of_model? found⟩
  · rintro ⟨mem, rfl⟩
    obtain ⟨i, hi⟩ := List.mem_iff_getElem?.mp mem
    rw [h.model?_eq_getElem?, h.models i m hi, hi]

/-- The identifiers of models are the numbers below the number of models. -/
theorem exists_model?_iff (h : draft.Numbered) {x : ModelId} :
    (∃ m, draft.unchecked.model? x = some m) ↔ x.number < draft.models.length := by
  rw [h.model?_eq_getElem?, ← Option.isSome_iff_exists]
  simp

theorem id_of_field? (h : draft.Numbered) {x : FieldId} {f : Field}
    (found : draft.unchecked.field? x = some f) : f.id = x := by
  obtain ⟨m, hm, hf⟩ := Option.bind_eq_some_iff.mp found
  obtain ⟨mem, hid⟩ := h.model?_eq_some_iff.mp hm
  rw [h.fields m mem x.index f hf, hid]

/-- A field of a model is found under its identifier. -/
theorem field?_of_mem (h : draft.Numbered) {m : Model} (mem : m ∈ draft.models) {f : Field}
    (hf : f ∈ m.fields) : draft.unchecked.field? f.id = some f ∧ f.id.model = m.id := by
  obtain ⟨j, hj⟩ := List.mem_iff_getElem?.mp hf
  have hid := h.fields m mem j f hj
  have found := h.model?_eq_some_iff.mpr ⟨mem, rfl⟩
  exact ⟨by simp [Schema.field?, hid, found, hj], by rw [hid]⟩

end Numbered

theorem numbered_empty : Numbered {} where
  models := by simp
  fields := by simp

section LookUps

variable {model : Model} {field : Field}

/-- A new model is found under the next number, and every other one as before. -/
theorem model?_append (h : draft.Numbered) (name : String) (x : ModelId) :
    (unchecked ⟨draft.models ++ [⟨⟨draft.models.length⟩, name, []⟩]⟩).model? x =
      if x = ⟨draft.models.length⟩ then some ⟨x, name, []⟩ else draft.unchecked.model? x := by
  rw [Schema.model?, unchecked, List.find?_append]
  change (draft.unchecked.model? x).or _ = _
  split
  · next hx =>
    subst hx
    simp [h.model?_eq_getElem?]
  · next hx => simp [Ne.symm hx]

/-- A new model has no fields. -/
theorem field?_append (h : draft.Numbered) (name : String) (x : FieldId) :
    (unchecked ⟨draft.models ++ [⟨⟨draft.models.length⟩, name, []⟩]⟩).field? x =
      draft.unchecked.field? x := by
  rw [Schema.field?, model?_append h, Schema.field?]
  split
  · next hx => simp [hx, h.model?_eq_getElem?]
  · rfl

/-- The model of a new field has it at its end, and every other model is found as before. -/
theorem model?_insert (draft : Draft) (field : Field) (x : ModelId) :
    (draft.insert field).unchecked.model? x = (draft.unchecked.model? x).map fun m =>
      if x = field.id.model then { m with fields := m.fields ++ [field] } else m := by
  have sameId (m : Model) : (if m.id = field.id.model then
      { m with fields := m.fields ++ [field] } else m).id = m.id := by
    split <;> rfl
  rw [Schema.model?, unchecked, insert, List.find?_map]
  simp only [Function.comp_def, sameId]
  change (draft.unchecked.model? x).map _ = _
  cases hm : draft.unchecked.model? x with
  | none => rfl
  | some m => simp [Schema.id_of_model? hm]

/-- A new field is found under its identifier, and every other one as before. -/
theorem field?_insert (found : draft.unchecked.model? model.id = some model)
    (next : field.id = ⟨model.id, model.fields.length⟩) (x : FieldId) :
    (draft.insert field).unchecked.field? x =
      if x = field.id then some field else draft.unchecked.field? x := by
  obtain ⟨owner, j⟩ := x
  rw [Schema.field?, model?_insert, Schema.field?, next]
  by_cases hx : owner = model.id
  · subst hx
    rcases Nat.lt_trichotomy j model.fields.length with hj | rfl | hj
    · simp [found, Nat.ne_of_lt hj, List.getElem?_append_left hj]
    · simp [found]
    · have past : (model.fields ++ [field]).length ≤ j := by
        rw [List.length_append]
        exact hj
      simp [found, Nat.ne_of_gt hj, List.getElem?_eq_none past, Nat.le_of_lt hj]
  · simp [hx]

/-- The identifier of a new field has not been given out before. -/
theorem field?_of_next (found : draft.unchecked.model? model.id = some model)
    (next : field.id = ⟨model.id, model.fields.length⟩) :
    draft.unchecked.field? field.id = none := by
  simp [Schema.field?, next, found]

end LookUps

/-- An item of a list with one more item at its end. -/
theorem getElem?_concat_eq_some {α : Type} {items : List α} {a b : α} {i : Nat}
    (h : (items ++ [a])[i]? = some b) : items[i]? = some b ∨ i = items.length ∧ b = a := by
  rw [List.getElem?_append] at h
  split at h
  · exact .inl h
  · next hi =>
    obtain ⟨hi', rfl⟩ := List.getElem?_eq_some_iff.mp h
    simp at hi' ⊢
    omega

theorem filterMap_singleton {α β : Type} (f : α → Option β) (a : α) :
    [a].filterMap f = (f a).toList := by
  cases h : f a <;> simp [h]

/-- Taking a declaration keeps the numbering. -/
theorem Numbered.takes (h : draft.Numbered) (step : draft.Takes d draft' id) :
    draft'.Numbered := by
  cases step with
  | model name =>
      constructor
      · intro i m hm
        rcases getElem?_concat_eq_some hm with hm | ⟨rfl, rfl⟩
        · exact h.models i m hm
        · rfl
      · intro m mem j f hf
        rcases List.mem_append.mp mem with mem | mem
        · exact h.fields m mem j f hf
        · obtain rfl := List.mem_singleton.mp mem
          simp at hf
  | @field d model field found next describes key =>
      constructor
      · intro i m hm
        obtain ⟨m₀, hm₀, rfl⟩ := by simpa [insert, List.getElem?_map] using hm
        split <;> exact h.models i m₀ hm₀
      · intro m mem j f hf
        obtain ⟨m₀, mem₀, rfl⟩ := List.mem_map.mp mem
        by_cases hid : m₀.id = field.id.model
        · have same := h.model?_eq_some_iff.mpr ⟨mem₀, hid.trans (congrArg FieldId.model next)⟩
          obtain rfl := Option.some.inj (found.symm.trans same)
          rw [if_pos hid] at hf ⊢
          rcases getElem?_concat_eq_some hf with hf | ⟨rfl, rfl⟩
          · exact h.fields model mem₀ j f hf
          · exact next
        · rw [if_neg hid] at hf ⊢
          exact h.fields m₀ mem₀ j f hf

/-- The draft was made by taking declarations in order; each one is listed with the identifier that
it got. -/
inductive Records : List (Declaration × DeclaredId) → Draft → Prop
  | nil : Records [] {}
  | snoc {entries : List (Declaration × DeclaredId)} {draft draft' : Draft} {d : Declaration}
      {id : DeclaredId} (h : Records entries draft) (step : draft.Takes d draft' id) :
      Records (entries ++ [(d, id)]) draft'

theorem Records.declareAll {entries : List (Declaration × DeclaredId)} {ds : List Declaration}
    {ids : List DeclaredId} (h : Records entries draft)
    (run : draft.declareAll ds = some (draft', ids)) :
    Records (entries ++ ds.zip ids) draft' ∧ ids.length = ds.length := by
  induction ds generalizing entries draft ids with
  | nil =>
      cases run
      simpa using h
  | cons d ds ih =>
      obtain ⟨⟨draft₁, id⟩, step, run⟩ := Option.bind_eq_some_iff.mp run
      obtain ⟨⟨draft', ids⟩, rest, ⟨⟩⟩ := Option.map_eq_some_iff.mp run
      obtain ⟨records, length⟩ := ih (h.snoc (takes_of_declare step)) rest
      rw [List.append_assoc] at records
      exact ⟨records, by simp [length]⟩

/-- A run of declarations from the start records them. -/
theorem records_of_declareAll {ds : List Declaration} {ids : List DeclaredId}
    (run : declareAll {} ds = some (draft, ids)) :
    Records (ds.zip ids) draft ∧ ids.length = ds.length :=
  Records.nil.declareAll run

theorem Takes.length_models (step : draft.Takes d draft' id) : draft'.models.length =
    if d.owner? = none then draft.models.length + 1 else draft.models.length := by
  cases step with
  | model name => simp [Declaration.owner?]
  | field found next describes key => simp [insert, describes.owner]

/-- Declarations in order are all taken. -/
theorem exists_declareAll {ds : List Declaration} (h : draft.Numbered)
    (order : Declaration.InOrder draft.models.length ds) :
    ∃ draft' ids, draft.declareAll ds = some (draft', ids) := by
  induction ds generalizing draft with
  | nil => exact ⟨draft, [], rfl⟩
  | cons d ds ih =>
      obtain ⟨owner, order⟩ := order
      obtain ⟨draft₁, id, first⟩ := exists_declare fun x hx => h.exists_model?_iff.mpr (owner x hx)
      have step := takes_of_declare first
      rw [← step.length_models] at order
      obtain ⟨draft', ids, rest⟩ := ih (h.takes step) order
      exact ⟨draft', id :: ids, by simp [declareAll, first, rest]⟩

/-- The names of the fields of a model, in order. -/
def fieldNames (draft : Draft) (x : ModelId) : List String :=
  ((draft.unchecked.model? x).map fun m => m.fields.map Field.name).getD []

theorem Takes.modelNames (step : draft.Takes d draft' id) : draft'.models.map Model.name =
    draft.models.map Model.name ++ (d.nameIn? none).toList := by
  cases step with
  | model name => simp [Declaration.nameIn?, Declaration.owner?, Declaration.name]
  | field found next describes key =>
      simp only [insert, List.map_map, Declaration.nameIn?, describes.owner]
      simp only [reduceCtorEq, if_false, Option.toList_none, List.append_nil]
      apply List.map_congr_left
      intro m _
      simp only [Function.comp_apply]
      split <;> rfl

theorem Takes.fieldNames (h : draft.Numbered) (step : draft.Takes d draft' id) (x : ModelId) :
    draft'.fieldNames x = draft.fieldNames x ++ (d.nameIn? (some x)).toList := by
  cases step with
  | model name =>
      rw [Draft.fieldNames, model?_append h, Draft.fieldNames]
      split
      · next hx =>
        subst hx
        simp [h.model?_eq_getElem?, Declaration.nameIn?, Declaration.owner?]
      · simp [Declaration.nameIn?, Declaration.owner?]
  | @field d model field found next describes key =>
      rw [Draft.fieldNames, model?_insert, Draft.fieldNames, Declaration.nameIn?, describes.owner]
      by_cases hx : x = field.id.model
      · have found : draft.unchecked.model? x = some model := by rw [hx, next, found]
        simp [found, ← hx, describes.name]
      · simp [hx, Ne.symm hx]

/-- A field is found as before when further declarations are taken. -/
theorem Takes.field?_of_some (h : draft.Numbered) (step : draft.Takes d draft' id) {x : FieldId}
    {f : Field} (hf : draft.unchecked.field? x = some f) : draft'.unchecked.field? x = some f := by
  cases step with
  | model name => rw [field?_append h, hf]
  | field found next =>
      rw [field?_insert found next, if_neg, hf]
      rintro rfl
      rw [field?_of_next found next] at hf
      cases hf

namespace Records

variable {entries : List (Declaration × DeclaredId)}

theorem numbered (h : Records entries draft) : draft.Numbered := by
  induction h with
  | nil => exact numbered_empty
  | snoc _ step ih => exact ih.takes step

/-- The models have the names that were declared for them, in order. -/
theorem modelNames (h : Records entries draft) : draft.models.map Model.name =
    (entries.map Prod.fst).filterMap (Declaration.nameIn? none) := by
  induction h with
  | nil => rfl
  | snoc _ step ih =>
      rw [step.modelNames, ih, List.map_append, List.filterMap_append, List.map_singleton,
        filterMap_singleton]

/-- The fields of a model have the names that were declared for them, in order. -/
theorem fieldNames (h : Records entries draft) (x : ModelId) : draft.fieldNames x =
    (entries.map Prod.fst).filterMap (Declaration.nameIn? (some x)) := by
  induction h with
  | nil => rfl
  | snoc records step ih =>
      rw [step.fieldNames records.numbered, ih, List.map_append, List.filterMap_append,
        List.map_singleton, filterMap_singleton]

/-- A model identifier was given out for a model, which is found under it. -/
theorem model_mem_iff (h : Records entries draft) {d : Declaration} {x : ModelId} :
    (d, DeclaredId.model x) ∈ entries ↔
      ∃ m, draft.unchecked.model? x = some m ∧ d = .model m.name := by
  induction h with
  | nil => simp [unchecked, Schema.model?]
  | @snoc entries draft draft' d' id records step ih =>
      rw [List.mem_append, ih, List.mem_singleton]
      cases step with
      | model name =>
          have fresh := records.numbered.model?_eq_getElem? ⟨draft.models.length⟩
          rw [model?_append records.numbered]
          by_cases hx : x = ⟨draft.models.length⟩
          · simp [hx, fresh]
          · simp [hx]
      | @field d' model field found next describes key =>
          rw [model?_insert]
          constructor
          · rintro (⟨m, hm, rfl⟩ | same)
            · refine ⟨_, by rw [hm]; rfl, ?_⟩
              split <;> rfl
            · simp at same
          · rintro ⟨m', hm', rfl⟩
            obtain ⟨m, hm, rfl⟩ := Option.map_eq_some_iff.mp hm'
            refine .inl ⟨m, hm, ?_⟩
            split <;> rfl

/-- A field identifier was given out for a field, which is found under it. -/
theorem exists_field (h : Records entries draft) {d : Declaration} {x : FieldId}
    (mem : (d, DeclaredId.field x) ∈ entries) :
    ∃ f, draft.unchecked.field? x = some f ∧ f.id = x ∧ d.Describes f := by
  induction h with
  | nil => cases mem
  | snoc records step ih =>
      rcases List.mem_append.mp mem with mem | mem
      · obtain ⟨f, hf, hid, describes⟩ := ih mem
        exact ⟨f, step.field?_of_some records.numbered hf, hid, describes⟩
      · cases List.mem_singleton.mp mem
        cases step with
        | field found next describes =>
            exact ⟨_, by rw [field?_insert found next, if_pos rfl], rfl, describes⟩

/-- A field identifier was given out for every declared field. -/
theorem exists_id (h : Records entries draft) {d : Declaration}
    (declared : d ∈ entries.map Prod.fst) {owner : ModelId} (isOwner : d.owner? = some owner) :
    ∃ x, (d, DeclaredId.field x) ∈ entries := by
  obtain ⟨⟨_, id⟩, mem, rfl⟩ := List.mem_map.mp declared
  cases id with
  | model x =>
      obtain ⟨m, _, rfl⟩ := h.model_mem_iff.mp mem
      cases isOwner
  | field x => exact ⟨x, mem⟩

theorem exists_entry (h : Records entries draft) {x : FieldId} {f : Field}
    (hf : draft.unchecked.field? x = some f) : ∃ d, (d, DeclaredId.field x) ∈ entries := by
  induction h with
  | nil => simp [unchecked, Schema.field?, Schema.model?] at hf
  | @snoc entries draft draft' d' id records step ih =>
      cases step with
      | model name =>
          rw [field?_append records.numbered] at hf
          obtain ⟨d, mem⟩ := ih hf
          exact ⟨d, List.mem_append_left _ mem⟩
      | field found next =>
          rw [field?_insert found next] at hf
          split at hf
          · next hx => exact ⟨d', by simp [hx]⟩
          · obtain ⟨d, mem⟩ := ih hf
            exact ⟨d, List.mem_append_left _ mem⟩

/-- Every field that is found was declared under its identifier. -/
theorem exists_declaration (h : Records entries draft) {x : FieldId} {f : Field}
    (hf : draft.unchecked.field? x = some f) :
    ∃ d, (d, DeclaredId.field x) ∈ entries ∧ d.Describes f := by
  obtain ⟨d, mem⟩ := h.exists_entry hf
  obtain ⟨f', hf', _, describes⟩ := h.exists_field mem
  cases hf.symm.trans hf'
  exact ⟨d, mem, describes⟩

/-- No identifier is given out twice. -/
theorem nodup_ids (h : Records entries draft) : (entries.map Prod.snd).Nodup := by
  induction h with
  | nil => exact List.nodup_nil
  | @snoc entries draft draft' d' id records step ih =>
      rw [List.map_append, List.nodup_append]
      refine ⟨ih, by simp, ?_⟩
      intro old hold new hnew
      obtain ⟨⟨d, _⟩, mem, rfl⟩ := List.mem_map.mp hold
      obtain rfl : new = id := by simpa using hnew
      rintro rfl
      cases step with
      | model name =>
          obtain ⟨m, hm, _⟩ := records.model_mem_iff.mp mem
          simp [records.numbered.model?_eq_getElem?] at hm
      | field found next =>
          obtain ⟨f, hf, _⟩ := records.exists_field mem
          rw [field?_of_next found next] at hf
          cases hf

end Records

end Draft

end RecordMapping
