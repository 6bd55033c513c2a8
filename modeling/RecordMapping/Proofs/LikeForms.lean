import RecordMapping.Proofs.InferredTypes
import RecordMapping.Proofs.LikeInstances

/-!
# Expressions that are alike, form by form

What is like an expression has the same form, but for a marker over a selector, and its operands are
like those of the expression. If names and types of parameters are the same on both sides and shapes
matter, both expressions evaluate alike. Their types are the same whether shapes matter or not.
-/

namespace RecordMapping

/-- The parameters have the same name and type. -/
structure Param.SameLabel (p q : Param) : Prop where
  name : q.name = p.name
  ty : q.ty = p.ty

namespace Param.SameLabel

theorem refl (p : Param) : p.SameLabel p := ⟨rfl, rfl⟩

/-- Where each identity is that of one parameter, it decides on name and type. -/
theorem of_id {param : Nat → Param} {p q : Param} (hp : p = param p.id) (hq : q = param q.id)
    (same : p.id = q.id) : p.SameLabel q := by
  rw [hp, hq, same]
  exact refl _

end Param.SameLabel

/-- The binders have the same name and type, and the identities of both are free to be bound. -/
structure Param.Matches (foreign : Nat → Prop) (b c : Param) : Prop extends b.SameLabel c where
  left : ¬ foreign b.id
  right : ¬ foreign c.id

/-- Binders of the same name and type may stand for each other if neither has a foreign identity,
and a reference has the name and the type of the binder that it refers to. -/
def Tolerance.labels (foreign : Nat → Prop) : Tolerance :=
  ⟨Param.Matches foreign, Param.SameLabel⟩

namespace Tolerance

variable {foreign : Nat → Prop} {n : Nat} (old : ∀ x, foreign x → x < n)
include old

theorem labels_right : (labels foreign).RenamesRight (labels foreign) n where
  binder h hk := ⟨⟨h.name, h.ty⟩, h.left, fun hf => Nat.not_lt.mpr hk (old _ hf)⟩
  refers := id
  refl := Param.SameLabel.refl

theorem labels_left : (labels foreign).RenamesLeft (labels foreign) n where
  binder h hk := ⟨⟨h.name, h.ty⟩, fun hf => Nat.not_lt.mpr hk (old _ hf), h.right⟩
  refers := id
  refl := Param.SameLabel.refl

end Tolerance

namespace Pairing

variable {foreign : Nat → Prop}

/-- What stands for a parameter is a parameter of the same name and type. -/
def Renames (E : Pairing) : Prop := ∀ p r, E p r → ∃ q, r = .arg q ∧ p.SameLabel q

theorem Renames.push {E : Pairing} (h : E.Renames) {b c : Param} (hb : b.SameLabel c) :
    (E.push (.labels foreign) b c).Renames := by
  intro p r hp
  unfold Pairing.push at hp
  split at hp
  · obtain ⟨pb, q, rfl, _, qc⟩ := hp
    refine ⟨q, rfl, ?_, ?_⟩
    · rw [← qc.name, hb.name, pb.name]
    · rw [← qc.ty, hb.ty, pb.ty]
  · exact h p r hp.1

theorem Renames.under {E : Pairing} (h : E.Renames) {bs cs : List Param}
    (binders : List.Forall₂ (Param.Matches foreign) bs cs) :
    (E.under (.labels foreign) bs cs).Renames := by
  induction binders generalizing E with
  | nil => exact h
  | cons hb _ ih => exact ih (h.push hb.toSameLabel)

/-- What stands for a parameter is a parameter of the same name and type, for which one way to look
parameters up finds what the other one finds. -/
def Finds {α : Type} (E : Pairing) (find' find : Nat → Option α) : Prop :=
  ∀ p r, E p r → ∃ q, r = .arg q ∧ p.SameLabel q ∧ find' q.id = find p.id

theorem Finds.renames {α : Type} {E : Pairing} {find' find : Nat → Option α}
    (h : E.Finds find' find) : E.Renames := by
  intro p r hp
  obtain ⟨q, rfl, label, _⟩ := h p r hp
  exact ⟨q, rfl, label⟩

/-- Below binders for which the same is found, the same is still found. -/
theorem Finds.push {α : Type} {E : Pairing} {find' find : Nat → Option α} (h : E.Finds find' find)
    {b c : Param} (hb : b.SameLabel c) {inner' inner : Nat → Option α}
    (here : inner' c.id = inner b.id) (outer' : ∀ x, x ≠ c.id → inner' x = find' x)
    (outer : ∀ x, x ≠ b.id → inner x = find x) :
    (E.push (.labels foreign) b c).Finds inner' inner := by
  intro p r hp
  unfold Pairing.push at hp
  split at hp
  · next same =>
    obtain ⟨pb, q, rfl, hq, qc⟩ := hp
    refine ⟨q, rfl, ⟨?_, ?_⟩, by rw [hq, same, here]⟩
    · rw [← qc.name, hb.name, pb.name]
    · rw [← qc.ty, hb.ty, pb.ty]
  · next other =>
    obtain ⟨q, rfl, label, found⟩ := h p r hp.1
    have hq : q.id ≠ c.id := by simpa using hp.2
    exact ⟨q, rfl, label, by rw [outer' _ hq, outer _ other, found]⟩

/-- What stands for a parameter is a parameter of the same name, type and value. -/
def Reads (E : Pairing) (τ σ : Scope) : Prop :=
  ∀ p r, E p r → ∃ q, r = .arg q ∧ p.SameLabel q ∧ τ.find? q.id = σ.find? p.id

theorem Reads.push {E : Pairing} {τ σ : Scope} (h : E.Reads τ σ) {b c : Param} (hb : b.SameLabel c)
    (v : Value) : (E.push (.labels foreign) b c).Reads (⟨[c], [v]⟩ :: τ) (⟨[b], [v]⟩ :: σ) := by
  have found : E.Finds τ.find? σ.find? := h
  refine found.push hb ?_ (fun x hx => ?_) fun x hx => ?_
  · rw [Scope.find?_push, Scope.find?_push, if_pos rfl, if_pos rfl]
  · rw [Scope.find?_push, if_neg hx]
  · rw [Scope.find?_push, if_neg hx]

theorem Reads.renames {E : Pairing} {τ σ : Scope} (h : E.Reads τ σ) : E.Renames := by
  have found : E.Finds τ.find? σ.find? := h
  exact found.renames

/-- Outside of every scope no parameter has a value. -/
theorem Renames.reads {E : Pairing} (h : E.Renames) : E.Reads [] [] := by
  intro p r hp
  obtain ⟨q, rfl, label⟩ := h p r hp
  exact ⟨q, rfl, label, rfl⟩

end Pairing

/-- The second operand is the first one up to the identities of binders. -/
structure Operand.Like (t : Tolerance) (shapes : Bool) (E : Pairing) (o o' : Operand) : Prop where
  binders : List.Forall₂ t.binder o.bound o'.bound
  expr : o.expr.Like t shapes (E.under t o.bound o'.bound) o'.expr

@[simp] theorem Operand.like_nil {t : Tolerance} {shapes : Bool} {E : Pairing} {e e' : Expr} :
    Operand.Like t shapes E ⟨[], e⟩ ⟨[], e'⟩ ↔ e.Like t shapes E e' :=
  ⟨fun h => h.expr, fun h => ⟨.nil, h⟩⟩

namespace Expr

variable {t : Tolerance} {shapes : Bool} {E : Pairing} {e' : Expr}

theorem like_arg {p : Param} : (arg p).Like t shapes E e' ↔ E p e' := by
  constructor
  · intro h
    cases h with
    | arg h => exact h
    | node inner => exact absurd rfl (inner p)
  · exact .arg

/-- What is like an expression other than a parameter or a marker has the same head, and its
operands are like those of the expression. -/
theorem like_unmarked {e : Expr} (inner : ∀ p, e ≠ .arg p) (unmarked : e.asMarker? = none) :
    e.Like t shapes E e' ↔ e'.head = e.head ∧
      List.Forall₂ (Operand.Like t shapes E) e.operands e'.operands := by
  have kept (i : Nat) : (shapes && e.mappingPosition? != some i) = shapes := by
    cases e with
    | includeEntity | includeVia => cases unmarked
    | _ => exact Bool.and_true shapes
  constructor
  · intro h
    cases h with
    | arg => exact absurd rfl (inner _)
    | node _ head binders operands =>
        have length : e.operands.length = e'.operands.length := by
          rw [← length_operands_head, ← head, length_operands_head]
        refine ⟨head, List.forall₂_iff_get.mpr ⟨length, fun i hi hi' => ?_⟩⟩
        have ho := List.getElem?_eq_getElem hi
        have ho' := List.getElem?_eq_getElem hi'
        exact ⟨binders ho ho', kept i ▸ operands ho ho'⟩
    | shape => cases unmarked
  · rintro ⟨head, operands⟩
    have each {i : Nat} {o o' : Operand} (ho : e.operands[i]? = some o)
        (ho' : e'.operands[i]? = some o') : Operand.Like t shapes E o o' := by
      obtain ⟨hi, rfl⟩ := List.getElem?_eq_some_iff.mp ho
      obtain ⟨hi', rfl⟩ := List.getElem?_eq_some_iff.mp ho'
      exact (List.forall₂_iff_get.mp operands).2 i hi hi'
    refine .node inner head (fun ho ho' => (each ho ho').binders) fun ho ho' => ?_
    rw [kept]
    exact (each ho ho').expr

theorem like_const {v : Value} : (const v).Like t shapes E e' ↔ e' = .const v := by
  refine (like_unmarked (e := .const v) nofun rfl).trans ⟨?_, ?_⟩
  · rintro ⟨head, _⟩
    cases e' <;> cases head
    rfl
  · rintro rfl
    exact ⟨rfl, .nil⟩

theorem like_compare {op : Comparison} {left right : Expr} :
    (compare op left right).Like t shapes E e' ↔ ∃ left' right', e' = .compare op left' right' ∧
      left.Like t shapes E left' ∧ right.Like t shapes E right' := by
  refine (like_unmarked (e := .compare op left right) nofun rfl).trans ⟨?_, ?_⟩
  · rintro ⟨head, operands⟩
    cases e' <;> cases head
    exact ⟨_, _, rfl, by simpa using operands⟩
  · rintro ⟨left', right', rfl, operands⟩
    exact ⟨rfl, by simpa using operands⟩

theorem like_call {callee : Expr} {args : List Expr} :
    (call callee args).Like t shapes E e' ↔ ∃ callee' args', e' = .call callee' args' ∧
      callee.Like t shapes E callee' ∧ List.Forall₂ (Like t shapes E) args args' := by
  refine (like_unmarked (e := .call callee args) nofun rfl).trans ⟨?_, ?_⟩
  · rintro ⟨head, operands⟩
    cases e' with
    | call callee' args' => exact ⟨_, _, rfl, by simpa using operands⟩
    | _ => cases head
  · rintro ⟨callee', args', rfl, operands⟩
    exact ⟨by simp [head, operands.2.length_eq], by simpa using operands⟩

theorem like_cond {test yes no : Expr} :
    (cond test yes no).Like t shapes E e' ↔ ∃ test' yes' no', e' = .cond test' yes' no' ∧
      test.Like t shapes E test' ∧ yes.Like t shapes E yes' ∧ no.Like t shapes E no' := by
  refine (like_unmarked (e := .cond test yes no) nofun rfl).trans ⟨?_, ?_⟩
  · rintro ⟨head, operands⟩
    cases e' <;> cases head
    exact ⟨_, _, _, rfl, by simpa using operands⟩
  · rintro ⟨test', yes', no', rfl, operands⟩
    exact ⟨rfl, by simpa using operands⟩

theorem like_field {base : Expr} {id : FieldId} :
    (field base id).Like t shapes E e' ↔ ∃ base', e' = .field base' id ∧
      base.Like t shapes E base' := by
  refine (like_unmarked (e := .field base id) nofun rfl).trans ⟨?_, ?_⟩
  · rintro ⟨head, operands⟩
    cases e' <;> cases head
    exact ⟨_, rfl, by simpa using operands⟩
  · rintro ⟨base', rfl, operands⟩
    exact ⟨rfl, by simpa using operands⟩

theorem like_isNull {negate : Bool} {operand : Expr} :
    (isNull negate operand).Like t shapes E e' ↔ ∃ operand', e' = .isNull negate operand' ∧
      operand.Like t shapes E operand' := by
  refine (like_unmarked (e := .isNull negate operand) nofun rfl).trans ⟨?_, ?_⟩
  · rintro ⟨head, operands⟩
    cases e' <;> cases head
    exact ⟨_, rfl, by simpa using operands⟩
  · rintro ⟨operand', rfl, operands⟩
    exact ⟨rfl, by simpa using operands⟩

theorem like_list {items : List Expr} : (list items).Like t shapes E e' ↔
    ∃ items', e' = .list items' ∧ List.Forall₂ (Like t shapes E) items items' := by
  refine (like_unmarked (e := .list items) nofun rfl).trans ⟨?_, ?_⟩
  · rintro ⟨head, operands⟩
    cases e' with
    | list items' => exact ⟨_, rfl, by simpa using operands⟩
    | _ => cases head
  · rintro ⟨items', rfl, operands⟩
    exact ⟨by simp [head, operands.length_eq], by simpa using operands⟩

theorem like_map {base : Expr} {lambda : Func} :
    (map base lambda).Like t shapes E e' ↔ ∃ base' lambda', e' = .map base' lambda' ∧
      base.Like t shapes E base' ∧
      Operand.Like t shapes E ⟨lambda.params, lambda.body⟩ ⟨lambda'.params, lambda'.body⟩ := by
  refine (like_unmarked (e := .map base lambda) nofun rfl).trans ⟨?_, ?_⟩
  · rintro ⟨head, operands⟩
    cases e' <;> cases head
    exact ⟨_, _, rfl, by simpa using operands⟩
  · rintro ⟨base', lambda', rfl, operands⟩
    exact ⟨rfl, by simpa using operands⟩

theorem like_record {model : ModelId} {fields : List Expr} :
    (record model fields).Like t shapes E e' ↔ ∃ fields', e' = .record model fields' ∧
      List.Forall₂ (Like t shapes E) fields fields' := by
  refine (like_unmarked (e := .record model fields) nofun rfl).trans ⟨?_, ?_⟩
  · rintro ⟨head, operands⟩
    cases e' with
    | record model' fields' =>
        obtain ⟨rfl, _⟩ : model' = model ∧ _ := by simpa [Expr.head] using head
        exact ⟨_, rfl, by simpa using operands⟩
    | _ => cases head
  · rintro ⟨fields', rfl, operands⟩
    exact ⟨by simp [head, operands.length_eq], by simpa using operands⟩

/-- What is like a marker over an entity is a marker over an entity. -/
theorem Like.exists_includeEntity {kind : MarkerKind} {entity mapping : Expr} {ty : Ty}
    (h : (includeEntity kind entity mapping ty).Like t shapes E e') :
    ∃ entity' mapping', e' = .includeEntity kind entity' mapping' ty ∧
      entity.Like t shapes E entity' ∧ mapping.Like t false E mapping' := by
  cases h with
  | node _ head _ operands =>
      have outside : (shapes && some 1 != some 0) = shapes := Bool.and_true shapes
      have inside : (shapes && some 1 != some 1) = false := Bool.and_false shapes
      cases e' <;> cases head
      exact ⟨_, _, rfl, outside ▸ operands (i := 0) rfl rfl, inside ▸ operands (i := 1) rfl rfl⟩

/-- What is like a marker over a selector is such a marker, or if shapes do not matter a marker over
the entity that the selector picks. -/
theorem Like.includeVia_cases {kind : MarkerKind} {parent mapping : Expr} {selector : Func}
    {ty : Ty} (h : (includeVia kind parent selector mapping ty).Like t shapes E e') :
    (∃ parent' selector' mapping', e' = .includeVia kind parent' selector' mapping' ty ∧
      parent.Like t shapes E parent' ∧
      Operand.Like t shapes E ⟨selector.params, selector.body⟩
        ⟨selector'.params, selector'.body⟩ ∧
      mapping.Like t false E mapping') ∨
    (shapes = true ∧ ∃ b entity' mapping' picked, selector.params = [b] ∧
      e' = .includeEntity kind entity' mapping' ty ∧
      (∀ r, picked r → parent.Like t true E r) ∧
      selector.body.Like t true (E.fill b picked) entity' ∧ mapping.Like t false E mapping') := by
  cases h with
  | node _ head binders operands =>
      have outside (i : Nat) (hi : i ≠ 2) : (shapes && some 2 != some i) = shapes := by
        simp [Ne.symm hi]
      have inside : (shapes && some 2 != some 2) = false := Bool.and_false shapes
      cases e' <;> cases head
      exact .inl ⟨_, _, _, rfl, outside 0 nofun ▸ operands (i := 0) rfl rfl,
        ⟨binders (i := 1) rfl rfl, outside 1 nofun ▸ operands (i := 1) rfl rfl⟩,
        inside ▸ operands (i := 2) rfl rfl⟩
  | shape hp he hm => exact .inr ⟨rfl, _, _, _, _, rfl, rfl, hp, he, hm⟩

/-- What holds of items that are alike holds of lists of them. -/
theorem forall₂_of_like {R : Expr → Expr → Prop} {es es' : List Expr}
    (h : List.Forall₂ (Like t shapes E) es es')
    (each : ∀ e ∈ es, ∀ e' ∈ es', e.Like t shapes E e' → R e e') : List.Forall₂ R es es' := by
  induction h with
  | nil => exact .nil
  | cons he _ ih =>
      refine .cons (each _ (.head _) _ (.head _) he) (ih fun e he e' he' => ?_)
      exact each e (.tail _ he) e' (.tail _ he')

end Expr

/-- If bodies that are alike have the same values where their binders have, they have them as
lambdas that take exactly one argument. -/
theorem Operand.Like.apply_eq {foreign : Nat → Prop} {E : Pairing} {τ σ : Scope}
    (reads : E.Reads τ σ) {call : Caller} {bs cs : List Param} {body body' : Expr}
    (h : Operand.Like (.labels foreign) false E ⟨bs, body⟩ ⟨cs, body'⟩)
    (same : ∀ {D : Pairing}, body.Like (.labels foreign) false D body' → ∀ {τ' σ' : Scope},
      D.Reads τ' σ' → body'.evalWith call τ' = body.evalWith call σ') (v : Value) :
    (do checkArity cs.length 1; body'.evalWith call (⟨cs, [v]⟩ :: τ)) =
      (do checkArity bs.length 1; body.evalWith call (⟨bs, [v]⟩ :: σ)) := by
  obtain ⟨binders, like⟩ := h
  cases binders with
  | nil => rfl
  | @cons b c bs cs hb rest =>
      cases rest with
      | nil =>
          have values := same like (reads.push hb.toSameLabel v)
          simp [values]
      | cons _ rest =>
          have length := rest.length_eq
          simp [checkArity, length, Outcome.fail]

namespace Expr

variable {foreign : Nat → Prop} {E : Pairing} {e e' : Expr}

/-- Expressions that are alike have the same value in scopes that give what corresponds the same
value. -/
theorem Like.evalWith_eq (h : e.Like (.labels foreign) false E e') {τ σ : Scope}
    (reads : E.Reads τ σ) (call : Caller) : e'.evalWith call τ = e.evalWith call σ := by
  have all {D : Pairing} {es es' : List Expr}
      (h : List.Forall₂ (Like (.labels foreign) false D) es es') {τ σ : Scope}
      (each : ∀ e ∈ es, ∀ e' ∈ es', e.Like (.labels foreign) false D e' →
        e'.evalWith call τ = e.evalWith call σ) :
      evalAllWith call es' τ = evalAllWith call es σ :=
    evalAllWith_rel Agreement.same (forall₂_of_like h each).flip
  induction e generalizing E e' τ σ with
  | arg p =>
      obtain ⟨q, rfl, label, value⟩ := reads p e' (like_arg.mp h)
      simp [evalWith, Scope.read, label.name, value]
  | const v =>
      obtain rfl := like_const.mp h
      rfl
  | compare op left right ihl ihr =>
      obtain ⟨left', right', rfl, hl, hr⟩ := like_compare.mp h
      simp only [evalWith, ihl hl reads, ihr hr reads]
  | call callee args ihf iha =>
      obtain ⟨callee', args', rfl, hf, ha⟩ := like_call.mp h
      have args := all ha fun a ha _ _ h => iha a ha h reads
      simp only [evalWith, ihf hf reads, args]
  | cond test yes no iht ihy ihn =>
      obtain ⟨test', yes', no', rfl, ht, hy, hn⟩ := like_cond.mp h
      simp only [evalWith, iht ht reads, ihy hy reads, ihn hn reads]
  | field base id ih =>
      obtain ⟨base', rfl, hb⟩ := like_field.mp h
      simp only [evalWith, ih hb reads]
  | isNull negate operand ih =>
      obtain ⟨operand', rfl, ho⟩ := like_isNull.mp h
      simp only [evalWith, ih ho reads]
  | list items ih =>
      obtain ⟨items', rfl, hi⟩ := like_list.mp h
      have items := all hi fun a ha _ _ h => ih a ha h reads
      simp only [evalWith, items]
  | map base params body ihl ihb =>
      obtain ⟨base', ⟨params', body'⟩, rfl, hl, ho⟩ := like_map.mp h
      have applied := ho.apply_eq reads ihb
      simp only [evalWith, ihl hl reads, applied]
  | record model fields ih =>
      obtain ⟨fields', rfl, hf⟩ := like_record.mp h
      have fields := all hf fun a ha _ _ h => ih a ha h reads
      simp only [evalWith, fields]
  | includeEntity kind entity mapping ty ihe ihm =>
      obtain ⟨entity', mapping', rfl, he, hm⟩ := h.exists_includeEntity
      simp only [evalWith, ihe he reads, ihm hm reads.renames.reads]
  | includeVia kind parent params body mapping ty ihp ihb ihm =>
      obtain ⟨parent', ⟨params', body'⟩, mapping', rfl, hp, ho, hm⟩ :=
        h.includeVia_cases.resolve_right (by simp)
      have picked (v : Value) := ho.apply_eq reads ihb v
      have parent := ihp hp reads
      have mapping := ihm hm reads.renames.reads
      simp only [evalWith, parent, mapping]
      refine bind_congr fun v => ?_
      simp only [← bind_assoc, picked]

/-- What is like an expression and neither a parameter nor a marker has the same head. -/
theorem Like.head_eq {shapes : Bool} (h : e.Like (.labels foreign) shapes E e')
    (renames : E.Renames) (inner : ∀ p, e' ≠ .arg p) (unmarked : e'.asMarker? = none) :
    e'.head = e.head := by
  cases h with
  | arg hp =>
      obtain ⟨q, rfl, _⟩ := renames _ _ hp
      exact absurd rfl (inner q)
  | node _ head => exact head
  | shape => cases unmarked

/-- Expressions that are alike have the same type. -/
theorem Like.infer_eq {shapes : Bool} (h : e.Like (.labels foreign) shapes E e')
    (renames : E.Renames) (schema : Schema) : e'.infer schema = e.infer schema := by
  induction e generalizing E e' with
  | arg p =>
      obtain ⟨q, rfl, label⟩ := renames p e' (like_arg.mp h)
      exact label.ty
  | const v =>
      obtain rfl := like_const.mp h
      rfl
  | compare op left right =>
      obtain ⟨left', right', rfl, _⟩ := like_compare.mp h
      rfl
  | call callee args =>
      obtain ⟨callee', args', rfl, hf, _⟩ := like_call.mp h
      by_cases known : ∃ v, callee = .const v
      · obtain ⟨v, rfl⟩ := known
        obtain rfl := like_const.mp hf
        exact (infer_call (.const v) args' args).1
      · have unknown : ∀ v, callee' ≠ .const v := by
          rintro v rfl
          have head := hf.head_eq renames nofun rfl
          cases callee <;> cases head
          exact known ⟨v, rfl⟩
        rw [(infer_call callee args []).2 fun v hv => known ⟨v, hv⟩,
          (infer_call callee' args' []).2 unknown]
  | cond test yes no iht ihy ihn =>
      obtain ⟨test', yes', no', rfl, _, hy, hn⟩ := like_cond.mp h
      simp only [infer, ihy hy renames, ihn hn renames]
  | field base id =>
      obtain ⟨base', rfl, _⟩ := like_field.mp h
      rfl
  | isNull negate operand =>
      obtain ⟨operand', rfl, _⟩ := like_isNull.mp h
      rfl
  | list items ih =>
      obtain ⟨items', rfl, hi⟩ := like_list.mp h
      cases hi with
      | nil => rfl
      | cons head _ => simp only [infer, ih _ (List.mem_cons_self ..) head renames]
  | map base params body ihl ihb =>
      obtain ⟨base', ⟨params', body'⟩, rfl, _, ho⟩ := like_map.mp h
      simp only [infer, ihb ho.expr (renames.under ho.binders)]
  | record model fields =>
      obtain ⟨fields', rfl, _⟩ := like_record.mp h
      rfl
  | includeEntity kind entity mapping ty =>
      obtain ⟨entity', mapping', rfl, _⟩ := h.exists_includeEntity
      rfl
  | includeVia kind parent params body mapping ty =>
      rcases h.includeVia_cases with
        ⟨parent', ⟨params', body'⟩, mapping', rfl, _⟩ | ⟨_, b, entity', mapping', picked, _, rfl, _⟩
      · rfl
      · rfl

end Expr

end RecordMapping
