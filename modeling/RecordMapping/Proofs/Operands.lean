import RecordMapping.Expr.Walk
import RecordMapping.Marker
import Mathlib.Logic.Basic

/-!
# Operands, parts and free parameters

The operands of an expression are the expressions right below it, each with the parameters that are
bound in it. From them come the parts of an expression, its free parameters, and induction over all
of its operands at once.

## Implementation notes

A constant has no operands, so nothing here looks into the functions and mappings that are values.
The mapping argument of a marker is an operand like every other one.
-/

namespace RecordMapping

/-- Items taken to results one after the other, with the state handed on. -/
inductive Threaded {α β σ : Type} (R : α → σ → β → σ → Prop) : List α → σ → List β → σ → Prop
  | nil {s} : Threaded R [] s [] s
  | cons {a as b bs s₁ s₂ s₃} (head : R a s₁ b s₂) (tail : Threaded R as s₂ bs s₃) :
      Threaded R (a :: as) s₁ (b :: bs) s₃

namespace Threaded

variable {α β σ : Type}

/-- What every step gives its result holds of all results of a threaded run. -/
theorem forall_right {R : α → σ → β → σ → Prop} {Q : β → Prop} {as : List α} {bs : List β}
    {s s' : σ} (h : Threaded R as s bs s') (each : ∀ a s b s', R a s b s' → Q b) :
    ∀ b ∈ bs, Q b := by
  induction h with
  | nil => simp
  | cons head _ ih => simpa using ⟨each _ _ _ _ head, ih⟩

/-- A relation between states that every step keeps up is kept up by a threaded run. -/
theorem states {R : α → σ → β → σ → Prop} {Q : σ → σ → Prop} (refl : ∀ s, Q s s)
    (trans : ∀ {s s' s''}, Q s s' → Q s' s'' → Q s s'') {as : List α} {bs : List β} {s s' : σ}
    (h : Threaded R as s bs s') (each : ∀ a s b s', R a s b s' → Q s s') : Q s s' := by
  induction h with
  | nil => exact refl _
  | cons head _ ih => exact trans (each _ _ _ _ head) ih

section Counters

variable {R : α → Nat → β → Nat → Prop} {as : List α} {bs : List β} {n n' : Nat}

/-- A counter that no step turns back is not turned back by a threaded run. -/
theorem le (h : Threaded R as n bs n') (each : ∀ a ∈ as, ∀ k b k', R a k b k' → k ≤ k') :
    n ≤ n' := by
  induction h with
  | nil => exact Nat.le_refl _
  | cons head _ ih =>
      exact Nat.le_trans (each _ (by simp) _ _ _ head) (ih fun a ha => each a (by simp [ha]))

/-- Every result comes from a step that stays within the counters of the whole run. -/
theorem exists_step (h : Threaded R as n bs n') (each : ∀ a ∈ as, ∀ k b k', R a k b k' → k ≤ k')
    {b : β} (hb : b ∈ bs) : ∃ a ∈ as, ∃ k k', R a k b k' ∧ n ≤ k ∧ k' ≤ n' := by
  induction h with
  | nil => cases hb
  | @cons a as b' bs n₁ n₂ n₃ head tail ih =>
      have hle := each a (by simp) _ _ _ head
      have rest : ∀ a ∈ as, ∀ k b k', R a k b k' → k ≤ k' := fun a ha => each a (by simp [ha])
      rcases List.mem_cons.mp hb with rfl | hb
      · exact ⟨a, by simp, _, _, head, Nat.le_refl _, tail.le rest⟩
      · obtain ⟨a', ha', k, k', hr, hk, hk'⟩ := ih rest hb
        exact ⟨a', by simp [ha'], k, k', hr, Nat.le_trans hle hk, hk'⟩

/-- Every item leads to a result, in a step that starts within the counters of the whole run. -/
theorem exists_result (h : Threaded R as n bs n') (each : ∀ a ∈ as, ∀ k b k', R a k b k' → k ≤ k')
    {a : α} (ha : a ∈ as) : ∃ b ∈ bs, ∃ k k', R a k b k' ∧ n ≤ k := by
  induction h with
  | nil => cases ha
  | @cons a' as b bs n₁ n₂ n₃ head tail ih =>
      rcases List.mem_cons.mp ha with rfl | hmem
      · exact ⟨b, by simp, _, _, head, Nat.le_refl _⟩
      · obtain ⟨b', hb', k, k', hr, hk⟩ := ih (fun a ha => each a (by simp [ha])) hmem
        have hle := each a' (by simp) _ _ _ head
        exact ⟨b', by simp [hb'], k, k', hr, Nat.le_trans hle hk⟩

/-- The items and the results of a threaded run correspond by position. -/
theorem at_position (h : Threaded R as n bs n') (each : ∀ a ∈ as, ∀ k b k', R a k b k' → k ≤ k')
    (i : Nat) : (as[i]? = none ∧ bs[i]? = none) ∨
      ∃ a b k k', as[i]? = some a ∧ bs[i]? = some b ∧ R a k b k' ∧ n ≤ k := by
  induction h generalizing i with
  | nil => simp
  | cons head _ ih =>
      cases i with
      | zero => exact .inr ⟨_, _, _, _, rfl, rfl, head, Nat.le_refl _⟩
      | succ i =>
          have le := each _ (.head _) _ _ _ head
          rcases ih (fun a ha => each a (.tail _ ha)) i with none | ⟨a, b, k, k', ha, hb, step, hk⟩
          · exact .inl none
          · exact .inr ⟨a, b, k, k', ha, hb, step, Nat.le_trans le hk⟩

/-- A threaded run has a counter before and after each position, none of which is turned back. -/
theorem exists_counters (h : Threaded R as n bs n')
    (each : ∀ a ∈ as, ∀ k b k', R a k b k' → k ≤ k') :
    ∃ counter : Nat → Nat, counter 0 = n ∧ (∀ i, counter i ≤ n') ∧
      (∀ i j, i ≤ j → counter i ≤ counter j) ∧
      ∀ i a, as[i]? = some a → ∃ b, bs[i]? = some b ∧ R a (counter i) b (counter (i + 1)) := by
  induction h with
  | @nil n => exact ⟨fun _ => n, by simp⟩
  | @cons a as b bs n₁ n₂ n₃ head tail ih =>
      have le := each a (by simp) _ _ _ head
      obtain ⟨later, rfl, within, mono, steps⟩ := ih fun a ha => each a (by simp [ha])
      refine ⟨fun i => if i = 0 then n₁ else later (i - 1), rfl, fun i => ?_, fun i j hij => ?_,
        fun i c hc => ?_⟩
      · have := within (i - 1)
        have := within 0
        dsimp only
        split <;> omega
      · have := mono 0 (j - 1) (by omega)
        have := mono (i - 1) (j - 1) (by omega)
        dsimp only
        split <;> split <;> omega
      · cases i with
        | zero =>
            cases hc
            exact ⟨b, rfl, head⟩
        | succ i =>
            obtain ⟨b', hb, step⟩ := steps i c hc
            exact ⟨b', hb, step⟩

end Counters

end Threaded

/-- An expression right below another one, with the parameters that are bound in it. -/
structure Operand where
  bound : List Param
  expr : Expr

namespace Expr

/-- The operands of an expression from left to right. -/
@[simp] def operands : Expr → List Operand
  | .arg _ | .const _ => []
  | .compare _ left right => [⟨[], left⟩, ⟨[], right⟩]
  | .call callee args => ⟨[], callee⟩ :: args.map (Operand.mk [])
  | .cond test yes no => [⟨[], test⟩, ⟨[], yes⟩, ⟨[], no⟩]
  | .field base _ => [⟨[], base⟩]
  | .includeEntity _ entity mapping _ => [⟨[], entity⟩, ⟨[], mapping⟩]
  | .includeVia _ parent selector mapping _ =>
      [⟨[], parent⟩, ⟨selector.params, selector.body⟩, ⟨[], mapping⟩]
  | .isNull _ operand => [⟨[], operand⟩]
  | .list items => items.map (Operand.mk [])
  | .map base lambda => [⟨[], base⟩, ⟨lambda.params, lambda.body⟩]
  | .record _ fields => fields.map (Operand.mk [])

/-- What the expression says on its own, with null in the place of each operand. -/
def head : Expr → Expr
  | .arg p => .arg p
  | .compare op _ _ => .compare op .null .null
  | .call _ args => .call .null (args.map fun _ => .null)
  | .cond _ _ _ => .cond .null .null .null
  | .field _ id => .field .null id
  | .includeEntity kind _ _ ty => .includeEntity kind .null .null ty
  | .includeVia kind _ _ _ ty => .includeVia kind .null ⟨[], .null⟩ .null ty
  | .isNull negate _ => .isNull negate .null
  | .list items => .list (items.map fun _ => .null)
  | .map _ _ => .map .null ⟨[], .null⟩
  | .record model fields => .record model (fields.map fun _ => .null)
  | .const v => .const v

theorem head_eq_arg_iff {e : Expr} {p : Param} : e.head = .arg p ↔ e = .arg p := by
  cases e <;> simp [head]

@[simp] theorem length_operands_head (e : Expr) : e.head.operands.length = e.operands.length := by
  cases e <;> simp [head]

/-- The mapping argument is an operand of a marker. -/
theorem mapping_mem_operands (m : Marker) : ⟨[], m.mapping⟩ ∈ m.toExpr.operands := by
  obtain ⟨kind, entity | ⟨parent, selector⟩, mapping, ty⟩ := m <;> simp [Marker.toExpr]

theorem sizeOf_operand_lt {e : Expr} {o : Operand} (h : o ∈ e.operands) :
    sizeOf o.expr < sizeOf e := by
  cases e with
  | call callee args =>
      simp only [operands, List.mem_cons, List.mem_map] at h
      rcases h with rfl | ⟨a, ha, rfl⟩
      · simp; omega
      · have := List.sizeOf_lt_of_mem ha
        simp; omega
  | list items =>
      obtain ⟨a, ha, rfl⟩ := List.mem_map.mp h
      have := List.sizeOf_lt_of_mem ha
      simp; omega
  | record model fields =>
      obtain ⟨a, ha, rfl⟩ := List.mem_map.mp h
      have := List.sizeOf_lt_of_mem ha
      simp; omega
  | includeVia kind parent selector mapping ty =>
      obtain ⟨params, body⟩ := selector
      simp only [operands, List.mem_cons, List.not_mem_nil, or_false] at h
      rcases h with rfl | rfl | rfl <;> simp <;> omega
  | map base lambda =>
      obtain ⟨params, body⟩ := lambda
      simp only [operands, List.mem_cons, List.not_mem_nil, or_false] at h
      rcases h with rfl | rfl <;> simp <;> omega
  | arg | const => simp at h
  | _ =>
      simp only [operands, List.mem_cons, List.not_mem_nil, or_false] at h
      rcases h with rfl | rfl | rfl <;> simp <;> omega

/-- What follows for an expression from all of its operands holds of every expression. -/
theorem operand_induction {P : Expr → Prop}
    (step : ∀ e : Expr, (∀ o ∈ e.operands, P o.expr) → P e) (e : Expr) : P e :=
  step e fun o _ => operand_induction step o.expr
termination_by sizeOf e
decreasing_by exact sizeOf_operand_lt ‹_›

/-- Induction on an expression, with one hypothesis for each of its operands. -/
@[induction_eliminator]
theorem induct {P : Expr → Prop}
    (arg : ∀ p, P (.arg p))
    (compare : ∀ op left right, P left → P right → P (.compare op left right))
    (call : ∀ callee args, P callee → (∀ a ∈ args, P a) → P (.call callee args))
    (cond : ∀ test yes no, P test → P yes → P no → P (.cond test yes no))
    (field : ∀ base id, P base → P (.field base id))
    (includeEntity : ∀ kind entity mapping ty, P entity → P mapping →
      P (.includeEntity kind entity mapping ty))
    (includeVia : ∀ kind parent params body mapping ty, P parent → P body → P mapping →
      P (.includeVia kind parent ⟨params, body⟩ mapping ty))
    (isNull : ∀ negate operand, P operand → P (.isNull negate operand))
    (list : ∀ items, (∀ e ∈ items, P e) → P (.list items))
    (map : ∀ base params body, P base → P body → P (.map base ⟨params, body⟩))
    (record : ∀ model fields, (∀ e ∈ fields, P e) → P (.record model fields))
    (const : ∀ v, P (.const v)) (e : Expr) : P e := by
  refine operand_induction (fun e h => ?_) e
  cases e with
  | arg p => exact arg p
  | compare op left right =>
      exact compare op left right (h ⟨[], left⟩ (by simp))
        (h ⟨[], right⟩ (by simp))
  | call callee args =>
      exact call callee args (h ⟨[], callee⟩ (by simp))
        fun a ha => h ⟨[], a⟩ (by simp [ha])
  | cond test yes no =>
      exact cond test yes no (h ⟨[], test⟩ (by simp))
        (h ⟨[], yes⟩ (by simp)) (h ⟨[], no⟩ (by simp))
  | field base id => exact field base id (h ⟨[], base⟩ (by simp))
  | includeEntity kind entity mapping ty =>
      exact includeEntity kind entity mapping ty (h ⟨[], entity⟩ (by simp))
        (h ⟨[], mapping⟩ (by simp))
  | includeVia kind parent selector mapping ty =>
      obtain ⟨params, body⟩ := selector
      exact includeVia kind parent params body mapping ty (h ⟨[], parent⟩ (by simp))
        (h ⟨params, body⟩ (by simp)) (h ⟨[], mapping⟩ (by simp))
  | isNull negate operand => exact isNull negate operand (h ⟨[], operand⟩ (by simp))
  | list items => exact list items fun a ha => h ⟨[], a⟩ (by simp [ha])
  | map base lambda =>
      obtain ⟨params, body⟩ := lambda
      exact map base params body (h ⟨[], base⟩ (by simp))
        (h ⟨params, body⟩ (by simp))
  | record model fields => exact record model fields fun a ha => h ⟨[], a⟩ (by simp [ha])
  | const v => exact const v

/-- An expression that stands somewhere in another one, or is all of it. -/
inductive Part (s : Expr) : Expr → Prop
  | self : Part s s
  | operand {e : Expr} {o : Operand} (ho : o ∈ e.operands) (h : Part s o.expr) : Part s e

/-- All parts of an expression have a property. -/
def Every (P : Expr → Prop) (e : Expr) : Prop := ∀ s : Expr, s.Part e → P s

theorem every_iff {P : Expr → Prop} {e : Expr} :
    e.Every P ↔ P e ∧ ∀ o ∈ e.operands, o.expr.Every P := by
  constructor
  · exact fun h => ⟨h e .self, fun o ho s hs => h s (.operand ho hs)⟩
  · rintro ⟨he, ho⟩ s hs
    cases hs with
    | self => exact he
    | operand hm hs => exact ho _ hm s hs

/-- A parameter that is referred to somewhere in an expression, outside of the operands that bind
it. -/
inductive Free (x : Nat) : Expr → Prop
  | arg {p : Param} (h : p.id = x) : Free x (.arg p)
  | operand {e : Expr} {o : Operand} (ho : o ∈ e.operands) (hb : ∀ p ∈ o.bound, p.id ≠ x)
      (h : Free x o.expr) : Free x e

variable {x : Nat}

theorem free_iff {e : Expr} :
    e.Free x ↔ (∃ p, e = .arg p ∧ p.id = x) ∨
      ∃ o ∈ e.operands, (∀ p ∈ o.bound, p.id ≠ x) ∧ o.expr.Free x := by
  constructor
  · rintro (h | ⟨ho, hb, h⟩)
    · exact .inl ⟨_, rfl, h⟩
    · exact .inr ⟨_, ho, hb, h⟩
  · rintro (⟨p, rfl, h⟩ | ⟨o, ho, hb, h⟩)
    · exact .arg h
    · exact .operand ho hb h

/-- What is free in an operand is bound in it or free in the expression. -/
theorem free_operand {e : Expr} {o : Operand} (ho : o ∈ e.operands) (hx : o.expr.Free x) :
    (∃ b ∈ o.bound, b.id = x) ∨ e.Free x := by
  by_cases hb : ∃ b ∈ o.bound, b.id = x
  · exact .inl hb
  · exact .inr (.operand ho (by simpa using hb) hx)

/-- A parameter that is referred to at a place, outside of the operands that bind it. The place is
the list of the positions of the operands to take. -/
inductive FreeAt (x : Nat) : List Nat → Expr → Prop
  | arg {p : Param} (h : p.id = x) : FreeAt x [] (.arg p)
  | operand {e : Expr} {o : Operand} {i : Nat} {place : List Nat} (ho : e.operands[i]? = some o)
      (hb : ∀ p ∈ o.bound, p.id ≠ x) (h : FreeAt x place o.expr) : FreeAt x (i :: place) e

/-- A parameter is free exactly if it is at some place. -/
theorem free_iff_exists_freeAt {e : Expr} : e.Free x ↔ ∃ place, e.FreeAt x place := by
  constructor
  · intro h
    induction h with
    | arg same => exact ⟨[], .arg same⟩
    | operand ho hb _ ih =>
        obtain ⟨place, h⟩ := ih
        obtain ⟨i, hi⟩ := List.mem_iff_getElem?.mp ho
        exact ⟨i :: place, .operand hi hb h⟩
  · rintro ⟨place, h⟩
    induction h with
    | arg same => exact .arg same
    | operand ho hb _ ih => exact .operand (List.mem_of_getElem? ho) hb ih

theorem FreeAt.free {e : Expr} {place : List Nat} (h : e.FreeAt x place) : e.Free x :=
  free_iff_exists_freeAt.mpr ⟨place, h⟩

@[simp] theorem free_arg {p : Param} : (Expr.arg p).Free x ↔ p.id = x := by
  rw [free_iff]
  simp

@[simp] theorem freeAt_arg {p : Param} {place : List Nat} :
    (arg p).FreeAt x place ↔ p.id = x ∧ place = [] := by
  constructor
  · rintro (same | ⟨ho, _, _⟩)
    · exact ⟨same, rfl⟩
    · simp at ho
  · rintro ⟨same, rfl⟩
    exact .arg same

@[simp] theorem free_compare {op : Comparison} {left right : Expr} :
    (compare op left right).Free x ↔ left.Free x ∨ right.Free x := by
  rw [free_iff]
  simp

@[simp] theorem free_call {callee : Expr} {args : List Expr} :
    (call callee args).Free x ↔ callee.Free x ∨ ∃ a ∈ args, a.Free x := by
  rw [free_iff]
  simp

@[simp] theorem free_cond {test yes no : Expr} :
    (cond test yes no).Free x ↔ test.Free x ∨ yes.Free x ∨ no.Free x := by
  rw [free_iff]
  simp

@[simp] theorem free_field {base : Expr} {id : FieldId} : (field base id).Free x ↔ base.Free x := by
  rw [free_iff]
  simp

@[simp] theorem free_includeEntity {kind : MarkerKind} {entity mapping : Expr} {ty : Ty} :
    (includeEntity kind entity mapping ty).Free x ↔ entity.Free x ∨ mapping.Free x := by
  rw [free_iff]
  simp

@[simp] theorem free_includeVia {kind : MarkerKind} {parent mapping : Expr} {selector : Func}
    {ty : Ty} :
    (includeVia kind parent selector mapping ty).Free x ↔
      parent.Free x ∨ ((∀ p ∈ selector.params, p.id ≠ x) ∧ selector.body.Free x) ∨
        mapping.Free x := by
  rw [free_iff]
  simp

@[simp] theorem free_isNull {negate : Bool} {operand : Expr} :
    (isNull negate operand).Free x ↔ operand.Free x := by
  rw [free_iff]
  simp

@[simp] theorem free_list {items : List Expr} : (list items).Free x ↔ ∃ e ∈ items, e.Free x := by
  rw [free_iff]
  simp

@[simp] theorem free_map {base : Expr} {lambda : Func} :
    (map base lambda).Free x ↔
      base.Free x ∨ ((∀ p ∈ lambda.params, p.id ≠ x) ∧ lambda.body.Free x) := by
  rw [free_iff]
  simp

@[simp] theorem free_record {model : ModelId} {fields : List Expr} :
    (record model fields).Free x ↔ ∃ e ∈ fields, e.Free x := by
  rw [free_iff]
  simp

@[simp] theorem free_const {v : Value} : ¬ (const v).Free x := by
  rw [free_iff]
  simp

end Expr

end RecordMapping
