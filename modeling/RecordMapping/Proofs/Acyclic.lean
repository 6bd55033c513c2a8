import RecordMapping.Proofs.Constants
import RecordMapping.Proofs.Nesting
import RecordMapping.Proofs.References

/-!
# References lead to smaller functions

Since a run makes up no functions, what a mapping argument refers to is part of the argument, at
whatever depth and through whatever calls it is found. So a function is larger than every function
that it references, and following references ends. What holds of everything that is come to in this
way is shown by induction along the references.
-/

namespace RecordMapping

/-- The functions and mappings that the value is or holds are smaller than the bound. -/
inductive Value.Light (n : Nat) : Value → Prop
  | small {v : Value} (h : sizeOf v < n) : Light n v
  | bool (b : Bool) : Light n (.bool b)
  | null : Light n .null
  | record {fields : List Value} (h : ∀ v ∈ fields, Light n v) : Light n (.record fields)
  | list {items : List Value} (h : ∀ v ∈ items, Light n v) : Light n (.list items)

namespace Value.Light

variable {n : Nat}

theorem sizeOf_func_lt {label : Nat} {f : Func} (h : (func label f).Light n) :
    sizeOf (func label f) < n := by
  cases h with
  | small h => exact h

theorem sizeOf_mapping_lt {m : Mapping} (h : (mapping m).Light n) : sizeOf (mapping m) < n := by
  cases h with
  | small h => exact h

theorem fields {fields : List Value} (h : (Value.record fields).Light n) :
    ∀ v ∈ fields, v.Light n := by
  cases h with
  | record h => exact h
  | small h =>
      intro v hv
      have := List.sizeOf_lt_of_mem hv
      exact .small (by simp at h; omega)

theorem items {items : List Value} (h : (Value.list items).Light n) : ∀ v ∈ items, v.Light n := by
  cases h with
  | list h => exact h
  | small h =>
      intro v hv
      have := List.sizeOf_lt_of_mem hv
      exact .small (by simp at h; omega)

end Value.Light

theorem Expr.Part.sizeOf_le {s e : Expr} (h : s.Part e) : sizeOf s ≤ sizeOf e := by
  induction h with
  | self => exact Nat.le_refl _
  | operand ho _ ih => exact Nat.le_trans ih (Nat.le_of_lt (sizeOf_operand_lt ho))

/-- The constants of an expression are light for every bound that is above its size. -/
theorem Expr.constants_light {e : Expr} {n : Nat} (h : sizeOf e ≤ n) :
    e.Constants (Value.Light n) := by
  rintro s hs v rfl
  have := hs.sizeOf_le
  exact .small (by simp at this; omega)

theorem Code.Constant.sizeOf_lt {v : Value} {code : Code} (h : code.Constant v) :
    sizeOf v < sizeOf code := by
  induction h with
  | const => simp
  | operand ho _ ih => exact Nat.lt_trans ih (sizeOf_operand_lt ho)
  | @target entity c _ ih =>
      obtain ⟨arity, body⟩ := c
      simp at ih ⊢
      omega

theorem Value.hereditary_light (n : Nat) : Hereditary (Light n) where
  bool := .bool
  null := .null
  record := ⟨Light.fields, .record⟩
  list := ⟨Light.items, .list⟩
  func {label f} h := by
    have lt := h.sizeOf_func_lt
    have le : sizeOf f.body < sizeOf (Value.func label f) := Holds.func.sizeOf_body_lt
    exact Expr.constants_light (by omega)
  mapping {m} h := by
    have lt := h.sizeOf_mapping_lt
    have le : sizeOf m.func.body < sizeOf (Value.mapping m) := (Holds.mapping rfl).sizeOf_body_lt
    refine ⟨Expr.constants_light (by omega), fun c hc v hv => ?_⟩
    obtain ⟨label, f, compiled⟩ := m
    obtain ⟨arity, code⟩ := c
    subst hc
    have lt_code : sizeOf v < sizeOf code := hv.sizeOf_lt
    exact .small (by simp at lt; omega)

namespace Expr

/-- A mapping argument refers to a function that is smaller than itself. -/
theorem RefersTo.sizeOf_lt {mapping : Expr} {kind : MarkerKind} {t : Target}
    (h : mapping.RefersTo kind t) : sizeOf t.function.body < sizeOf mapping := by
  obtain ⟨v, light, hv⟩ := h.exists_value (Value.hereditary_light (sizeOf mapping))
    (constants_light (Nat.le_refl _))
  calc sizeOf t.function.body < sizeOf v := (Target.holds_of_ofValue hv).sizeOf_body_lt
    _ ≤ sizeOf mapping := by
      cases kind <;> cases v <;> simp [Target.ofValue, Outcome.fail] at hv
      · exact Nat.le_of_lt light.sizeOf_func_lt
      · exact Nat.le_of_lt light.sizeOf_mapping_lt
      · exact Nat.le_of_lt light.sizeOf_mapping_lt

theorem LivePart.sizeOf_le {s e : Expr} (h : s.LivePart e) : sizeOf s ≤ sizeOf e := by
  induction h with
  | self => exact Nat.le_refl _
  | operand ho _ ih => exact Nat.le_trans ih (Nat.le_of_lt (sizeOf_operand_lt (live_subset ho)))

theorem Marks.sizeOf_mapping_lt {e : Expr} {m : Marker} (h : e.Marks m) :
    sizeOf m.mapping < sizeOf e := by
  have le := LivePart.sizeOf_le h
  obtain ⟨kind, entity | ⟨parent, selector⟩, mapping, ty⟩ := m <;> simp [Marker.toExpr] at le <;>
    simp <;> omega

/-- Every function that an expression references is smaller than the expression. -/
theorem References.sizeOf_lt {e : Expr} {t : Target} (h : e.References t) :
    sizeOf t.function.body < sizeOf e := by
  induction h with
  | here hm ht => exact Nat.lt_trans ht.sizeOf_lt hm.sizeOf_mapping_lt
  | there hm ht _ ih => exact Nat.lt_trans ih (Nat.lt_trans ht.sizeOf_lt hm.sizeOf_mapping_lt)

/-- What an expression references is referenced by every expression in which it is live. -/
theorem References.operand {e : Expr} {o : Operand} {t : Target} (ho : o ∈ e.live)
    (h : o.expr.References t) : e.References t := by
  cases h with
  | here hm ht => exact .here (.operand ho hm) ht
  | there hm ht h => exact .there (.operand ho hm) ht h

/-- All live parts of the expression and of the functions that it references have a property. -/
def Along (P : Expr → Prop) (e : Expr) : Prop :=
  e.EveryLive P ∧ ∀ t, e.References t → t.function.body.EveryLive P

section Along

variable {P : Expr → Prop} {e : Expr}

theorem Along.self (h : e.Along P) : P e := h.1 e .self

theorem Along.operand (h : e.Along P) {o : Operand} (ho : o ∈ e.live) : o.expr.Along P :=
  ⟨fun s hs => h.1 s (.operand ho hs), fun t ht => h.2 t (ht.operand ho)⟩

theorem Along.target {m : Marker} (h : m.toExpr.Along P) {t : Target}
    (ht : m.mapping.RefersTo m.kind t) : t.function.body.Along P :=
  ⟨h.2 t (.here .self ht), fun t' ht' => h.2 t' (.there .self ht ht')⟩

theorem along_iff : e.Along P ↔ P e ∧ (∀ o ∈ e.live, o.expr.Along P) ∧
    ∀ m t, e.asMarker? = some m → m.mapping.RefersTo m.kind t → t.function.body.Along P := by
  constructor
  · refine fun h => ⟨h.self, fun o ho => h.operand ho, fun m t hm ht => ?_⟩
    obtain rfl := (Marker.asMarker?_eq_some_iff e m).mp hm
    exact h.target ht
  · rintro ⟨self, operand, target⟩
    refine ⟨everyLive_iff.mpr ⟨self, fun o ho => (operand o ho).1⟩, fun t ht => ?_⟩
    cases ht with
    | here hm ht =>
        rcases marks_iff.mp hm with hm | ⟨o, ho, hm⟩
        · exact (target _ t hm ht).1
        · exact (operand o ho).2 t (.here hm ht)
    | there hm ht h =>
        rcases marks_iff.mp hm with hm | ⟨o, ho, hm⟩
        · exact (target _ _ hm ht).2 t h
        · exact (operand o ho).2 t (.there hm ht h)

end Along

/-- What follows for an expression from its live operands, and for a marker from what it refers to
as well, holds of every expression. -/
theorem reference_induction {P : Expr → Prop}
    (step : ∀ e : Expr, (∀ o ∈ e.live, P o.expr) →
      (∀ (m : Marker) (t : Target), e = m.toExpr → m.mapping.RefersTo m.kind t →
        P t.function.body) → P e) (e : Expr) : P e :=
  step e (fun o _ => reference_induction step o.expr)
    fun _ t _ _ => reference_induction step t.function.body
termination_by sizeOf e
decreasing_by
  · exact sizeOf_operand_lt (live_subset ‹_›)
  · next m he ht =>
    subst he
    exact (References.here .self ht).sizeOf_lt

end Expr

end RecordMapping
