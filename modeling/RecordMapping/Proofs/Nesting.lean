import RecordMapping.Proofs.Operands
import RecordMapping.Proofs.Returns

/-!
# Functions nested in expressions

Functions and mappings are values, so an expression may hold further expressions in its constants.
What stands within an expression is one of its parts, or stands within the body of a function that
one of its constants holds, and so on.

## Implementation notes

A mapping holds its function. The code that it may carry is not an expression and is not searched.
-/

namespace RecordMapping

/-- A function that a value is, or that one of its items or fields holds. -/
inductive Value.Holds (F : Func) : Value → Prop
  | func {label : Nat} : Holds F (.func label F)
  | mapping {m : Mapping} (h : m.func = F) : Holds F (.mapping m)
  | record {fields : List Value} {v : Value} (hv : v ∈ fields) (h : Holds F v) :
      Holds F (.record fields)
  | list {items : List Value} {v : Value} (hv : v ∈ items) (h : Holds F v) : Holds F (.list items)

theorem Value.Holds.sizeOf_body_lt {F : Func} {v : Value} (h : v.Holds F) :
    sizeOf F.body < sizeOf v := by
  induction h with
  | func =>
      obtain ⟨params, body⟩ := F
      simp
      omega
  | @mapping m h =>
      rcases m with ⟨label, ⟨params, body⟩, compiled⟩
      cases h
      simp
      omega
  | record hv _ ih | list hv _ ih =>
      have := List.sizeOf_lt_of_mem hv
      simp
      omega

namespace Expr

/-- An expression that stands somewhere in another one or in a function nested in it. -/
inductive Within (s : Expr) : Expr → Prop
  | self : Within s s
  | operand {e : Expr} {o : Operand} (ho : o ∈ e.operands) (h : Within s o.expr) : Within s e
  | held {v : Value} {F : Func} (hF : v.Holds F) (h : Within s F.body) : Within s (.const v)

/-- A function that a constant of the expression holds, or a constant of a function nested in it. -/
def Nests (F : Func) (e : Expr) : Prop := ∃ v : Value, v.Holds F ∧ (Expr.const v).Within e

/-- Everything within the expression has a property. -/
def Throughout (P : Expr → Prop) (e : Expr) : Prop := ∀ s : Expr, s.Within e → P s

theorem Within.trans {s t e : Expr} (h : s.Within t) (h' : t.Within e) : s.Within e := by
  induction h' with
  | self => exact h
  | operand ho _ ih => exact .operand ho ih
  | held hF _ ih => exact .held hF ih

theorem Nests.body_within {F : Func} {e : Expr} (h : e.Nests F) : F.body.Within e := by
  obtain ⟨v, hF, hv⟩ := h
  exact (Within.held hF .self).trans hv

theorem throughout_iff {P : Expr → Prop} {e : Expr} :
    e.Throughout P ↔ P e ∧ (∀ o ∈ e.operands, o.expr.Throughout P) ∧
      ∀ v F, e = .const v → v.Holds F → F.body.Throughout P := by
  constructor
  · intro h
    refine ⟨h e .self, fun o ho s hs => h s (.operand ho hs), ?_⟩
    rintro v F rfl hF s hs
    exact h s (.held hF hs)
  · rintro ⟨he, ho, hheld⟩ s hs
    cases hs with
    | self => exact he
    | operand hm hs => exact ho _ hm s hs
    | held hF hs => exact hheld _ _ rfl hF s hs

theorem Throughout.within {P : Expr → Prop} {s e : Expr} (h : e.Throughout P) (hs : s.Within e) :
    s.Throughout P :=
  fun _ ht => h _ (ht.trans hs)

theorem Throughout.operand {P : Expr → Prop} {e : Expr} (h : e.Throughout P) {o : Operand}
    (ho : o ∈ e.operands) : o.expr.Throughout P :=
  h.within (.operand ho .self)

theorem Nests.operand {F : Func} {e : Expr} {o : Operand} (ho : o ∈ e.operands)
    (h : o.expr.Nests F) : e.Nests F := by
  obtain ⟨v, hF, hv⟩ := h
  exact ⟨v, hF, .operand ho hv⟩

end Expr

/-- The mapping argument of a marker reads no parameter, evaluating it ends, and what it refers to
is nested in it. -/
structure Marker.SelfContained (m : Marker) : Prop where
  closed : ∀ x, ¬ m.mapping.Free x
  ends : ∃ depth, (m.mapping.evalClosed depth).Ended
  nested : ∀ t, m.mapping.RefersTo m.kind t → m.mapping.Nests t.function

namespace Target

theorem ended_ofValue (kind : MarkerKind) (v : Value) : (ofValue kind v).Ended := by
  cases kind <;> cases v <;> simp [ofValue, Outcome.Ended, Outcome.fail]

theorem ended_resolve {argument : Outcome Value} (h : argument.Ended) (kind : MarkerKind) :
    (resolve kind argument).Ended :=
  (h.context _).bind fun v _ => ended_ofValue kind v

/-- A value that is a target holds the function of the target. -/
theorem holds_of_ofValue {kind : MarkerKind} {v : Value} {t : Target}
    (h : ofValue kind v = .ok t) : v.Holds t.function := by
  cases kind <;> cases v <;> simp [ofValue, Outcome.fail] at h <;> subst h
  · exact .func
  · exact .mapping rfl
  · exact .mapping rfl

end Target

/-- A marker with a constant for its mapping argument is self-contained. -/
theorem Marker.selfContained_of_const {m : Marker} {v : Value} (h : m.mapping = .const v) :
    m.SelfContained where
  closed x := by simp [h]
  ends := ⟨0, .inl ⟨v, by rw [h]; rfl⟩⟩
  nested t ht := by
    obtain ⟨d, hd⟩ := ht
    rw [h] at hd ⊢
    exact ⟨v, Target.holds_of_ofValue hd, .self⟩

end RecordMapping
