import RecordMapping.Proofs.Constants
import RecordMapping.Proofs.References

/-!
# Where identities come from

An expression mentions the identities of its parameters and of its binders, and those that stand in
the functions, the mappings and the code that it holds as constants. A run makes up no identities: a
function or a mapping among its results was in the data before. So what was made before a composer
gives out an identity does not have it, and neither has anything that it evaluates to.

## Implementation notes

Instances have new identities as parameters and as binders, but their constants stood in the
expression or in a replacement. So `Expr.HoldsBefore` bounds what is mentioned in constants alone.
-/

namespace RecordMapping

mutual

/-- The identity stands somewhere in the expression: as that of a parameter or of a binder, or in a
constant. -/
inductive Expr.Mentions (x : Nat) : Expr → Prop
  | arg {p : Param} (h : p.id = x) : Expr.Mentions x (.arg p)
  | binder {e : Expr} {o : Operand} {p : Param} (ho : o ∈ e.operands) (hp : p ∈ o.bound)
      (h : p.id = x) : Expr.Mentions x e
  | operand {e : Expr} {o : Operand} (ho : o ∈ e.operands) (h : Expr.Mentions x o.expr) :
      Expr.Mentions x e
  | const {v : Value} (h : Value.Mentions x v) : Expr.Mentions x (.const v)

/-- The identity stands somewhere in the function. -/
inductive Func.Mentions (x : Nat) : Func → Prop
  | param {f : Func} {p : Param} (hp : p ∈ f.params) (h : p.id = x) : Func.Mentions x f
  | body {f : Func} (h : Expr.Mentions x f.body) : Func.Mentions x f

/-- The identity stands in a function, a mapping or code that the value holds. -/
inductive Value.Mentions (x : Nat) : Value → Prop
  | func {label : Nat} {f : Func} (h : Func.Mentions x f) : Value.Mentions x (.func label f)
  | mapping {m : Mapping} (h : Func.Mentions x m.func) : Value.Mentions x (.mapping m)
  | compiled {m : Mapping} {c : Compiled} (hc : m.compiled = some c) (h : Code.Mentions x c.body) :
      Value.Mentions x (.mapping m)
  | field {fields : List Value} {v : Value} (hv : v ∈ fields) (h : Value.Mentions x v) :
      Value.Mentions x (.record fields)
  | item {items : List Value} {v : Value} (hv : v ∈ items) (h : Value.Mentions x v) :
      Value.Mentions x (.list items)

/-- The identity stands in a constant of the code or of the code that it applies. -/
inductive Code.Mentions (x : Nat) : Code → Prop
  | const {v : Value} (h : Value.Mentions x v) : Code.Mentions x (.const v)
  | operand {code o : Code} (ho : o ∈ code.operands) (h : Code.Mentions x o) : Code.Mentions x code
  | target {entity : Code} {c : Compiled} (h : Code.Mentions x c.body) :
      Code.Mentions x (.apply entity c)

end

/-- Everything that the expression mentions was given out before the identity. -/
def Expr.MadeBefore (n : Nat) (e : Expr) : Prop := ∀ x, e.Mentions x → x < n

/-- Everything that the function mentions was given out before the identity. -/
def Func.MadeBefore (n : Nat) (f : Func) : Prop := ∀ x, f.Mentions x → x < n

/-- Everything that the value mentions was given out before the identity. -/
def Value.MadeBefore (n : Nat) (v : Value) : Prop := ∀ x, v.Mentions x → x < n

/-- Everything that the code mentions was given out before the identity. -/
def Code.MadeBefore (n : Nat) (code : Code) : Prop := ∀ x, code.Mentions x → x < n

variable {n : Nat}

namespace Func

theorem madeBefore_iff {f : Func} :
    f.MadeBefore n ↔ (∀ p ∈ f.params, p.id < n) ∧ f.body.MadeBefore n := by
  constructor
  · exact fun h => ⟨fun p hp => h p.id (.param hp rfl), fun x hx => h x (.body hx)⟩
  · rintro ⟨params, body⟩ x (⟨hp, rfl⟩ | hx)
    · exact params _ hp
    · exact body x hx

theorem MadeBefore.mono {f : Func} (h : f.MadeBefore n) {n' : Nat} (hn : n ≤ n') :
    f.MadeBefore n' :=
  fun x hx => Nat.lt_of_lt_of_le (h x hx) hn

end Func

namespace Value

@[simp] theorem madeBefore_bool (b : Bool) : (bool b).MadeBefore n := nofun

@[simp] theorem madeBefore_null : null.MadeBefore n := nofun

@[simp] theorem madeBefore_func {label : Nat} {f : Func} :
    (func label f).MadeBefore n ↔ f.MadeBefore n := by
  constructor
  · exact fun h x hx => h x (.func hx)
  · rintro h x ⟨hx⟩
    exact h x hx

@[simp] theorem madeBefore_mapping {m : Mapping} : (mapping m).MadeBefore n ↔
    m.func.MadeBefore n ∧ ∀ c, m.compiled = some c → c.body.MadeBefore n := by
  constructor
  · exact fun h => ⟨fun x hx => h x (.mapping hx), fun c hc x hx => h x (.compiled hc hx)⟩
  · rintro ⟨func, compiled⟩ x (_ | hx | ⟨hc, hx⟩)
    · exact func x hx
    · exact compiled _ hc x hx

@[simp] theorem madeBefore_record {fields : List Value} :
    (record fields).MadeBefore n ↔ ∀ v ∈ fields, v.MadeBefore n := by
  constructor
  · exact fun h v hv x hx => h x (.field hv hx)
  · rintro h x ⟨⟩
    next hx hv => exact h _ hv x hx

@[simp] theorem madeBefore_list {items : List Value} :
    (list items).MadeBefore n ↔ ∀ v ∈ items, v.MadeBefore n := by
  constructor
  · exact fun h v hv x hx => h x (.item hv hx)
  · rintro h x ⟨⟩
    next hx hv => exact h _ hv x hx

end Value

namespace Expr

theorem madeBefore_iff {e : Expr} : e.MadeBefore n ↔
    (∀ p, e = .arg p → p.id < n) ∧ (∀ v, e = .const v → v.MadeBefore n) ∧
      ∀ o ∈ e.operands, (∀ p ∈ o.bound, p.id < n) ∧ o.expr.MadeBefore n := by
  constructor
  · intro h
    refine ⟨?_, ?_, fun o ho => ⟨fun p hp => h p.id (.binder ho hp rfl), fun x hx => ?_⟩⟩
    · rintro p rfl
      exact h p.id (.arg rfl)
    · rintro v rfl x hx
      exact h x (.const hx)
    · exact h x (.operand ho hx)
  · rintro ⟨arg, const, operand⟩ x (hx | ⟨ho, hp, rfl⟩ | ⟨ho, hx⟩ | hx)
    · exact hx ▸ arg _ rfl
    · exact (operand _ ho).1 _ hp
    · exact (operand _ ho).2 x hx
    · exact const _ rfl x hx

@[simp] theorem madeBefore_arg {p : Param} : (arg p).MadeBefore n ↔ p.id < n := by
  rw [madeBefore_iff]
  simp

@[simp] theorem madeBefore_const {v : Value} : (const v).MadeBefore n ↔ v.MadeBefore n := by
  rw [madeBefore_iff]
  simp

@[simp] theorem madeBefore_cond {test yes no : Expr} : (cond test yes no).MadeBefore n ↔
    test.MadeBefore n ∧ yes.MadeBefore n ∧ no.MadeBefore n := by
  rw [madeBefore_iff]
  simp

@[simp] theorem madeBefore_field {base : Expr} {id : FieldId} :
    (field base id).MadeBefore n ↔ base.MadeBefore n := by
  rw [madeBefore_iff]
  simp

@[simp] theorem madeBefore_includeEntity {kind : MarkerKind} {entity mapping : Expr} {ty : Ty} :
    (includeEntity kind entity mapping ty).MadeBefore n ↔
      entity.MadeBefore n ∧ mapping.MadeBefore n := by
  rw [madeBefore_iff]
  simp

@[simp] theorem madeBefore_includeVia {kind : MarkerKind} {parent mapping : Expr} {selector : Func}
    {ty : Ty} : (includeVia kind parent selector mapping ty).MadeBefore n ↔
      parent.MadeBefore n ∧ selector.MadeBefore n ∧ mapping.MadeBefore n := by
  rw [madeBefore_iff, Func.madeBefore_iff]
  simp [and_assoc]

@[simp] theorem madeBefore_isNull {negate : Bool} {operand : Expr} :
    (isNull negate operand).MadeBefore n ↔ operand.MadeBefore n := by
  rw [madeBefore_iff]
  simp

@[simp] theorem madeBefore_list {items : List Expr} :
    (list items).MadeBefore n ↔ ∀ e ∈ items, e.MadeBefore n := by
  rw [madeBefore_iff]
  simp

@[simp] theorem madeBefore_map {base : Expr} {lambda : Func} :
    (map base lambda).MadeBefore n ↔ base.MadeBefore n ∧ lambda.MadeBefore n := by
  rw [madeBefore_iff, Func.madeBefore_iff]
  simp

@[simp] theorem madeBefore_record {model : ModelId} {fields : List Expr} :
    (record model fields).MadeBefore n ↔ ∀ e ∈ fields, e.MadeBefore n := by
  rw [madeBefore_iff]
  simp

theorem MadeBefore.operand {e : Expr} (h : e.MadeBefore n) {o : Operand} (ho : o ∈ e.operands) :
    o.expr.MadeBefore n :=
  fun x hx => h x (.operand ho hx)

theorem MadeBefore.binder {e : Expr} (h : e.MadeBefore n) {o : Operand} (ho : o ∈ e.operands)
    {p : Param} (hp : p ∈ o.bound) : p.id < n :=
  h p.id (.binder ho hp rfl)

theorem Free.mentions {e : Expr} {x : Nat} (h : e.Free x) : e.Mentions x := by
  induction h with
  | arg h => exact .arg h
  | operand ho _ _ ih => exact .operand ho ih

theorem MadeBefore.mono {e : Expr} (h : e.MadeBefore n) {n' : Nat} (hn : n ≤ n') :
    e.MadeBefore n' :=
  fun x hx => Nat.lt_of_lt_of_le (h x hx) hn

/-- What an instance mentions stood in the expression or in a replacement, or is new. -/
theorem MadeBefore.instantiate {e : Expr} (h : e.MadeBefore n) {k : Nat} (hk : n ≤ k)
    {replacement : Replacement} (fits : ∀ x r, replacement x = some r → r.MadeBefore k) :
    (e.instantiate replacement k).1.MadeBefore (e.instantiate replacement k).2 := by
  induction e using operand_induction generalizing replacement k with
  | step e ih =>
    by_cases he : ∃ p, e = .arg p
    · obtain ⟨p, rfl⟩ := he
      simp only [Expr.instantiate]
      cases hp : replacement p.id with
      | none => exact h.mono hk
      | some r => exact fits p.id r hp
    · have inner : ∀ p, e ≠ .arg p := fun p hp => he ⟨p, hp⟩
      have le := e.le_instantiate replacement k
      refine madeBefore_iff.mpr ⟨fun p hp => absurd hp (instantiate_ne_arg inner p), ?_, ?_⟩
      · intro v hv
        obtain rfl := eq_const_of_instantiate inner hv
        exact fun x hx => Nat.lt_of_lt_of_le (h x (.const hx)) (Nat.le_trans hk le)
      · intro o' ho'
        obtain ⟨o, ho, k', hk', rfl, le'⟩ := exists_operand_of_instantiate inner ho'
        have start := le_freshen o.bound replacement k'
        have body := o.expr.le_instantiate (freshen o.bound replacement k').replacement
          (freshen o.bound replacement k').next
        refine ⟨fun p hp => Nat.lt_of_lt_of_le (freshen_bound hp).2 (Nat.le_trans body le'), ?_⟩
        refine (ih o ho (h.operand ho) (by omega) ?_).mono le'
        refine forall_freshen_replacement (fun q hq => ?_) fun x r hr => ?_
        · exact madeBefore_arg.mpr (freshen_bound hq).2
        · exact (fits x r hr).mono (Nat.le_trans hk' start)

theorem MadeBefore.instantiate_single {e x : Expr} (h : e.MadeBefore n) (hx : x.MadeBefore n)
    {p : Param} : (e.instantiate (Replacement.empty.set p.id x) n).1.MadeBefore
      (e.instantiate (Replacement.empty.set p.id x) n).2 :=
  h.instantiate (Nat.le_refl n) fun _ _ hr => eq_of_single hr ▸ hx

/-- The constants of the expression were made before the identity was given out. -/
abbrev HoldsBefore (n : Nat) (e : Expr) : Prop := e.Constants (Value.MadeBefore n)

theorem MadeBefore.holds {e : Expr} (h : e.MadeBefore n) : e.HoldsBefore n := by
  induction e using operand_induction with
  | step e ih =>
    refine constants_iff.mpr ⟨?_, fun o ho => ih o ho (h.operand ho)⟩
    rintro v rfl
    exact madeBefore_const.mp h

end Expr

theorem Code.Constant.mentions {v : Value} {code : Code} (h : code.Constant v) {x : Nat}
    (hx : v.Mentions x) : code.Mentions x := by
  induction h with
  | const => exact .const hx
  | operand ho _ ih => exact .operand ho ih
  | target _ ih => exact .target ih

/-- Evaluation makes up no identities. -/
theorem Value.hereditary_madeBefore (n : Nat) : Hereditary (MadeBefore n) where
  bool := madeBefore_bool
  null := madeBefore_null
  record := madeBefore_record
  list := madeBefore_list
  func h := (Func.madeBefore_iff.mp (madeBefore_func.mp h)).2.holds
  mapping h := by
    obtain ⟨func, compiled⟩ := madeBefore_mapping.mp h
    refine ⟨(Func.madeBefore_iff.mp func).2.holds, fun c hc v hv x hx => ?_⟩
    exact compiled c hc x (hv.mentions hx)

/-- What a mapping argument refers to was made before the identity was given out, if its constants
were. -/
theorem Expr.RefersTo.madeBefore {mapping : Expr} {kind : MarkerKind} {t : Target}
    (h : mapping.RefersTo kind t) (hm : mapping.HoldsBefore n) :
    t.function.MadeBefore n := by
  obtain ⟨v, hv, ht⟩ := h.exists_value (Value.hereditary_madeBefore n) hm
  cases kind <;> cases v <;> simp [Target.ofValue, Outcome.fail] at ht <;> subst ht
  · exact Value.madeBefore_func.mp hv
  · exact (Value.madeBefore_mapping.mp hv).1
  · exact (Value.madeBefore_mapping.mp hv).1

namespace Marker

variable {m : Marker}

/-- What a marker refers to was made before the identity was given out, if the marker was. -/
theorem madeBefore_target {t : Target} (ht : m.mapping.RefersTo m.kind t)
    (hm : m.toExpr.MadeBefore n) : t.function.MadeBefore n :=
  ht.madeBefore (hm.operand (Expr.mapping_mem_operands m)).holds

/-- The entity of a marker is made of what the marker mentions. -/
theorem madeBefore_entity {entity : Expr} {n' : Nat} (h : m.entity n = .ok (entity, n'))
    (hm : m.toExpr.MadeBefore n) : entity.MadeBefore n' := by
  refine entity_of_live (P := Expr.MadeBefore) h (fun o ho => hm.operand (Expr.live_subset ho)) ?_
  exact fun he hx => he.instantiate_single hx

end Marker

/-- What replaces a marker was made before the identities that are left. -/
theorem Composer.inlineOnce_madeBefore {c : Composer} {depth : Nat} {m : Marker} {e : Expr}
    {w w' : Workspace} (once : c.inlineOnce depth m w = (.ok e, w'))
    (made : m.toExpr.MadeBefore w.nextParam) : e.MadeBefore w'.nextParam := by
  obtain ⟨entity, n, t, p, hentity, ht, _, rfl, next, _⟩ := inlineOnce_eq_ok once
  have entityMade := Marker.madeBefore_entity hentity made
  have target := (Marker.madeBefore_target ⟨depth, ht⟩ made).mono (Marker.le_entity hentity)
  have body := (Func.madeBefore_iff.mp target).2.instantiate_single entityMade (p := p)
  rw [next]
  cases hs : c.subject w entity with
  | none => exact body
  | some subject =>
      obtain ⟨base, navigation, key, rfl, rfl⟩ := subject_eq_some hs
      have base := (Expr.madeBefore_field.mp entityMade).mono
        (t.function.body.le_instantiate (Replacement.empty.set p.id (.field base navigation)) n)
      simpa [guarded, Expr.isNotNull, Expr.null] using ⟨base, body⟩

end RecordMapping
