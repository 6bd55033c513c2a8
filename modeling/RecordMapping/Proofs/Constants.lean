import RecordMapping.Proofs.Instantiation
import RecordMapping.Proofs.Returns

/-!
# What values are made of

A run builds lists and records, but no functions, mappings or code: those that a result holds were
among the constants of what was run, or in the arguments. So a property of values that lists and
records have exactly if their items and fields have it, and that a function, a mapping and code only
have if their constants do, is handed on from the constants of an expression to its value.

## Implementation notes

The constants of code are those of the code that it applies as well.
-/

namespace RecordMapping

/-- A value that stands in the code, or in code that it applies. -/
inductive Code.Constant (v : Value) : Code → Prop
  | const : Code.Constant v (.const v)
  | operand {code o : Code} (ho : o ∈ code.operands) (h : Code.Constant v o) : Code.Constant v code
  | target {entity : Code} {c : Compiled} (h : Code.Constant v c.body) :
      Code.Constant v (.apply entity c)

/-- The constants of the code have a property. -/
def Code.Constants (P : Value → Prop) (code : Code) : Prop := ∀ v, code.Constant v → P v

/-- The constants of the expression have a property. -/
def Expr.Constants (P : Value → Prop) (e : Expr) : Prop :=
  e.Every fun s => ∀ v, s = .const v → P v

/-- The values in the scope have a property. -/
def Scope.Constants (P : Value → Prop) (scope : Scope) : Prop :=
  ∀ layer ∈ scope, ∀ v ∈ layer.args, P v

/-- The constants of what can be called have a property. -/
def Callable.Constants (P : Value → Prop) : Callable → Prop
  | .interpreted f => f.body.Constants P
  | .compiled c => c.body.Constants P

/-- A property of values that evaluation hands on. -/
structure Value.Hereditary (P : Value → Prop) : Prop where
  bool : ∀ b, P (.bool b)
  null : P .null
  record : ∀ {fields}, P (.record fields) ↔ ∀ v ∈ fields, P v
  list : ∀ {items}, P (.list items) ↔ ∀ v ∈ items, P v
  func : ∀ {label f}, P (.func label f) → f.body.Constants P
  mapping : ∀ {m}, P (.mapping m) → m.func.body.Constants P ∧
    ∀ c, m.compiled = some c → c.body.Constants P

variable {P : Value → Prop}

namespace Code.Constants

theorem const {v : Value} (h : (Code.const v).Constants P) : P v := h v .const

theorem operand {code o : Code} (h : code.Constants P) (ho : o ∈ code.operands) : o.Constants P :=
  fun v hv => h v (.operand ho hv)

theorem target {entity : Code} {c : Compiled} (h : (Code.apply entity c).Constants P) :
    c.body.Constants P :=
  fun v hv => h v (.target hv)

end Code.Constants

namespace Expr

theorem constants_iff {e : Expr} : e.Constants P ↔
    (∀ v, e = .const v → P v) ∧ ∀ o ∈ e.operands, o.expr.Constants P :=
  every_iff

theorem Constants.operand {e : Expr} (h : e.Constants P) {o : Operand} (ho : o ∈ e.operands) :
    o.expr.Constants P :=
  (constants_iff.mp h).2 o ho

theorem constants_arg (p : Param) : (arg p).Constants P := by
  rw [constants_iff]
  simp

@[simp] theorem constants_const {v : Value} : (const v).Constants P ↔ P v := by
  rw [constants_iff]
  simp

@[simp] theorem constants_compare {op : Comparison} {left right : Expr} :
    (compare op left right).Constants P ↔ left.Constants P ∧ right.Constants P := by
  rw [constants_iff]
  simp

@[simp] theorem constants_call {callee : Expr} {args : List Expr} :
    (call callee args).Constants P ↔ callee.Constants P ∧ ∀ a ∈ args, a.Constants P := by
  rw [constants_iff]
  simp

@[simp] theorem constants_cond {test yes no : Expr} : (cond test yes no).Constants P ↔
    test.Constants P ∧ yes.Constants P ∧ no.Constants P := by
  rw [constants_iff]
  simp

@[simp] theorem constants_field {base : Expr} {id : FieldId} :
    (field base id).Constants P ↔ base.Constants P := by
  rw [constants_iff]
  simp

@[simp] theorem constants_isNull {negate : Bool} {operand : Expr} :
    (isNull negate operand).Constants P ↔ operand.Constants P := by
  rw [constants_iff]
  simp

@[simp] theorem constants_list {items : List Expr} :
    (list items).Constants P ↔ ∀ e ∈ items, e.Constants P := by
  rw [constants_iff]
  simp

@[simp] theorem constants_map {base : Expr} {lambda : Func} :
    (map base lambda).Constants P ↔ base.Constants P ∧ lambda.body.Constants P := by
  rw [constants_iff]
  simp

@[simp] theorem constants_record {model : ModelId} {fields : List Expr} :
    (record model fields).Constants P ↔ ∀ e ∈ fields, e.Constants P := by
  rw [constants_iff]
  simp

/-- The constants of an instance stood in the expression or in a replacement. -/
theorem Constants.instantiate {e : Expr} (h : e.Constants P) {replacement : Replacement}
    (fits : ∀ x r, replacement x = some r → r.Constants P) (k : Nat) :
    (e.instantiate replacement k).1.Constants P := by
  induction e using operand_induction generalizing replacement k with
  | step e ih =>
    by_cases he : ∃ p, e = .arg p
    · obtain ⟨p, rfl⟩ := he
      simp only [Expr.instantiate]
      cases hp : replacement p.id with
      | none => exact constants_arg p
      | some r => exact fits p.id r hp
    · have inner : ∀ p, e ≠ .arg p := fun p hp => he ⟨p, hp⟩
      refine constants_iff.mpr ⟨fun v hv => ?_, fun o' ho' => ?_⟩
      · exact (constants_iff.mp h).1 v (eq_const_of_instantiate inner hv)
      · obtain ⟨o, ho, k', _, rfl, _⟩ := exists_operand_of_instantiate inner ho'
        exact ih o ho (h.operand ho)
          (forall_freshen_replacement (fun q _ => constants_arg q) fits) _

theorem Constants.instantiate_single {e x : Expr} (h : e.Constants P) (hx : x.Constants P)
    (id k : Nat) : (e.instantiate (Replacement.empty.set id x) k).1.Constants P :=
  h.instantiate (fun _ _ hr => eq_of_single hr ▸ hx) k

end Expr

namespace Scope

theorem constants_nil : Scope.Constants P [] := by simp [Constants]

theorem Constants.push {scope : Scope} (h : scope.Constants P) {params : List Param} {v : Value}
    (hv : P v) : Scope.Constants P (⟨params, [v]⟩ :: scope) := by
  simpa [Constants] using ⟨hv, h⟩

end Scope

/-- If there is a result, it has the property. -/
def Outcome.Gives {α : Type} (P : α → Prop) (x : Outcome α) : Prop := ∀ a, x = .ok a → P a

namespace Outcome.Gives

variable {α β : Type} {P : α → Prop} {Q : β → Prop}

theorem ok {a : α} (h : P a) : (Outcome.ok a).Gives P := by
  rintro _ ⟨⟩
  exact h

theorem fault (f : Fault) : (Outcome.fault f : Outcome α).Gives P := nofun

theorem any (x : Outcome α) : x.Gives fun _ => True := fun _ _ => trivial

theorem bind {x : Outcome α} {next : α → Outcome β} (hx : x.Gives P)
    (hn : ∀ a, P a → (next a).Gives Q) : (x >>= next).Gives Q := by
  intro b hb
  obtain ⟨a, ha, hb⟩ := Outcome.bind_eq_ok_iff.mp hb
  exact hn a (hx a ha) b hb

theorem mapM {f : α → Outcome β} {items : List α} (h : ∀ a ∈ items, (f a).Gives Q) :
    (items.mapM f).Gives fun bs => ∀ b ∈ bs, Q b := by
  induction items with
  | nil => exact ok (by simp)
  | cons a as ih =>
      rw [List.mapM_cons]
      refine bind (h a (by simp)) fun b hb => ?_
      refine bind (ih fun a ha => h a (by simp [ha])) fun bs hbs => ?_
      exact ok (by simpa using ⟨hb, hbs⟩)

end Outcome.Gives

/-- Calls hand the property on from the constants of the callee and the arguments to the result. -/
def Caller.HandsOn (P : Value → Prop) (call : Caller) : Prop :=
  ∀ callee args, callee.Constants P → (∀ v ∈ args, P v) → (call callee args).Gives P

section Steps

variable (hP : Value.Hereditary P)
include hP

namespace Value

theorem gives_readField {v : Value} (h : P v) (id : FieldId) : (v.readField id).Gives P := by
  cases v with
  | record values =>
      simp only [readField]
      split
      · next u hu => exact .ok (hP.record.mp h u (List.mem_of_getElem? hu))
      · exact .fault _
  | _ => exact .fault _

theorem gives_asList {v : Value} (h : P v) : v.asList.Gives fun items => ∀ u ∈ items, P u := by
  cases v with
  | list items => exact .ok (hP.list.mp h)
  | _ => exact .fault _

theorem gives_applyWith {call : Caller} (hcall : call.HandsOn P) {v : Value} (h : P v)
    {args : List Value} (ha : ∀ u ∈ args, P u) : (v.applyWith call args).Gives P := by
  cases v with
  | func label f => exact hcall _ _ (hP.func h) ha
  | mapping m =>
      match args with
      | [row] =>
          refine hcall _ _ ?_ ha
          obtain ⟨func, compiled⟩ := hP.mapping h
          obtain ⟨label, f, _ | c⟩ := m
          · exact func
          · exact compiled c rfl
      | [] | _ :: _ :: _ => exact .fault _
  | _ => exact .fault _

end Value

theorem Comparison.gives_apply (op : Comparison) (v w : Value) : (op.apply v w).Gives P :=
  .bind (.any _) fun _ _ => .ok (hP.bool _)

/-- The constants of a target are those of the value that it is. -/
theorem Target.constants_callable {kind : MarkerKind} {v : Value} (h : P v) {t : Target}
    (ht : ofValue kind v = .ok t) : t.callable.Constants P := by
  unfold ofValue at ht
  split at ht
  · cases ht
    exact hP.func h
  · cases ht
    exact (hP.mapping h).1
  · next m =>
    cases ht
    obtain ⟨func, compiled⟩ := hP.mapping h
    obtain ⟨label, f, _ | c⟩ := m
    · exact func
    · exact compiled c rfl
  · cases ht

omit hP in
theorem Target.gives_resolve (kind : MarkerKind) {argument : Outcome Value}
    (h : argument.Gives P) :
    (resolve kind argument).Gives fun t => ∃ v, P v ∧ ofValue kind v = .ok t := by
  cases argument with
  | ok v => exact fun t ht => ⟨v, h v rfl, ht⟩
  | fault | stuck | outOfDepth => nofun

omit hP in
theorem Expr.gives_evalAllWith {call : Caller} {es : List Expr} {scope : Scope}
    (each : ∀ e ∈ es, (e.evalWith call scope).Gives P) :
    (evalAllWith call es scope).Gives fun vs => ∀ v ∈ vs, P v := by
  induction es with
  | nil => exact .ok (by simp)
  | cons e es ih =>
      refine .bind (each e (by simp)) fun v hv => .bind (ih fun a ha => each a (by simp [ha])) ?_
      exact fun vs hvs => .ok (by simpa using ⟨hv, hvs⟩)

omit hP in
theorem Scope.gives_read {scope : Scope} (h : scope.Constants P) (p : Param) :
    (scope.read p).Gives P := by
  have found {v : Value} (hv : scope.find? p.id = some v) : P v := by
    induction scope with
    | nil => cases hv
    | cons layer outer ih =>
        obtain ⟨here, outer⟩ := List.forall_mem_cons.mp h
        rw [find?] at hv
        split at hv
        · exact here v (List.mem_of_getElem? hv)
        · exact ih outer hv
  unfold read
  split
  · next v hv => exact .ok (found hv)
  · exact .fault _

/-- The property is handed on from the constants of an expression and the values in the scope. -/
theorem Expr.gives_evalWith {call : Caller} (hcall : call.HandsOn P) {e : Expr}
    (he : e.Constants P) {scope : Scope} (hs : scope.Constants P) :
    (e.evalWith call scope).Gives P := by
  induction e using operand_induction generalizing scope with
  | step e ih =>
    have gives (bound : List Param) (s : Expr) (h : ⟨bound, s⟩ ∈ e.operands) {scope : Scope}
        (hs : scope.Constants P) : (s.evalWith call scope).Gives P :=
      ih ⟨bound, s⟩ h (he.operand h) hs
    cases e with
    | arg p => exact Scope.gives_read hs p
    | const v => exact .ok ((constants_iff.mp he).1 v rfl)
    | compare op left right =>
        exact .bind (.any _) fun v _ => .bind (.any _) fun w _ => op.gives_apply hP v w
    | call callee args =>
        refine .bind (gives [] callee (by simp) hs) fun f hf => ?_
        refine .bind (gives_evalAllWith fun a ha => gives [] a (by simp [ha]) hs) fun vs hvs => ?_
        exact Value.gives_applyWith hP hcall hf hvs
    | cond test yes no =>
        refine .bind (.any _) fun v _ => .bind (.any _) fun b _ => ?_
        cases b with
        | true => exact gives [] yes (by simp) hs
        | false => exact gives [] no (by simp) hs
    | field base id =>
        exact .bind (gives [] base (by simp) hs) fun v hv => Value.gives_readField hP hv id
    | includeEntity kind entity mapping ty =>
        refine .bind (gives [] entity (by simp) hs) fun v hv => ?_
        split
        · exact .ok hP.null
        · have argument := gives [] mapping (by simp) Scope.constants_nil
          refine .bind (Target.gives_resolve kind argument) fun t ⟨u, hu, ht⟩ => ?_
          exact hcall _ _ (Target.constants_callable hP hu ht) (by simpa using hv)
    | includeVia kind parent selector mapping ty =>
        obtain ⟨params, body⟩ := selector
        refine .bind (gives [] parent (by simp) hs) fun p hp => ?_
        split
        · exact .ok hP.null
        · refine .bind (.any _) fun _ _ => ?_
          refine .bind (gives params body (by simp) (hs.push hp)) fun v hv => ?_
          split
          · exact .ok hP.null
          · have argument := gives [] mapping (by simp) Scope.constants_nil
            refine .bind (Target.gives_resolve kind argument) fun t ⟨u, hu, ht⟩ => ?_
            exact hcall _ _ (Target.constants_callable hP hu ht) (by simpa using hv)
    | isNull negate operand => exact .bind (.any _) fun v _ => .ok (hP.bool _)
    | list items =>
        refine .bind (gives_evalAllWith fun a ha => gives [] a (by simp [ha]) hs) fun vs hvs => ?_
        exact .ok (hP.list.mpr hvs)
    | map base lambda =>
        obtain ⟨params, body⟩ := lambda
        refine .bind (gives [] base (by simp) hs) fun v hv => ?_
        refine .bind (Value.gives_asList hP hv) fun items hi => ?_
        refine .bind (.mapM fun item hm => .bind (.any _) fun _ _ =>
          gives params body (by simp) (hs.push (hi item hm))) fun vs hvs => ?_
        exact .ok (hP.list.mpr hvs)
    | record model fields =>
        refine .bind (gives_evalAllWith fun a ha => gives [] a (by simp [ha]) hs) fun vs hvs => ?_
        exact .ok (hP.record.mpr hvs)

namespace Code

omit hP in
theorem gives_valuesWith {call : Caller} {codes : List Code} {frame : Frame}
    (each : ∀ c ∈ codes, (c.valueWith call frame).Gives P) :
    (valuesWith call codes frame).Gives fun vs => ∀ v ∈ vs, P v := by
  induction codes with
  | nil => exact .ok (by simp)
  | cons c codes ih =>
      rw [valuesWith_cons]
      refine .bind (each c (by simp)) fun v hv => .bind (ih fun a ha => each a (by simp [ha])) ?_
      exact fun vs hvs => .ok (by simpa using ⟨hv, hvs⟩)

/-- The property is handed on from the constants of code and the values of the frame. -/
theorem gives_valueWith {call : Caller} (hcall : call.HandsOn P) {code : Code}
    (hc : code.Constants P) {frame : Frame} (hf : ∀ v ∈ frame, P v) :
    (code.valueWith call frame).Gives P := by
  induction code using operand_induction generalizing frame with
  | step code ih =>
    have gives (o : Code) (h : o ∈ code.operands) {frame : Frame}
        (hf : ∀ v ∈ frame, P v) : (o.valueWith call frame).Gives P :=
      ih o h (hc.operand h) hf
    have push {v : Value} (hv : P v) : ∀ u ∈ frame.push v, P u := by
      intro u hu
      rcases Array.mem_push.mp hu with hu | rfl
      · exact hf u hu
      · exact hv
    cases code with
    | slot index =>
        rw [valueWith_slot]
        split
        · next v hv => exact .ok (hf v (Array.mem_of_getElem? hv))
        · nofun
    | frame => exact .ok (hP.list.mpr fun v hv => hf v (Array.mem_toList_iff.mp hv))
    | const v => exact .ok hc.const
    | fail text => exact .fault _
    | compare op left right =>
        rw [valueWith_compare]
        exact .bind (.any _) fun v _ => .bind (.any _) fun w _ => op.gives_apply hP v w
    | call callee args =>
        rw [valueWith_call]
        refine .bind (gives callee (by simp) hf) fun f hfun => ?_
        refine .bind (gives_valuesWith fun a ha => gives a (by simp [ha]) hf) fun vs hvs => ?_
        exact Value.gives_applyWith hP hcall hfun hvs
    | cond test yes no =>
        rw [valueWith_cond]
        refine .bind (.any _) fun v _ => .bind (.any _) fun b _ => ?_
        cases b with
        | true => exact gives yes (by simp) hf
        | false => exact gives no (by simp) hf
    | field base id =>
        rw [valueWith_field]
        exact .bind (gives base (by simp) hf) fun v hv => Value.gives_readField hP hv id
    | isNull negate operand =>
        rw [valueWith_isNull]
        exact .bind (.any _) fun v _ => .ok (hP.bool _)
    | list items =>
        rw [valueWith_list]
        refine .bind (gives_valuesWith fun a ha => gives a (by simp [ha]) hf) fun vs hvs => ?_
        exact .ok (hP.list.mpr hvs)
    | record fields =>
        rw [valueWith_record]
        refine .bind (gives_valuesWith fun a ha => gives a (by simp [ha]) hf) fun vs hvs => ?_
        exact .ok (hP.record.mpr hvs)
    | map base body =>
        rw [valueWith_map]
        refine .bind (gives base (by simp) hf) fun v hv => ?_
        refine .bind (Value.gives_asList hP hv) fun items hi => ?_
        refine .bind (.mapM fun item hm => gives body (by simp) (push (hi item hm))) ?_
        exact fun vs hvs => .ok (hP.list.mpr hvs)
    | select parent selector =>
        rw [valueWith_select]
        refine .bind (gives parent (by simp) hf) fun p hp => ?_
        split
        · exact .ok hP.null
        · exact gives selector (by simp) (push hp)
    | apply entity target =>
        rw [valueWith_apply]
        refine .bind (gives entity (by simp) hf) fun v hv => ?_
        split
        · exact .ok hP.null
        · exact hcall _ _ hc.target (by simpa using hv)

end Code

/-- A call makes up no functions, mappings or code. -/
theorem Callable.handsOn_call (depth : Nat) : Caller.HandsOn P (Callable.call depth) := by
  induction depth with
  | zero => exact fun _ _ _ _ => nofun
  | succ depth ih =>
      intro callee args hc ha
      cases callee with
      | interpreted f =>
          refine .bind (.any _) fun _ _ => Expr.gives_evalWith hP ih hc ?_
          simpa [Scope.Constants] using ha
      | compiled c =>
          refine .bind (.any _) fun _ _ => Code.gives_valueWith hP ih hc ?_
          simpa using ha

/-- What a mapping argument refers to is a value with the property, if its constants have it. -/
theorem Expr.RefersTo.exists_value {mapping : Expr} {kind : MarkerKind} {t : Target}
    (h : mapping.RefersTo kind t) (hm : mapping.Constants P) :
    ∃ v, P v ∧ Target.ofValue kind v = .ok t := by
  obtain ⟨depth, h⟩ := h
  exact Target.gives_resolve kind
    (gives_evalWith hP (Callable.handsOn_call hP depth) hm Scope.constants_nil) t h

end Steps

end RecordMapping
