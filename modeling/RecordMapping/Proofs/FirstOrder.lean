import RecordMapping.Proofs.Acyclic

/-!
# Evaluation without higher-order calls

An expression that only calls constants evaluates to an end: each call goes to a function nested in
it, and so does each marker, since a mapping argument refers to nothing but what is nested in it.
The size of the expression bounds the depth of the calls.

## Implementation notes

The arguments may hold anything: they are neither called nor referred to by a marker, whose mapping
argument is evaluated outside of every scope. A mapping with a compiled form is left out, for its
code may do what its function does not.
-/

namespace RecordMapping

/-- Code that a mapping carries which the value is, or which one of its items or fields holds. -/
inductive Value.Carries (c : Compiled) : Value → Prop
  | mapping {m : Mapping} (h : m.compiled = some c) : Carries c (.mapping m)
  | record {fields : List Value} {v : Value} (hv : v ∈ fields) (h : Carries c v) :
      Carries c (.record fields)
  | list {items : List Value} {v : Value} (hv : v ∈ items) (h : Carries c v) :
      Carries c (.list items)

/-- A call goes to a constant, and the mappings of a constant carry no code. -/
structure Expr.Direct (e : Expr) : Prop where
  callee : ∀ callee args, e = .call callee args →
    (∃ label f, callee = .const (.func label f)) ∨ ∃ m, callee = .const (.mapping m)
  interpreted : ∀ v c, e = .const v → ¬ v.Carries c

/-- All calls go to constants, in the expression and in the functions nested in it. -/
def Expr.FirstOrder (e : Expr) : Prop := e.Throughout Expr.Direct

/-- The functions that the value holds are first-order, and its mappings carry no code. -/
def Value.FirstOrder (v : Value) : Prop := (Expr.const v).FirstOrder

namespace Value

theorem firstOrder_iff {v : Value} :
    v.FirstOrder ↔ (∀ c, ¬ v.Carries c) ∧ ∀ F, v.Holds F → F.body.FirstOrder := by
  rw [FirstOrder, Expr.FirstOrder, Expr.throughout_iff]
  constructor
  · rintro ⟨direct, -, held⟩
    exact ⟨fun c => direct.interpreted v c rfl, fun F => held v F rfl⟩
  · rintro ⟨interpreted, held⟩
    refine ⟨⟨nofun, ?_⟩, by simp, ?_⟩
    · rintro _ c ⟨⟩
      exact interpreted c
    · rintro _ F ⟨⟩
      exact held F

theorem FirstOrder.body {v : Value} (h : v.FirstOrder) {F : Func} (hF : v.Holds F) :
    F.body.FirstOrder :=
  (firstOrder_iff.mp h).2 F hF

theorem FirstOrder.compiled_eq_none {m : Mapping} (h : (mapping m).FirstOrder) :
    m.compiled = none := by
  cases hc : m.compiled with
  | none => rfl
  | some c => exact absurd (.mapping hc) ((firstOrder_iff.mp h).1 c)

end Value

/-- An expression that is no constant is first-order if its operands are and it is direct. -/
theorem Expr.FirstOrder.of_operands {e : Expr} (direct : e.Direct) (inner : ∀ v, e ≠ .const v)
    (h : ∀ o ∈ e.operands, o.expr.FirstOrder) : e.FirstOrder :=
  throughout_iff.mpr ⟨direct, h, fun v _ he => absurd he (inner v)⟩

/-- The constants of a first-order expression are first-order. -/
theorem Expr.FirstOrder.constants {e : Expr} (h : e.FirstOrder) : e.Constants Value.FirstOrder := by
  induction e using operand_induction with
  | step e ih =>
    refine constants_iff.mpr ⟨?_, fun o ho => ih o ho (h.operand ho)⟩
    rintro v rfl
    exact h

theorem Value.hereditary_firstOrder : Hereditary FirstOrder where
  bool b := firstOrder_iff.mpr ⟨nofun, nofun⟩
  null := firstOrder_iff.mpr ⟨nofun, nofun⟩
  record {fields} := by
    simp only [firstOrder_iff]
    constructor
    · exact fun h v hv => ⟨fun c hc => h.1 c (.record hv hc), fun F hF => h.2 F (.record hv hF)⟩
    · refine fun h => ⟨fun c hc => ?_, fun F hF => ?_⟩
      · obtain _ | ⟨hv, hc⟩ := hc
        exact (h _ hv).1 c hc
      · obtain _ | _ | ⟨hv, hF⟩ := hF
        exact (h _ hv).2 F hF
  list {items} := by
    simp only [firstOrder_iff]
    constructor
    · exact fun h v hv => ⟨fun c hc => h.1 c (.list hv hc), fun F hF => h.2 F (.list hv hF)⟩
    · refine fun h => ⟨fun c hc => ?_, fun F hF => ?_⟩
      · obtain _ | _ | ⟨hv, hc⟩ := hc
        exact (h _ hv).1 c hc
      · obtain _ | _ | _ | ⟨hv, hF⟩ := hF
        exact (h _ hv).2 F hF
  func h := (h.body .func).constants
  mapping {m} h := by
    refine ⟨(h.body (.mapping rfl)).constants, fun c hc => ?_⟩
    rw [h.compiled_eq_none] at hc
    cases hc

/-- What a mapping argument refers to is interpreted, and it is first-order if the argument is. -/
theorem Expr.RefersTo.firstOrder {mapping : Expr} {kind : MarkerKind} {t : Target}
    (h : mapping.RefersTo kind t) (first : mapping.FirstOrder) :
    t.callable = .interpreted t.function ∧ t.function.body.FirstOrder := by
  obtain ⟨v, hv, ht⟩ := h.exists_value Value.hereditary_firstOrder first.constants
  refine ⟨?_, hv.body (Target.holds_of_ofValue ht)⟩
  unfold Target.ofValue at ht
  split at ht <;> cases ht
  · rfl
  · rfl
  · simp [Target.callable, Target.function, Mapping.callable, hv.compiled_eq_none]

section Ended

theorem Value.ended_asBool (v : Value) : v.asBool.Ended := by
  cases v <;> simp [asBool, Outcome.Ended, Outcome.fail]

theorem Value.ended_asList (v : Value) : v.asList.Ended := by
  cases v <;> simp [asList, Outcome.Ended, Outcome.fail]

theorem Value.ended_readField (v : Value) (id : FieldId) : (v.readField id).Ended := by
  unfold readField
  split
  · split
    · exact .inl ⟨_, rfl⟩
    · exact .inr ⟨_, rfl⟩
  · exact .inr ⟨_, rfl⟩
  · exact .inr ⟨_, rfl⟩

theorem Value.ended_order (v w : Value) : (v.order w).Ended := by
  unfold order
  split
  all_goals first | exact .inl ⟨_, rfl⟩ | exact .inr ⟨_, rfl⟩

theorem Comparison.ended_apply (op : Comparison) (v w : Value) : (op.apply v w).Ended := by
  have holds : (op.holds v w).Ended := by
    cases op with
    | eq | ne => exact .inl ⟨_, rfl⟩
    | ge | gt | le | lt => exact (v.ended_order w).bind fun _ _ => .inl ⟨_, rfl⟩
  exact holds.bind fun _ _ => .inl ⟨_, rfl⟩

theorem Scope.ended_read (scope : Scope) (p : Param) : (scope.read p).Ended := by
  unfold read
  split
  · exact .inl ⟨_, rfl⟩
  · exact .inr ⟨_, rfl⟩

theorem Outcome.ended_mapM {α β : Type} {f : α → Outcome β} (h : ∀ a, (f a).Ended)
    (items : List α) : (items.mapM f).Ended := by
  induction items with
  | nil => exact .inl ⟨_, rfl⟩
  | cons a as ih =>
      rw [List.mapM_cons]
      exact (h a).bind fun _ _ => ih.bind fun _ _ => .inl ⟨_, rfl⟩

theorem Expr.ended_evalAllWith {call : Caller} {es : List Expr} {scope : Scope}
    (h : ∀ e ∈ es, (e.evalWith call scope).Ended) : (evalAllWith call es scope).Ended := by
  induction es with
  | nil => exact .inl ⟨_, rfl⟩
  | cons e es ih =>
      refine (h e (by simp)).bind fun _ _ => ?_
      exact (ih fun a ha => h a (by simp [ha])).bind fun _ _ => .inl ⟨_, rfl⟩

end Ended

/-- A call ends if it is given one more depth than the body needs in every scope. -/
theorem Func.ended_call {F : Func} {d : Nat} (hd : 0 < d)
    (body : ∀ scope, (F.body.eval (d - 1) scope).Ended) (args : List Value) :
    (Callable.call d (.interpreted F) args).Ended := by
  obtain ⟨d, rfl⟩ : ∃ k, d = k + 1 := ⟨d - 1, by omega⟩
  exact (ended_checkArity _ _).bind fun _ _ => body _

/-- Calling a constant ends if a call of the function that it is does. -/
theorem Value.ended_apply {v : Value} (first : v.FirstOrder) {d : Nat}
    (call : ∀ F, v.Holds F → ∀ args, (Callable.call d (.interpreted F) args).Ended)
    (args : List Value) : (v.apply d args).Ended := by
  cases v with
  | func label f => exact call f .func args
  | mapping m =>
      match args with
      | [row] =>
          have callable : m.callable = .interpreted m.func := by
            simp [Mapping.callable, first.compiled_eq_none]
          rw [apply, applyWith, callable]
          exact call m.func (.mapping rfl) [row]
      | [] | _ :: _ :: _ => exact .inr ⟨_, rfl⟩
  | _ => exact .inr ⟨_, rfl⟩

namespace Expr

/-- A first-order expression evaluates to an end within a depth of its size. -/
theorem FirstOrder.ended_eval {e : Expr} (first : e.FirstOrder) {d : Nat} (hd : sizeOf e ≤ d)
    (scope : Scope) : (e.eval d scope).Ended := by
  have ended (bound : List Param) (s : Expr) (hs : ⟨bound, s⟩ ∈ e.operands) (scope : Scope) :
      (s.eval d scope).Ended :=
    have lt := sizeOf_operand_lt hs
    ended_eval (first.operand hs) (by omega) scope
  -- Where a call or a marker leads to, the size leaves depth for the call.
  have entered {F : Func} (hF : F.body.FirstOrder) (lt : sizeOf F.body < sizeOf e)
      (args : List Value) : (Callable.call d (.interpreted F) args).Ended :=
    Func.ended_call (by omega) (fun scope => ended_eval hF (by omega) scope) args
  have mapped (mapping : Expr) (hm : ⟨[], mapping⟩ ∈ e.operands) (kind : MarkerKind) (v : Value) :
      (Target.resolve kind (mapping.evalClosed d) >>= fun t =>
        Callable.call d t.callable [v]).Ended := by
    refine (Target.ended_resolve (ended [] mapping hm []) kind).bind fun t ht => ?_
    obtain ⟨callable, body⟩ := RefersTo.firstOrder ⟨d, ht⟩ (first.operand hm)
    rw [callable]
    exact entered body (Nat.lt_trans (RefersTo.sizeOf_lt ⟨d, ht⟩) (sizeOf_operand_lt hm)) [v]
  cases e with
  | arg p => exact scope.ended_read p
  | const v => exact .inl ⟨v, rfl⟩
  | compare op left right =>
      refine (ended [] left (by simp) scope).bind fun v _ => ?_
      exact (ended [] right (by simp) scope).bind fun w _ => op.ended_apply v w
  | call callee args =>
      have calls := (first _ .self).callee callee args rfl
      obtain ⟨f, rfl⟩ : ∃ f, callee = .const f := by
        rcases calls with ⟨_, _, h⟩ | ⟨_, h⟩ <;> exact ⟨_, h⟩
      have hf : f.FirstOrder := first.operand (o := ⟨[], .const f⟩) (by simp)
      refine (ended_evalAllWith fun a ha => ended [] a (by simp [ha]) scope).bind fun vs _ => ?_
      refine Value.ended_apply hf (fun F hF args => ?_) vs
      have lt := hF.sizeOf_body_lt
      exact entered (hf.body hF) (by simp; omega) args
  | cond test yes no =>
      refine (ended [] test (by simp) scope).bind fun v _ => v.ended_asBool.bind fun b _ => ?_
      cases b with
      | true => exact ended [] yes (by simp) scope
      | false => exact ended [] no (by simp) scope
  | field base id => exact (ended [] base (by simp) scope).bind fun v _ => v.ended_readField id
  | includeEntity kind entity mapping ty =>
      refine (ended [] entity (by simp) scope).bind fun v _ => ?_
      split
      · exact .inl ⟨_, rfl⟩
      · exact mapped mapping (by simp) kind v
  | includeVia kind parent selector mapping ty =>
      obtain ⟨params, body⟩ := selector
      refine (ended [] parent (by simp) scope).bind fun p _ => ?_
      split
      · exact .inl ⟨_, rfl⟩
      · refine (ended_checkArity _ _).bind fun _ _ => ?_
        refine (ended params body (by simp) _).bind fun v _ => ?_
        split
        · exact .inl ⟨_, rfl⟩
        · exact mapped mapping (by simp) kind v
  | isNull negate operand =>
      exact (ended [] operand (by simp) scope).bind fun v _ => .inl ⟨_, rfl⟩
  | list items =>
      refine (ended_evalAllWith fun a ha => ended [] a (by simp [ha]) scope).bind fun vs _ => ?_
      exact .inl ⟨_, rfl⟩
  | map base lambda =>
      obtain ⟨params, body⟩ := lambda
      refine (ended [] base (by simp) scope).bind fun v _ => v.ended_asList.bind fun items _ => ?_
      refine (Outcome.ended_mapM (fun item => ?_) items).bind fun vs _ => .inl ⟨_, rfl⟩
      exact (ended_checkArity _ _).bind fun _ _ => ended params body (by simp) _
  | record model fields =>
      refine (ended_evalAllWith fun a ha => ended [] a (by simp [ha]) scope).bind fun vs _ => ?_
      exact .inl ⟨_, rfl⟩
termination_by sizeOf e

/-- Evaluation ends, with a value or with a fault, if all calls go to constants: there is a depth of
calls that is enough in every scope and for all arguments, whatever functions these hold. -/
theorem FirstOrder.evaluation_ends {e : Expr} (first : e.FirstOrder) :
    ∃ depth, ∀ d, depth ≤ d → (∀ scope, (e.eval d scope).Ended) ∧ (e.evalClosed d).Ended ∧
      ∀ params args, (e.evalAt d params args).Ended ∧ (Func.call d ⟨params, e⟩ args).Ended := by
  refine ⟨sizeOf e, fun d hd => ?_⟩
  have ended := first.ended_eval hd
  have bound (params : List Param) (args : List Value) : (e.evalAt d params args).Ended :=
    (ended_checkArity _ _).bind fun _ _ => ended _
  refine ⟨ended, ended [], fun params args => ⟨bound params args, ?_⟩⟩
  rw [Func.call_eq_evalAt]
  exact bound params args

/-- A marker whose mapping argument calls a function to get at the mapping. -/
def selected : Expr :=
  .includeEntity .ast (.arg ⟨0, "p", .unknown⟩)
    (.call (.const (.func 0 ⟨[⟨1, "f", .unknown⟩], .arg ⟨1, "f", .unknown⟩⟩))
      [.const (.func 1 ⟨[⟨2, "q", .unknown⟩], .list [.arg ⟨2, "q", .unknown⟩]⟩)])
    .unknown

theorem selected_ends : selected.FirstOrder ∧
    ∃ depth, ∀ d, depth ≤ d → (∀ scope, (selected.eval d scope).Ended) ∧
      (selected.evalClosed d).Ended ∧ ∀ params args, (selected.evalAt d params args).Ended ∧
        (Func.call d ⟨params, selected⟩ args).Ended := by
  have arg (p : Param) : (Expr.arg p).FirstOrder := .of_operands ⟨nofun, nofun⟩ nofun (by simp)
  have list (p : Param) : (Expr.list [.arg p]).FirstOrder :=
    .of_operands ⟨nofun, nofun⟩ nofun (by simpa using arg p)
  have constant (label : Nat) {f : Func} (hf : f.body.FirstOrder) :
      (Value.func label f).FirstOrder := by
    refine Value.firstOrder_iff.mpr ⟨nofun, fun F hF => ?_⟩
    cases hF
    exact hf
  have call {f : Value} {a : Expr} (hf : f.FirstOrder) (ha : a.FirstOrder)
      (func : ∃ label F, f = .func label F) : (Expr.call (.const f) [a]).FirstOrder := by
    obtain ⟨label, F, rfl⟩ := func
    refine .of_operands ⟨?_, nofun⟩ nofun (by simpa using ⟨hf, ha⟩)
    rintro _ _ ⟨⟩
    exact .inl ⟨label, F, rfl⟩
  have mapping := call (constant 0 (f := ⟨[⟨1, "f", .unknown⟩], .arg ⟨1, "f", .unknown⟩⟩) (arg _))
    (constant 1 (f := ⟨[⟨2, "q", .unknown⟩], .list [.arg ⟨2, "q", .unknown⟩]⟩) (list _)) ⟨0, _, rfl⟩
  have first : selected.FirstOrder :=
    .of_operands ⟨nofun, nofun⟩ nofun (by simpa [selected] using ⟨arg ⟨0, "p", .unknown⟩, mapping⟩)
  exact ⟨first, first.evaluation_ends⟩

end Expr

end RecordMapping
