import RecordMapping.Marker
import RecordMapping.Proofs.Depth
import Mathlib.Data.List.Forall2

/-!
# What a run returns

A run returns a value if it does so within some depth. Since more depth changes no end, a sequence
of runs returns a value exactly when its steps do, each within a depth of its own. This gives one
rule for each kind of expression in which no depth is left.
-/

namespace RecordMapping

/-- The run ends with the result if it is given enough depth. -/
def Yields {α : Type} (run : Nat → Outcome α) (a : α) : Prop := ∃ depth, run depth = .ok a

namespace Steady

variable {α β : Type}

theorem const (x : Outcome α) : Steady fun _ => x := fun _ _ _ => .inr rfl

theorem bind {run : Nat → Outcome α} {next : α → Nat → Outcome β} (h : Steady run)
    (hn : ∀ a, Steady (next a)) : Steady fun d => run d >>= fun a => next a d :=
  fun _ _ hd => Agreement.deeper.bind (h hd) fun a => hn a hd

theorem mapM {f : α → Nat → Outcome β} (h : ∀ a, Steady (f a)) (items : List α) :
    Steady fun d => items.mapM fun a => f a d :=
  fun _ _ hd => Agreement.deeper.mapM fun a _ => h a hd

/-- A run that is left out for an absent value. -/
theorem unlessNull {run : Nat → Outcome Value} (h : Steady run) (v : Value) :
    Steady fun d => if v.isNull then pure .null else run d := by
  cases v.isNull
  · exact h
  · exact .const _

end Steady

namespace Yields

variable {α β : Type}

@[simp] theorem const_iff {x : Outcome α} {a : α} : Yields (fun _ => x) a ↔ x = .ok a := by
  simp [Yields]

@[simp] theorem const_bind_iff {x : Outcome α} {next : α → Nat → Outcome β} {b : β} :
    Yields (fun d => x >>= fun a => next a d) b ↔ ∃ a, x = .ok a ∧ Yields (next a) b := by
  cases x <;> simp [Yields]

theorem unique {run : Nat → Outcome α} (steady : Steady run) {a b : α} (ha : Yields run a)
    (hb : Yields run b) : a = b := by
  obtain ⟨d, hd⟩ := ha
  obtain ⟨d', hd'⟩ := hb
  exact Outcome.ok.inj (Ends.unique steady ⟨nofun, d, hd⟩ ⟨nofun, d', hd'⟩)

/-- A sequence yields a result exactly when both steps do. -/
theorem bind_iff {run : Nat → Outcome α} {next : α → Nat → Outcome β} {b : β} (h : Steady run)
    (hn : ∀ a, Steady (next a)) :
    Yields (fun d => run d >>= fun a => next a d) b ↔ ∃ a, Yields run a ∧ Yields (next a) b := by
  constructor
  · rintro ⟨d, hd⟩
    obtain ⟨a, ha, hb⟩ := Outcome.bind_eq_ok_iff.mp hd
    exact ⟨a, ⟨d, ha⟩, ⟨d, hb⟩⟩
  · rintro ⟨a, ⟨d, ha⟩, ⟨d', hb⟩⟩
    refine ⟨max d d', Outcome.bind_eq_ok_iff.mpr ⟨a, ?_, ?_⟩⟩
    · have hd := Agreement.eq_of_deeper (h (Nat.le_max_left d d'))
      rw [ha] at hd
      exact hd nofun
    · have hd := Agreement.eq_of_deeper (hn a (Nat.le_max_right d d'))
      rw [hb] at hd
      exact hd nofun

theorem unlessNull_iff {run : Nat → Outcome Value} {u v : Value} :
    Yields (fun d => if u.isNull then pure .null else run d) v ↔
      u = .null ∧ v = .null ∨ u ≠ .null ∧ Yields run v := by
  by_cases h : u = .null
  · simp [h, Value.isNull, eq_comm]
  · have hn : u.isNull = false := Bool.eq_false_iff.mpr (mt (Value.isNull_iff u).mp h)
    simp [h, hn]

/-- A run for each item yields results exactly when each of the runs yields its result. -/
theorem mapM_iff {f : α → Nat → Outcome β} (h : ∀ a, Steady (f a)) {items : List α}
    {results : List β} :
    Yields (fun d => items.mapM fun a => f a d) results ↔
      List.Forall₂ (fun a b => Yields (f a) b) items results := by
  induction items generalizing results with
  | nil => cases results <;> simp
  | cons a as ih =>
      simp only [List.mapM_cons]
      rw [bind_iff (h a) fun _ => (Steady.mapM h as).bind fun _ => .const _]
      simp only [bind_iff (Steady.mapM h as) fun _ => Steady.const _, ih]
      cases results with
      | nil => simp
      | cons b bs => simp

end Yields

theorem Callable.steady_call (callee : Callable) (args : List Value) :
    Steady fun d => Callable.call d callee args := fun _ _ hd => call_deeper hd callee args

/-- A call takes one more depth than what it carries out. -/
theorem Callable.yields_call_iff {callee : Callable} {args : List Value} {v : Value} :
    Yields (fun d => Callable.call d callee args) v ↔
      Yields (fun d => callee.callWith (Callable.call d) args) v := by
  constructor
  · rintro ⟨_ | d, hd⟩
    · cases hd
    · exact ⟨d, hd⟩
  · rintro ⟨d, hd⟩
    exact ⟨d + 1, hd⟩

theorem checkArity_eq_ok_iff {expected found : Nat} {u : Unit} :
    checkArity expected found = .ok u ↔ found = expected := by
  by_cases h : found = expected <;> simp [checkArity, Outcome.fail, h]

theorem Value.asBool_eq_ok_iff {v : Value} {b : Bool} : v.asBool = .ok b ↔ v = .bool b := by
  cases v <;> simp [asBool, Outcome.fail]

theorem Value.asList_eq_ok_iff {v : Value} {items : List Value} :
    v.asList = .ok items ↔ v = .list items := by
  cases v <;> simp [asList, Outcome.fail]

/-- The expression has the value in the scope. -/
def Expr.Returns (e : Expr) (scope : Scope) (v : Value) : Prop := Yields (fun d => e.eval d scope) v

/-- Interpreting the function with the arguments returns the value. -/
def Func.Returns (f : Func) (args : List Value) (v : Value) : Prop :=
  Yields (fun d => f.call d args) v

/-- Calling the function value or the mapping with the arguments returns the value. -/
def Value.Returns (callee : Value) (args : List Value) (v : Value) : Prop :=
  Yields (fun d => callee.apply d args) v

/-- Mapping the entity returns the value. -/
def Target.Returns (target : Target) (entity v : Value) : Prop :=
  Yields (fun d => target.call d entity) v

/-- The mapping argument of a marker refers to the target. -/
def Expr.RefersTo (mapping : Expr) (kind : MarkerKind) (target : Target) : Prop :=
  Yields (fun d => Target.resolve kind (mapping.evalClosed d)) target

theorem Expr.steady_eval (e : Expr) (scope : Scope) : Steady fun d => e.eval d scope :=
  fun _ _ hd => eval_deeper hd e scope

theorem Expr.steady_resolve (kind : MarkerKind) (mapping : Expr) :
    Steady fun d => Target.resolve kind (mapping.evalClosed d) :=
  fun _ _ hd => Agreement.deeper.resolve kind (eval_deeper hd mapping [])

theorem Value.steady_apply (callee : Value) (args : List Value) :
    Steady fun d => callee.apply d args :=
  fun _ _ hd => Agreement.deeper.applyWith (Callable.call_deeper hd) callee args

theorem Expr.Returns.unique {e : Expr} {scope : Scope} {v w : Value} (hv : e.Returns scope v)
    (hw : e.Returns scope w) : v = w :=
  Yields.unique (e.steady_eval scope) hv hw

theorem Expr.RefersTo.unique {mapping : Expr} {kind : MarkerKind} {t t' : Target}
    (h : mapping.RefersTo kind t) (h' : mapping.RefersTo kind t') : t = t' :=
  Yields.unique (Expr.steady_resolve kind mapping) h h'

theorem Func.returns_iff {f : Func} {args : List Value} {v : Value} :
    f.Returns args v ↔ args.length = f.arity ∧ f.body.Returns [⟨f.params, args⟩] v := by
  refine Yields.const_bind_iff.trans ?_
  simp only [checkArity_eq_ok_iff]
  exact ⟨fun ⟨_, h, hb⟩ => ⟨h, hb⟩, fun ⟨h, hb⟩ => ⟨(), h, hb⟩⟩

/-- A lambda or a selector returns a value on another one, in the scope around it. -/
def Func.ReturnsOn (f : Func) (scope : Scope) (v u : Value) : Prop :=
  ∃ p, f.params = [p] ∧ f.body.Returns (⟨[p], [v]⟩ :: scope) u

/-- A lambda and a selector take exactly one value. -/
theorem Func.yields_on_iff {f : Func} {scope : Scope} {v u : Value} :
    Yields (fun d => checkArity f.params.length 1 >>= fun _ =>
      f.body.eval d (⟨f.params, [v]⟩ :: scope)) u ↔ f.ReturnsOn scope v u := by
  rw [Yields.const_bind_iff]
  simp only [checkArity_eq_ok_iff]
  constructor
  · rintro ⟨_, h, hb⟩
    obtain ⟨p, hp⟩ := List.length_eq_one_iff.mp h.symm
    exact ⟨p, hp, hp ▸ hb⟩
  · rintro ⟨p, hp, hb⟩
    exact ⟨(), by simp [hp], hp ▸ hb⟩

theorem Func.steady_on (f : Func) (scope : Scope) (v : Value) :
    Steady fun d => checkArity f.params.length 1 >>= fun _ =>
      f.body.eval d (⟨f.params, [v]⟩ :: scope) :=
  (Steady.const _).bind fun _ => f.body.steady_eval _

/-- A function that takes one argument runs as a lambda outside of every scope. -/
theorem Func.returns_singleton_iff {f : Func} {v u : Value} :
    f.Returns [v] u ↔ f.ReturnsOn [] v u := by
  rw [← yields_on_iff]
  rfl

theorem Target.returns_iff {t : Target} {entity v : Value} :
    t.Returns entity v ↔ Yields (fun d => Callable.call d t.callable [entity]) v :=
  Callable.yields_call_iff.symm

namespace Expr

variable {scope : Scope} {v : Value}

theorem evalAllWith_eq_mapM (call : Caller) (es : List Expr) (scope : Scope) :
    evalAllWith call es scope = es.mapM fun e => e.evalWith call scope := by
  induction es with
  | nil => rfl
  | cons e es ih => simp [evalAllWith, ih]

theorem steady_evalAll (es : List Expr) (scope : Scope) :
    Steady fun d => evalAllWith (Callable.call d) es scope := by
  simp only [evalAllWith_eq_mapM]
  exact Steady.mapM (fun e => e.steady_eval scope) es

theorem yields_evalAll_iff {es : List Expr} {vs : List Value} :
    Yields (fun d => evalAllWith (Callable.call d) es scope) vs ↔
      List.Forall₂ (fun e v => e.Returns scope v) es vs := by
  simp only [evalAllWith_eq_mapM]
  exact Yields.mapM_iff fun e => e.steady_eval scope

theorem returns_arg {p : Param} : (arg p).Returns scope v ↔ scope.find? p.id = some v := by
  change Yields (fun _ => scope.read p) v ↔ _
  rw [Yields.const_iff, Scope.read]
  cases scope.find? p.id <;> simp [Outcome.fail]

theorem returns_const {u : Value} : (const u).Returns scope v ↔ u = v := by
  change Yields (fun _ => .ok u) v ↔ _
  simp

theorem returns_compare {op : Comparison} {left right : Expr} :
    (compare op left right).Returns scope v ↔
      ∃ a, left.Returns scope a ∧ ∃ b, right.Returns scope b ∧ op.apply a b = .ok v := by
  change Yields (fun d => left.eval d scope >>= fun a => right.eval d scope >>= fun b =>
    op.apply a b) v ↔ _
  rw [Yields.bind_iff (left.steady_eval scope) fun _ =>
    (right.steady_eval scope).bind fun _ => .const _]
  simp only [Yields.bind_iff (right.steady_eval scope) fun _ => .const _, Yields.const_iff, Returns]

theorem returns_call {callee : Expr} {args : List Expr} :
    (call callee args).Returns scope v ↔ ∃ f, callee.Returns scope f ∧
      ∃ vs, List.Forall₂ (fun a u => a.Returns scope u) args vs ∧ f.Returns vs v := by
  change Yields (fun d => callee.eval d scope >>= fun f =>
    evalAllWith (Callable.call d) args scope >>= fun vs => f.apply d vs) v ↔ _
  rw [Yields.bind_iff (callee.steady_eval scope) fun f =>
    (steady_evalAll args scope).bind fun vs => f.steady_apply vs]
  simp only [Yields.bind_iff (steady_evalAll args scope) (Value.steady_apply _),
    yields_evalAll_iff, Returns, Value.Returns]

theorem returns_cond {test yes no : Expr} :
    (cond test yes no).Returns scope v ↔
      ∃ b, test.Returns scope (.bool b) ∧ (if b then yes else no).Returns scope v := by
  change Yields (fun d => test.eval d scope >>= fun a => a.asBool >>= fun b =>
    if b then yes.eval d scope else no.eval d scope) v ↔ _
  have steady (b : Bool) : Steady fun d => if b then yes.eval d scope else no.eval d scope := by
    cases b
    · exact no.steady_eval scope
    · exact yes.steady_eval scope
  rw [Yields.bind_iff (test.steady_eval scope) fun _ => (Steady.const _).bind steady]
  simp only [Yields.const_bind_iff, Value.asBool_eq_ok_iff]
  constructor
  · rintro ⟨_, ht, b, rfl, hb⟩
    exact ⟨b, ht, by cases b <;> exact hb⟩
  · rintro ⟨b, ht, hb⟩
    exact ⟨_, ht, b, rfl, by cases b <;> exact hb⟩

theorem returns_field {base : Expr} {id : FieldId} :
    (field base id).Returns scope v ↔
      ∃ r, base.Returns scope r ∧ r.readField id = .ok v := by
  change Yields (fun d => base.eval d scope >>= fun r => r.readField id) v ↔ _
  simp only [Yields.bind_iff (base.steady_eval scope) fun _ => .const _, Yields.const_iff, Returns]

theorem returns_isNull {negate : Bool} {operand : Expr} :
    (isNull negate operand).Returns scope v ↔
      ∃ u, operand.Returns scope u ∧ .bool (u.isNull != negate) = v := by
  change Yields (fun d => operand.eval d scope >>= fun u =>
    pure (Value.bool (u.isNull != negate))) v ↔ _
  simp [Yields.bind_iff (operand.steady_eval scope) fun _ => .const _, Returns]

theorem returns_list {items : List Expr} :
    (list items).Returns scope v ↔
      ∃ vs, List.Forall₂ (fun e u => e.Returns scope u) items vs ∧ .list vs = v := by
  change Yields (fun d => evalAllWith (Callable.call d) items scope >>= fun vs =>
    pure (Value.list vs)) v ↔ _
  simp [Yields.bind_iff (steady_evalAll items scope) fun _ => .const _, yields_evalAll_iff]

theorem returns_record {model : ModelId} {fields : List Expr} :
    (record model fields).Returns scope v ↔
      ∃ vs, List.Forall₂ (fun e u => e.Returns scope u) fields vs ∧ .record vs = v := by
  change Yields (fun d => evalAllWith (Callable.call d) fields scope >>= fun vs =>
    pure (Value.record vs)) v ↔ _
  simp [Yields.bind_iff (steady_evalAll fields scope) fun _ => .const _, yields_evalAll_iff]

theorem returns_map {base : Expr} {lambda : Func} :
    (map base lambda).Returns scope v ↔ ∃ items, base.Returns scope (.list items) ∧
      ∃ vs, List.Forall₂ (lambda.ReturnsOn scope) items vs ∧ .list vs = v := by
  obtain ⟨params, body⟩ := lambda
  change Yields (fun d => base.eval d scope >>= fun a => a.asList >>= fun items =>
    (items.mapM fun item => checkArity params.length 1 >>= fun _ =>
      body.eval d (⟨params, [item]⟩ :: scope)) >>= fun vs => pure (.list vs)) v ↔ _
  have steady := Steady.mapM (Func.steady_on ⟨params, body⟩ scope)
  rw [Yields.bind_iff (base.steady_eval scope) fun a =>
    (Steady.const _).bind fun items => (steady items).bind fun _ => .const _]
  simp only [Yields.const_bind_iff, Value.asList_eq_ok_iff]
  constructor
  · rintro ⟨_, hbase, items, rfl, h⟩
    obtain ⟨vs, hvs, h⟩ := (Yields.bind_iff (steady items) fun _ => .const _).mp h
    rw [Yields.mapM_iff (Func.steady_on ⟨params, body⟩ scope)] at hvs
    exact ⟨items, hbase, vs, hvs.imp fun _ _ => Func.yields_on_iff.mp, by simpa using h⟩
  · rintro ⟨items, hbase, vs, hvs, rfl⟩
    refine ⟨_, hbase, items, rfl, (Yields.bind_iff (steady items) fun _ => .const _).mpr ?_⟩
    refine ⟨vs, (Yields.mapM_iff (Func.steady_on ⟨params, body⟩ scope)).mpr ?_, by simp⟩
    exact hvs.imp fun _ _ => Func.yields_on_iff.mpr

theorem steady_mapped (kind : MarkerKind) (mapping : Expr) (entity : Value) :
    Steady fun d => Target.resolve kind (mapping.evalClosed d) >>= fun t =>
      Callable.call d t.callable [entity] :=
  (steady_resolve kind mapping).bind fun _ => Callable.steady_call _ _

theorem yields_mapped_iff {kind : MarkerKind} {mapping : Expr} {entity : Value} :
    Yields (fun d => Target.resolve kind (mapping.evalClosed d) >>= fun t =>
      Callable.call d t.callable [entity]) v ↔
        ∃ t, mapping.RefersTo kind t ∧ t.Returns entity v := by
  rw [Yields.bind_iff (steady_resolve kind mapping) fun t => Callable.steady_call _ _]
  simp only [RefersTo, Target.returns_iff]

/-- What a marker makes of its entity: nothing of an absent one, and what its target returns on
every other one. -/
def Maps (mapping : Expr) (kind : MarkerKind) (entity v : Value) : Prop :=
  entity = .null ∧ v = .null ∨
    entity ≠ .null ∧ ∃ t, mapping.RefersTo kind t ∧ t.Returns entity v

theorem returns_includeEntity {kind : MarkerKind} {entity mapping : Expr} {ty : Ty} :
    (includeEntity kind entity mapping ty).Returns scope v ↔
      ∃ u, entity.Returns scope u ∧ mapping.Maps kind u v := by
  change Yields (fun d => entity.eval d scope >>= fun u => if u.isNull then pure .null else
    Target.resolve kind (mapping.evalClosed d) >>= fun t => Callable.call d t.callable [u]) v ↔ _
  have mapped (u : Value) := (steady_mapped kind mapping u).unlessNull u
  rw [Yields.bind_iff (entity.steady_eval scope) mapped]
  simp only [Yields.unlessNull_iff, yields_mapped_iff, Returns, Maps]

theorem returns_includeVia {kind : MarkerKind} {parent mapping : Expr} {selector : Func}
    {ty : Ty} :
    (includeVia kind parent selector mapping ty).Returns scope v ↔ ∃ p, parent.Returns scope p ∧
      (p = .null ∧ v = .null ∨
        p ≠ .null ∧ ∃ u, selector.ReturnsOn scope p u ∧ mapping.Maps kind u v) := by
  obtain ⟨params, body⟩ := selector
  have picked (p : Value) := Func.steady_on ⟨params, body⟩ scope p
  have mapped (u : Value) := (steady_mapped kind mapping u).unlessNull u
  have run (d : Nat) : (includeVia kind parent ⟨params, body⟩ mapping ty).eval d scope =
      parent.eval d scope >>= fun p => if p.isNull then pure .null else
        (checkArity params.length 1 >>= fun _ => body.eval d (⟨params, [p]⟩ :: scope)) >>= fun u =>
          if u.isNull then pure .null else Target.resolve kind (mapping.evalClosed d) >>= fun t =>
            Callable.call d t.callable [u] := by
    simp only [bind_assoc]
    rfl
  simp only [Returns, run]
  rw [Yields.bind_iff (parent.steady_eval scope) fun p => ((picked p).bind mapped).unlessNull p]
  refine exists_congr fun p => and_congr .rfl ?_
  rw [Yields.unlessNull_iff, Yields.bind_iff (picked p) mapped]
  simp only [Yields.unlessNull_iff, yields_mapped_iff, ← Func.yields_on_iff, Maps]

end Expr

end RecordMapping
