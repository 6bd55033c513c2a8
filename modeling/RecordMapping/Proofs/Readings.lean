import RecordMapping.Proofs.Acyclic
import RecordMapping.Proofs.Compilable

/-!
# What an expression counts for

To a composer, an expression counts for its value and for the key that is tested in its place when
it is an entity. Only a field has such a key, and a parameter that stands for an entity has that of
the entity. A marker counts for what the function that it refers to makes of its entity, behind the
null test for the entity.

All of this can be said of an expression as it is written, with its markers in place: an instance
counts for what the expression does when its parameters stand for what replaces them, and without
markers an expression counts for its value.

## Implementation notes

A reading is what an expression counts for. The recursion follows a marker into the function that it
refers to, which is smaller than the marker.
-/

namespace RecordMapping

/-- What an expression counts for: its value, and the value of the key that a null test for it
reads, if there is one. -/
structure Reading where
  value : Outcome Value
  key : Option (Outcome Value)

namespace Reading

/-- What no null test is made for. -/
def plain (value : Outcome Value) : Reading := ⟨value, none⟩

/-- A field of a record. The null test is made for the key of the field, if it has one. -/
def field (guard : FieldId → Option FieldId) (base : Reading) (id : FieldId) : Reading where
  value := base.value >>= fun v => v.readField id
  key := (guard id).map fun key => base.value >>= fun v => v.readField key

/-- A run behind the null test for an entity. -/
def protect (entity : Reading) (run : Outcome Value) : Outcome Value :=
  match entity.key with
  | some key => key >>= fun k => if k.isNull then .ok .null else run
  | none => run

/-- A null test for the entity lets every run pass. -/
def Present (entity : Reading) : Prop := ∀ run, entity.protect run = run

@[simp] theorem plain_value (value : Outcome Value) : (plain value).value = value := rfl

theorem present_of_key {entity : Reading} (h : entity.key = none) : entity.Present := by
  intro run
  simp [protect, h]

theorem present_plain (value : Outcome Value) : (plain value).Present := present_of_key rfl

/-- What is run behind the null test matters only if the test lets it pass. -/
theorem protect_congr {entity : Reading} {run run' : Outcome Value}
    (h : entity.Present → run = run') : entity.protect run = entity.protect run' := by
  unfold protect
  cases hk : entity.key with
  | none => exact h (present_of_key hk)
  | some key =>
      cases key with
      | ok k =>
          cases hn : k.isNull with
          | true => simp [hn]
          | false =>
              have present : entity.Present := fun run => by simp [protect, hk, hn]
              simp [hn, h present]
      | fault | stuck | outOfDepth => rfl

end Reading

/-- What the parameters stand for. -/
abbrev Readings := Nat → Option Reading

namespace Readings

/-- No parameter stands for anything. -/
def empty : Readings := fun _ => none

/-- One more parameter stands for something; what it stood for before is forgotten. -/
def set (env : Readings) (id : Nat) (reading : Reading) : Readings := fun x =>
  if x = id then some reading else env x

/-- What a parameter stands for. -/
def read (env : Readings) (p : Param) : Reading :=
  (env p.id).getD (.plain (.fail (.unbound p.name)))

/-- What depends on a single parameter, which stands for the given. -/
def bind (env : Readings) (params : List Param) (reading : Reading) (body : Readings → Reading) :
    Reading :=
  match params with
  | [p] => body (env.set p.id reading)
  | _ => .plain (.fail (.arity params.length 1))

@[simp] theorem set_same (env : Readings) (id : Nat) (reading : Reading) :
    env.set id reading id = some reading := by simp [set]

theorem set_other (env : Readings) {id x : Nat} (h : x ≠ id) (reading : Reading) :
    env.set id reading x = env x := by simp [set, h]

theorem bind_congr {env env' : Readings} {params params' : List Param}
    {body body' : Readings → Reading} {reading : Reading} (length : params'.length = params.length)
    (h : ∀ p p', params = [p] → params' = [p'] →
      body' (env'.set p'.id reading) = body (env.set p.id reading)) :
    env'.bind params' reading body' = env.bind params reading body := by
  match params, params', length with
  | [p], [p'], _ => exact h p p' rfl rfl
  | [], [], _ => rfl
  | _ :: _ :: _, _ :: _ :: _, length => simp [bind, length]

theorem value_bind_congr {env : Readings} {params : List Param} {body body' : Readings → Reading}
    {reading : Reading} (h : ∀ p, params = [p] →
      (body (env.set p.id reading)).value = (body' (env.set p.id reading)).value) :
    (env.bind params reading body).value = (env.bind params reading body').value := by
  rcases params with _ | ⟨p, _ | ⟨_, _⟩⟩
  · rfl
  · exact h p rfl
  · rfl

/-- There is a value only for a single parameter. -/
theorem value_bind {env : Readings} {params : List Param} {body : Readings → Reading}
    {reading : Reading} {next : Outcome Value}
    (h : ∀ p, params = [p] → (body (env.set p.id reading)).value = next) :
    (env.bind params reading body).value = (checkArity params.length 1 >>= fun _ => next) := by
  rcases params with _ | ⟨p, _ | ⟨_, _⟩⟩
  · simp [bind, checkArity, Outcome.fail]
  · exact h p rfl
  · simp [bind, checkArity, Outcome.fail]

end Readings

/-- What a mapping argument refers to. -/
noncomputable def Expr.target? (mapping : Expr) (kind : MarkerKind) : Option Target :=
  open Classical in if h : ∃ t, mapping.RefersTo kind t then some h.choose else none

theorem Expr.target?_eq_some_iff {mapping : Expr} {kind : MarkerKind} {t : Target} :
    mapping.target? kind = some t ↔ mapping.RefersTo kind t := by
  unfold target?
  split
  · next h =>
    rw [Option.some.injEq]
    exact ⟨fun ht => ht ▸ h.choose_spec, fun ht => h.choose_spec.unique ht⟩
  · next h => exact ⟨nofun, fun ht => absurd ⟨t, ht⟩ h⟩

mutual

/-- What an expression counts for, with the keys and the calls of a composed function. -/
noncomputable def Expr.reading (guard : FieldId → Option FieldId) (call : Caller) :
    Expr → Readings → Reading
  | .arg p, env => env.read p
  | .compare op left right, env => .plain do
      let v ← (left.reading guard call env).value
      let w ← (right.reading guard call env).value
      op.apply v w
  | .call callee args, env => .plain do
      let f ← (callee.reading guard call env).value
      let vs ← Expr.readingAll guard call args env
      f.applyWith call vs
  | .cond test yes no, env => .plain do
      let v ← (test.reading guard call env).value
      let b ← v.asBool
      if b then (yes.reading guard call env).value else (no.reading guard call env).value
  | .field base id, env => (base.reading guard call env).field guard id
  | .includeEntity kind entity mapping _, env =>
      let related := entity.reading guard call env
      match _ht : mapping.target? kind with
      | some t => .plain (related.protect (Readings.empty.bind t.function.params related
          fun env => t.function.body.reading guard call env).value)
      | none => .plain .stuck
  | .includeVia kind parent ⟨params, body⟩ mapping _, env =>
      let related := env.bind params (parent.reading guard call env)
        fun env => body.reading guard call env
      match _ht : mapping.target? kind with
      | some t => .plain (related.protect (Readings.empty.bind t.function.params related
          fun env => t.function.body.reading guard call env).value)
      | none => .plain .stuck
  | .isNull negate operand, env => .plain do
      let v ← (operand.reading guard call env).value
      return .bool (v.isNull != negate)
  | .list items, env => .plain do
      let vs ← Expr.readingAll guard call items env
      return .list vs
  | .map base ⟨params, body⟩, env => .plain do
      let v ← (base.reading guard call env).value
      let items ← v.asList
      let vs ← items.mapM fun item =>
        (env.bind params (.plain (.ok item)) fun env => body.reading guard call env).value
      return .list vs
  | .record _ fields, env => .plain do
      let vs ← Expr.readingAll guard call fields env
      return .record vs
  | .const v, _ => .plain (.ok v)
termination_by e => sizeOf e
decreasing_by
  all_goals try have := (Expr.target?_eq_some_iff.mp _ht).sizeOf_lt
  all_goals simp
  all_goals omega

/-- The values of expressions, from left to right. -/
noncomputable def Expr.readingAll (guard : FieldId → Option FieldId) (call : Caller) :
    List Expr → Readings → Outcome (List Value)
  | [], _ => .ok []
  | e :: es, env => do
      let v ← (e.reading guard call env).value
      let vs ← Expr.readingAll guard call es env
      return v :: vs
termination_by es => sizeOf es
decreasing_by
  all_goals simp
  all_goals omega

end

variable {guard : FieldId → Option FieldId} {call : Caller}

/-- What a function makes of what its parameter stands for. -/
noncomputable def Func.reading (guard : FieldId → Option FieldId) (call : Caller) (f : Func)
    (entity : Reading) : Reading :=
  Readings.empty.bind f.params entity (f.body.reading guard call)

/-- What the entity of a marker counts for. -/
noncomputable def Source.reading (guard : FieldId → Option FieldId) (call : Caller) :
    Source → Readings → Reading
  | .entity e, env => e.reading guard call env
  | .navigation parent selector, env =>
      env.bind selector.params (parent.reading guard call env) (selector.body.reading guard call)

/-- A marker runs the function that it refers to on its entity, behind the null test. -/
theorem Marker.reading_toExpr {m : Marker} {t : Target} (ht : m.mapping.RefersTo m.kind t)
    (env : Readings) : m.toExpr.reading guard call env =
      .plain ((m.source.reading guard call env).protect
        (t.function.reading guard call (m.source.reading guard call env)).value) := by
  obtain ⟨kind, source, mapping, ty⟩ := m
  have found := Expr.target?_eq_some_iff.mpr ht
  cases source with
  | entity e =>
      rw [Marker.toExpr, Expr.reading]
      split
      · next t' ht' =>
        cases found.symm.trans ht'
        rfl
      · next hnone => cases found.symm.trans hnone
  | navigation parent selector =>
      obtain ⟨params, body⟩ := selector
      rw [Marker.toExpr, Expr.reading]
      split
      · next t' ht' =>
        cases found.symm.trans ht'
        rfl
      · next hnone => cases found.symm.trans hnone

/-- Markers that refer to the same function count for the same if their entities do. -/
theorem Marker.reading_congr (m m' : Marker) {t : Target} (ht : m.mapping.RefersTo m.kind t)
    (ht' : m'.mapping.RefersTo m'.kind t) {env env' : Readings}
    (h : m'.source.reading guard call env' = m.source.reading guard call env) :
    m'.toExpr.reading guard call env' = m.toExpr.reading guard call env := by
  rw [reading_toExpr ht, reading_toExpr ht', h]

namespace Expr

theorem readingAll_congr {es es' : List Expr} {env env' : Readings}
    (h : List.Forall₂
      (fun e e' => (e.reading guard call env).value = (e'.reading guard call env').value) es es') :
    readingAll guard call es env = readingAll guard call es' env' := by
  induction h with
  | nil => simp only [readingAll]
  | cons head _ ih => simp only [readingAll, head, ih]

/-- An expression that is neither a parameter nor a field has no key that is tested for it. -/
theorem key_reading {e : Expr} (arg : ∀ p, e ≠ .arg p) (field : e.asField? = none)
    (env : Readings) : (e.reading guard call env).key = none := by
  cases e with
  | arg p => exact absurd rfl (arg p)
  | field => cases field
  | includeEntity =>
      rw [reading]
      split <;> rfl
  | includeVia kind parent selector =>
      obtain ⟨params, body⟩ := selector
      rw [reading]
      split <;> rfl
  | map base lambda =>
      obtain ⟨params, body⟩ := lambda
      rw [reading]
      rfl
  | _ =>
      rw [reading]
      rfl

theorem bind_reading_congr {body : Expr} {params : List Param} {env env' : Readings}
    (ih : ∀ {env env' : Readings}, (∀ x, body.Reads x → env x = env' x) →
      body.reading guard call env = body.reading guard call env') (entity : Reading)
    (h : ∀ x, (∀ p ∈ params, p.id ≠ x) → body.Reads x → env x = env' x) :
    (env.bind params entity fun env => body.reading guard call env) =
      env'.bind params entity fun env => body.reading guard call env := by
  refine Readings.bind_congr rfl ?_
  rintro p _ rfl ⟨⟩
  refine ih fun x hx => ?_
  by_cases hp : x = p.id
  · rw [hp, Readings.set_same, Readings.set_same]
  · rw [Readings.set_other _ hp, Readings.set_other _ hp]
    exact h x (by simpa using Ne.symm hp) hx

/-- What an expression counts for depends on the parameters that it reads. -/
theorem reading_congr (e : Expr) {env env' : Readings} (h : ∀ x, e.Reads x → env x = env' x) :
    e.reading guard call env = e.reading guard call env' := by
  induction e generalizing env env' with
  | arg p => simp only [reading, Readings.read, h p.id (by simp)]
  | const v => simp only [reading]
  | compare op left right ihl ihr =>
      simp only [reading]
      rw [ihl fun x hx => h x (by simp [hx]), ihr fun x hx => h x (by simp [hx])]
  | call callee args ihf iha =>
      simp only [reading]
      rw [ihf fun x hx => h x (by simp [hx]),
        readingAll_congr (List.forall₂_same.mpr fun a ha => ?_)]
      exact congrArg Reading.value (iha a ha fun x hx => h x (reads_call.mpr (.inr ⟨a, ha, hx⟩)))
  | cond test yes no iht ihy ihn =>
      simp only [reading]
      rw [iht fun x hx => h x (by simp [hx]), ihy fun x hx => h x (by simp [hx]),
        ihn fun x hx => h x (by simp [hx])]
  | field base id ih =>
      simp only [reading]
      rw [ih fun x hx => h x (by simp [hx])]
  | includeEntity kind entity mapping ty ihe _ =>
      simp only [reading]
      rw [ihe fun x hx => h x (by simp [hx])]
  | includeVia kind parent params body mapping ty ihp ihb _ =>
      have picked := bind_reading_congr ihb (parent.reading guard call env')
        fun x hb hx => h x (reads_includeVia.mpr (.inr ⟨hb, hx⟩))
      simp only [reading]
      rw [ihp fun x hx => h x (by simp [hx]), picked]
  | isNull negate operand ih =>
      simp only [reading]
      rw [ih fun x hx => h x (by simp [hx])]
  | list items ih =>
      simp only [reading]
      rw [readingAll_congr (List.forall₂_same.mpr fun a ha => ?_)]
      exact congrArg Reading.value (ih a ha fun x hx => h x (reads_list.mpr ⟨a, ha, hx⟩))
  | map base params body ihl ihb =>
      have each (item : Value) := bind_reading_congr ihb (.plain (.ok item))
        fun x hb hx => h x (reads_map.mpr (.inr ⟨hb, hx⟩))
      simp only [reading]
      rw [ihl fun x hx => h x (by simp [hx])]
      simp only [each]
  | record model fields ih =>
      simp only [reading]
      rw [readingAll_congr (List.forall₂_same.mpr fun a ha => ?_)]
      exact congrArg Reading.value (ih a ha fun x hx => h x (reads_record.mpr ⟨a, ha, hx⟩))

end Expr

/-- What stands in the place of a parameter counts for what the parameter does, also where further
parameters are bound that were given out later. -/
def Readings.Fits (guard : FieldId → Option FieldId) (call : Caller) (n : Nat)
    (replacement : Replacement) (env env' : Readings) (p : Param) : Prop :=
  ∀ inner : Readings, (∀ x < n, inner x = env x) →
    ((replacement p.id).getD (.arg p)).reading guard call inner = env'.read p

namespace Readings.Fits

variable {n k : Nat} {replacement : Replacement} {env env' : Readings} {p q : Param}

theorem mono (h : Fits guard call n replacement env env' p) (hk : n ≤ k) :
    Fits guard call k replacement env env' p :=
  fun inner agree => h inner fun x hx => agree x (Nat.lt_of_lt_of_le hx hk)

/-- Under a renamed binder the new parameter counts for what the old one does. -/
theorem push (h : q.id ≠ p.id → Fits guard call n replacement env env' q) (entity : Reading) :
    Fits guard call (n + 1) (replacement.set p.id (.arg { p with id := n })) (env.set n entity)
      (env'.set p.id entity) q := by
  intro inner agree
  by_cases hq : q.id = p.id
  · have new : inner n = some entity := by rw [agree n (Nat.lt_succ_self n), set_same]
    simp [hq, Expr.reading, read, new]
  · have outer : inner.read q = inner.read q := rfl
    rw [Replacement.set_other _ hq, h hq inner fun x hx => ?_, read, read, set_other _ hq]
    rw [agree x (Nat.lt_succ_of_lt hx), set_other _ (Nat.ne_of_lt hx)]

end Readings.Fits

namespace Expr

/-- An instance of the body under a binder counts for what the body does. -/
theorem bind_instantiate {body : Expr} {params : List Param} {replacement : Replacement} {n : Nat}
    {env env' : Readings}
    (ih : ∀ {n : Nat} {replacement : Replacement} {env env' : Readings},
      (∀ p : Param, body.Reads p.id → Readings.Fits guard call n replacement env env' p) →
      (body.instantiate replacement n).1.reading guard call env = body.reading guard call env')
    (entity : Reading)
    (h : ∀ p : Param, (∀ q ∈ params, q.id ≠ p.id) → body.Reads p.id →
      Readings.Fits guard call n replacement env env' p) :
    (env.bind (freshen params replacement n).params entity fun env =>
      (body.instantiate (freshen params replacement n).replacement
        (freshen params replacement n).next).1.reading guard call env) =
      env'.bind params entity fun env => body.reading guard call env := by
  refine Readings.bind_congr (length_freshen params replacement n) ?_
  rintro p _ rfl ⟨⟩
  exact ih fun q hq => .push (fun hqp => h q (by simpa using Ne.symm hqp) hq) entity

theorem readingAll_instantiate {es : List Expr} {n : Nat} {replacement : Replacement}
    {env env' : Readings} (each : ∀ e ∈ es, ∀ k, n ≤ k →
      (e.instantiate replacement k).1.reading guard call env = e.reading guard call env') :
    readingAll guard call (instantiateAll es replacement n).1 env = readingAll guard call es env' :=
  (readingAll_congr (forall₂_instantiateAll fun e he k hk =>
    congrArg Reading.value (each e he k hk).symm)).symm

/-- An instance counts for what the expression does, if what stands in the place of its parameters
counts for what they do. -/
theorem reading_instantiate {e : Expr} (settled : e.Settled) {n : Nat} {replacement : Replacement}
    {env env' : Readings}
    (h : ∀ p : Param, e.Reads p.id → Readings.Fits guard call n replacement env env' p) :
    (e.instantiate replacement n).1.reading guard call env = e.reading guard call env' := by
  induction e generalizing n replacement env env' with
  | arg p => simpa only [instantiate, reading] using h p (by simp) env fun _ _ => rfl
  | const v => simp only [instantiate, reading]
  | compare op left right ihl ihr =>
      have hn := left.le_instantiate replacement n
      have left := ihl (settled.operand (o := ⟨[], left⟩) (by simp)) fun p hp => h p (by simp [hp])
      have right := ihr (settled.operand (o := ⟨[], right⟩) (by simp))
        fun p hp => (h p (by simp [hp])).mono hn
      simp only [instantiate, reading, left, right]
  | call callee args ihf iha =>
      have hn := callee.le_instantiate replacement n
      have callee := ihf (settled.operand (o := ⟨[], callee⟩) (by simp))
        fun p hp => h p (by simp [hp])
      have args := readingAll_instantiate (fun a ha k hk => iha a ha
        (settled.operand (o := ⟨[], a⟩) (by simp [ha])) fun p hp =>
          (h p (reads_call.mpr (.inr ⟨a, ha, hp⟩))).mono (Nat.le_trans hn hk))
      simp only [instantiate, reading, callee, args]
  | cond test yes no iht ihy ihn =>
      have ht := test.le_instantiate replacement n
      have hy := Nat.le_trans ht (yes.le_instantiate replacement (test.instantiate replacement n).2)
      have test := iht (settled.operand (o := ⟨[], test⟩) (by simp)) fun p hp => h p (by simp [hp])
      have yes := ihy (settled.operand (o := ⟨[], yes⟩) (by simp))
        fun p hp => (h p (by simp [hp])).mono ht
      have no := ihn (settled.operand (o := ⟨[], no⟩) (by simp))
        fun p hp => (h p (by simp [hp])).mono hy
      simp only [instantiate, reading, test, yes, no]
  | field base id ih =>
      have base := ih (settled.operand (o := ⟨[], base⟩) (by simp)) fun p hp => h p (by simp [hp])
      simp only [instantiate, reading, base]
  | includeEntity kind entity mapping ty ihe _ =>
      obtain ⟨t, ht⟩ := settled ⟨kind, .entity entity, mapping, ty⟩ .self
      have source := ihe (settled.operand (o := ⟨[], entity⟩) (by simp))
        fun p hp => h p (by simp [hp])
      exact Marker.reading_congr ⟨kind, .entity entity, mapping, ty⟩ ⟨kind, .entity _, _, ty⟩ ht
        (ht.instantiate _ _) source
  | includeVia kind parent params body mapping ty ihp ihb _ =>
      obtain ⟨t, ht⟩ := settled ⟨kind, .navigation parent ⟨params, body⟩, mapping, ty⟩ .self
      have hn := parent.le_instantiate replacement n
      have record := ihp (settled.operand (o := ⟨[], parent⟩) (by simp))
        fun p hp => h p (by simp [hp])
      have picked := bind_instantiate (ihb (settled.operand (o := ⟨params, body⟩) (by simp)))
        (parent.reading guard call env') fun p hb hp =>
          (h p (reads_includeVia.mpr (.inr ⟨hb, hp⟩))).mono hn
      refine Marker.reading_congr ⟨kind, .navigation parent ⟨params, body⟩, mapping, ty⟩
        ⟨kind, .navigation _ ⟨_, _⟩, _, ty⟩ ht (ht.instantiate _ _) ?_
      rw [Source.reading, record]
      exact picked
  | isNull negate operand ih =>
      have operand := ih (settled.operand (o := ⟨[], operand⟩) (by simp))
        fun p hp => h p (by simp [hp])
      simp only [instantiate, reading, operand]
  | list items ih =>
      have items := readingAll_instantiate (fun a ha k hk => ih a ha
        (settled.operand (o := ⟨[], a⟩) (by simp [ha])) fun p hp =>
          (h p (reads_list.mpr ⟨a, ha, hp⟩)).mono hk)
      simp only [instantiate, reading, items]
  | map base params body ihl ihb =>
      have hn := base.le_instantiate replacement n
      have base := ihl (settled.operand (o := ⟨[], base⟩) (by simp)) fun p hp => h p (by simp [hp])
      have each (item : Value) :=
        bind_instantiate (ihb (settled.operand (o := ⟨params, body⟩) (by simp))) (.plain (.ok item))
          fun p hb hp => (h p (reads_map.mpr (.inr ⟨hb, hp⟩))).mono hn
      simp only [instantiate, reading, base, each]
  | record model fields ih =>
      have fields := readingAll_instantiate (fun a ha k hk => ih a ha
        (settled.operand (o := ⟨[], a⟩) (by simp [ha])) fun p hp =>
          (h p (reads_record.mpr ⟨a, ha, hp⟩)).mono hk)
      simp only [instantiate, reading, fields]

end Expr

/-- The parameters count for what they are bound to in the scope. -/
def Readings.Follows (env : Readings) (scope : Scope) : Prop :=
  ∀ p : Param, (env.read p).value = scope.read p

theorem Readings.Follows.push {env : Readings} {scope : Scope} (h : env.Follows scope) (p : Param)
    (v : Value) : (env.set p.id (.plain (.ok v))).Follows (⟨[p], [v]⟩ :: scope) := by
  intro q
  by_cases hq : q.id = p.id
  · simp [read, hq, Scope.read, Scope.find?_push]
  · have outer := h q
    simp only [read, set_other _ hq, Scope.read, Scope.find?_push, if_neg hq] at outer ⊢
    exact outer

namespace Expr

theorem readingAll_eq_evalAllWith {es : List Expr} {env : Readings} {scope : Scope}
    (each : ∀ e ∈ es, (e.reading guard call env).value = e.evalWith call scope) :
    readingAll guard call es env = evalAllWith call es scope := by
  induction es with
  | nil => simp only [readingAll, evalAllWith]
  | cons e es ih =>
      simp only [readingAll, evalAllWith, each e (by simp), ih fun a ha => each a (by simp [ha])]

/-- Without markers an expression counts for its value. -/
theorem value_reading {e : Expr} (flat : e.Flat) {env : Readings} {scope : Scope}
    (h : env.Follows scope) : (e.reading guard call env).value = e.evalWith call scope := by
  induction e generalizing env scope with
  | arg p => simpa only [reading, evalWith] using h p
  | const v => simp only [reading, evalWith, Reading.plain_value]
  | compare op left right ihl ihr =>
      have left := ihl (flat.operand (o := ⟨[], left⟩) (by simp)) h
      have right := ihr (flat.operand (o := ⟨[], right⟩) (by simp)) h
      simp only [reading, evalWith, Reading.plain_value, left, right]
  | call callee args ihf iha =>
      have callee := ihf (flat.operand (o := ⟨[], callee⟩) (by simp)) h
      have args := readingAll_eq_evalAllWith fun a ha =>
        iha a ha (flat.operand (o := ⟨[], a⟩) (by simp [ha])) h
      simp only [reading, evalWith, Reading.plain_value, callee, args]
  | cond test yes no iht ihy ihn =>
      have test := iht (flat.operand (o := ⟨[], test⟩) (by simp)) h
      have yes := ihy (flat.operand (o := ⟨[], yes⟩) (by simp)) h
      have no := ihn (flat.operand (o := ⟨[], no⟩) (by simp)) h
      simp only [reading, evalWith, Reading.plain_value, test, yes, no]
  | field base id ih =>
      have base := ih (flat.operand (o := ⟨[], base⟩) (by simp)) h
      simp only [reading, evalWith, Reading.field, base]
  | includeEntity | includeVia => cases (flat_iff.mp flat).1
  | isNull negate operand ih =>
      have operand := ih (flat.operand (o := ⟨[], operand⟩) (by simp)) h
      simp only [reading, evalWith, Reading.plain_value, operand]
  | list items ih =>
      have items := readingAll_eq_evalAllWith fun a ha =>
        ih a ha (flat.operand (o := ⟨[], a⟩) (by simp [ha])) h
      simp only [reading, evalWith, Reading.plain_value, items]
  | record model fields ih =>
      have fields := readingAll_eq_evalAllWith fun a ha =>
        ih a ha (flat.operand (o := ⟨[], a⟩) (by simp [ha])) h
      simp only [reading, evalWith, Reading.plain_value, fields]
  | map base params body ihl ihb =>
      have base := ihl (flat.operand (o := ⟨[], base⟩) (by simp)) h
      have each (item : Value) :
          (env.bind params (.plain (.ok item)) fun env => body.reading guard call env).value =
            (checkArity params.length 1 >>= fun _ =>
              body.evalWith call (⟨params, [item]⟩ :: scope)) := by
        refine Readings.value_bind ?_
        rintro p rfl
        exact ihb (flat.operand (o := ⟨[p], body⟩) (by simp)) (h.push p item)
      simp only [reading, evalWith, Reading.plain_value, base, each]

end Expr

end RecordMapping
