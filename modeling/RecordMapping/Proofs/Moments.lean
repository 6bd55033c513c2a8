import RecordMapping.Proofs.Returns
import Mathlib.Logic.Relation

/-!
# Moments of a run

A run that returns passes through moments: an expression and what is known of its parameters when it
is evaluated. Besides the values of the parameters this is where an entity was read, since that
decides which key stands in for it in a null test.

## Implementation notes

The moments of a run are those that the first one leads to. A marker leads to the body of the
function it refers to, so the markers of referenced mappings are met as well. Functions that are
called in the ordinary way are not followed, and neither are mapping arguments: replacing markers
leaves both as they are.
-/

namespace RecordMapping

/-- What holds of everything that steps lead to holds at the start and from every first step on. -/
theorem forall_reached_iff {α : Type} {r : α → α → Prop} {P : α → Prop} {a : α} :
    (∀ b, Relation.ReflTransGen r a b → P b) ↔
      P a ∧ ∀ b, r a b → ∀ d, Relation.ReflTransGen r b d → P d := by
  constructor
  · exact fun h => ⟨h a .refl, fun b hb d hd => h d (.head hb hd)⟩
  · rintro ⟨here, step⟩ d hd
    rcases hd.cases_head with rfl | ⟨b, hb, hd⟩
    · exact here
    · exact step b hb d hd

/-- The record and the relation from which an entity was read. -/
structure Origin where
  record : Value
  navigation : FieldId

/-- The values of the parameters, and the origins of those that are known to have one. -/
structure Env where
  scope : Scope
  origin : Nat → Option Origin

namespace Env

/-- No parameter has a value. -/
def closed : Env := ⟨[], fun _ => none⟩

/-- The arguments of a function, of which no origin is known. -/
def ofArgs (params : List Param) (args : List Value) : Env := ⟨[⟨params, args⟩], fun _ => none⟩

/-- One more parameter with a value and its origin. -/
def push (E : Env) (p : Param) (v : Value) (origin : Option Origin) : Env :=
  ⟨⟨[p], [v]⟩ :: E.scope, fun x => if x = p.id then origin else E.origin x⟩

theorem find?_push (E : Env) (p : Param) (v : Value) (origin : Option Origin) (x : Nat) :
    (E.push p v origin).scope.find? x = if x = p.id then some v else E.scope.find? x :=
  Scope.find?_push p v E.scope x

theorem origin_push (E : Env) (p : Param) (v : Value) (origin : Option Origin) (x : Nat) :
    (E.push p v origin).origin x = if x = p.id then origin else E.origin x := rfl

end Env

namespace Expr

/-- Where the value of the expression is read: a field access reads it from its base, a parameter
has the origin it was given, and nothing is said of other expressions. -/
def ReadsFrom (E : Env) : Expr → Option Origin → Prop
  | .field base navigation, origin =>
      ∃ r, base.Returns E.scope r ∧ origin = some ⟨r, navigation⟩
  | .arg p, origin => origin = E.origin p.id
  | _, origin => origin = none

theorem exists_readsFrom {E : Env} {e : Expr} {v : Value} (h : e.Returns E.scope v) :
    ∃ origin, e.ReadsFrom E origin := by
  cases e with
  | field base navigation =>
      obtain ⟨r, hr, _⟩ := returns_field.mp h
      exact ⟨_, r, hr, rfl⟩
  | _ => exact ⟨_, rfl⟩

theorem ReadsFrom.unique {E : Env} {e : Expr} {origin origin' : Option Origin}
    (h : e.ReadsFrom E origin) (h' : e.ReadsFrom E origin') : origin = origin' := by
  cases e with
  | field base navigation =>
      obtain ⟨r, hr, rfl⟩ := h
      obtain ⟨r', hr', rfl⟩ := h'
      rw [hr.unique hr']
  | _ => exact Eq.trans h h'.symm

/-- The operands without whose values the expression has none. -/
@[simp] def needed : Expr → List Expr
  | .arg _ | .const _ => []
  | .compare _ left right => [left, right]
  | .call callee args => callee :: args
  | .cond test _ _ => [test]
  | .field base _ | .isNull _ base | .map base _ | .includeEntity _ base _ _
  | .includeVia _ base _ _ _ => [base]
  | .list items | .record _ items => items

/-- An evaluation to a value goes through all operands, in the scope of the expression. -/
def Plain : Expr → Prop
  | .cond _ _ _ | .map _ _ | .includeEntity _ _ _ _ | .includeVia _ _ _ _ _ => False
  | _ => True

end Expr

namespace Marker

/-- The entity that the marker meets, with its origin. A parent from which one is picked is not
null. -/
def Meets (m : Marker) (E : Env) (v : Value) (origin : Option Origin) : Prop :=
  match m.source with
  | .entity e => e.Returns E.scope v ∧ e.ReadsFrom E origin
  | .navigation parent selector =>
      ∃ p r o, selector.params = [p] ∧ parent.Returns E.scope r ∧ r ≠ .null ∧
        parent.ReadsFrom E o ∧ selector.body.Returns (E.push p r o).scope v ∧
        selector.body.ReadsFrom (E.push p r o) origin

/-- What has to hold where a run meets a marker, given the key that stands in for each relation in
null tests. -/
structure Admissible (guard : FieldId → Option FieldId) (m : Marker) (E : Env) : Prop where
  /-- A parent is not null. -/
  parent : ∀ parent selector, m.source = .navigation parent selector →
    ¬ parent.Returns E.scope .null
  /-- An entity without a key for the null test is not null. -/
  unguarded : ∀ v origin, m.Meets E v origin →
    (origin.bind fun o => guard o.navigation) = none → v ≠ .null
  /-- A record has the key, and the key is null exactly when the entity is. -/
  guarded : ∀ v record navigation key, m.Meets E v (some ⟨record, navigation⟩) →
    guard navigation = some key →
      ∃ k, record.readField key = .ok k ∧ (k = .null ↔ v = .null)
  /-- What mapping the entity returns is what interpreting the function of the target returns. -/
  compiled : ∀ v origin t, m.Meets E v origin → v ≠ .null → m.mapping.RefersTo m.kind t →
    ∀ u, t.Returns v u → t.function.Returns [v] u

end Marker

/-- An expression that is evaluated, and what is known of its parameters. -/
structure Moment where
  expr : Expr
  env : Env

namespace Moment

/-- Evaluating the first expression to a value takes evaluating the second one. -/
inductive Leads : Moment → Moment → Prop
  | operand {e s E} (h : s ∈ e.needed) : Leads ⟨e, E⟩ ⟨s, E⟩
  | branch {test yes no b E} (h : test.Returns E.scope (.bool b)) :
      Leads ⟨.cond test yes no, E⟩ ⟨if b then yes else no, E⟩
  | item {base lambda p items item E} (h : base.Returns E.scope (.list items))
      (hi : item ∈ items) (hp : lambda.params = [p]) :
      Leads ⟨.map base lambda, E⟩ ⟨lambda.body, E.push p item none⟩
  | selector {kind parent selector mapping ty p r origin E} (h : parent.Returns E.scope r)
      (hr : r ≠ .null) (ho : parent.ReadsFrom E origin) (hp : selector.params = [p]) :
      Leads ⟨.includeVia kind parent selector mapping ty, E⟩ ⟨selector.body, E.push p r origin⟩
  | target {e : Expr} {m t p v origin E} (hm : e.asMarker? = some m) (hv : m.Meets E v origin)
      (hn : v ≠ .null) (ht : m.mapping.RefersTo m.kind t) (hp : t.function.params = [p]) :
      Leads ⟨e, E⟩ ⟨t.function.body, Env.closed.push p v origin⟩

/-- The run comes to the second moment from the first one. -/
def Passes : Moment → Moment → Prop := Relation.ReflTransGen Leads

/-- The expression has the value. -/
def Returns (M : Moment) (v : Value) : Prop := M.expr.Returns M.env.scope v

variable {guard : FieldId → Option FieldId}

/-- If the expression is a marker, what has to hold for it does. -/
def Admissible (guard : FieldId → Option FieldId) (M : Moment) : Prop :=
  ∀ m, M.expr.asMarker? = some m → m.Admissible guard M.env

/-- What has to hold for markers holds for every one that the run meets. -/
def Safe (guard : FieldId → Option FieldId) (M : Moment) : Prop :=
  ∀ M', M.Passes M' → M'.Admissible guard

namespace Safe

variable {M M' : Moment}

theorem here (h : M.Safe guard) : M.Admissible guard := (forall_reached_iff.mp h).1

theorem step (h : M.Safe guard) (hl : M.Leads M') : M'.Safe guard :=
  (forall_reached_iff.mp h).2 M' hl

theorem intro (here : M.Admissible guard) (step : ∀ M', M.Leads M' → M'.Safe guard) :
    M.Safe guard :=
  forall_reached_iff.mpr ⟨here, step⟩

end Safe

section Nodes

variable {E : Env}

theorem Safe.needed {e s : Expr} (h : Safe guard ⟨e, E⟩) (hm : s ∈ e.needed) :
    Safe guard ⟨s, E⟩ :=
  h.step (.operand hm)

/-- A run of an expression that needs all of its operands passes through nothing else. -/
theorem Safe.of_needed {e : Expr} (plain : e.Plain) (h : ∀ s ∈ e.needed, Safe guard ⟨s, E⟩) :
    Safe guard ⟨e, E⟩ := by
  have unmarked : e.asMarker? = none := by cases e <;> first | rfl | cases plain
  refine .intro (fun m hm => ?_) fun M' hl => ?_
  · simp [unmarked] at hm
  · cases hl with
    | operand hm => exact h _ hm
    | target hm => simp [unmarked] at hm
    | branch | item | selector => cases plain

theorem safe_arg {p : Param} : Safe guard ⟨.arg p, E⟩ :=
  .of_needed trivial (by simp)

theorem safe_const {v : Value} : Safe guard ⟨.const v, E⟩ :=
  .of_needed trivial (by simp)

theorem safe_cond {test yes no : Expr} :
    Safe guard ⟨.cond test yes no, E⟩ ↔ Safe guard ⟨test, E⟩ ∧
      ∀ b, test.Returns E.scope (.bool b) → Safe guard ⟨if b then yes else no, E⟩ := by
  constructor
  · intro h
    exact ⟨h.needed (by simp), fun b hb => h.step (.branch hb)⟩
  · rintro ⟨ht, hb⟩
    refine .intro nofun fun M' hl => ?_
    cases hl with
    | operand h =>
        cases List.mem_singleton.mp h
        exact ht
    | branch h => exact hb _ h
    | target hm => cases hm

theorem safe_map {base : Expr} {lambda : Func} :
    Safe guard ⟨.map base lambda, E⟩ ↔ Safe guard ⟨base, E⟩ ∧
      ∀ items, base.Returns E.scope (.list items) → ∀ item ∈ items, ∀ p, lambda.params = [p] →
        Safe guard ⟨lambda.body, E.push p item none⟩ := by
  constructor
  · intro h
    refine ⟨h.needed (by simp), ?_⟩
    exact fun items hb item hi p hp => h.step (.item hb hi hp)
  · rintro ⟨hb, hi⟩
    refine .intro nofun fun M' hl => ?_
    cases hl with
    | operand h =>
        cases List.mem_singleton.mp h
        exact hb
    | item h hm hp => exact hi _ h _ hm _ hp
    | target hm => cases hm

/-- The runs of the functions that a marker refers to are safe. -/
def TargetsSafe (guard : FieldId → Option FieldId) (m : Marker) (E : Env) : Prop :=
  ∀ v origin t p, m.Meets E v origin → v ≠ .null → m.mapping.RefersTo m.kind t →
    t.function.params = [p] → Safe guard ⟨t.function.body, Env.closed.push p v origin⟩

theorem safe_includeEntity {kind : MarkerKind} {entity mapping : Expr} {ty : Ty} :
    Safe guard ⟨.includeEntity kind entity mapping ty, E⟩ ↔
      Marker.Admissible guard ⟨kind, .entity entity, mapping, ty⟩ E ∧ Safe guard ⟨entity, E⟩ ∧
        TargetsSafe guard ⟨kind, .entity entity, mapping, ty⟩ E := by
  constructor
  · intro h
    refine ⟨h.here _ rfl, h.needed (by simp), ?_⟩
    exact fun v origin t p hv hn ht hp => h.step (.target rfl hv hn ht hp)
  · rintro ⟨ha, he, ht⟩
    refine .intro (fun m hm => Option.some.inj hm ▸ ha) fun M' hl => ?_
    cases hl with
    | operand h =>
        cases List.mem_singleton.mp h
        exact he
    | target hm hv hn hr hp =>
        cases hm
        exact ht _ _ _ _ hv hn hr hp

theorem safe_includeVia {kind : MarkerKind} {parent mapping : Expr} {selector : Func} {ty : Ty} :
    Safe guard ⟨.includeVia kind parent selector mapping ty, E⟩ ↔
      Marker.Admissible guard ⟨kind, .navigation parent selector, mapping, ty⟩ E ∧
        Safe guard ⟨parent, E⟩ ∧
        (∀ p r origin, selector.params = [p] → parent.Returns E.scope r → r ≠ .null →
          parent.ReadsFrom E origin → Safe guard ⟨selector.body, E.push p r origin⟩) ∧
        TargetsSafe guard ⟨kind, .navigation parent selector, mapping, ty⟩ E := by
  constructor
  · intro h
    refine ⟨h.here _ rfl, h.needed (by simp), ?_, ?_⟩
    · exact fun p r origin hp hr hn ho => h.step (.selector hr hn ho hp)
    · exact fun v origin t p hv hn ht hp => h.step (.target rfl hv hn ht hp)
  · rintro ⟨ha, hp, hs, ht⟩
    refine .intro (fun m hm => Option.some.inj hm ▸ ha) fun M' hl => ?_
    cases hl with
    | operand h =>
        cases List.mem_singleton.mp h
        exact hp
    | selector hr hn ho hp => exact hs _ _ _ hp hr hn ho
    | target hm hv hn hr hp =>
        cases hm
        exact ht _ _ _ _ hv hn hr hp

end Nodes

end Moment

end RecordMapping
