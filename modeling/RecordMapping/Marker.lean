import RecordMapping.Call
import RecordMapping.Expr.Binding

/-!
# Markers

A marker names a mapping and says where the related entity comes from: from an expression, or from
a parent record by a selector. What it refers to has to be known ahead of any record.
-/

namespace RecordMapping

/-- Where the related entity of a marker comes from. -/
inductive Source where
  | entity (e : Expr)
  | navigation (parent : Expr) (selector : Func)

/-- A marker, taken out of its expression. -/
structure Marker where
  kind : MarkerKind
  source : Source
  mapping : Expr
  /-- The declared type of the result. -/
  ty : Ty

/-- The marker that an expression is. -/
def Expr.asMarker? : Expr → Option Marker
  | .includeEntity kind entity mapping ty => some ⟨kind, .entity entity, mapping, ty⟩
  | .includeVia kind parent selector mapping ty =>
      some ⟨kind, .navigation parent selector, mapping, ty⟩
  | _ => none

/-- The arguments of a call, evaluated outside of every scope. -/
def Expr.closedArguments (depth : Nat) (args : List Expr) : Outcome (List Value) :=
  Expr.evalAllWith (Callable.call depth) args []

namespace Marker

/-- The expression that a marker is. -/
def toExpr (m : Marker) : Expr :=
  match m.source with
  | .entity e => .includeEntity m.kind e m.mapping m.ty
  | .navigation parent selector => .includeVia m.kind parent selector m.mapping m.ty

/-- What the marker refers to. -/
def resolve (depth : Nat) (m : Marker) : Outcome Target :=
  Target.resolve m.kind (m.mapping.evalClosed depth)

/-- The expression of the related entity, and the next unused identity: the selector is bound to
the parent. -/
def entity (m : Marker) (next : Nat) : Outcome (Expr × Nat) :=
  match m.source with
  | .entity e => .ok (e, next)
  | .navigation parent selector => selector.bindBody [some parent] next

/-- The arguments that say where the entity comes from, by name, evaluated outside of every scope.
A selector is given as a function with the label `fresh`. -/
def sourceArguments (depth : Nat) (fresh : Nat) : Source → Outcome (List (String × Value))
  | .entity e => do
      let v ← e.evalClosed depth
      return [("entity", v)]
  | .navigation parent selector => do
      let v ← parent.evalClosed depth
      return [("parent", v), ("selector", .func fresh selector)]

/-- The arguments of the marker by name, the mapping last. -/
def closedArguments (depth : Nat) (m : Marker) (fresh : Nat) :
    Outcome (List (String × Value)) := do
  let first ← sourceArguments depth fresh m.source
  let mapping ← m.mapping.evalClosed depth
  return first ++ [("mapping", mapping)]

@[simp] theorem asMarker?_toExpr (m : Marker) : m.toExpr.asMarker? = some m := by
  rcases m with ⟨kind, source, mapping, ty⟩
  cases source <;> rfl

theorem asMarker?_eq_some_iff (e : Expr) (m : Marker) : e.asMarker? = some m ↔ e = m.toExpr := by
  constructor
  · intro h
    cases e <;> simp [Expr.asMarker?] at h <;> subst h <;> rfl
  · rintro rfl
    exact asMarker?_toExpr m

end Marker

end RecordMapping
