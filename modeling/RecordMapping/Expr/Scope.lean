import RecordMapping.Expr.Basic
import RecordMapping.Outcome

/-!
# Scopes

A scope is a stack of layers, innermost first. A layer binds a list of parameters to a list of
arguments by position.

## Implementation notes

The innermost layer that lists a parameter decides, and within it the first position; if that
layer has no argument there, the parameter has no value.
-/

namespace RecordMapping

/-- Parameters bound to arguments by position. -/
structure Layer where
  params : List Param
  args : List Value

/-- Layers from the innermost outwards. -/
abbrev Scope := List Layer

/-- The position of a parameter in the layer. -/
def Layer.position? (layer : Layer) (id : Nat) : Option Nat :=
  layer.params.findIdx? fun p => decide (p.id = id)

namespace Scope

/-- The value of a parameter. -/
def find? : Scope → Nat → Option Value
  | [], _ => none
  | layer :: outer, id =>
      match layer.position? id with
      | some i => layer.args[i]?
      | none => find? outer id

/-- The value of a parameter, or the fault that it has none. -/
def read (scope : Scope) (p : Param) : Outcome Value :=
  match scope.find? p.id with
  | some v => .ok v
  | none => .fail (.unbound p.name)

@[simp] theorem find?_nil (id : Nat) : find? [] id = none := rfl

theorem find?_cons_of_none {layer : Layer} {id : Nat} (h : layer.position? id = none)
    (outer : Scope) : find? (layer :: outer) id = find? outer id := by
  simp [find?, h]

theorem find?_cons_of_some {layer : Layer} {id : Nat} {i : Nat}
    (h : layer.position? id = some i) (outer : Scope) :
    find? (layer :: outer) id = layer.args[i]? := by
  simp [find?, h]

end Scope

end RecordMapping
