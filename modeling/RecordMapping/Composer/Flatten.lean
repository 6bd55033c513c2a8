import RecordMapping.Composer.Basic
import RecordMapping.Compiled.OfFunc
import RecordMapping.Expr.Walk

/-!
# Composing mappings

Composing replaces every marker of a function, and then every marker of what was put in its place,
until none is left. The operands of a marker are not visited on their own: they are reached as part
of the expression that replaces it. The first fault ends the run.

## Implementation notes

`Expr.flattenWith` is structural and replaces the outermost markers in a given way. The depth bounds
how far replacements are followed into each other.
-/

namespace RecordMapping

mutual

/-- The expression with its outermost markers replaced, from left to right. -/
def Expr.flattenWith (inline : Marker → Stateful Workspace Expr) :
    Expr → Stateful Workspace Expr
  | .arg p => pure (.arg p)
  | .compare op left right => do
      let l ← left.flattenWith inline
      let r ← right.flattenWith inline
      return .compare op l r
  | .call callee args => do
      let f ← callee.flattenWith inline
      let as ← Expr.flattenAllWith inline args
      return .call f as
  | .cond test yes no => do
      let t ← test.flattenWith inline
      let y ← yes.flattenWith inline
      let n ← no.flattenWith inline
      return .cond t y n
  | .field base id => do
      let b ← base.flattenWith inline
      return .field b id
  | .includeEntity kind entity mapping ty => inline ⟨kind, .entity entity, mapping, ty⟩
  | .includeVia kind parent selector mapping ty =>
      inline ⟨kind, .navigation parent selector, mapping, ty⟩
  | .isNull negate operand => do
      let e ← operand.flattenWith inline
      return .isNull negate e
  | .list items => do
      let es ← Expr.flattenAllWith inline items
      return .list es
  | .map base ⟨params, body⟩ => do
      let l ← base.flattenWith inline
      let b ← body.flattenWith inline
      return .map l ⟨params, b⟩
  | .record model fields => do
      let es ← Expr.flattenAllWith inline fields
      return .record model es
  | .const v => pure (.const v)
termination_by structural e => e

/-- The expressions with their outermost markers replaced, from left to right. -/
def Expr.flattenAllWith (inline : Marker → Stateful Workspace Expr) :
    List Expr → Stateful Workspace (List Expr)
  | [] => pure []
  | e :: es => do
      let h ← e.flattenWith inline
      let t ← Expr.flattenAllWith inline es
      return h :: t
termination_by structural es => es

end

namespace Composer

/-- The expression with every marker replaced, and every marker of the replacements in turn. -/
def flatten (c : Composer) : Nat → Expr → Stateful Workspace Expr
  | 0, _ => Stateful.lift .outOfDepth
  | depth + 1, e =>
      e.flattenWith fun m => do
        let inlined ← c.inlineOnce depth m
        c.flatten depth inlined

/-- The function with every marker replaced. Its parameters stay as they are. -/
def composeFunc (c : Composer) (depth : Nat) (f : Func) : Stateful Workspace Func := do
  let body ← c.flatten depth f.body
  return ⟨f.params, body⟩

/-- The mapping of a function: its expression is composed, and its compiled form is compiled from
the function as written, so that markers run the code of the mappings they refer to. -/
def compose (c : Composer) (depth : Nat) (f : Func) : Stateful Workspace Mapping := do
  let composed ← c.composeFunc depth f
  let compiled ← Stateful.lift (f.compile depth)
  let label ← Workspace.freshLabel
  return ⟨label, composed, some compiled⟩

end Composer

end RecordMapping
