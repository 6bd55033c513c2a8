import RecordMapping.Expr.Scope
import RecordMapping.Mapping
import RecordMapping.Value.Order

/-!
# Evaluating expressions

Operands are evaluated from left to right and the first fault ends the run. Only the chosen branch
of a condition is evaluated. A marker evaluates its entity first; the mapping argument is looked at
only when there is an entity, and outside of every scope.

## Implementation notes

Evaluation is structural in the expression. Calls of functions and of code go through `call`, and
a marker's selector and a lambda run in the scope around them.
-/

namespace RecordMapping

/-- Refuse a list of arguments that does not match the parameters. -/
def checkArity (expected found : Nat) : Outcome Unit :=
  if found = expected then .ok () else .fail (.arity expected found)

@[simp] theorem checkArity_self (n : Nat) : checkArity n n = .ok () := by simp [checkArity]

mutual

/-- The value of an expression in a scope. -/
def Expr.evalWith (call : Caller) : Expr → Scope → Outcome Value
  | .arg p, scope => scope.read p
  | .compare op left right, scope => do
      let v ← left.evalWith call scope
      let w ← right.evalWith call scope
      op.apply v w
  | .call callee args, scope => do
      let f ← callee.evalWith call scope
      let vs ← Expr.evalAllWith call args scope
      f.applyWith call vs
  | .cond test yes no, scope => do
      let v ← test.evalWith call scope
      let b ← v.asBool
      if b then yes.evalWith call scope else no.evalWith call scope
  | .field base id, scope => do
      let v ← base.evalWith call scope
      v.readField id
  | .includeEntity kind entity mapping _, scope => do
      let v ← entity.evalWith call scope
      if v.isNull then return .null else do
        let target ← Target.resolve kind (mapping.evalWith call [])
        call target.callable [v]
  | .includeVia kind parent ⟨params, body⟩ mapping _, scope => do
      let p ← parent.evalWith call scope
      if p.isNull then return .null else do
        checkArity params.length 1
        let v ← body.evalWith call (⟨params, [p]⟩ :: scope)
        if v.isNull then return .null else do
          let target ← Target.resolve kind (mapping.evalWith call [])
          call target.callable [v]
  | .isNull negate operand, scope => do
      let v ← operand.evalWith call scope
      return .bool (v.isNull != negate)
  | .list items, scope => do
      let vs ← Expr.evalAllWith call items scope
      return .list vs
  | .map base ⟨params, body⟩, scope => do
      let v ← base.evalWith call scope
      let items ← v.asList
      let vs ← items.mapM fun item => do
        checkArity params.length 1
        body.evalWith call (⟨params, [item]⟩ :: scope)
      return .list vs
  | .record _ fields, scope => do
      let vs ← Expr.evalAllWith call fields scope
      return .record vs
  | .const v, _ => .ok v

/-- The values of expressions, from left to right. -/
def Expr.evalAllWith (call : Caller) : List Expr → Scope → Outcome (List Value)
  | [], _ => .ok []
  | e :: es, scope => do
      let v ← e.evalWith call scope
      let vs ← Expr.evalAllWith call es scope
      return v :: vs

end

/-- Interpret a function: its body in the scope of its arguments alone. -/
def Func.callWith (call : Caller) (f : Func) (args : List Value) : Outcome Value := do
  checkArity f.arity args.length
  f.body.evalWith call [⟨f.params, args⟩]

/-- Arguments of the wrong number are refused before the body is looked at. -/
theorem Func.callWith_of_length_ne {call : Caller} {f : Func} {args : List Value}
    (h : args.length ≠ f.arity) :
    f.callWith call args = .fail (.arity f.arity args.length) := by
  simp [callWith, checkArity, h, Outcome.fail]

end RecordMapping
