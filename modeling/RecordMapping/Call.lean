import RecordMapping.Compiled.Run

/-!
# Calls to a bounded depth

A call of a function or of code may call others in turn. The depth is the number of calls that may
be nested; a run that needs more ends without an answer.

## Implementation notes

Only calls count. Nested expressions, lambdas and selectors do not, since they are part of the
expression that runs. A greater depth never changes an answer, so a run that has one at some depth
has it at every greater depth.
-/

namespace RecordMapping

/-- Carry out one call, and the calls inside it in the given way. -/
def Callable.callWith (call : Caller) : Callable → List Value → Outcome Value
  | .interpreted f, args => f.callWith call args
  | .compiled c, args => c.callWith call args

/-- Carry out a call with at most the given number of calls nested, itself included. -/
def Callable.call : Nat → Caller
  | 0 => fun _ _ => .outOfDepth
  | depth + 1 => Callable.callWith (Callable.call depth)

@[simp] theorem Callable.call_zero (callee : Callable) (args : List Value) :
    Callable.call 0 callee args = .outOfDepth := rfl

theorem Callable.call_succ (depth : Nat) (callee : Callable) (args : List Value) :
    Callable.call (depth + 1) callee args = callee.callWith (Callable.call depth) args := rfl

/-- The value of an expression in a scope. -/
def Expr.eval (depth : Nat) (e : Expr) (scope : Scope) : Outcome Value :=
  e.evalWith (Callable.call depth) scope

/-- The value of an expression outside of every scope. -/
def Expr.evalClosed (depth : Nat) (e : Expr) : Outcome Value := e.eval depth []

/-- The value of an expression with parameters bound to arguments. -/
def Expr.evalAt (depth : Nat) (e : Expr) (params : List Param) (args : List Value) :
    Outcome Value := do
  checkArity params.length args.length
  e.eval depth [⟨params, args⟩]

/-- Interpret a function. -/
def Func.call (depth : Nat) (f : Func) (args : List Value) : Outcome Value :=
  f.callWith (Callable.call depth) args

/-- Run compiled code. -/
def Compiled.call (depth : Nat) (c : Compiled) (args : List Value) : Outcome Value :=
  c.callWith (Callable.call depth) args

/-- Call a function value or a mapping. -/
def Value.apply (depth : Nat) (v : Value) (args : List Value) : Outcome Value :=
  v.applyWith (Callable.call depth) args

/-- Map one record in memory. -/
def Mapping.call (depth : Nat) (m : Mapping) (row : Value) : Outcome Value :=
  m.callable.callWith (Callable.call depth) [row]

/-- Map the records of a collection, up to the first that fails. -/
def Mapping.callAll (depth : Nat) (m : Mapping) (rows : List Value) : Outcome (List Value) :=
  rows.mapM (m.call depth)

/-- Map one entity in memory. -/
def Target.call (depth : Nat) (target : Target) (entity : Value) : Outcome Value :=
  target.callable.callWith (Callable.call depth) [entity]

/-- Interpreting a function is evaluating its body with its parameters bound. -/
theorem Func.call_eq_evalAt (depth : Nat) (f : Func) (args : List Value) :
    f.call depth args = f.body.evalAt depth f.params args := rfl

end RecordMapping
