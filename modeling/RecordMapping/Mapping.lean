import RecordMapping.Value.Basic

/-!
# Mappings and what can be called

A mapping runs its compiled form if it has one and interprets its function otherwise. The target
of a marker is a function or a mapping, depending on the kind of the marker.

## Implementation notes

Everything that takes a list of arguments is `Callable`: a function to interpret or code to run.
How a call is carried out is a parameter of the evaluator, so that the depth of nested calls can be
bounded in one place.
-/

namespace RecordMapping

/-- Something that takes a list of arguments. -/
inductive Callable where
  /-- A function whose expression is interpreted. -/
  | interpreted (f : Func)
  /-- Code that is run. -/
  | compiled (c : Compiled)

/-- A way of carrying out calls. -/
abbrev Caller := Callable → List Value → Outcome Value

namespace Mapping

/-- A mapping without a compiled form. -/
def ofFunc (label : Nat) (f : Func) : Mapping := ⟨label, f, none⟩

/-- The form that maps a record in memory. -/
def callable (m : Mapping) : Callable :=
  match m.compiled with
  | some c => .compiled c
  | none => .interpreted m.func

end Mapping

/-- Call a function or a mapping with arguments; a mapping takes exactly one. -/
def Value.applyWith (call : Caller) : Value → List Value → Outcome Value
  | .func _ f, args => call (.interpreted f) args
  | .mapping m, [row] => call m.callable [row]
  | .mapping _, args => .fail (.arity 1 args.length)
  | v, _ => .fail (.evaluation (.notCallable v.kind))

/-- What a marker refers to. -/
inductive Target where
  | func (label : Nat) (f : Func)
  | mapping (m : Mapping)

namespace Target

/-- The function of the target. -/
def function : Target → Func
  | .func _ f => f
  | .mapping m => m.func

/-- The label of the function of the target. -/
def label : Target → Nat
  | .func label _ => label
  | .mapping m => m.label

/-- The form that maps a record in memory. -/
def callable : Target → Callable
  | .func _ f => .interpreted f
  | .mapping m => m.callable

/-- The target that a value is for a kind of marker. -/
def ofValue (kind : MarkerKind) (v : Value) : Outcome Target :=
  match kind, v with
  | .ast, .func label f => .ok (.func label f)
  | .ast, .mapping m => .ok (.func m.label m.func)
  | .compiled, .mapping m => .ok (.mapping m)
  | kind, v => .fail (.marker (.wrongArgument kind v.kind))

/-- The target of a marker from the evaluation of its mapping argument ahead of any record. -/
def resolve (kind : MarkerKind) (argument : Outcome Value) : Outcome Target :=
  argument.context (.marker .dependsOnRecord) >>= ofValue kind

end Target

end RecordMapping
