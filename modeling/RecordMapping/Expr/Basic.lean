import RecordMapping.Fault.Basic

/-!
# Expressions, functions and values

Expressions describe how one record is made from another. They refer to parameters by identity,
and functions and mappings are values, so expressions, functions, values and compiled code are
defined together.

A mapping is a function that may also carry a compiled form. A marker stands for the result of
applying a referenced mapping to a related record.

## Implementation notes

Two parameters are the same when their identities are; name and type are for readers and for
inference. Likewise two mappings are the same when their labels are. A function value carries the
label as well, so that a mapping made from it can share it.

Code is first-order data: a slot refers to a position of the frame, and an included mapping is
held by its compiled form. So of the code that a caller may supply with a mapping, only what can be
written in this form is covered: constants, the list of the arguments, faults with a text, and what
compiling makes. An arbitrary procedure of the caller is not.

Identities and labels are plain numbers. They are counted up without a bound, so that a counter of
64 bits wraps around and gives one out again is left out.
-/

namespace RecordMapping

/-- A formal parameter. -/
structure Param where
  /-- The identity, which alone decides whether two parameters are the same. -/
  id : Nat
  name : String
  ty : Ty

/-- The comparisons of two values. -/
inductive Comparison where
  | eq
  | ne
  | ge
  | gt
  | le
  | lt
  deriving DecidableEq

mutual

/-- An expression over parameters. -/
inductive Expr where
  /-- A reference to a parameter. -/
  | arg (param : Param)
  | compare (op : Comparison) (left right : Expr)
  /-- A function or mapping applied to arguments. -/
  | call (callee : Expr) (args : List Expr)
  | cond (test yes no : Expr)
  /-- A field of the record that the base evaluates to. -/
  | field (base : Expr) (field : FieldId)
  /-- A marker: the entity mapped by the mapping argument, or null if there is no entity. -/
  | includeEntity (kind : MarkerKind) (entity mapping : Expr) (ty : Ty)
  /-- A marker whose entity is picked from a parent record by a selector. -/
  | includeVia (kind : MarkerKind) (parent : Expr) (selector : Func) (mapping : Expr) (ty : Ty)
  /-- Whether the operand is null or, if `negate`, whether it is not. -/
  | isNull (negate : Bool) (operand : Expr)
  | list (items : List Expr)
  /-- The lambda applied to each item of the list that the base evaluates to. -/
  | map (base : Expr) (lambda : Func)
  /-- A record of a model, from its fields in order. -/
  | record (model : ModelId) (fields : List Expr)
  | const (value : Value)

/-- A function: formal parameters and a body. -/
structure Func where
  params : List Param
  body : Expr

/-- A value. -/
inductive Value where
  | bool (b : Bool)
  | i32 (n : Int32)
  | i64 (n : Int64)
  | null
  /-- A record, by its fields in the order of its model. -/
  | record (fields : List Value)
  | list (items : List Value)
  | string (s : String)
  | func (label : Nat) (f : Func)
  | mapping (m : Mapping)

/-- A function for readers of its expression, with an optional form for running it in memory. -/
structure Mapping where
  label : Nat
  func : Func
  compiled : Option Compiled

/-- Code that takes a fixed number of arguments: what compiling makes, or native code as far as it
can be written as `Code`. -/
structure Compiled where
  arity : Nat
  body : Code

/-- Code that runs on a frame of values. The list of the frame and faults with a given text stand
for what native code does; compiling makes neither of them. -/
inductive Code where
  /-- The value at a position of the frame. -/
  | slot (index : Nat)
  /-- The list of all values of the frame. -/
  | frame
  | const (value : Value)
  | compare (op : Comparison) (left right : Code)
  | call (callee : Code) (args : List Code)
  | cond (test yes no : Code)
  | field (base : Code) (field : FieldId)
  | isNull (negate : Bool) (operand : Code)
  | list (items : List Code)
  /-- The body run for each item of a list, with the item on top of the frame. -/
  | map (base body : Code)
  | record (fields : List Code)
  /-- The selector run with the parent on top of the frame; null if the parent is null. -/
  | select (parent selector : Code)
  /-- The target applied to the entity; null if the entity is null. -/
  | apply (entity : Code) (target : Compiled)
  /-- A fault with the given text. -/
  | fail (text : String)

end

instance : Inhabited Value := ⟨.null⟩

instance : Inhabited Expr := ⟨.const .null⟩

/-- The number of parameters. -/
def Func.arity (f : Func) : Nat := f.params.length

namespace Expr

/-- The null constant. -/
def null : Expr := .const .null

/-- The test that an expression is not null. -/
def isNotNull (e : Expr) : Expr := .isNull true e

/-- The base and the field of a field access. -/
def asField? : Expr → Option (Expr × FieldId)
  | .field base id => some (base, id)
  | _ => none

/-- The expression, and null in its place. -/
def take (e : Expr) : Expr × Expr := (e, null)

theorem asField?_eq_some_iff (e base : Expr) (f : FieldId) :
    e.asField? = some (base, f) ↔ e = .field base f := by
  cases e <;> simp [asField?]

end Expr

end RecordMapping
