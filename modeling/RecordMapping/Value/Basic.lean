import RecordMapping.Expr.Basic
import RecordMapping.Outcome

/-!
# Reading values

The shape of a value, the type of a constant, and the ways of reading a value that may fail: as a
truth value, as a list to map over, as a record with a given field.
-/

namespace RecordMapping.Value

/-- The shape of a value. -/
def kind : Value → ValueKind
  | .bool _ => .bool
  | .i32 _ => .i32
  | .i64 _ => .i64
  | .null => .null
  | .record _ => .record
  | .list _ => .list
  | .string _ => .string
  | .func _ _ => .func
  | .mapping _ => .mapping

/-- Whether the value is null. -/
def isNull : Value → Bool
  | .null => true
  | _ => false

/-- The type of a constant. A record does not know its model, and a list is typed by its first
item. -/
def ty : Value → Ty
  | .bool _ => .bool
  | .i32 _ => .i32
  | .i64 _ => .i64
  | .null => .null
  | .record _ => .unknown
  | .list [] => .list .unknown
  | .list (item :: _) => .list item.ty
  | .string _ => .string
  | .func _ _ => .func
  | .mapping _ => .func

/-- The value as a condition. -/
def asBool : Value → Outcome Bool
  | .bool b => .ok b
  | v => .fail (.evaluation (.notBool v.kind))

/-- The items to map a lambda over. -/
def asList : Value → Outcome (List Value)
  | .list items => .ok items
  | v => .fail (.evaluation (.notList v.kind))

/-- The value of a field of the record. Only the position counts, not the model. -/
def readField : Value → FieldId → Outcome Value
  | .record values, id =>
      match values[id.index]? with
      | some v => .ok v
      | none => .fail (.evaluation (.missingField id))
  | .null, id => .fail (.evaluation (.nullDereference id))
  | v, id => .fail (.evaluation (.notRecord id v.kind))

/-- The fields, if the value is a record. -/
def asRecord? : Value → Option (List Value)
  | .record values => some values
  | _ => none

/-- The value, and null in its place. -/
def take (v : Value) : Value × Value := (v, .null)

theorem isNull_iff (v : Value) : v.isNull = true ↔ v = .null := by
  cases v <;> simp [isNull]

@[simp] theorem asBool_bool (b : Bool) : (Value.bool b).asBool = .ok b := rfl

@[simp] theorem asList_list (items : List Value) : (Value.list items).asList = .ok items := rfl

end RecordMapping.Value
