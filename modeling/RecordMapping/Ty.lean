import RecordMapping.Schema.Id

/-!
# Types of expressions

Inference is best effort, so one type stands for "not known". It agrees with every type in both
directions, and the null type may stand wherever any type is expected.

## Implementation notes

`accepts` is a decision procedure on two types that may both be partly unknown. It is not
transitive: an unknown type in the middle connects any two types.
-/

namespace RecordMapping

/-- The type of an expression. -/
inductive Ty where
  | bool
  | string
  | i32
  | i64
  /-- An instance of a model. -/
  | model (id : ModelId)
  /-- A list whose items share one type. -/
  | list (item : Ty)
  /-- A function or a mapping. -/
  | func
  /-- The type of null, which may stand for any type. -/
  | null
  /-- A type that inference could not find out. -/
  | unknown
  deriving DecidableEq

namespace Ty

/-- Whether the type holds whole numbers. -/
def isNumeric : Ty → Bool
  | .i32 | .i64 => true
  | _ => false

/-- Whether a value of the second type may stand where the first is declared. -/
def accepts : Ty → Ty → Bool
  | .unknown, _ => true
  | _, .unknown => true
  | _, .null => true
  | .list declared, .list found => declared.accepts found
  | declared, found => decide (declared = found)

/-- The shape of the type for a reader. -/
def outline : Ty → Text.Outline
  | .bool => .word "Bool"
  | .string => .word "String"
  | .i32 => .word "I32"
  | .i64 => .word "I64"
  | .model id => .tuple "Model" [id.outline]
  | .list item => .tuple "List" [item.outline]
  | .func => .word "Func"
  | .null => .word "Null"
  | .unknown => .word "Unknown"

/-- The written form of the type, such as `List(Model(ModelId(3)))`. -/
def text (ty : Ty) : String := ty.outline.inline

@[simp] theorem accepts_unknown_left (found : Ty) : accepts .unknown found = true := by
  cases found <;> rfl

@[simp] theorem accepts_unknown_right (declared : Ty) : accepts declared .unknown = true := by
  cases declared <;> rfl

@[simp] theorem accepts_null (declared : Ty) : accepts declared .null = true := by
  cases declared <;> rfl

@[simp] theorem accepts_list (declared found : Ty) :
    accepts (.list declared) (.list found) = declared.accepts found := by
  simp [accepts]

end Ty

end RecordMapping
