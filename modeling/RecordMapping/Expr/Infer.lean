import RecordMapping.Value.Basic
import RecordMapping.Schema.Basic

/-!
# Inferring types

The type of an expression is read off its form. A call is seen through only when its callee is a
constant function or mapping; of a condition whose first branch is null, the second branch decides.
-/

namespace RecordMapping

/-- The inferred type of an expression. -/
def Expr.infer (schema : Schema) : Expr → Ty
  | .arg p => p.ty
  | .compare _ _ _ => .bool
  | .call (.const (.func _ ⟨_, body⟩)) _ => body.infer schema
  | .call (.const (.mapping ⟨_, ⟨_, body⟩, _⟩)) _ => body.infer schema
  | .call _ _ => .unknown
  | .cond _ yes no =>
      match yes.infer schema with
      | .null => no.infer schema
      | ty => ty
  | .field _ id => schema.readTy id
  | .includeEntity _ _ _ ty => ty
  | .includeVia _ _ _ _ ty => ty
  | .isNull _ _ => .bool
  | .list [] => .list .unknown
  | .list (item :: _) => .list (item.infer schema)
  | .map _ ⟨_, body⟩ => .list (body.infer schema)
  | .record model _ => .model model
  | .const v => v.ty
termination_by structural e => e

/-- The inferred type of a function's result. -/
def Func.inferResult (schema : Schema) (f : Func) : Ty := f.body.infer schema

end RecordMapping
