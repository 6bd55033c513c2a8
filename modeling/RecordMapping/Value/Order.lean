import RecordMapping.Value.Equality

/-!
# Comparing values

Whole numbers of either width share one order, and texts are ordered by code points. Every other
pair of values has no order, while equality is defined for all.
-/

namespace RecordMapping

/-- The order of two values, where there is one. -/
def Value.order : Value → Value → Outcome Ordering
  | .i32 a, .i32 b => .ok (compare a.toInt b.toInt)
  | .i64 a, .i64 b => .ok (compare a.toInt b.toInt)
  | .i32 a, .i64 b => .ok (compare a.toInt b.toInt)
  | .i64 a, .i32 b => .ok (compare a.toInt b.toInt)
  | .string a, .string b => .ok (compare a b)
  | v, w => .fail (.evaluation (.unordered v.kind w.kind))

namespace Comparison

/-- The sign of the comparison. -/
def sign : Comparison → String
  | .eq => "="
  | .ne => "!="
  | .ge => ">="
  | .gt => ">"
  | .le => "<="
  | .lt => "<"

/-- The comparison with the given sign. -/
def ofSign? (sign : String) : Option Comparison :=
  [eq, ne, ge, gt, le, lt].find? fun op => op.sign = sign

/-- Whether the comparison holds of the two values. -/
def holds (op : Comparison) (v w : Value) : Outcome Bool :=
  match op with
  | .eq => .ok (v.same w)
  | .ne => .ok (!v.same w)
  | .ge => do return (← v.order w) != .lt
  | .gt => do return (← v.order w) == .gt
  | .le => do return (← v.order w) != .gt
  | .lt => do return (← v.order w) == .lt

/-- The truth value of the comparison. -/
def apply (op : Comparison) (v w : Value) : Outcome Value := do
  return .bool (← op.holds v w)

end Comparison

end RecordMapping
