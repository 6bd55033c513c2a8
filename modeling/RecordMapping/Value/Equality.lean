import RecordMapping.Value.Basic

/-!
# Equality of values and expressions

Values and expressions are equal when they have the same structure. Parameters count by their
identity and mappings by their label, so the name of a parameter and the body of a mapping are not
looked at.

## Implementation notes

A number of one width is never equal to a number of the other. The label of a function value is
not compared: two functions are equal when their parameters and bodies are.
-/

namespace RecordMapping

/-- Whether two lists of parameters have the same identities in the same order. -/
def sameParams (ps qs : List Param) : Bool := decide (ps.map Param.id = qs.map Param.id)

mutual

/-- Whether two expressions are equal. -/
def Expr.same : Expr → Expr → Bool
  | .arg p, .arg q => decide (p.id = q.id)
  | .compare op l r, .compare op' l' r' => decide (op = op') && l.same l' && r.same r'
  | .call f args, .call f' args' => f.same f' && Expr.sameAll args args'
  | .cond t y n, .cond t' y' n' => t.same t' && y.same y' && n.same n'
  | .field base id, .field base' id' => base.same base' && decide (id = id')
  | .includeEntity k e m ty, .includeEntity k' e' m' ty' =>
      decide (k = k') && e.same e' && m.same m' && decide (ty = ty')
  | .includeVia k p ⟨ps, body⟩ m ty, .includeVia k' p' ⟨ps', body'⟩ m' ty' =>
      decide (k = k') && p.same p' && sameParams ps ps' && body.same body' && m.same m'
        && decide (ty = ty')
  | .isNull neg e, .isNull neg' e' => decide (neg = neg') && e.same e'
  | .list items, .list items' => Expr.sameAll items items'
  | .map base ⟨ps, body⟩, .map base' ⟨ps', body'⟩ =>
      base.same base' && sameParams ps ps' && body.same body'
  | .record model fs, .record model' fs' => decide (model = model') && Expr.sameAll fs fs'
  | .const v, .const v' => v.same v'
  | _, _ => false
termination_by structural e => e

/-- Whether two lists of expressions are equal item by item. -/
def Expr.sameAll : List Expr → List Expr → Bool
  | [], [] => true
  | e :: es, e' :: es' => e.same e' && Expr.sameAll es es'
  | _, _ => false
termination_by structural e => e

/-- Whether two values are equal. -/
def Value.same : Value → Value → Bool
  | .bool a, .bool b => decide (a = b)
  | .i32 a, .i32 b => decide (a = b)
  | .i64 a, .i64 b => decide (a = b)
  | .null, .null => true
  | .record vs, .record vs' => Value.sameAll vs vs'
  | .list vs, .list vs' => Value.sameAll vs vs'
  | .string a, .string b => decide (a = b)
  | .func _ ⟨ps, body⟩, .func _ ⟨ps', body'⟩ => sameParams ps ps' && body.same body'
  | .mapping m, .mapping m' => decide (m.label = m'.label)
  | _, _ => false
termination_by structural e => e

/-- Whether two lists of values are equal item by item. -/
def Value.sameAll : List Value → List Value → Bool
  | [], [] => true
  | v :: vs, v' :: vs' => v.same v' && Value.sameAll vs vs'
  | _, _ => false
termination_by structural e => e

end

/-- Whether two functions have the same parameters and equal bodies. -/
def Func.same (f g : Func) : Bool := sameParams f.params g.params && f.body.same g.body

end RecordMapping
