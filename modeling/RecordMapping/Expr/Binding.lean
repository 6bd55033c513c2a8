import RecordMapping.Expr.Basic
import RecordMapping.Outcome

/-!
# Binding parameters to expressions

Binding puts expressions in the place of a function's parameters. Every lambda and selector in the
body gets new parameters on the way, so no two copies of a body share them, and nothing that a
replacement refers to can be captured.

## Implementation notes

Identities are given out in increasing order from `next`, in the order in which the binders stand
in the body, and the next unused identity is returned. A replacement is put in as it stands: it is
neither renamed nor searched for further parameters.
-/

namespace RecordMapping

/-- The expression that stands for a parameter, where one does. -/
abbrev Replacement := Nat → Option Expr

namespace Replacement

/-- No parameter is replaced. -/
def empty : Replacement := fun _ => none

/-- Replace one more parameter; an earlier replacement of it is forgotten. -/
def set (replacement : Replacement) (id : Nat) (e : Expr) : Replacement := fun x =>
  if x = id then some e else replacement x

@[simp] theorem empty_apply (id : Nat) : empty id = none := rfl

@[simp] theorem set_same (replacement : Replacement) (id : Nat) (e : Expr) :
    replacement.set id e id = some e := by simp [set]

theorem set_other (replacement : Replacement) {id x : Nat} (h : x ≠ id) (e : Expr) :
    replacement.set id e x = replacement x := by simp [set, h]

/-- Replacements by position; a parameter without one stays as it is, and of several replacements
of one identity the last counts. -/
def ofParams : Replacement → List Param → List (Option Expr) → Replacement
  | replacement, p :: ps, some e :: rest => ofParams (replacement.set p.id e) ps rest
  | replacement, _ :: ps, none :: rest => ofParams replacement ps rest
  | replacement, _, _ => replacement

end Replacement

/-- Binders with new identities, the replacement that carries the old identities over to them, and
the next unused identity. -/
structure FreshBinders where
  params : List Param
  replacement : Replacement
  next : Nat

/-- Give each binder a new identity; its name and type are kept. -/
def freshen : List Param → Replacement → Nat → FreshBinders
  | [], replacement, next => ⟨[], replacement, next⟩
  | p :: ps, replacement, next =>
      let fresh : Param := { p with id := next }
      let rest := freshen ps (replacement.set p.id (.arg fresh)) (next + 1)
      ⟨fresh :: rest.params, rest.replacement, rest.next⟩

theorem freshen_next (ps : List Param) (replacement : Replacement) (next : Nat) :
    (freshen ps replacement next).next = next + ps.length := by
  induction ps generalizing replacement next with
  | nil => rfl
  | cons p ps ih => simp [freshen, ih]; omega

theorem freshen_params_ids (ps : List Param) (replacement : Replacement) (next : Nat) :
    (freshen ps replacement next).params.map Param.id = List.range' next ps.length := by
  induction ps generalizing replacement next with
  | nil => rfl
  | cons p ps ih => simp [freshen, ih, List.range'_succ]

mutual

/-- The expression with its parameters replaced and its binders renamed, and the next unused
identity. -/
def Expr.instantiate : Expr → Replacement → Nat → Expr × Nat
  | .arg p, replacement, next => ((replacement p.id).getD (.arg p), next)
  | .compare op left right, replacement, next =>
      let l := left.instantiate replacement next
      let r := right.instantiate replacement l.2
      (.compare op l.1 r.1, r.2)
  | .call callee args, replacement, next =>
      let f := callee.instantiate replacement next
      let as := Expr.instantiateAll args replacement f.2
      (.call f.1 as.1, as.2)
  | .cond test yes no, replacement, next =>
      let t := test.instantiate replacement next
      let y := yes.instantiate replacement t.2
      let n := no.instantiate replacement y.2
      (.cond t.1 y.1 n.1, n.2)
  | .field base id, replacement, next =>
      let b := base.instantiate replacement next
      (.field b.1 id, b.2)
  | .includeEntity kind entity mapping ty, replacement, next =>
      let e := entity.instantiate replacement next
      let m := mapping.instantiate replacement e.2
      (.includeEntity kind e.1 m.1 ty, m.2)
  | .includeVia kind parent ⟨params, body⟩ mapping ty, replacement, next =>
      let p := parent.instantiate replacement next
      let binders := freshen params replacement p.2
      let b := body.instantiate binders.replacement binders.next
      let m := mapping.instantiate replacement b.2
      (.includeVia kind p.1 ⟨binders.params, b.1⟩ m.1 ty, m.2)
  | .isNull negate operand, replacement, next =>
      let e := operand.instantiate replacement next
      (.isNull negate e.1, e.2)
  | .list items, replacement, next =>
      let es := Expr.instantiateAll items replacement next
      (.list es.1, es.2)
  | .map base ⟨params, body⟩, replacement, next =>
      let l := base.instantiate replacement next
      let binders := freshen params replacement l.2
      let b := body.instantiate binders.replacement binders.next
      (.map l.1 ⟨binders.params, b.1⟩, b.2)
  | .record model fields, replacement, next =>
      let es := Expr.instantiateAll fields replacement next
      (.record model es.1, es.2)
  | .const v, _, next => (.const v, next)

/-- The expressions with their parameters replaced and their binders renamed, from left to
right. -/
def Expr.instantiateAll : List Expr → Replacement → Nat → List Expr × Nat
  | [], _, next => ([], next)
  | e :: es, replacement, next =>
      let h := e.instantiate replacement next
      let t := Expr.instantiateAll es replacement h.2
      (h.1 :: t.1, t.2)

end

namespace Func

/-- The parameters without a replacement, in order. -/
def openParams : List Param → List (Option Expr) → List Param
  | _ :: ps, some _ :: rest => openParams ps rest
  | p :: ps, none :: rest => p :: openParams ps rest
  | _, _ => []

/-- The function with replacements for its parameters by position; those without one stay
parameters. There must be as many entries as parameters. -/
def bind (f : Func) (replacements : List (Option Expr)) (next : Nat) :
    Outcome (Func × Nat) :=
  if replacements.length = f.params.length then
    let body := f.body.instantiate (Replacement.ofParams .empty f.params replacements) next
    .ok (⟨openParams f.params replacements, body.1⟩, body.2)
  else .fail (.arity f.params.length replacements.length)

/-- The body that binding leaves. -/
def bindBody (f : Func) (replacements : List (Option Expr)) (next : Nat) :
    Outcome (Expr × Nat) := do
  let bound ← f.bind replacements next
  return (bound.1.body, bound.2)

/-- Binding fails exactly when the numbers of replacements and parameters differ. -/
theorem bind_eq_fail_iff (f : Func) (replacements : List (Option Expr)) (next : Nat) :
    f.bind replacements next = .fail (.arity f.params.length replacements.length) ↔
      replacements.length ≠ f.params.length := by
  by_cases h : replacements.length = f.params.length <;> simp [bind, h, Outcome.fail]

end Func

end RecordMapping
