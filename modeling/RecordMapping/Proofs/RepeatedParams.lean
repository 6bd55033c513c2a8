import RecordMapping.Proofs.CompiledForm
import RecordMapping.Proofs.Substitution

/-!
# Functions that list a parameter more than once

Interpreting a function reads the first of the arguments for a repeated parameter. The code of the
function and its body with the arguments in the place of the parameters read the last one. So these
two have the ends of the function with parameters and arguments in reverse order, and those of the
function itself if the first and the last argument for each parameter are the same.
-/

namespace RecordMapping

namespace Func

/-- The code of a function has the ends of the function with parameters and arguments in reverse
order. -/
theorem ends_reversed_iff_compiled_ends {depth : Nat} {f : Func} {c : Compiled}
    (h : f.compile depth = .ok c) (args : List Value) (r : Outcome Value) :
    Ends (fun d => f.reversed.call d args.reverse) r ↔ Ends (fun d => c.call d args) r := by
  refine ends_iff_of_deeper (k := depth) (fun d => ?_) (fun d => ?_) r
  · exact Callable.reversed_call_deeper_compiled (d := d + 1) h args
  · have hd := Callable.compiled_reversed_call_deeper (d := d + 1) h args
    rwa [show d + 1 + depth = (d + depth) + 1 by omega] at hd

/-- Interpreting a function with parameters and arguments in reverse order is evaluating its body in
the reversed layer. -/
theorem call_reversed {f : Func} {args : List Value} (length : args.length = f.params.length)
    (d : Nat) : f.reversed.call d args.reverse =
      f.body.eval d [Layer.reverse ⟨f.params, args⟩] := by
  simp [call, callWith, arity, reversed, length, Layer.reverse, Expr.eval]

/-- The body with the arguments in the place of the parameters has the ends of the function with
parameters and arguments in reverse order. -/
theorem ends_bound_iff_reversed_ends {f : Func} {args : List Value} {next : Nat}
    {names : Nat → String} (length : args.length = f.params.length)
    (unresolved : ∀ p ∈ f.params, ¬ f.body.FreeInMapping p.id)
    (named : f.body.EveryParam fun p => p.name = names p.id)
    (made : ∀ x, f.body.Free x → x < next) (r : Outcome Value) :
    Ends (fun d => (f.body.instantiate (Replacement.ofParams .empty f.params
        ((args.map .const).map some)) next).1.evalClosed d) r ↔
      Ends (fun d => f.reversed.call d args.reverse) r := by
  have returns : List.Forall₂ (fun (e : Expr) v => e.Returns [] v) (args.map .const) args := by
    rw [List.forall₂_map_left_iff]
    exact List.forall₂_same.mpr fun v _ => Expr.returns_const.mpr rfl
  simp only [call_reversed length]
  exact ends_instantiate_iff (by simpa using length) unresolved named made (by simp) returns r

/-- The code of a function and its body with the arguments in the place of the parameters both read
the last argument for a parameter. They have the ends of the function itself if that is the first
one as well. -/
theorem repeated_ends {f : Func} {args : List Value} (length : args.length = f.params.length) :
    (∀ depth c, f.compile depth = .ok c → ∀ r, Ends (fun d => c.call d args) r ↔
      Ends (fun d => f.reversed.call d args.reverse) r) ∧
    (∀ (next : Nat) (names : Nat → String), (∀ p ∈ f.params, ¬ f.body.FreeInMapping p.id) →
      f.body.EveryParam (fun p => p.name = names p.id) → (∀ x, f.body.Free x → x < next) →
      ∃ bound next', f.bindBody ((args.map .const).map some) next = .ok (bound, next') ∧
        ∀ r, Ends (fun d => bound.evalClosed d) r ↔
          Ends (fun d => f.reversed.call d args.reverse) r) ∧
    ((∀ x, f.body.Free x → Scope.find? [Layer.reverse ⟨f.params, args⟩] x =
        Scope.find? [⟨f.params, args⟩] x) →
      ∀ r, Ends (fun d => f.reversed.call d args.reverse) r ↔ Ends (fun d => f.call d args) r) := by
  refine ⟨fun depth c h r => (ends_reversed_iff_compiled_ends h args r).symm, ?bound, ?same⟩
  case bound =>
      intro next names unresolved named made
      exact ⟨_, _, bindBody_eq_ok (by simpa using length) next,
        ends_bound_iff_reversed_ends length unresolved named made⟩
  case same =>
      intro same r
      have sameCall (d : Nat) : f.reversed.call d args.reverse = f.call d args :=
        callWith_reversed fun _ => same
      simp only [sameCall]

/-- A flag next to the items of a list, through a lambda that binds the flag again. The flag is
listed on both sides of the list. -/
def flagged : Func :=
  let flag : Param := ⟨0, "flag", .bool⟩
  let items : Param := ⟨1, "items", .unknown⟩
  ⟨[flag, items, flag], .list [.arg flag, .map (.arg items) ⟨[flag], .arg flag⟩]⟩

theorem flagged_ends : ∃ c bound next', flagged.compile 1 = .ok c ∧
    flagged.bindBody [some (.const (.bool true)), some (.const (.list [.null])),
      some (.const (.bool false))] 2 = .ok (bound, next') ∧
    Ends (fun d => c.call d [.bool true, .list [.null], .bool false])
      (.ok (.list [.bool false, .list [.null]])) ∧
    Ends (fun d => bound.evalClosed d) (.ok (.list [.bool false, .list [.null]])) := by
  let names (id : Nat) : String := if id = 0 then "flag" else "items"
  have unresolved : ∀ p ∈ flagged.params, ¬ flagged.body.FreeInMapping p.id := by
    have iff (e : Expr) (x : Nat) := Expr.freeInMapping_iff (e := e) (x := x)
    simp [flagged, Expr.asMarker?, iff (.list _), iff (.map _ _), iff (.arg _)]
  have named : flagged.body.EveryParam fun p => p.name = names p.id := by
    have iff (e : Expr) := Expr.everyParam_iff (P := fun p => p.name = names p.id) (e := e)
    simp [flagged, iff (.list _), iff (.map _ _), iff (.arg _), names]
  have made : ∀ x, flagged.body.Free x → x < 2 := by
    simp [flagged]
    omega
  have compiled : flagged.compile 1 = .ok _ := rfl
  have last : Ends (fun d => flagged.reversed.call d [.bool false, .list [.null], .bool true])
      (.ok (.list [.bool false, .list [.null]])) := ⟨by simp, 1, rfl⟩
  obtain ⟨code, binds, _⟩ :=
    @repeated_ends flagged [.bool true, .list [.null], .bool false] rfl
  obtain ⟨bound, next', bindBody, body⟩ := binds 2 names unresolved named made
  exact ⟨_, bound, next', compiled, bindBody, (code _ _ compiled _).mpr last, (body _).mpr last⟩

/-- For a repeated parameter with different arguments, the function reads another one than its code
and its bound body. -/
theorem flagged_differs : ∃ c bound next', flagged.compile 1 = .ok c ∧
    flagged.bindBody [some (.const (.bool true)), some (.const (.list [.null])),
      some (.const (.bool false))] 2 = .ok (bound, next') ∧
    flagged.call 1 [.bool true, .list [.null], .bool false] =
      .ok (.list [.bool true, .list [.null]]) ∧
    c.call 1 [.bool true, .list [.null], .bool false] = .ok (.list [.bool false, .list [.null]]) ∧
    bound.evalClosed 1 = .ok (.list [.bool false, .list [.null]]) :=
  ⟨_, _, _, rfl, rfl, rfl, rfl, rfl⟩

end Func

end RecordMapping
