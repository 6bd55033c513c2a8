import RecordMapping.Proofs.Instantiation
import RecordMapping.Proofs.Layers
import RecordMapping.Proofs.Returns

/-!
# Binding parameters to expressions

Binding the parameters of a function to expressions gives a body that evaluates, in any scope where
the expressions have values, as the function's own body does where its parameters are bound to these
values in an inner layer. What the expressions refer to is not captured by a binder of the body, and
a binder that hides a parameter still does.

## Implementation notes

A function may list a parameter more than once. The last expression counts for it, and in a layer
the first value, so what holds of all functions is said with the layer reversed. If the parameters
are distinct, the order of the layer does not matter.

Mapping arguments are evaluated outside of every scope, where an expression would be found in the
place of a parameter but no value. So they may not refer to the parameters.
-/

namespace RecordMapping

/-- The expression for a parameter is the one at its last position. -/
theorem Replacement.ofParams_apply {params : List Param} {rs : List Expr}
    (length : rs.length = params.length) (replacement : Replacement) (x : Nat) :
    Replacement.ofParams replacement params (rs.map some) x =
      match lastSlot? (params.map Param.id) x with
      | some i => rs[i]?
      | none => replacement x := by
  induction params generalizing rs replacement with
  | nil =>
      cases rs with
      | nil => rfl
      | cons r rs => cases length
  | cons p ps ih =>
      cases rs with
      | nil => cases length
      | cons r rs =>
          rw [List.map_cons, ofParams, ih (Nat.succ.inj length), List.map_cons, lastSlot?]
          cases lastSlot? (ps.map Param.id) x with
          | some i => rfl
          | none =>
              by_cases hx : p.id = x
              · simp [hx, Replacement.set]
              · simp [hx, Replacement.set_other _ (Ne.symm hx)]

namespace Expr

/-- Expressions have values exactly if each of them has one. -/
theorem evalAllWith_eq_ok_iff {call : Caller} {es : List Expr} {scope : Scope} {vs : List Value} :
    evalAllWith call es scope = .ok vs ↔
      List.Forall₂ (fun e v => e.evalWith call scope = .ok v) es vs := by
  have each : Yields (fun _ => es.mapM fun e => e.evalWith call scope) vs ↔ _ :=
    Yields.mapM_iff fun _ => .const _
  simpa [evalAllWith_eq_mapM] using each

end Expr

namespace Func

/-- As many expressions as parameters can be bound. -/
theorem bindBody_eq_ok {f : Func} {rs : List Expr} (length : rs.length = f.params.length)
    (next : Nat) : f.bindBody (rs.map some) next =
      .ok (f.body.instantiate (Replacement.ofParams .empty f.params (rs.map some)) next) := by
  simp [bindBody, bind, length]

section Values

variable {f : Func} {rs : List Expr} {vs : List Value} {scope : Scope} {next : Nat}
  {names : Nat → String} (length : rs.length = f.params.length)
  (unresolved : ∀ p ∈ f.params, ¬ f.body.FreeInMapping p.id)
  (named : f.body.EveryParam fun p => p.name = names p.id)
  (made : ∀ x, f.body.Free x → x < next) (allMade : ∀ r ∈ rs, ∀ x, r.Free x → x < next)

include length unresolved named made allMade

/-- What stands for a parameter has its value, also where newer parameters are bound. -/
theorem replaceable_of_values {call : Caller}
    (values : List.Forall₂ (fun r v => r.evalWith call scope = .ok v) rs vs) :
    Expr.Replaceable Agreement.same call (fun p => p.name = names p.id) next
      (Replacement.ofParams .empty f.params (rs.map some))
      (Layer.reverse ⟨f.params, vs⟩ :: scope) scope f.body where
  params := named
  free p _ hp σ' hσ' := by
    have sameLength : vs.length = f.params.length := values.length_eq.symm.trans length
    simp only [Agreement.same, Scope.read, Scope.find?_reverse sameLength,
      Replacement.ofParams_apply length]
    cases hi : lastSlot? (f.params.map Param.id) p.id with
    | none => simp [Expr.evalWith, Scope.read, hσ' p.id (made p.id hp)]
    | some i =>
        have inside := (List.getElem?_eq_some_iff.mp (getElem?_of_lastSlot? hi)).1
        rw [List.length_map, ← length] at inside
        have mem : rs[i] ∈ rs := List.getElem_mem inside
        have value := (List.forall₂_iff_get.mp values).2 i inside (by omega)
        have unchanged : rs[i].evalWith call σ' = rs[i].evalWith call scope :=
          rs[i].evalWith_congr fun x hx => hσ' x (allMade _ mem x hx)
        simp only [List.getElem?_eq_getElem inside, Option.getD_some, unchanged]
        simpa [List.getElem?_eq_getElem (sameLength.symm ▸ length ▸ inside)] using value.symm
  closed p _ hp σ' hσ' := by
    have other : p.id ∉ f.params.map Param.id := by
      intro mem
      obtain ⟨q, hq, same⟩ := List.mem_map.mp mem
      exact unresolved q hq (same ▸ hp)
    simp only [Agreement.same, Scope.read, Replacement.ofParams_apply length,
      (lastSlot?_eq_none_iff _ _).mpr other]
    simp [Expr.evalWith, Scope.read, hσ' p.id (made p.id hp.free)]

/-- An instance evaluates as the body does where the last value for a parameter is bound to it, at a
depth at which all expressions have their values. -/
theorem eval_instantiate_eq {d : Nat}
    (values : List.Forall₂ (fun r v => r.eval d scope = .ok v) rs vs) :
    (f.body.instantiate (Replacement.ofParams .empty f.params (rs.map some)) next).1.eval d scope =
      f.body.eval d (Layer.reverse ⟨f.params, vs⟩ :: scope) := by
  have replaceable := replaceable_of_values length unresolved named made allMade values
  refine (f.body.instantiate_agrees (fun _ _ => rfl) (fun p q hp hq same => ?_) replaceable).symm
  simp only [Agreement.same, hp, hq, same]

/-- Binding parameters to expressions that have values is evaluating the body where the last value
for a parameter is bound to it. -/
theorem ends_instantiate_iff (returns : List.Forall₂ (fun r v => r.Returns scope v) rs vs)
    (r : Outcome Value) :
    Ends (fun d => (f.body.instantiate (Replacement.ofParams .empty f.params (rs.map some))
        next).1.eval d scope) r ↔
      Ends (fun d => f.body.eval d (Layer.reverse ⟨f.params, vs⟩ :: scope)) r := by
  -- Both runs are the same from the depth on at which all expressions have their values.
  obtain ⟨depth, values⟩ := Expr.yields_evalAll_iff.mpr returns
  refine ends_iff_of_eventually (Expr.steady_eval _ _) (Expr.steady_eval _ _)
    (fun d (hd : depth ≤ d) => ?_) r
  have kept := Agreement.eq_of_deeper (Expr.steady_evalAll rs scope hd) (by simp [values])
  exact eval_instantiate_eq length unresolved named made allMade
    (Expr.evalAllWith_eq_ok_iff.mp (kept.trans values))

end Values

/-- Binding distinct parameters to expressions that have values in a scope is evaluating the body
where the parameters are bound to these values in an inner layer: both have the same value, the same
fault, or no end at all. An identity has one name, and those that are free were given out before. -/
theorem bindBody_ends {f : Func} {rs : List Expr} {vs : List Value} {scope : Scope} {next : Nat}
    {names : Nat → String} (distinct : (f.params.map Param.id).Nodup)
    (length : rs.length = f.params.length)
    (unresolved : ∀ p ∈ f.params, ¬ f.body.FreeInMapping p.id)
    (named : f.body.EveryParam fun p => p.name = names p.id)
    (made : ∀ x, f.body.Free x → x < next) (allMade : ∀ r ∈ rs, ∀ x, r.Free x → x < next)
    (returns : List.Forall₂ (fun r v => r.Returns scope v) rs vs) :
    ∃ bound next', f.bindBody (rs.map some) next = .ok (bound, next') ∧ ∀ r : Outcome Value,
      Ends (fun d => bound.eval d scope) r ↔
        Ends (fun d => f.body.eval d (⟨f.params, vs⟩ :: scope)) r := by
  refine ⟨_, _, bindBody_eq_ok length next, fun r => ?_⟩
  rw [ends_instantiate_iff length unresolved named made allMade returns]
  have sameLength : vs.length = f.params.length := returns.length_eq.symm.trans length
  have sameEnd (d : Nat) : f.body.eval d (Layer.reverse ⟨f.params, vs⟩ :: scope) =
      f.body.eval d (⟨f.params, vs⟩ :: scope) :=
    f.body.evalWith_congr fun x _ => Scope.find?_reverse_of_distinct sameLength distinct scope x
  simp only [sameEnd]

/-- Each item of a list next to a record, and the first field of a related record that a selector
picks, which binds the record's parameter again. -/
def gathered : Func :=
  let record : Param := ⟨0, "record", .unknown⟩
  let items : Param := ⟨1, "items", .unknown⟩
  let item : Param := ⟨2, "item", .unknown⟩
  let pair : Func := ⟨[item], .list [.arg item, .arg record]⟩
  let first : Func := ⟨[record], .field (.arg record) ⟨⟨0⟩, 0⟩⟩
  ⟨[record, items], .record ⟨1⟩ [.map (.arg items) pair,
    .includeVia .ast (.arg record) first (.const (.func 0 first)) .unknown]⟩

/-- A scope with values for the record's parameter and for the one of the lambda. -/
def surroundings : Scope :=
  [⟨[⟨0, "record", .unknown⟩, ⟨2, "item", .unknown⟩],
    [.list [.bool true, .bool false], .record [.record [.string "leaf"]]]⟩]

theorem gathered_ends : ∃ bound next',
    gathered.bindBody [some (.arg ⟨2, "item", .unknown⟩), some (.arg ⟨0, "record", .unknown⟩)] 3 =
      .ok (bound, next') ∧
    Ends (fun d => bound.eval d surroundings)
      (.ok (.record [.list [.list [.bool true, .record [.record [.string "leaf"]]],
        .list [.bool false, .record [.record [.string "leaf"]]]], .string "leaf"])) := by
  let names (id : Nat) : String := if id = 0 then "record" else if id = 1 then "items" else "item"
  have unresolved : ∀ p ∈ gathered.params, ¬ gathered.body.FreeInMapping p.id := by
    have iff (e : Expr) (x : Nat) := Expr.freeInMapping_iff (e := e) (x := x)
    simp [gathered, Expr.asMarker?, iff (.record _ _), iff (.map _ _), iff (.list _), iff (.arg _),
      iff (.includeVia _ _ _ _ _), iff (.field _ _), iff (.const _)]
  have named : gathered.body.EveryParam fun p => p.name = names p.id := by
    have iff (e : Expr) := Expr.everyParam_iff (P := fun p => p.name = names p.id) (e := e)
    simp [gathered, iff (.record _ _), iff (.map _ _), iff (.list _), iff (.arg _),
      iff (.includeVia _ _ _ _ _), iff (.field _ _), iff (.const _), names]
  have made : ∀ x, gathered.body.Free x → x < 3 := by
    simp [gathered]
    omega
  have returns : List.Forall₂ (fun (r : Expr) v => r.Returns surroundings v)
      [.arg ⟨2, "item", .unknown⟩, .arg ⟨0, "record", .unknown⟩] [_, _] :=
    .cons (Expr.returns_arg.mpr rfl) (.cons (Expr.returns_arg.mpr rfl) .nil)
  obtain ⟨bound, next', bindBody, ends⟩ :=
    bindBody_ends (by decide) rfl unresolved named made (by simp) returns
  exact ⟨bound, next', bindBody, (ends _).mpr ⟨by simp, 2, rfl⟩⟩

end Func

end RecordMapping
