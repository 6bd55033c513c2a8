import RecordMapping.Proofs.Substitution

/-!
# Free parameters of bound bodies

Binding puts an expression in every place where the body refers to a parameter that is replaced, and
changes nothing else about which parameters are free. What the expression refers to stays free in
each of these places, also under a binder of the body that had the same identity before it was
renamed.

## Implementation notes

A place is the list of the operands to take on the way to it, so two of them can be told apart that
refer to the same parameter: one might be captured and the other not. A parameter is free wherever
it is referred to, in branches that no run takes and in mapping arguments as well.

New binders get identities that were not given out before. So they bind none of the parameters that
are free.
-/

namespace RecordMapping

namespace Replacement

/-- Further parameters that are distinct, and have no replacement yet, are replaced by the
expressions at their positions. -/
theorem ofParams_apply_eq_some_iff {params : List Param} {rs : List (Option Expr)}
    {replacement : Replacement} (distinct : (params.map Param.id).Nodup)
    (openParams : ∀ p ∈ params, replacement p.id = none) {x : Nat} {r : Expr} :
    ofParams replacement params rs x = some r ↔
      (∃ p, (p, some r) ∈ params.zip rs ∧ p.id = x) ∨ replacement x = some r := by
  induction params generalizing rs replacement with
  | nil => simp [ofParams]
  | cons p ps ih =>
      obtain ⟨new, distinct⟩ := List.nodup_cons.mp distinct
      have openRest : ∀ q ∈ ps, replacement q.id = none := fun q hq => openParams q (.tail _ hq)
      rcases rs with _ | ⟨_ | e, rs⟩
      · simp [ofParams]
      · simp [ofParams, ih distinct openRest]
      · -- The rest of the parameters are distinct from this one, so its replacement stays.
        have other (q : Param) (hq : q ∈ ps) : q.id ≠ p.id :=
          fun same => new (same ▸ List.mem_map_of_mem hq)
        have openAfter : ∀ q ∈ ps, replacement.set p.id e q.id = none := fun q hq =>
          (replacement.set_other (other q hq) e).trans (openRest q hq)
        rw [ofParams, ih distinct openAfter]
        by_cases hx : p.id = x
        · subst hx
          simp [openParams p (.head _), or_and_right, exists_or, or_comm, eq_comm]
        · simp [replacement.set_other (Ne.symm hx), or_and_right, exists_or, hx]

/-- Distinct parameters are replaced by the expressions at their positions, and no other is. -/
theorem ofParams_eq_some_iff {params : List Param} (rs : List (Option Expr))
    (distinct : (params.map Param.id).Nodup) {x : Nat} {r : Expr} :
    ofParams .empty params rs x = some r ↔ ∃ p, (p, some r) ∈ params.zip rs ∧ p.id = x := by
  have openParams : ∀ p ∈ params, Replacement.empty p.id = none := fun _ _ => rfl
  simp [ofParams_apply_eq_some_iff distinct openParams]

/-- What stands for a parameter refers to what its replacement refers to, and to the parameter
itself if it has none. -/
theorem freeAt_getD_ofParams_iff {params : List Param} (rs : List (Option Expr))
    (distinct : (params.map Param.id).Nodup) (p : Param) (x : Nat) (place : List Nat) :
    ((ofParams .empty params rs p.id).getD (.arg p)).FreeAt x place ↔
      (∃ q r, (q, some r) ∈ params.zip rs ∧ q.id = p.id ∧ r.FreeAt x place) ∨
        (p.id = x ∧ place = []) ∧ ∀ q r, (q, some r) ∈ params.zip rs → q.id ≠ p.id := by
  have replaced {r : Expr} := ofParams_eq_some_iff rs distinct (x := p.id) (r := r)
  cases h : ofParams .empty params rs p.id with
  | some r =>
      obtain ⟨q, hq, same⟩ := replaced.mp h
      constructor
      · exact fun hx => .inl ⟨q, r, hq, same, hx⟩
      · rintro (⟨q', r', hq', same', hx⟩ | ⟨_, unreplaced⟩)
        · obtain rfl : r = r' := Option.some.inj (h.symm.trans (replaced.mpr ⟨q', hq', same'⟩))
          exact hx
        · exact absurd same (unreplaced q r hq)
  | none =>
      have unreplaced (q : Param) (r : Expr) (hq : (q, some r) ∈ params.zip rs) : q.id ≠ p.id := by
        intro same
        have found := replaced.mpr ⟨q, hq, same⟩
        rw [h] at found
        cases found
      constructor
      · exact fun hx => .inr ⟨by simpa using hx, unreplaced⟩
      · rintro (⟨q, r, hq, same, _⟩ | ⟨hx, _⟩)
        · exact absurd same (unreplaced q r hq)
        · simpa using hx

end Replacement

namespace Func

variable {f : Func} {rs : List (Option Expr)} {next : Nat}

/-- Binding distinct parameters, some of them to expressions, puts each expression in every place of
its parameter and leaves the other free parameters where they are. All that is free was given out
before the binding starts. -/
theorem freeAt_instantiate_ofParams (distinct : (f.params.map Param.id).Nodup)
    (made : ∀ x, f.body.Free x → x < next) (allMade : ∀ r, some r ∈ rs → ∀ x, r.Free x → x < next)
    {x : Nat} {place : List Nat} :
    (f.body.instantiate (.ofParams .empty f.params rs) next).1.FreeAt x place ↔
      (f.body.FreeAt x place ∧ ∀ p r, (p, some r) ∈ f.params.zip rs → p.id ≠ x) ∨
        ∃ p r outer rest, (p, some r) ∈ f.params.zip rs ∧ place = outer ++ rest ∧
          f.body.FreeAt p.id outer ∧ r.FreeAt x rest := by
  have stands (p : Param) := Replacement.freeAt_getD_ofParams_iff rs distinct p x
  constructor
  · intro h
    obtain ⟨p, outer, rest, rfl, hp, hx⟩ := Expr.exists_freeAt_of_instantiate _ h
    rcases (stands p rest).mp hx with ⟨q, r, hq, same, hx⟩ | ⟨⟨rfl, rfl⟩, unreplaced⟩
    · exact .inr ⟨q, r, outer, rest, hq, rfl, same ▸ hp, hx⟩
    · exact .inl ⟨by simpa using hp, unreplaced⟩
  · rintro (⟨hx, unreplaced⟩ | ⟨p, r, outer, rest, hp, rfl, free, hx⟩)
    · -- Only the identity matters, so any parameter that has it will do.
      let p : Param := ⟨x, "", .unknown⟩
      have same := (stands p []).mpr (.inr ⟨⟨rfl, rfl⟩, unreplaced⟩)
      simpa using Expr.freeAt_instantiate hx same (made x hx.free)
    · have inside := (stands p rest).mpr (.inl ⟨p, r, hp, rfl, hx⟩)
      exact Expr.freeAt_instantiate free inside (allMade r (List.of_mem_zip hp).2 x hx.free)

/-- Binding distinct parameters, some of them to expressions, gives a body whose free parameters are
exactly those of the function's body that are not replaced, and those of each expression whose
parameter is free in the body. Place by place, every free occurrence of a parameter gives way to its
expression, in which nothing is captured, and nothing else changes. All that is free was given out
before the binding starts. -/
theorem bindBody_free (distinct : (f.params.map Param.id).Nodup)
    (length : rs.length = f.params.length) (made : ∀ x, f.body.Free x → x < next)
    (allMade : ∀ r, some r ∈ rs → ∀ x, r.Free x → x < next) :
    ∃ bound next', f.bindBody rs next = .ok (bound, next') ∧
      (∀ x, bound.Free x ↔
        (f.body.Free x ∧ ∀ p r, (p, some r) ∈ f.params.zip rs → p.id ≠ x) ∨
          ∃ p r, (p, some r) ∈ f.params.zip rs ∧ f.body.Free p.id ∧ r.Free x) ∧
      ∀ x place, bound.FreeAt x place ↔
        (f.body.FreeAt x place ∧ ∀ p r, (p, some r) ∈ f.params.zip rs → p.id ≠ x) ∨
          ∃ p r outer rest, (p, some r) ∈ f.params.zip rs ∧ place = outer ++ rest ∧
            f.body.FreeAt p.id outer ∧ r.FreeAt x rest := by
  have bindBody : f.bindBody rs next =
      .ok (f.body.instantiate (.ofParams .empty f.params rs) next) := by
    simp [Func.bindBody, bind, length]
  refine ⟨_, _, bindBody, fun x => ?_, fun x place =>
    freeAt_instantiate_ofParams distinct made allMade⟩
  simp only [Expr.free_iff_exists_freeAt, freeAt_instantiate_ofParams distinct made allMade]
  constructor
  · rintro ⟨place, ⟨hx, unreplaced⟩ | ⟨p, r, outer, rest, hp, rfl, free, hx⟩⟩
    · exact .inl ⟨⟨place, hx⟩, unreplaced⟩
    · exact .inr ⟨p, r, hp, ⟨outer, free⟩, rest, hx⟩
  · rintro (⟨⟨place, hx⟩, unreplaced⟩ | ⟨p, r, hp, ⟨outer, free⟩, rest, hx⟩)
    · exact ⟨place, .inl ⟨hx, unreplaced⟩⟩
    · exact ⟨outer ++ rest, .inr ⟨p, r, outer, rest, hp, rfl, free, hx⟩⟩

theorem gathered_free : ∃ bound next',
    gathered.bindBody [some (.arg ⟨2, "item", .unknown⟩), none] 3 = .ok (bound, next') ∧
      (∀ x, bound.Free x ↔ x = 1 ∨ x = 2) ∧ bound.FreeAt 2 [0, 1, 1] := by
  have made : ∀ x, gathered.body.Free x → x < 3 := by
    simp [gathered]
    omega
  have distinct : (gathered.params.map Param.id).Nodup := by decide
  let rs : List (Option Expr) := [some (.arg ⟨2, "item", .unknown⟩), none]
  have length : rs.length = gathered.params.length := rfl
  have allMade : ∀ r, some r ∈ rs → ∀ x, r.Free x → x < 3 := by simp [rs]
  obtain ⟨bound, next', bindBody, free, places⟩ := bindBody_free distinct length made allMade
  refine ⟨bound, next', bindBody, fun x => (free x).trans ?_, (places 2 [0, 1, 1]).mpr ?_⟩
  · simp [gathered, rs]
    omega
  · refine .inr ⟨⟨0, "record", .unknown⟩, _, [0, 1, 1], [], .head _, rfl, ?_, .arg rfl⟩
    refine .operand rfl ?_ (.operand rfl ?_ (.operand rfl ?_ (.arg rfl)))
    all_goals simp

end Func

end RecordMapping
