import RecordMapping.Proofs.Identities

/-!
# Mapping arguments that are settled ahead

A composer puts entities in the place of parameters before it evaluates mapping arguments. Where no
mapping argument refers to what a function or a selector is bound to, that makes no difference: a
copy of a marker refers to exactly what the marker refers to as it is written. This is kept while
markers are replaced.

## Implementation notes

The functions that are referenced have to be settled in this sense too, and may have any property
besides. What is known ahead of any record is what has a value outside of every scope.
-/

namespace RecordMapping

namespace Expr

/-- The value of the expression is not known ahead of any record. -/
def Unknown (e : Expr) : Prop := ∀ depth v, e.evalClosed depth ≠ .ok v

/-- A parameter has no value outside of every scope. -/
theorem unknown_arg (p : Param) : (arg p).Unknown := by
  intro depth v
  exact nofun

end Expr

/-- What stands in the place of a parameter is not known ahead of any record, and refers to
parameters below a bound. -/
structure Replacement.Unknown (replacement : Replacement) (n : Nat) (p : Param) : Prop where
  unknown : ((replacement p.id).getD (.arg p)).Unknown
  below : ∀ x, ((replacement p.id).getD (.arg p)).Free x → x < n

namespace Replacement.Unknown

variable {replacement : Replacement} {n k : Nat} {p : Param}

theorem mono (h : replacement.Unknown n p) (hk : n ≤ k) : replacement.Unknown k p :=
  ⟨h.unknown, fun x hx => Nat.lt_of_lt_of_le (h.below x hx) hk⟩

/-- In the place of a renamed binder stands a new parameter. -/
theorem renamed {bound : List Param} (h : (∀ q ∈ bound, q.id ≠ p.id) → replacement.Unknown n p)
    (hk : n ≤ k) : (freshen bound replacement k).replacement.Unknown
      (freshen bound replacement k).next p := by
  by_cases hb : ∃ q ∈ bound, q.id = p.id
  · obtain ⟨q, hq, hr⟩ := Expr.freshen_replacement_bound hb replacement k
    refine ⟨by simpa [hr] using Expr.unknown_arg q, fun x hx => ?_⟩
    rw [hr, Option.getD_some, Expr.free_arg] at hx
    exact hx ▸ (Expr.freshen_bound hq).2
  · have others : ∀ q ∈ bound, q.id ≠ p.id := by simpa using hb
    have same := Expr.freshen_replacement_other others replacement k
    have le := Nat.le_trans hk (Expr.le_freshen bound replacement k)
    exact ⟨same ▸ (h others).unknown, same ▸ ((h others).mono le).below⟩

/-- Where only newer parameters are bound, what stands in the place of the parameter has no value
either. -/
theorem linked (h : replacement.Unknown n p) (depth : Nat) :
    Expr.Linked Agreement.preserving.flip (Callable.call depth) n replacement [] [] p := by
  refine .inr ⟨rfl, n, Nat.le_refl n, fun _ _ => rfl, fun σ' hσ' v hv => ?_⟩
  refine absurd ?_ (h.unknown depth v)
  refine Expr.evalWith_rel Agreement.preserving (fun _ _ => Agreement.preserving.refl _) _
    (fun q hq => ?_) v hv
  rw [Scope.read, hσ' q.id (h.below q.id hq)]
  exact Agreement.preserving.refl _

end Replacement.Unknown

namespace Expr

section Unknown

variable {e mapping : Expr} {replacement : Replacement} {n : Nat}

/-- What an instance has for a value, the expression has, if nothing known stands in the place of a
parameter. -/
theorem evalClosed_of_instantiate (fits : ∀ p : Param, e.Free p.id → replacement.Unknown n p)
    (depth : Nat) : Agreement.preserving.rel ((e.instantiate replacement n).1.evalClosed depth)
      (e.evalClosed depth) :=
  instantiate_rel (R := Agreement.preserving.flip) (fun _ _ => Agreement.preserving.refl _)
    (fun _ _ => nofun) e fun p hp => (fits p hp).linked depth

/-- An instance refers to nothing new, if nothing known stands in the place of a parameter. -/
theorem refersTo_instantiate_iff {kind : MarkerKind} {t : Target}
    (fits : ∀ p : Param, mapping.Free p.id → replacement.Unknown n p) :
    (mapping.instantiate replacement n).1.RefersTo kind t ↔ mapping.RefersTo kind t := by
  constructor
  · rintro ⟨depth, h⟩
    have closed := evalClosed_of_instantiate fits depth
    exact ⟨depth, Agreement.preserving.resolve kind closed t h⟩
  · exact fun h => h.instantiate replacement n

end Unknown

/-- Below binders, either a new parameter stands for one that they bind, or what stands for a
parameter is what stands for it outside. -/
theorem freshen_cases (bound : List Param) (replacement : Replacement) (n : Nat) (p : Param) :
    ((∃ b ∈ bound, b.id = p.id) ∧ ∃ q ∈ (freshen bound replacement n).params,
      ((freshen bound replacement n).replacement p.id).getD (.arg p) = .arg q) ∨
    ((∀ b ∈ bound, b.id ≠ p.id) ∧
      (freshen bound replacement n).replacement p.id = replacement p.id) := by
  by_cases hb : ∃ b ∈ bound, b.id = p.id
  · obtain ⟨q, hq, hr⟩ := freshen_replacement_bound hb replacement n
    exact .inl ⟨hb, q, hq, by rw [hr, Option.getD_some]⟩
  · have others : ∀ b ∈ bound, b.id ≠ p.id := by simpa using hb
    exact .inr ⟨others, freshen_replacement_other others replacement n⟩

theorem not_freeInMapping_arg {p : Param} {x : Nat} : ¬ (arg p).FreeInMapping x := by
  rw [freeInMapping_iff]
  simp [asMarker?]

/-- What mapping arguments of an instance refer to is what stands for a parameter that those of the
expression refer to, or stands in a mapping argument of what is put in. -/
theorem exists_freeInMapping_of_instantiate {e : Expr} {replacement : Replacement} {n x : Nat}
    (h : (e.instantiate replacement n).1.FreeInMapping x) :
    (∃ p : Param, e.FreeInMapping p.id ∧ ((replacement p.id).getD (.arg p)).Free x) ∨
      ∃ p : Param, e.Free p.id ∧ ((replacement p.id).getD (.arg p)).FreeInMapping x := by
  induction e using operand_induction generalizing replacement n with
  | step e ih =>
    by_cases he : ∃ p, e = .arg p
    · obtain ⟨p, rfl⟩ := he
      exact .inr ⟨p, by simp, h⟩
    · have inner : ∀ p, e ≠ .arg p := fun p hp => he ⟨p, hp⟩
      rcases freeInMapping_iff.mp h with ⟨m', hm', hx⟩ | ⟨o', ho', hb, hx⟩
      · cases hm : e.asMarker? with
        | none => cases (asMarker?_instantiate inner hm).symm.trans hm'
        | some m =>
            obtain rfl := (Marker.asMarker?_eq_some_iff e m).mp hm
            obtain ⟨m₁, k, instance_eq, -, -, mapping⟩ := m.exists_mapping_instance replacement n
            rw [instance_eq, Marker.asMarker?_toExpr] at hm'
            cases hm'
            rw [mapping] at hx
            obtain ⟨p, hp, hx⟩ := exists_free_of_instantiate _ hx
            exact .inl ⟨p, .mapping hp, hx⟩
      · obtain ⟨o, ho, k, -, rfl, -⟩ := exists_operand_of_instantiate inner ho'
        rcases ih o ho hx with ⟨p, hp, hx⟩ | ⟨p, hp, hx⟩
        all_goals rcases freshen_cases o.bound replacement k p with
          ⟨-, q, hq, stands⟩ | ⟨others, stands⟩
        · rw [stands] at hx
          exact absurd (free_arg.mp hx) (hb q hq)
        · exact .inl ⟨p, .operand ho others hp, stands ▸ hx⟩
        · rw [stands] at hx
          exact absurd hx not_freeInMapping_arg
        · exact .inr ⟨p, .operand ho others hp, stands ▸ hx⟩

end Expr

/-- No mapping argument in the function refers to its parameters. -/
def Func.ResolvesAhead (f : Func) : Prop := ∀ p ∈ f.params, ¬ f.body.FreeInMapping p.id

/-- If the expression is a marker over a selector, the selector resolves ahead. -/
def Expr.PicksAhead : Expr → Prop
  | .includeVia _ _ selector _ _ => selector.ResolvesAhead
  | _ => True

/-- Every selector outside of mapping arguments resolves ahead. -/
def Expr.SelectsAhead (e : Expr) : Prop := e.EveryLive PicksAhead

/-- The function and its selectors resolve ahead. -/
structure Func.SettledAhead (f : Func) : Prop where
  resolves : f.ResolvesAhead
  selects : f.body.SelectsAhead

namespace Expr

variable {P : Func → Prop}

/-- A selector that stands here resolves ahead, and what a marker refers to that stands here has a
property. -/
structure AheadHere (P : Func → Prop) (e : Expr) : Prop where
  picks : e.PicksAhead
  targets : ∀ m, e.asMarker? = some m → ∀ t, m.mapping.RefersTo m.kind t →
    P t.function ∧ ∀ t', t.function.body.References t' → P t'.function

/-- Every selector resolves ahead, and all functions that the expression references have a
property. -/
def Ahead (P : Func → Prop) (e : Expr) : Prop := e.EveryLive (AheadHere P)

theorem ahead_of_references {e : Expr} (selects : e.SelectsAhead)
    (references : ∀ t, e.References t → P t.function) : e.Ahead P := by
  intro s hs
  refine ⟨selects s hs, fun m hm t ht => ?_⟩
  obtain rfl := (Marker.asMarker?_eq_some_iff s m).mp hm
  exact ⟨references t (.here hs ht), fun t' ht' => references t' (.there hs ht ht')⟩

theorem AheadHere.of_unmarked {e : Expr} (unmarked : e.asMarker? = none) : e.AheadHere P := by
  constructor
  · cases e with
    | includeVia => cases unmarked
    | _ => trivial
  · intro m hm
    cases unmarked.symm.trans hm

theorem Ahead.operand {e : Expr} (h : e.Ahead P) {o : Operand} (ho : o ∈ e.live) :
    o.expr.Ahead P :=
  (everyLive_iff.mp h).2 o ho

/-- What a marker refers to, and what that refers to in turn. -/
theorem Ahead.target (settled : ∀ f, P f → f.SettledAhead) {m : Marker} (h : m.toExpr.Ahead P)
    {t : Target} (ht : m.mapping.RefersTo m.kind t) :
    P t.function ∧ t.function.body.Ahead P := by
  obtain ⟨holds, references⟩ := (h _ .self).targets m (Marker.asMarker?_toExpr m) t ht
  exact ⟨holds, ahead_of_references (settled _ holds).selects references⟩

/-- What is put in the place of the free parameters of an expression keeps it ahead: where a mapping
argument refers to a parameter, what stands for it is not known ahead of any record. -/
structure KeepsAhead (P : Func → Prop) (replacement : Replacement) (n : Nat) (e : Expr) :
    Prop where
  stands : ∀ p : Param, e.Reads p.id → ((replacement p.id).getD (.arg p)).Ahead P
  unknown : ∀ p : Param, e.FreeInMapping p.id → replacement.Unknown n p
  below : ∀ p : Param, e.Free p.id → ∀ x, ((replacement p.id).getD (.arg p)).Free x → x < n

theorem ahead_arg (p : Param) : (arg p).Ahead P :=
  everyLive_iff.mpr ⟨.of_unmarked rfl, by simp⟩

variable {replacement : Replacement} {n : Nat} {e : Expr}

theorem KeepsAhead.operand (h : e.KeepsAhead P replacement n) {o : Operand} (ho : o ∈ e.live)
    {k : Nat} (hk : n ≤ k) : o.expr.KeepsAhead P (freshen o.bound replacement k).replacement
      (freshen o.bound replacement k).next := by
  have le := Nat.le_trans hk (le_freshen o.bound replacement k)
  refine ⟨fun p hp => ?_, fun p hp => .renamed (fun others => h.unknown p ?_) hk,
    fun p hp x hx => ?_⟩
  · rcases freshen_cases o.bound replacement k p with ⟨-, q, -, stands⟩ | ⟨others, stands⟩
    · exact stands ▸ ahead_arg q
    · exact stands ▸ h.stands p (.operand ho others hp)
  · exact .operand (live_subset ho) others hp
  · rcases freshen_cases o.bound replacement k p with ⟨-, q, hq, stands⟩ | ⟨others, stands⟩
    · rw [stands, free_arg] at hx
      exact hx ▸ (freshen_bound hq).2
    · rw [stands] at hx
      exact Nat.lt_of_lt_of_le (h.below p (.operand (live_subset ho) others hp) x hx) le

/-- An instance of a selector that resolves ahead resolves ahead: its new parameters stand for those
of the selector alone. -/
theorem PicksAhead.instantiate (h : e.PicksAhead) (inner : ∀ p, e ≠ .arg p)
    (below : ∀ p : Param, e.Free p.id → ∀ x, ((replacement p.id).getD (.arg p)).Free x → x < n) :
    (e.instantiate replacement n).1.PicksAhead := by
  cases e with
  | arg p => exact absurd rfl (inner p)
  | includeVia kind parent selector mapping ty =>
      obtain ⟨params, body⟩ := selector
      intro q hq hx
      have new := Nat.le_trans (parent.le_instantiate replacement n) (freshen_bound hq).1
      have outer {p : Param} (others : ∀ b ∈ params, b.id ≠ p.id) (hp : body.Free p.id)
          (hx : ((replacement p.id).getD (.arg p)).Free q.id) : False := by
        have old := below p (free_includeVia.mpr (.inr (.inl ⟨others, hp⟩))) q.id hx
        omega
      rcases exists_freeInMapping_of_instantiate hx with ⟨p, hp, hx⟩ | ⟨p, hp, hx⟩
      all_goals rcases freshen_cases params replacement (parent.instantiate replacement n).2 p with
        ⟨⟨b, hb, same⟩, r, -, stands⟩ | ⟨others, stands⟩
      · exact h b hb (same ▸ hp)
      · exact outer others hp.free (stands ▸ hx)
      · rw [stands] at hx
        exact not_freeInMapping_arg hx
      · exact outer others hp (stands ▸ hx).free
  | map base lambda =>
      obtain ⟨params, body⟩ := lambda
      trivial
  | _ => trivial

/-- An instance of an expression that is ahead is ahead: the copies of its markers refer to nothing
that the markers do not refer to. -/
theorem Ahead.instantiate (h : e.Ahead P) (keeps : e.KeepsAhead P replacement n) :
    (e.instantiate replacement n).1.Ahead P := by
  induction e using operand_induction generalizing replacement n with
  | step e ih =>
    by_cases he : ∃ p, e = .arg p
    · obtain ⟨p, rfl⟩ := he
      exact keeps.stands p (by simp)
    · have inner : ∀ p, e ≠ .arg p := fun p hp => he ⟨p, hp⟩
      obtain ⟨here, below⟩ := everyLive_iff.mp h
      refine everyLive_iff.mpr ⟨⟨here.picks.instantiate inner keeps.below, fun m' hm' t ht => ?_⟩,
        fun o' ho' => ?_⟩
      · cases hm : e.asMarker? with
        | none => cases (asMarker?_instantiate inner hm).symm.trans hm'
        | some m =>
            obtain rfl := (Marker.asMarker?_eq_some_iff e m).mp hm
            obtain ⟨m₁, k, instance_eq, hk, kind, mapping⟩ :=
              m.exists_mapping_instance replacement n
            rw [instance_eq, Marker.asMarker?_toExpr] at hm'
            cases hm'
            rw [kind, mapping, refersTo_instantiate_iff] at ht
            · exact here.targets m (Marker.asMarker?_toExpr m) t ht
            · exact fun p hp => (keeps.unknown p (.mapping hp)).mono hk
      · obtain ⟨o, ho, k, hk, rfl⟩ := exists_live_of_instantiate inner ho'
        exact ih o (live_subset ho) (below o ho) (keeps.operand ho hk)

/-- Something that is ahead may be put in the place of a parameter that no mapping argument refers
to. -/
theorem Ahead.instantiate_single (h : e.Ahead P) {x : Expr} (hx : x.Ahead P) {p : Param}
    (resolves : ¬ e.FreeInMapping p.id) (made : e.MadeBefore n) (madePiece : x.MadeBefore n) :
    (e.instantiate (Replacement.empty.set p.id x) n).1.Ahead P := by
  have cases (q : Param) : (q.id = p.id ∧ ((Replacement.empty.set p.id x) q.id).getD (.arg q) = x) ∨
      (q.id ≠ p.id ∧ ((Replacement.empty.set p.id x) q.id).getD (.arg q) = .arg q) := by
    by_cases same : q.id = p.id
    · exact .inl ⟨same, by simp [same]⟩
    · exact .inr ⟨same, by simp [Replacement.set_other _ same]⟩
  have below (q : Param) (hq : e.Free q.id) (y : Nat)
      (hy : (((Replacement.empty.set p.id x) q.id).getD (.arg q)).Free y) : y < n := by
    rcases cases q with ⟨-, stands⟩ | ⟨-, stands⟩
    · exact madePiece y (stands ▸ hy).mentions
    · rw [stands, free_arg] at hy
      exact made y (hy ▸ hq).mentions
  refine h.instantiate ⟨fun q _ => ?_, fun q hq => ⟨?_, below q hq.free⟩, below⟩
  · rcases cases q with ⟨-, stands⟩ | ⟨-, stands⟩
    · rwa [stands]
    · rw [stands]
      exact ahead_arg q
  · rcases cases q with ⟨same, -⟩ | ⟨-, stands⟩
    · exact absurd (same ▸ hq) resolves
    · rw [stands]
      exact unknown_arg q

end Expr

/-- The expression of an entity is ahead if the marker is. -/
theorem Marker.ahead_entity {P : Func → Prop} {m : Marker} {entity : Expr} {n n' : Nat}
    (h : m.entity n = .ok (entity, n')) (ahead : m.toExpr.Ahead P)
    (made : m.toExpr.MadeBefore n) : entity.Ahead P := by
  obtain ⟨kind, source, mapping, ty⟩ := m
  cases source with
  | entity e =>
      cases h
      exact ahead.operand (o := ⟨[], entity⟩) (by simp [toExpr])
  | navigation parent selector =>
      obtain ⟨p, hp, hinst⟩ := Func.bindBody_singleton_eq_ok h
      obtain rfl : _ = entity := congrArg Prod.fst hinst
      have picks : selector.ResolvesAhead := (ahead _ .self).picks
      have body := ahead.operand (o := ⟨selector.params, selector.body⟩) (by simp [toExpr])
      have above := ahead.operand (o := ⟨[], parent⟩) (by simp [toExpr])
      refine body.instantiate_single above (picks p (by simp [hp])) ?_ ?_
      · exact made.operand (o := ⟨selector.params, selector.body⟩) (by simp [toExpr])
      · exact made.operand (o := ⟨[], parent⟩) (by simp [toExpr])

/-- What replaces a marker is ahead if the marker is. -/
theorem Composer.inlineOnce_ahead {P : Func → Prop} (settled : ∀ f, P f → f.SettledAhead)
    {c : Composer} {depth : Nat} {m : Marker} {e : Expr} {w w' : Workspace}
    (once : c.inlineOnce depth m w = (.ok e, w')) (ahead : m.toExpr.Ahead P)
    (made : m.toExpr.MadeBefore w.nextParam) : e.Ahead P := by
  obtain ⟨entity, n, t, p, hentity, ht, hp, rfl, _, _⟩ := inlineOnce_eq_ok once
  obtain ⟨holds, target⟩ := ahead.target settled ⟨depth, ht⟩
  have resolves := (settled _ holds).resolves p (by simp [hp])
  have entity_ahead := Marker.ahead_entity hentity ahead made
  have targetMade := (Marker.madeBefore_target ⟨depth, ht⟩ made).mono (Marker.le_entity hentity)
  have body := target.instantiate_single entity_ahead resolves
    (Func.madeBefore_iff.mp targetMade).2 (Marker.madeBefore_entity hentity made)
  intro s hs
  rcases live_guarded hs with hs | hs | ⟨unmarked, _⟩
  · exact body s hs
  · exact entity_ahead s hs
  · exact .of_unmarked unmarked

end RecordMapping
