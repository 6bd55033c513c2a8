import RecordMapping.Proofs.Inlining

/-!
# What an expression refers to

The mapping argument of a marker is looked at ahead of any record; every other operand is live: it
is evaluated on a record, compiled and rewritten. The parameters that an expression reads and the
markers that it has are those that stand in live operands. Through its markers an expression refers
to further functions, and through theirs to further ones.

What replaces a marker has copies of its markers and of those of the function that it refers to. As
long as a marker has a target where it was written, its copies have the same one, so an expression
refers to nothing new when its markers are replaced.
-/

namespace RecordMapping

namespace Expr

/-- The operands of an expression, less the mapping argument of a marker. -/
@[simp] def live : Expr → List Operand
  | .includeEntity _ entity _ _ => [⟨[], entity⟩]
  | .includeVia _ parent selector _ _ => [⟨[], parent⟩, ⟨selector.params, selector.body⟩]
  | e => e.operands

theorem live_subset {e : Expr} {o : Operand} (h : o ∈ e.live) : o ∈ e.operands := by
  cases e with
  | includeEntity kind entity mapping ty =>
      simp only [live, List.mem_singleton] at h
      simp [h]
  | includeVia kind parent selector mapping ty =>
      simp only [live, List.mem_cons, List.not_mem_nil, or_false] at h
      rcases h with rfl | rfl <;> simp
  | _ => exact h

theorem live_of_unmarked {e : Expr} (h : e.asMarker? = none) : e.live = e.operands := by
  cases e with
  | includeEntity | includeVia => cases h
  | _ => rfl

/-- An expression that stands in another one outside of mapping arguments, or is all of it. -/
inductive LivePart (s : Expr) : Expr → Prop
  | self : LivePart s s
  | operand {e : Expr} {o : Operand} (ho : o ∈ e.live) (h : LivePart s o.expr) : LivePart s e

/-- All live parts of an expression have a property. -/
def EveryLive (P : Expr → Prop) (e : Expr) : Prop := ∀ s : Expr, s.LivePart e → P s

theorem everyLive_iff {P : Expr → Prop} {e : Expr} :
    e.EveryLive P ↔ P e ∧ ∀ o ∈ e.live, o.expr.EveryLive P := by
  constructor
  · exact fun h => ⟨h e .self, fun o ho s hs => h s (.operand ho hs)⟩
  · rintro ⟨he, ho⟩ s hs
    cases hs with
    | self => exact he
    | operand hm hs => exact ho _ hm s hs

/-- The marker stands in the expression outside of mapping arguments. -/
def Marks (e : Expr) (m : Marker) : Prop := m.toExpr.LivePart e

theorem marks_iff {e : Expr} {m : Marker} :
    e.Marks m ↔ e.asMarker? = some m ∨ ∃ o ∈ e.live, o.expr.Marks m := by
  constructor
  · intro h
    cases h with
    | self => exact .inl (Marker.asMarker?_toExpr m)
    | operand ho h => exact .inr ⟨_, ho, h⟩
  · rintro (h | ⟨o, ho, h⟩)
    · rw [(Marker.asMarker?_eq_some_iff e m).mp h]
      exact .self
    · exact .operand ho h

theorem not_marks_arg {p : Param} {m : Marker} : ¬ (arg p).Marks m := by
  intro h
  obtain ⟨kind, source, mapping, ty⟩ := m
  cases source with
  | entity | navigation =>
      cases h with
      | operand ho _ => simp at ho

/-- A parameter that is referred to outside of mapping arguments and of what binds it. -/
inductive Reads (x : Nat) : Expr → Prop
  | arg {p : Param} (h : p.id = x) : Reads x (.arg p)
  | operand {e : Expr} {o : Operand} (ho : o ∈ e.live) (hb : ∀ p ∈ o.bound, p.id ≠ x)
      (h : Reads x o.expr) : Reads x e

theorem reads_iff {e : Expr} {x : Nat} :
    e.Reads x ↔ (∃ p, e = .arg p ∧ p.id = x) ∨
      ∃ o ∈ e.live, (∀ p ∈ o.bound, p.id ≠ x) ∧ o.expr.Reads x := by
  constructor
  · rintro (h | ⟨ho, hb, h⟩)
    · exact .inl ⟨_, rfl, h⟩
    · exact .inr ⟨_, ho, hb, h⟩
  · rintro (⟨p, rfl, h⟩ | ⟨o, ho, hb, h⟩)
    · exact .arg h
    · exact .operand ho hb h

@[simp] theorem reads_arg {p : Param} {x : Nat} : (arg p).Reads x ↔ p.id = x := by
  rw [reads_iff]
  simp

@[simp] theorem reads_const {v : Value} {x : Nat} : ¬ (const v).Reads x := by
  rw [reads_iff]
  simp

@[simp] theorem reads_compare {op : Comparison} {left right : Expr} {x : Nat} :
    (compare op left right).Reads x ↔ left.Reads x ∨ right.Reads x := by
  rw [reads_iff]
  simp

@[simp] theorem reads_call {callee : Expr} {args : List Expr} {x : Nat} :
    (call callee args).Reads x ↔ callee.Reads x ∨ ∃ a ∈ args, a.Reads x := by
  rw [reads_iff]
  simp

@[simp] theorem reads_cond {test yes no : Expr} {x : Nat} :
    (cond test yes no).Reads x ↔ test.Reads x ∨ yes.Reads x ∨ no.Reads x := by
  rw [reads_iff]
  simp

@[simp] theorem reads_field {base : Expr} {id : FieldId} {x : Nat} :
    (field base id).Reads x ↔ base.Reads x := by
  rw [reads_iff]
  simp

@[simp] theorem reads_includeEntity {kind : MarkerKind} {entity mapping : Expr} {ty : Ty}
    {x : Nat} : (includeEntity kind entity mapping ty).Reads x ↔ entity.Reads x := by
  rw [reads_iff]
  simp

@[simp] theorem reads_includeVia {kind : MarkerKind} {parent mapping : Expr} {selector : Func}
    {ty : Ty} {x : Nat} :
    (includeVia kind parent selector mapping ty).Reads x ↔
      parent.Reads x ∨ ((∀ p ∈ selector.params, p.id ≠ x) ∧ selector.body.Reads x) := by
  rw [reads_iff]
  simp

@[simp] theorem reads_isNull {negate : Bool} {operand : Expr} {x : Nat} :
    (isNull negate operand).Reads x ↔ operand.Reads x := by
  rw [reads_iff]
  simp

@[simp] theorem reads_list {items : List Expr} {x : Nat} :
    (list items).Reads x ↔ ∃ e ∈ items, e.Reads x := by
  rw [reads_iff]
  simp

@[simp] theorem reads_map {base : Expr} {lambda : Func} {x : Nat} :
    (map base lambda).Reads x ↔
      base.Reads x ∨ ((∀ p ∈ lambda.params, p.id ≠ x) ∧ lambda.body.Reads x) := by
  rw [reads_iff]
  simp

@[simp] theorem reads_record {model : ModelId} {fields : List Expr} {x : Nat} :
    (record model fields).Reads x ↔ ∃ e ∈ fields, e.Reads x := by
  rw [reads_iff]
  simp

theorem Reads.free {e : Expr} {x : Nat} (h : e.Reads x) : e.Free x := by
  induction h with
  | arg h => exact .arg h
  | operand ho hb _ ih => exact .operand (live_subset ho) hb ih

/-- If the expression is a map or a marker over a selector, its lambda takes exactly one
parameter. -/
def TakesOne : Expr → Prop
  | .map _ lambda => lambda.arity = 1
  | .includeVia _ _ selector _ _ => selector.arity = 1
  | _ => True

/-- Every lambda and every selector takes exactly one parameter. -/
def Unary (e : Expr) : Prop := e.EveryLive TakesOne

theorem unary_iff {e : Expr} : e.Unary ↔ e.TakesOne ∧ ∀ o ∈ e.live, o.expr.Unary :=
  everyLive_iff

theorem Unary.operand {e : Expr} (h : e.Unary) {o : Operand} (ho : o ∈ e.live) : o.expr.Unary :=
  (unary_iff.mp h).2 o ho

theorem unary_arg (p : Param) : (arg p).Unary :=
  unary_iff.mpr ⟨trivial, by simp⟩

end Expr

namespace Marker

/-- The first marker refers to what the second one refers to. -/
def Retains (m' m : Marker) : Prop :=
  ∀ t, m.mapping.RefersTo m.kind t → m'.mapping.RefersTo m'.kind t

theorem Retains.refl (m : Marker) : m.Retains m := fun _ h => h

/-- An instance of a marker has an instance of its mapping argument. -/
theorem exists_mapping_instance (m : Marker) (replacement : Replacement) (n : Nat) :
    ∃ (m' : Marker) (k : Nat), (m.toExpr.instantiate replacement n).1 = m'.toExpr ∧ n ≤ k ∧
      m'.kind = m.kind ∧ m'.mapping = (m.mapping.instantiate replacement k).1 := by
  obtain ⟨kind, source, mapping, ty⟩ := m
  cases source with
  | entity e =>
      have le := e.le_instantiate replacement n
      exact ⟨⟨kind, .entity _, (mapping.instantiate replacement _).1, ty⟩, _, rfl, le, rfl, rfl⟩
  | navigation parent selector =>
      obtain ⟨params, body⟩ := selector
      have le := Nat.le_trans (parent.le_instantiate replacement n)
        (Expr.le_operand_instantiate ⟨params, body⟩ replacement _)
      exact ⟨⟨kind, .navigation _ ⟨_, _⟩, (mapping.instantiate replacement _).1, ty⟩, _, rfl, le,
        rfl, rfl⟩

/-- An instance of a marker is a marker that refers to the same target. -/
theorem exists_instantiate (m : Marker) (replacement : Replacement) (n : Nat) :
    ∃ m' : Marker, (m.toExpr.instantiate replacement n).1 = m'.toExpr ∧ m'.Retains m := by
  obtain ⟨m', k, same, _, kind, mapping⟩ := m.exists_mapping_instance replacement n
  refine ⟨m', same, fun t ht => ?_⟩
  rw [kind, mapping]
  exact ht.instantiate replacement k

theorem toExpr_injective {m m' : Marker} (h : m.toExpr = m'.toExpr) : m = m' := by
  have hm := congrArg Expr.asMarker? h
  rw [asMarker?_toExpr, asMarker?_toExpr] at hm
  exact Option.some.inj hm

end Marker

namespace Expr

section Instances

variable {e : Expr} {replacement : Replacement} {n : Nat}

/-- Every live operand of an instance is an instance of a live operand. -/
theorem exists_live_of_instantiate (h : ∀ p, e ≠ .arg p) {o' : Operand}
    (ho : o' ∈ (e.instantiate replacement n).1.live) :
    ∃ o ∈ e.live, ∃ k, n ≤ k ∧ (o.instantiate replacement k).1 = o' := by
  cases hm : e.asMarker? with
  | none =>
      rw [live_of_unmarked (asMarker?_instantiate h hm)] at ho
      obtain ⟨o, hmem, k, hk, rfl, _⟩ := exists_operand_of_instantiate h ho
      exact ⟨o, by rwa [live_of_unmarked hm], k, hk, rfl⟩
  | some m =>
      obtain rfl := (Marker.asMarker?_eq_some_iff e m).mp hm
      obtain ⟨kind, source, mapping, ty⟩ := m
      cases source with
      | entity entity =>
          obtain rfl := List.mem_singleton.mp ho
          exact ⟨⟨[], entity⟩, List.mem_singleton.mpr rfl, n, Nat.le_refl n, rfl⟩
      | navigation parent selector =>
          obtain ⟨params, body⟩ := selector
          simp only [Marker.toExpr, instantiate, live, List.mem_cons, List.not_mem_nil,
            or_false] at ho
          rcases ho with rfl | rfl
          · exact ⟨⟨[], parent⟩, by simp [Marker.toExpr], n, Nat.le_refl n, rfl⟩
          · exact ⟨⟨params, body⟩, by simp [Marker.toExpr], _, parent.le_instantiate _ n, rfl⟩

/-- A parameter that an instance reads is read by what stands for one that the expression reads. -/
theorem exists_reads_of_instantiate {x : Nat} (h : (e.instantiate replacement n).1.Reads x) :
    ∃ p : Param, e.Reads p.id ∧ ((replacement p.id).getD (.arg p)).Reads x := by
  induction e using operand_induction generalizing replacement n with
  | step e ih =>
    by_cases he : ∃ p, e = .arg p
    · obtain ⟨p, rfl⟩ := he
      exact ⟨p, by simp, h⟩
    · have inner : ∀ p, e ≠ .arg p := fun p hp => he ⟨p, hp⟩
      rcases reads_iff.mp h with ⟨p, hp, rfl⟩ | ⟨o', ho', hb, hreads⟩
      · exact absurd hp (instantiate_ne_arg inner p)
      · obtain ⟨o, ho, k, _, rfl⟩ := exists_live_of_instantiate inner ho'
        obtain ⟨p, hp, hx⟩ := ih o (live_subset ho) hreads
        by_cases hbound : ∃ q ∈ o.bound, q.id = p.id
        · obtain ⟨q, hq, hr⟩ := freshen_replacement_bound hbound replacement k
          rw [hr, Option.getD_some, reads_arg] at hx
          exact absurd hx (hb q hq)
        · rw [freshen_replacement_other (by simpa using hbound)] at hx
          exact ⟨p, .operand ho (by simpa using hbound) hp, hx⟩

/-- A live part of an instance that is no parameter is an instance of a live part, or stands in what
stands for a parameter that the expression reads. -/
theorem exists_part_of_instantiate {s : Expr} (h : s.LivePart (e.instantiate replacement n).1) :
    (∃ s₀ : Expr, s₀.LivePart e ∧ (∀ p, s₀ ≠ .arg p) ∧
      ∃ replacement' k, s = (s₀.instantiate replacement' k).1) ∨
      (∃ p, s = .arg p) ∨
      ∃ p : Param, e.Reads p.id ∧ s.LivePart ((replacement p.id).getD (.arg p)) := by
  induction e using operand_induction generalizing replacement n with
  | step e ih =>
    by_cases he : ∃ p, e = .arg p
    · obtain ⟨p, rfl⟩ := he
      exact .inr (.inr ⟨p, by simp, h⟩)
    · have inner : ∀ p, e ≠ .arg p := fun p hp => he ⟨p, hp⟩
      cases h with
      | self => exact .inl ⟨e, .self, inner, replacement, n, rfl⟩
      | operand ho' hs =>
          obtain ⟨o, ho, k, _, rfl⟩ := exists_live_of_instantiate inner ho'
          rcases ih o (live_subset ho) hs with ⟨s₀, hs₀, hinst⟩ | harg | ⟨p, hp, hx⟩
          · exact .inl ⟨s₀, .operand ho hs₀, hinst⟩
          · exact .inr (.inl harg)
          · by_cases hbound : ∃ q ∈ o.bound, q.id = p.id
            · obtain ⟨q, hq, hr⟩ := freshen_replacement_bound hbound replacement k
              rw [hr, Option.getD_some] at hx
              cases hx with
              | self => exact .inr (.inl ⟨q, rfl⟩)
              | operand ho _ => simp at ho
            · rw [freshen_replacement_other (by simpa using hbound)] at hx
              exact .inr (.inr ⟨p, .operand ho (by simpa using hbound) hp, hx⟩)

/-- A marker of an instance retains one of the expression, or stands in what stands for a parameter
that the expression reads. -/
theorem exists_marks_of_instantiate {m' : Marker} (h : (e.instantiate replacement n).1.Marks m') :
    (∃ m, e.Marks m ∧ m'.Retains m) ∨
      ∃ p : Param, e.Reads p.id ∧ ((replacement p.id).getD (.arg p)).Marks m' := by
  rcases exists_part_of_instantiate h with ⟨s, hs, inner, ρ, k, hm⟩ | ⟨p, hp⟩ | hx
  · cases hmarker : s.asMarker? with
    | none =>
        have hn : (s.instantiate ρ k).1.asMarker? = none := asMarker?_instantiate inner hmarker
        rw [← hm, Marker.asMarker?_toExpr] at hn
        cases hn
    | some m =>
        obtain rfl := (Marker.asMarker?_eq_some_iff s m).mp hmarker
        obtain ⟨m₁, hinst, retains⟩ := m.exists_instantiate ρ k
        obtain rfl := Marker.toExpr_injective (hm.trans hinst)
        exact .inl ⟨m, hs, retains⟩
  · have hm := congrArg asMarker? hp
    rw [Marker.asMarker?_toExpr] at hm
    cases hm
  · exact .inr hx

theorem takesOne_instantiate (h : e.TakesOne) (inner : ∀ p, e ≠ .arg p) :
    (e.instantiate replacement n).1.TakesOne := by
  cases e with
  | arg p => exact absurd rfl (inner p)
  | map base lambda =>
      obtain ⟨params, body⟩ := lambda
      exact (length_freshen _ _ _).trans h
  | includeVia kind parent selector mapping ty =>
      obtain ⟨params, body⟩ := selector
      exact (length_freshen _ _ _).trans h
  | _ => trivial

theorem Unary.instantiate (h : e.Unary)
    (fits : ∀ p : Param, e.Reads p.id → ((replacement p.id).getD (.arg p)).Unary) :
    (e.instantiate replacement n).1.Unary := by
  intro s hs
  rcases exists_part_of_instantiate hs with ⟨s₀, hs₀, inner, ρ, k, rfl⟩ | ⟨p, rfl⟩ | ⟨p, hp, hx⟩
  · exact takesOne_instantiate (h s₀ hs₀) inner
  · trivial
  · exact fits p hp s hx

end Instances

section Single

variable {e x : Expr} {p : Param} {n : Nat}

/-- With an expression in the place of one parameter, what is read is read by the expression or by
what stands in it. -/
theorem reads_of_single {y : Nat} (h : (e.instantiate (Replacement.empty.set p.id x) n).1.Reads y) :
    e.Reads y ∧ p.id ≠ y ∨ x.Reads y := by
  obtain ⟨q, hq, hy⟩ := exists_reads_of_instantiate h
  by_cases hp : q.id = p.id
  · rw [hp, Replacement.set_same] at hy
    exact .inr hy
  · rw [Replacement.set_other _ hp, Replacement.empty_apply, Option.getD_none, reads_arg] at hy
    exact .inl ⟨hy ▸ hq, fun h => hp (hy.trans h.symm)⟩

theorem marks_of_single {m' : Marker}
    (h : (e.instantiate (Replacement.empty.set p.id x) n).1.Marks m') :
    (∃ m, e.Marks m ∧ m'.Retains m) ∨ x.Marks m' := by
  rcases exists_marks_of_instantiate h with hm | ⟨q, _, hm⟩
  · exact .inl hm
  · by_cases hp : q.id = p.id
    · rw [hp, Replacement.set_same] at hm
      exact .inr hm
    · rw [Replacement.set_other _ hp, Replacement.empty_apply, Option.getD_none] at hm
      exact absurd hm not_marks_arg

theorem Unary.instantiate_single (h : e.Unary) (hx : x.Unary) :
    (e.instantiate (Replacement.empty.set p.id x) n).1.Unary := by
  apply h.instantiate
  intro q _
  by_cases hp : q.id = p.id
  · rw [hp, Replacement.set_same]
    exact hx
  · rw [Replacement.set_other _ hp, Replacement.empty_apply, Option.getD_none]
    exact unary_arg q

end Single

end Expr

namespace Marker

variable {m : Marker} {entity : Expr} {n n' : Nat}

/-- The expression of an entity reads what the marker reads. -/
theorem reads_of_entity (h : m.entity n = .ok (entity, n')) {x : Nat} (hx : entity.Reads x) :
    m.toExpr.Reads x := by
  obtain ⟨kind, source, mapping, ty⟩ := m
  cases source with
  | entity e =>
      cases h
      exact .operand (o := ⟨[], entity⟩) (by simp [toExpr]) (by simp) hx
  | navigation parent selector =>
      obtain ⟨p, hp, hinst⟩ := Func.bindBody_singleton_eq_ok h
      obtain rfl : _ = entity := congrArg Prod.fst hinst
      rcases Expr.reads_of_single hx with ⟨hx, hpx⟩ | hx
      · exact .operand (o := ⟨selector.params, selector.body⟩) (by simp [toExpr])
          (by simpa [hp] using hpx) hx
      · exact .operand (o := ⟨[], parent⟩) (by simp [toExpr]) (by simp) hx

/-- The markers in the expression of an entity retain markers within the marker itself. -/
theorem marks_of_entity (h : m.entity n = .ok (entity, n')) {m' : Marker}
    (hm : entity.Marks m') : ∃ m₀, m.toExpr.Marks m₀ ∧ m'.Retains m₀ := by
  obtain ⟨kind, source, mapping, ty⟩ := m
  cases source with
  | entity e =>
      cases h
      exact ⟨m', .operand (o := ⟨[], entity⟩) (by simp [toExpr]) hm, .refl m'⟩
  | navigation parent selector =>
      obtain ⟨p, hp, hinst⟩ := Func.bindBody_singleton_eq_ok h
      obtain rfl : _ = entity := congrArg Prod.fst hinst
      rcases Expr.marks_of_single hm with ⟨m₀, hm₀, retains⟩ | hm
      · exact ⟨m₀, .operand (o := ⟨selector.params, selector.body⟩) (by simp [toExpr]) hm₀, retains⟩
      · exact ⟨m', .operand (o := ⟨[], parent⟩) (by simp [toExpr]) hm, .refl m'⟩

/-- What holds of the live operands of a marker holds of the expression of its entity, if it is kept
when one of them is put in the place of a parameter. -/
theorem entity_of_live {P : Nat → Expr → Prop} (h : m.entity n = .ok (entity, n'))
    (operand : ∀ o ∈ m.toExpr.live, P n o.expr)
    (single : ∀ {e x : Expr} {p : Param}, P n e → P n x →
      P (e.instantiate (Replacement.empty.set p.id x) n).2
        (e.instantiate (Replacement.empty.set p.id x) n).1) : P n' entity := by
  obtain ⟨kind, source, mapping, ty⟩ := m
  cases source with
  | entity e =>
      cases h
      exact operand ⟨[], entity⟩ (by simp [toExpr])
  | navigation parent selector =>
      obtain ⟨p, hp, hinst⟩ := Func.bindBody_singleton_eq_ok h
      have bound := single (p := p)
        (operand ⟨selector.params, selector.body⟩ (by simp [toExpr]))
        (operand ⟨[], parent⟩ (by simp [toExpr]))
      rwa [hinst] at bound

theorem unary_entity (h : m.entity n = .ok (entity, n')) (hm : m.toExpr.Unary) :
    entity.Unary :=
  entity_of_live (P := fun _ e => e.Unary) h (fun _ ho => hm.operand ho)
    Expr.Unary.instantiate_single

end Marker

namespace Composer

variable {c : Composer} {w w' : Workspace}

/-- The null test in front of a body is made of the entity. -/
theorem live_guarded {entity body : Expr} {s : Expr}
    (h : s.LivePart (guarded (c.subject w entity) body)) :
    s.LivePart body ∨ s.LivePart entity ∨ (s.asMarker? = none ∧ s.TakesOne) := by
  cases hs : c.subject w entity with
  | none =>
      rw [hs] at h
      exact .inl h
  | some subject =>
      obtain ⟨base, navigation, key, rfl, rfl⟩ := subject_eq_some hs
      rw [hs] at h
      cases h with
      | self => exact .inr (.inr ⟨rfl, trivial⟩)
      | operand ho h =>
          simp only [guarded, Expr.live, Expr.operands, List.mem_cons, List.not_mem_nil,
            or_false] at ho
          rcases ho with rfl | rfl | rfl
          · cases h with
            | self => exact .inr (.inr ⟨rfl, trivial⟩)
            | operand ho h =>
                obtain rfl := List.mem_singleton.mp ho
                cases h with
                | self => exact .inr (.inr ⟨rfl, trivial⟩)
                | operand ho h => exact .inr (.inl (.operand ho h))
          · exact .inl h
          · cases h with
            | self => exact .inr (.inr ⟨rfl, trivial⟩)
            | operand ho _ => simp [Expr.null] at ho

theorem reads_guarded {entity body : Expr} {x : Nat}
    (h : (guarded (c.subject w entity) body).Reads x) : body.Reads x ∨ entity.Reads x := by
  cases hs : c.subject w entity with
  | none =>
      rw [hs] at h
      exact .inl h
  | some subject =>
      obtain ⟨base, navigation, key, rfl, rfl⟩ := subject_eq_some hs
      rw [hs] at h
      simpa [guarded, Expr.isNotNull, Expr.null, or_comm] using h

end Composer

/-- The function reads no parameter but its own. -/
def Func.Closed (f : Func) : Prop := ∀ x, f.body.Reads x → ∃ p ∈ f.params, p.id = x

namespace Expr

/-- What the markers of an expression refer to, and the markers of those functions in turn. -/
inductive References : Expr → Target → Prop
  | here {e m t} (hm : e.Marks m) (ht : m.mapping.RefersTo m.kind t) : References e t
  | there {e m t t'} (hm : e.Marks m) (ht : m.mapping.RefersTo m.kind t)
      (h : References t.function.body t') : References e t'

/-- Every marker has a target. -/
def Settled (e : Expr) : Prop := ∀ m, e.Marks m → ∃ t, m.mapping.RefersTo m.kind t

theorem Settled.operand {e : Expr} (h : e.Settled) {o : Operand} (ho : o ∈ e.live) :
    o.expr.Settled :=
  fun m hm => h m (.operand ho hm)

/-- The markers of the expression, and those of the functions that it refers to, have targets, and
these functions have a property. -/
structure RefersOnlyTo (P : Func → Prop) (e : Expr) : Prop where
  settled : e.Settled
  targets : ∀ t, e.References t → t.function.body.Settled ∧ P t.function

variable {P : Func → Prop} {e : Expr}

/-- The property can be told marker by marker. -/
theorem refersOnlyTo_iff : e.RefersOnlyTo P ↔ ∀ m, e.Marks m →
    ∃ t, m.mapping.RefersTo m.kind t ∧ P t.function ∧ t.function.body.RefersOnlyTo P := by
  constructor
  · intro h m hm
    obtain ⟨t, ht⟩ := h.settled m hm
    obtain ⟨settled, holds⟩ := h.targets t (.here hm ht)
    exact ⟨t, ht, holds, settled, fun t' ht' => h.targets t' (.there hm ht ht')⟩
  · intro h
    refine ⟨fun m hm => ?_, fun t ht => ?_⟩
    · obtain ⟨t, ht, _⟩ := h m hm
      exact ⟨t, ht⟩
    · cases ht with
      | here hm ht =>
          obtain ⟨t', ht', holds, inner⟩ := h _ hm
          cases ht'.unique ht
          exact ⟨inner.settled, holds⟩
      | there hm ht hr =>
          obtain ⟨t', ht', _, inner⟩ := h _ hm
          cases ht'.unique ht
          exact inner.targets _ hr

namespace RefersOnlyTo

/-- An expression whose markers retain such markers has the property as well. -/
theorem of_retains {e' : Expr}
    (h : ∀ m', e'.Marks m' → ∃ e m, RefersOnlyTo P e ∧ e.Marks m ∧ m'.Retains m) :
    e'.RefersOnlyTo P := by
  refine refersOnlyTo_iff.mpr fun m' hm' => ?_
  obtain ⟨e, m, he, hm, retains⟩ := h m' hm'
  obtain ⟨t, ht, holds⟩ := refersOnlyTo_iff.mp he m hm
  exact ⟨t, retains t ht, holds⟩

theorem operand (h : e.RefersOnlyTo P) {o : Operand} (ho : o ∈ e.live) : o.expr.RefersOnlyTo P :=
  of_retains fun m hm => ⟨e, m, h, .operand ho hm, .refl m⟩

theorem mono {Q : Func → Prop} (h : e.RefersOnlyTo P) (hPQ : ∀ f, P f → Q f) :
    e.RefersOnlyTo Q :=
  ⟨h.settled, fun t ht => ⟨(h.targets t ht).1, hPQ _ (h.targets t ht).2⟩⟩

/-- What a marker with the property refers to. -/
theorem target {m : Marker} (h : m.toExpr.RefersOnlyTo P) {t : Target}
    (ht : m.mapping.RefersTo m.kind t) : P t.function ∧ t.function.body.RefersOnlyTo P := by
  obtain ⟨t', ht', holds⟩ := refersOnlyTo_iff.mp h m .self
  cases ht'.unique ht
  exact holds

end RefersOnlyTo

end Expr

namespace Composer

variable {c : Composer} {depth : Nat} {m : Marker} {e : Expr} {w w' : Workspace}
  {P : Func → Prop}

/-- What replaces a marker refers to nothing that the marker does not refer to. -/
theorem inlineOnce_refersOnlyTo (once : c.inlineOnce depth m w = (.ok e, w'))
    (h : m.toExpr.RefersOnlyTo P) : e.RefersOnlyTo P := by
  obtain ⟨entity, n, t, p, hentity, ht, hp, rfl, _, _⟩ := inlineOnce_eq_ok once
  apply Expr.RefersOnlyTo.of_retains
  intro m' hm'
  have of_entity (hm' : entity.Marks m') :
      ∃ e m, Expr.RefersOnlyTo P e ∧ e.Marks m ∧ m'.Retains m := by
    obtain ⟨m₀, hm₀, retains⟩ := Marker.marks_of_entity hentity hm'
    exact ⟨_, m₀, h, hm₀, retains⟩
  rcases live_guarded hm' with hbody | hm' | ⟨hnone, _⟩
  · rcases Expr.marks_of_single hbody with ⟨m₀, hm₀, retains⟩ | hm'
    · exact ⟨_, m₀, (h.target ⟨depth, ht⟩).2, hm₀, retains⟩
    · exact of_entity hm'
  · exact of_entity hm'
  · simp at hnone

/-- What replaces a marker reads what the marker reads, if its target reads no parameter but its
own. -/
theorem inlineOnce_reads (once : c.inlineOnce depth m w = (.ok e, w'))
    (closed : ∀ t, m.mapping.RefersTo m.kind t → t.function.Closed) {x : Nat} (hx : e.Reads x) :
    m.toExpr.Reads x := by
  obtain ⟨entity, n, t, p, hentity, ht, hp, rfl, _, _⟩ := inlineOnce_eq_ok once
  rcases reads_guarded hx with hx | hx
  · rcases Expr.reads_of_single hx with ⟨hx, hpx⟩ | hx
    · obtain ⟨q, hq, hqx⟩ := closed t ⟨depth, ht⟩ x hx
      rw [hp, List.mem_singleton] at hq
      exact absurd (hq ▸ hqx) hpx
    · exact Marker.reads_of_entity hentity hx
  · exact Marker.reads_of_entity hentity hx

theorem inlineOnce_unary (once : c.inlineOnce depth m w = (.ok e, w')) (h : m.toExpr.Unary)
    (target : ∀ t, m.mapping.RefersTo m.kind t → t.function.body.Unary) : e.Unary := by
  obtain ⟨entity, n, t, p, hentity, ht, hp, rfl, _, _⟩ := inlineOnce_eq_ok once
  have unary := Marker.unary_entity hentity h
  intro s hs
  rcases live_guarded hs with hs | hs | ⟨_, one⟩
  · exact (target t ⟨depth, ht⟩).instantiate_single unary s hs
  · exact unary s hs
  · exact one

end Composer

end RecordMapping
