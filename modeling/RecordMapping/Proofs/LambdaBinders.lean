import RecordMapping.Proofs.Identities
import RecordMapping.Proofs.Meaning
import Mathlib.Data.List.Nodup

/-!
# Lambdas with the same binder

Binding renames the lambdas of a body, so no two copies of a mapping have a binder in common. What
is put in the place of a parameter is not renamed. So two lambdas of a composed function share a
binder only if a marker had put an expression with such a lambda in more than one place: an entity
that the mapping reads again or whose record the null test reads as well, or a parent that the
selector reads again.

## Implementation notes

Lambdas are counted where they can come to stand in a composed function. The mapping argument of a
marker is dropped when the marker is replaced, and its selector is instantiated first, so neither
counts. The identities that are given out on the way are an interval, in which each one is a binder
at most once.
-/

namespace RecordMapping

mutual

/-- The identities that lambdas bind, outside of mapping arguments and selectors. -/
def Expr.lambdas : Expr → List Nat
  | .arg _ => []
  | .compare _ left right => left.lambdas ++ right.lambdas
  | .call callee args => callee.lambdas ++ Expr.lambdasAll args
  | .cond test yes no => test.lambdas ++ (yes.lambdas ++ no.lambdas)
  | .field base _ => base.lambdas
  | .includeEntity _ entity _ _ => entity.lambdas
  | .includeVia _ parent _ _ _ => parent.lambdas
  | .isNull _ operand => operand.lambdas
  | .list items => Expr.lambdasAll items
  | .map base ⟨params, body⟩ => base.lambdas ++ (params.map Param.id ++ body.lambdas)
  | .record _ fields => Expr.lambdasAll fields
  | .const _ => []

/-- The identities that lambdas bind in expressions, one after the other. -/
def Expr.lambdasAll : List Expr → List Nat
  | [] => []
  | e :: es => e.lambdas ++ Expr.lambdasAll es

end

mutual

/-- The number of places where a free parameter is read, outside of mapping arguments and
selectors. -/
def Expr.places (x : Nat) : Expr → Nat
  | .arg p => if p.id = x then 1 else 0
  | .compare _ left right => left.places x + right.places x
  | .call callee args => callee.places x + Expr.placesAll x args
  | .cond test yes no => test.places x + (yes.places x + no.places x)
  | .field base _ => base.places x
  | .includeEntity _ entity _ _ => entity.places x
  | .includeVia _ parent _ _ _ => parent.places x
  | .isNull _ operand => operand.places x
  | .list items => Expr.placesAll x items
  | .map base ⟨params, body⟩ =>
      base.places x + if ∃ p ∈ params, p.id = x then 0 else body.places x
  | .record _ fields => Expr.placesAll x fields
  | .const _ => 0

/-- The number of places in expressions where a free parameter is read. -/
def Expr.placesAll (x : Nat) : List Expr → Nat
  | [] => 0
  | e :: es => e.places x + Expr.placesAll x es

end

namespace Expr

theorem lambdasAll_eq_flatMap (es : List Expr) : lambdasAll es = es.flatMap lambdas := by
  induction es with
  | nil => rfl
  | cons e es ih => rw [lambdasAll, ih, List.flatMap_cons]

/-- Where no marker stands, every binder counts. -/
theorem lambdas_of_unmarked {e : Expr} (h : e.asMarker? = none) :
    e.lambdas = e.operands.flatMap fun o => o.bound.map Param.id ++ o.expr.lambdas := by
  cases e with
  | includeEntity | includeVia => cases h
  | map base lambda =>
      obtain ⟨params, body⟩ := lambda
      simp [lambdas]
  | call | list | record =>
      simp [lambdas, lambdasAll_eq_flatMap, List.flatMap_map]
  | _ => simp [lambdas]

theorem lt_of_mem_lambdas {e : Expr} {n x : Nat} (h : e.BindersBelow n) (hx : x ∈ e.lambdas) :
    x < n := by
  induction e using operand_induction with
  | step e ih =>
    cases e with
    | includeEntity kind picked | includeVia kind picked =>
        exact ih ⟨[], picked⟩ (by simp) (h.operand (o := ⟨[], picked⟩) (by simp)) hx
    | _ =>
        rw [lambdas_of_unmarked rfl] at hx
        obtain ⟨o, ho, hx⟩ := List.mem_flatMap.mp hx
        rcases List.mem_append.mp hx with hx | hx
        · obtain ⟨p, hp, rfl⟩ := List.mem_map.mp hx
          exact (bindersBelow_iff.mp h o ho).1 p hp
        · exact ih o ho (h.operand ho) hx

end Expr

/-- While identities are given out, a number of lambdas with a given binder grows at most by one,
and only if the binder is among those identities. -/
structure Gains (y n n' before after : Nat) : Prop where
  le : n ≤ n'
  bound : after ≤ before + if n ≤ y ∧ y < n' then 1 else 0

namespace Gains

variable {y n n' n'' a a' b b' : Nat}

theorem of_le (hn : n ≤ n') (h : b ≤ a) : Gains y n n' a b := ⟨hn, Nat.le_add_right_of_le h⟩

theorem refl (n a : Nat) : Gains y n n a a := of_le (Nat.le_refl n) (Nat.le_refl a)

/-- Each identity of two intervals in a row is in one of them only. -/
theorem append (h : Gains y n n' a b) (h' : Gains y n' n'' a' b') :
    Gains y n n'' (a + a') (b + b') := by
  have hn := h.le
  have hn' := h'.le
  have first := h.bound
  have second := h'.bound
  refine ⟨Nat.le_trans hn hn', ?_⟩
  split at first <;> split at second <;> split <;> omega

theorem trans (h : Gains y n n' a b) (h' : Gains y n' n'' b b') : Gains y n n'' a b' := by
  have both := h.append h'
  refine ⟨both.le, ?_⟩
  have bound := both.bound
  omega

/-- New binders have the identities of an interval. -/
theorem freshen (params : List Param) (replacement : Replacement) (n : Nat) :
    Gains y n (freshen params replacement n).next 0
      (((RecordMapping.freshen params replacement n).params.map Param.id).count y) := by
  refine ⟨Expr.le_freshen params replacement n, ?_⟩
  rw [freshen_params_ids, freshen_next, (List.nodup_range' 1).count]
  simp [List.mem_range'_1]

end Gains

namespace Expr

variable {y : Nat}

theorem gains_instantiateAll {es : List Expr} {replacement : Replacement} {n x many : Nat}
    (each : ∀ e ∈ es, ∀ n, Gains y n (e.instantiate replacement n).2 (e.places x * many)
      ((e.instantiate replacement n).1.lambdas.count y)) :
    Gains y n (instantiateAll es replacement n).2 (placesAll x es * many)
      ((lambdasAll (instantiateAll es replacement n).1).count y) := by
  induction es generalizing n with
  | nil => simpa [instantiateAll, lambdasAll, placesAll] using Gains.refl n 0
  | cons e es ih =>
      have head := each e (by simp) n
      have tail := ih (n := (e.instantiate replacement n).2) fun a ha => each a (by simp [ha])
      simpa [instantiateAll, lambdasAll, placesAll, Nat.add_mul] using head.append tail

/-- Under new binders, what stands for the parameters that they rename has no lambdas. -/
theorem freshen_lambdas (params : List Param) {replacement : Replacement} (n : Nat) {x many : Nat}
    (h : ∀ z r, replacement z = some r → r.lambdas.count y ≤ if z = x then many else 0) :
    ∀ z r, (freshen params replacement n).replacement z = some r →
      r.lambdas.count y ≤
        if z = x then (if ∃ p ∈ params, p.id = x then 0 else many) else 0 := by
  intro z r hr
  by_cases hb : ∃ p ∈ params, p.id = z
  · obtain ⟨q, _, hq⟩ := freshen_replacement_bound hb replacement n
    cases hq.symm.trans hr
    simp [lambdas]
  · rw [freshen_replacement_other (by simpa using hb)] at hr
    have bound := h z r hr
    by_cases hz : z = x
    · subst hz
      simpa [hb] using bound
    · simpa [hz] using bound

/-- An instance has the lambdas of what stands for a parameter once for each place where it is read,
and lambdas with new binders. -/
theorem gains_instantiate (e : Expr) {replacement : Replacement} {n x many : Nat}
    (h : ∀ z r, replacement z = some r → r.lambdas.count y ≤ if z = x then many else 0) :
    Gains y n (e.instantiate replacement n).2 (e.places x * many)
      ((e.instantiate replacement n).1.lambdas.count y) := by
  -- The bound for what stands for the parameter drops to zero under a binder of the same identity.
  induction e generalizing replacement n many with
  | arg p =>
      refine .of_le (Nat.le_refl n) ?_
      cases hp : replacement p.id with
      | none => simp [instantiate, hp, lambdas]
      | some r =>
          have bound := h p.id r hp
          simp only [instantiate, hp, places, Option.getD_some]
          split at bound <;> simp_all
  | const v => simpa [instantiate, places, lambdas] using Gains.refl n 0
  | compare op left right ihl ihr =>
      simpa [instantiate, places, lambdas, Nat.add_mul] using (ihl h).append (ihr h)
  | call callee args ihf iha =>
      have all := gains_instantiateAll (n := (callee.instantiate replacement n).2)
        fun a ha n => iha a ha (n := n) h
      simpa [instantiate, places, lambdas, Nat.add_mul] using (ihf h).append all
  | cond test yes no iht ihy ihn =>
      simpa [instantiate, places, lambdas, Nat.add_mul] using
        (iht h).append ((ihy h).append (ihn h))
  | field base id ih | isNull negate base ih => exact ih h
  | includeEntity kind entity mapping ty ihe _ =>
      have dropped := mapping.le_instantiate replacement (entity.instantiate replacement n).2
      exact (ihe h).trans (.of_le dropped (Nat.le_refl _))
  | includeVia kind parent params body mapping ty ihp _ _ =>
      have selected := le_operand_instantiate ⟨params, body⟩ replacement
        (parent.instantiate replacement n).2
      have dropped := Nat.le_trans selected (mapping.le_instantiate replacement _)
      exact (ihp h).trans (.of_le dropped (Nat.le_refl _))
  | list items ih | record model items ih =>
      exact gains_instantiateAll fun e he n => ih e he (n := n) h
  | map base params body ihl ihb =>
      have binders := Gains.freshen (y := y) params replacement (base.instantiate replacement n).2
      have inner := ihb (n := (freshen params replacement (base.instantiate replacement n).2).next)
        (freshen_lambdas params (base.instantiate replacement n).2 h)
      have whole := (ihl h).append (binders.append inner)
      have scaled : (if ∃ p ∈ params, p.id = x then 0 else body.places x) * many =
          0 + body.places x * (if ∃ p ∈ params, p.id = x then 0 else many) := by
        split <;> simp
      simpa only [instantiate, places, lambdas, Nat.add_mul, List.count_append, scaled] using whole

/-- With an expression in the place of one parameter, an instance has the lambdas of the expression
once for each place where the parameter is read. -/
theorem gains_single (body e : Expr) (x n : Nat) :
    Gains y n (body.instantiate (Replacement.empty.set x e) n).2
      (body.places x * e.lambdas.count y)
      ((body.instantiate (Replacement.empty.set x e) n).1.lambdas.count y) := by
  refine body.gains_instantiate fun z r hr => ?_
  by_cases hz : z = x
  · obtain rfl := eq_of_single hr
    simp [hz]
  · simp [Replacement.set_other _ hz] at hr

/-- An expression without a lambda that binds the identity may be put in any number of places. -/
theorem mul_count_lambdas_le (e : Expr) {k : Nat} (once : y ∈ e.lambdas → k ≤ 1) :
    k * e.lambdas.count y ≤ e.lambdas.count y := by
  by_cases hy : y ∈ e.lambdas
  · calc k * e.lambdas.count y ≤ 1 * e.lambdas.count y := Nat.mul_le_mul_right _ (once hy)
      _ = e.lambdas.count y := Nat.one_mul _
  · simp [List.count_eq_zero.mpr hy]

end Expr

namespace Composer

variable {c : Composer} {y : Nat}

/-- To replace the marker, an expression with a lambda that binds the identity is put in more than
one place as it stands. -/
inductive Copies (c : Composer) (w : Workspace) (m : Marker) (x : Nat) : Prop
  /-- The selector reads its parameter more than once, so the parent is copied. -/
  | parent {parent body : Expr} {q : Param} (hm : m.source = .navigation parent ⟨[q], body⟩)
      (hx : x ∈ parent.lambdas) (again : 2 ≤ body.places q.id)
  /-- The function that is referred to reads its parameter more than once, or reads it and the null
  test does so as well, so the entity is copied. -/
  | entity {entity : Expr} {n : Nat} {t : Target} {p : Param}
      (hm : m.entity w.nextParam = .ok (entity, n)) (hx : x ∈ entity.lambdas)
      (ht : m.mapping.RefersTo m.kind t) (hp : t.function.params = [p])
      (again : 2 ≤ (if (c.subject w entity).isSome then 1 else 0) + t.function.body.places p.id)

/-- The null test reads the record that the entity is a field of. -/
theorem count_lambdas_guarded (w : Workspace) (entity body : Expr) :
    (guarded (c.subject w entity) body).lambdas.count y =
      (if (c.subject w entity).isSome then 1 else 0) * entity.lambdas.count y +
        body.lambdas.count y := by
  cases hs : c.subject w entity with
  | none => simp [guarded]
  | some s =>
      obtain ⟨base, navigation, key, rfl, rfl⟩ := subject_eq_some hs
      simp [guarded, Expr.lambdas, Expr.isNotNull, Expr.null]

theorem gains_entity {m : Marker} {entity : Expr} {n n' : Nat}
    (h : m.entity n = .ok (entity, n')) {w : Workspace} (once : ¬ c.Copies w m y) :
    Gains y n n' (m.toExpr.lambdas.count y) (entity.lambdas.count y) := by
  obtain ⟨kind, source, mapping, ty⟩ := m
  cases source with
  | entity e =>
      cases h
      exact .refl n _
  | navigation parent selector =>
      obtain ⟨params, body⟩ := selector
      obtain ⟨q, hq, hinst⟩ := Func.bindBody_singleton_eq_ok h
      cases hq
      have copied := body.gains_single (y := y) parent q.id n
      rw [hinst] at copied
      refine .trans (.of_le (Nat.le_refl n) ?_) copied
      refine parent.mul_count_lambdas_le fun hy => Nat.le_of_not_lt fun again => ?_
      exact once (.parent rfl hy again)

/-- Unless a lambda is copied, what replaces a marker has no more lambdas with a given binder than
the marker, apart from one with a new binder. -/
theorem gains_inlineOnce {depth : Nat} {m : Marker} {e : Expr} {w w' : Workspace}
    (h : c.inlineOnce depth m w = (.ok e, w')) (once : ¬ c.Copies w m y) :
    Gains y w.nextParam w'.nextParam (m.toExpr.lambdas.count y) (e.lambdas.count y) := by
  obtain ⟨entity, n, t, p, hentity, ht, hp, rfl, hnext, -⟩ := inlineOnce_eq_ok h
  have found := gains_entity hentity once
  have bound := t.function.body.gains_single (y := y) entity p.id n
  have tested := Gains.refl (y := y) n
    ((if (c.subject w entity).isSome then 1 else 0) * entity.lambdas.count y)
  have both := tested.append bound
  rw [hnext, count_lambdas_guarded]
  refine found.trans (.trans (.of_le (Nat.le_refl n) ?_) both)
  rw [← Nat.add_mul]
  refine entity.mul_count_lambdas_le fun hy => Nat.le_of_not_lt fun again => ?_
  exact once (.entity hentity hy ⟨depth, ht⟩ hp again)

/-- To make an expression flat, the composer comes from the first expression to the second one. -/
inductive Leads (c : Composer) : Expr × Workspace → Expr × Workspace → Prop
  | operand {e s after es w v} (before : List Expr) (hm : e.asMarker? = none)
      (ho : e.operands.map Operand.expr = before ++ s :: after)
      (earlier : Threaded c.Expands before w es v) : Leads c (e, w) (s, v)
  | marker {e m depth e₁ w w₁} (hm : e.asMarker? = some m)
      (once : c.inlineOnce depth m w = (.ok e₁, w₁)) : Leads c (e, w) (e₁, w₁)

/-- On its way through the expression the composer comes to the marker, to replace it. -/
def Replaces (c : Composer) (e : Expr) (w : Workspace) (m : Marker) (v : Workspace) : Prop :=
  ∃ s : Expr, s.asMarker? = some m ∧ Relation.ReflTransGen c.Leads (e, w) (s, v)

/-- No marker to which the composer comes on its way copies a lambda that binds the identity. -/
def CopiesNone (c : Composer) (x : Nat) (e : Expr) (w : Workspace) : Prop :=
  ∀ V, Relation.ReflTransGen c.Leads (e, w) V → ∀ m, V.1.asMarker? = some m → ¬ c.Copies V.2 m x

theorem copiesNone_iff {x : Nat} {e : Expr} {w : Workspace} :
    c.CopiesNone x e w ↔ ∀ m v, c.Replaces e w m v → ¬ c.Copies v m x := by
  constructor
  · rintro h m v ⟨s, hm, reached⟩
    exact h (s, v) reached m hm
  · exact fun h V reached m hm => h m V.2 ⟨V.1, hm, reached⟩

namespace CopiesNone

variable {e s : Expr} {w v : Workspace}

theorem here {m : Marker} (h : c.CopiesNone y m.toExpr w) : ¬ c.Copies w m y :=
  (forall_reached_iff.mp h).1 m (Marker.asMarker?_toExpr m)

theorem step (h : c.CopiesNone y e w) (lead : c.Leads (e, w) (s, v)) : c.CopiesNone y s v :=
  (forall_reached_iff.mp h).2 (s, v) lead

theorem intro (here : ∀ m, e.asMarker? = some m → ¬ c.Copies w m y)
    (step : ∀ s v, c.Leads (e, w) (s, v) → c.CopiesNone y s v) : c.CopiesNone y e w :=
  forall_reached_iff.mpr ⟨here, fun V => step V.1 V.2⟩

theorem of_operands (unmarked : e.asMarker? = none)
    (h : ∀ o ∈ e.operands, ∀ v, c.CopiesNone y o.expr v) : c.CopiesNone y e w := by
  refine .intro (fun m hm => ?_) fun s v lead => ?_
  · simp [unmarked] at hm
  · cases lead with
    | operand _ _ ho _ =>
        have hs : s ∈ e.operands.map Operand.expr := ho ▸ List.mem_append_right _ (by simp)
        obtain ⟨o, hm, rfl⟩ := List.mem_map.mp hs
        exact h o hm v
    | marker hm _ => simp [unmarked] at hm

/-- Nothing is copied on the way through an expression without markers. -/
theorem of_flat (flat : e.Flat) : c.CopiesNone y e w := by
  induction e using Expr.operand_induction generalizing w with
  | step e ih =>
    obtain ⟨unmarked, operands⟩ := Expr.flat_iff.mp flat
    exact of_operands unmarked fun o ho v => ih o ho (operands o ho)

theorem of_marker {m : Marker} (hm : e.asMarker? = some m) (here : ¬ c.Copies w m y)
    (replaced : ∀ {depth e₁ w₁}, c.inlineOnce depth m w = (.ok e₁, w₁) → c.CopiesNone y e₁ w₁) :
    c.CopiesNone y e w := by
  refine .intro (fun m' hm' => ?_) fun s v lead => ?_
  · cases hm.symm.trans hm'
    exact here
  · cases lead with
    | operand _ unmarked => simp [unmarked] at hm
    | marker hm' once =>
        cases hm.symm.trans hm'
        exact replaced once

end CopiesNone

theorem exprs_map_mk (es : List Expr) : (es.map (Operand.mk [])).map Operand.expr = es := by
  simp [Function.comp_def]

/-- Expressions that are expanded in turn gain lambdas one after the other. -/
theorem gains_all {es es' : List Expr} {w w' : Workspace}
    (h : Threaded (fun e w e' w' => ∃ _ : c.Expands e w e' w', c.CopiesNone y e w →
      Gains y w.nextParam w'.nextParam (e.lambdas.count y) (e'.lambdas.count y)) es w es' w')
    (once : ∀ before {s after ss v}, es = before ++ s :: after →
      Threaded c.Expands before w ss v → c.CopiesNone y s v) :
    Gains y w.nextParam w'.nextParam ((Expr.lambdasAll es).count y)
      ((Expr.lambdasAll es').count y) := by
  induction h with
  | nil => exact .refl _ _
  | cons head _ ih =>
      obtain ⟨expands, gains⟩ := head
      have first := gains (once [] rfl .nil)
      have rest := ih fun before _ _ _ _ split earlier =>
        once (_ :: before) (congrArg (List.cons _) split) (.cons expands earlier)
      simpa [Expr.lambdasAll] using first.append rest

/-- Unless a lambda is copied, what a composer makes of an expression has no more lambdas with a
given binder than the expression, apart from one with a new binder. -/
theorem Expands.gains {e e' : Expr} {w w' : Workspace} (h : c.Expands e w e' w')
    (once : c.CopiesNone y e w) :
    Gains y w.nextParam w'.nextParam (e.lambdas.count y) (e'.lambdas.count y) := by
  induction h using Expands.induct with
  | arg p w | const v w => exact .refl _ _
  | compare op hl hr ihl ihr =>
      have left := ihl (once.step (.operand [] rfl rfl .nil))
      have right := ihr (once.step (.operand [_] rfl rfl (.cons hl .nil)))
      simpa [Expr.lambdas] using left.append right
  | call hf ha ihf iha =>
      have callee := ihf (once.step (.operand [] rfl rfl .nil))
      have args := gains_all iha fun before _ _ _ _ split earlier =>
        once.step (.operand (_ :: before) rfl
          (congrArg (List.cons _) ((exprs_map_mk _).trans split)) (.cons hf earlier))
      simpa [Expr.lambdas] using callee.append args
  | cond ht hy hn iht ihy ihn =>
      have test := iht (once.step (.operand [] rfl rfl .nil))
      have yes := ihy (once.step (.operand [_] rfl rfl (.cons ht .nil)))
      have no := ihn (once.step (.operand [_, _] rfl rfl (.cons ht (.cons hy .nil))))
      simpa [Expr.lambdas] using test.append (yes.append no)
  | field id hb ih => exact ih (once.step (.operand [] rfl rfl .nil))
  | isNull negate he ih => exact ih (once.step (.operand [] rfl rfl .nil))
  | marker m inlined rest ih =>
      have replaced := gains_inlineOnce inlined once.here
      exact replaced.trans (ih (once.step (.marker (Marker.asMarker?_toExpr m) inlined)))
  | list hs ih | record model hs ih =>
      exact gains_all ih fun before _ _ _ _ split earlier =>
        once.step (.operand before rfl ((exprs_map_mk _).trans split) earlier)
  | map params hl hb ihl ihb =>
      have base := ihl (once.step (.operand [] rfl rfl .nil))
      have body := ihb (once.step (.operand [_] rfl rfl (.cons hl .nil)))
      simpa [Expr.lambdas] using base.append (.append (.refl _ _) body)

/-- A binder that no replaced marker copies is the binder of one lambda at most. -/
theorem count_lambdas_le_one {depth : Nat} {f g : Func} {w w' : Workspace}
    (composed : c.composeFunc depth f w = (.ok g, w')) (fresh : f.body.BindersBelow w.nextParam)
    (distinct : f.body.lambdas.Nodup) (once : c.CopiesNone y f.body w) :
    g.body.lambdas.count y ≤ 1 := by
  have gains := ((expands_of_composeFunc composed).2.gains once).bound
  by_cases hy : y ∈ f.body.lambdas
  · have old : y < w.nextParam := Expr.lt_of_mem_lambdas fresh hy
    have first := List.nodup_iff_count_le_one.mp distinct y
    rw [if_neg (by omega)] at gains
    omega
  · rw [List.count_eq_zero.mpr hy] at gains
    split at gains <;> omega

/-- Lambdas of a composed function have different binders, apart from copies of a lambda that a
replaced marker had put in more than one place. -/
theorem composeFunc_lambdas {depth : Nat} {f g : Func} {w w' : Workspace}
    (composed : c.composeFunc depth f w = (.ok g, w')) (fresh : f.body.BindersBelow w.nextParam)
    (distinct : f.body.lambdas.Nodup) :
    (∀ x, 1 < g.body.lambdas.count x →
      ∃ m v, c.Replaces f.body w m v ∧ c.Copies v m x) ∧
    ((∀ m v x, c.Replaces f.body w m v → ¬ c.Copies v m x) → g.body.lambdas.Nodup) := by
  constructor
  · intro x shared
    by_contra none
    have once : c.CopiesNone x f.body w :=
      copiesNone_iff.mpr fun m v met copies => none ⟨m, v, met, copies⟩
    have single := count_lambdas_le_one composed fresh distinct once
    omega
  · intro none
    refine List.nodup_iff_count_le_one.mpr fun x => ?_
    have once : c.CopiesNone x f.body w := copiesNone_iff.mpr fun m v met => none m v x met
    exact count_lambdas_le_one composed fresh distinct once

/-- A function that refers to another one for a list that holds the lambda of its own. -/
def listing (target : Func) : Func :=
  let x : Param := ⟨0, "x", .unknown⟩
  let y : Param := ⟨1, "y", .unknown⟩
  ⟨[x], .includeEntity .ast (.map (.field (.arg x) ⟨⟨0⟩, 0⟩) ⟨[y], .arg y⟩)
    (.const (.func 0 target)) .unknown⟩

/-- Its argument, twice. -/
def doubling : Func :=
  let p : Param := ⟨2, "p", .unknown⟩
  ⟨[p], .list [.arg p, .arg p]⟩

/-- The items of a record, twice, by a function with a lambda. -/
def repeating : Func :=
  let x : Param := ⟨0, "x", .unknown⟩
  let p : Param := ⟨1, "p", .unknown⟩
  let y : Param := ⟨2, "y", .unknown⟩
  let items : Func := ⟨[p], .map (.field (.arg p) ⟨⟨0⟩, 0⟩) ⟨[y], .arg y⟩⟩
  let marker : Expr := .includeEntity .ast (.arg x) (.const (.func 0 items)) .unknown
  ⟨[x], .list [marker, marker]⟩

theorem doubling_lambdas :
    (∃ g w', keyed.composeFunc 2 (listing doubling) ⟨3, 1, {}, []⟩ = (.ok g, w') ∧
      ∃ m v, keyed.Replaces (listing doubling).body ⟨3, 1, {}, []⟩ m v ∧ keyed.Copies v m 1) ∧
    ∃ g w', keyed.composeFunc 2 repeating ⟨3, 1, {}, []⟩ = (.ok g, w') ∧ g.body.lambdas.Nodup := by
  have arg (p : Param) : (Expr.arg p).BindersBelow 3 := Expr.bindersBelow_arg p 3
  have const (v : Value) : (Expr.const v).BindersBelow 3 := Expr.bindersBelow_iff.mpr (by simp)
  constructor
  · have composed : keyed.composeFunc 2 (listing doubling) ⟨3, 1, {}, []⟩ = (.ok _, _) := rfl
    have field (p : Param) (id : FieldId) : (Expr.field (.arg p) id).BindersBelow 3 :=
      Expr.bindersBelow_iff.mpr (by simpa using arg p)
    have map : (Expr.map (.field (.arg ⟨0, "x", .unknown⟩) ⟨⟨0⟩, 0⟩)
        ⟨[⟨1, "y", .unknown⟩], .arg ⟨1, "y", .unknown⟩⟩).BindersBelow 3 :=
      Expr.bindersBelow_iff.mpr (by simpa using ⟨field _ _, arg _⟩)
    have fresh : (listing doubling).body.BindersBelow 3 :=
      Expr.bindersBelow_iff.mpr (by simpa [listing] using ⟨map, const _⟩)
    exact ⟨_, _, composed, (composeFunc_lambdas composed fresh (by decide)).1 1 (by decide)⟩
  · have composed : keyed.composeFunc 2 repeating ⟨3, 1, {}, []⟩ = (.ok _, _) := rfl
    have marker (mapping : Value) : (Expr.includeEntity .ast (.arg ⟨0, "x", .unknown⟩)
        (.const mapping) .unknown).BindersBelow 3 :=
      Expr.bindersBelow_iff.mpr (by simpa using ⟨arg _, const _⟩)
    have fresh : repeating.body.BindersBelow 3 :=
      Expr.bindersBelow_iff.mpr (by simpa [repeating] using marker _)
    refine ⟨_, _, composed, (composeFunc_lambdas composed fresh (by decide)).2 fun m v x met => ?_⟩
    -- The entity of both markers is a parameter, and no marker is left once one is replaced.
    refine copiesNone_iff.mp (.of_operands rfl fun o ho v => ?_) m v met
    obtain rfl : o = ⟨[], _⟩ := by simpa [repeating] using ho
    refine .of_marker rfl ?_ fun once => ?_
    · rintro (hm | ⟨hm, hx, -⟩)
      · cases hm
      · cases hm
        cases hx
    · obtain ⟨entity, n, t, p, hentity, ht, hp, rfl, -⟩ := inlineOnce_eq_ok once
      cases hentity
      cases ht
      cases hp
      exact .of_flat ((Expr.hasMarker_eq_false_iff_flat _).mp rfl)

/-- Composing the function, in which all lambdas have different binders, leads to one with two
lambdas that share a binder. -/
def SharesBinder (c : Composer) (w : Workspace) (f : Func) : Prop :=
  f.MadeBefore w.nextParam ∧ f.body.lambdas.Nodup ∧
    ∃ depth g w', c.composeFunc depth f w = (.ok g, w') ∧ ¬ g.body.lambdas.Nodup

/-- A function that picks what it maps out of such a list. -/
def picking (selector : Func) : Func :=
  let x : Param := ⟨0, "x", .unknown⟩
  let y : Param := ⟨1, "y", .unknown⟩
  let p : Param := ⟨3, "p", .unknown⟩
  ⟨[x], .includeVia .ast (.map (.field (.arg x) ⟨⟨0⟩, 0⟩) ⟨[y], .arg y⟩) selector
    (.const (.func 0 ⟨[p], .arg p⟩)) .unknown⟩

/-- A function that maps a field of a record that holds such a list. -/
def holding : Func :=
  let x : Param := ⟨0, "x", .unknown⟩
  let y : Param := ⟨1, "y", .unknown⟩
  let p : Param := ⟨2, "p", .unknown⟩
  let items : Expr := .map (.field (.arg x) ⟨⟨0⟩, 0⟩) ⟨[y], .arg y⟩
  ⟨[x], .includeEntity .ast (.field (.record ⟨0⟩ [items, .null, .null]) ⟨⟨0⟩, 1⟩)
    (.const (.func 0 ⟨[p], .arg p⟩)) .unknown⟩

/-- Composing does not give every copy binders of its own: the expression of an entity, of a record
from which one is read, or of a parent is copied as it stands. -/
theorem composeFunc_shares :
    keyed.SharesBinder ⟨4, 1, {}, []⟩ (listing doubling) ∧
      keyed.SharesBinder ⟨4, 1, {}, []⟩ holding ∧
      keyed.SharesBinder ⟨4, 1, {}, []⟩ (picking doubling) := by
  refine ⟨⟨?_, by decide, 2, _, _, rfl, by decide⟩, ⟨?_, by decide, 2, _, _, rfl, by decide⟩,
    ⟨?_, by decide, 2, _, _, rfl, by decide⟩⟩
  · simp [listing, doubling, Func.madeBefore_iff]
  · simp [holding, Expr.null, Func.madeBefore_iff]
  · simp [picking, doubling, Func.madeBefore_iff]

end Composer

end RecordMapping
