import RecordMapping.Expr.Binding
import RecordMapping.Proofs.Depth

/-!
# Instances of expressions

An instance of an expression has its parameters replaced and its binders renamed. Its operands are
instances of the operands, one after the other with the identities that are left, so what holds of
instances follows from their operands. Identities are only used up, every binder of an instance is a
new one or stands in a replacement, and an instance evaluates as the expression does wherever what
stands for a parameter evaluates to what is read for it.

## Implementation notes

A renamed binder keeps its name, so a fault that names an unbound parameter stays the same only if
each identity has one name. `Replaceable` therefore asks for a property of all parameters, and
evaluation for agreement between any two of them with one identity.
-/

namespace RecordMapping

/-- The operand with its parameters replaced and its binders renamed, and the next unused
identity. -/
def Operand.instantiate (o : Operand) (replacement : Replacement) (n : Nat) : Operand × Nat :=
  let binders := freshen o.bound replacement n
  let body := o.expr.instantiate binders.replacement binders.next
  (⟨binders.params, body.1⟩, body.2)

namespace Expr

theorem threaded_instantiateAll (es : List Expr) (replacement : Replacement) (n : Nat) :
    Threaded (fun o k o' k' => o.instantiate replacement k = (o', k')) (es.map (Operand.mk [])) n
      ((instantiateAll es replacement n).1.map (Operand.mk []))
      (instantiateAll es replacement n).2 := by
  induction es generalizing n with
  | nil => exact .nil
  | cons e es ih => exact .cons rfl (ih _)

/-- The operands of an instance are the instances of the operands. -/
theorem threaded_operands {e : Expr} (h : ∀ p, e ≠ .arg p) (replacement : Replacement) (n : Nat) :
    Threaded (fun o k o' k' => o.instantiate replacement k = (o', k')) e.operands n
      (e.instantiate replacement n).1.operands (e.instantiate replacement n).2 := by
  cases e with
  | arg p => exact absurd rfl (h p)
  | const v => exact .nil
  | compare | includeEntity => exact .cons rfl (.cons rfl .nil)
  | cond => exact .cons rfl (.cons rfl (.cons rfl .nil))
  | field | isNull => exact .cons rfl .nil
  | call callee args => exact .cons rfl (threaded_instantiateAll args replacement _)
  | list items | record model items => exact threaded_instantiateAll items replacement n
  | map base lambda =>
      obtain ⟨params, body⟩ := lambda
      exact .cons rfl (.cons rfl .nil)
  | includeVia kind parent selector mapping ty =>
      obtain ⟨params, body⟩ := selector
      exact .cons rfl (.cons rfl (.cons rfl .nil))

/-- Renaming binders only uses identities up. -/
theorem le_freshen (params : List Param) (replacement : Replacement) (n : Nat) :
    n ≤ (freshen params replacement n).next := by
  rw [freshen_next]
  exact Nat.le_add_right n _

/-- Instantiating only uses identities up. -/
theorem le_instantiate (e : Expr) (replacement : Replacement) (n : Nat) :
    n ≤ (e.instantiate replacement n).2 := by
  induction e using operand_induction generalizing replacement n with
  | step e ih =>
    by_cases h : ∃ p, e = .arg p
    · obtain ⟨p, rfl⟩ := h
      exact Nat.le_refl n
    · apply (threaded_operands (fun p hp => h ⟨p, hp⟩) replacement n).le
      rintro o ho k _ _ ⟨⟩
      calc k ≤ (freshen o.bound replacement k).next := le_freshen o.bound replacement k
        _ ≤ _ := ih o ho _ _

theorem le_operand_instantiate (o : Operand) (replacement : Replacement) (n : Nat) :
    n ≤ (o.instantiate replacement n).2 := by
  calc n ≤ (freshen o.bound replacement n).next := le_freshen o.bound replacement n
    _ ≤ _ := o.expr.le_instantiate _ _

/-- Every operand of an instance is an instance of an operand. -/
theorem exists_operand_of_instantiate {e : Expr} (h : ∀ p, e ≠ .arg p) {replacement : Replacement}
    {n : Nat} {o' : Operand} (ho : o' ∈ (e.instantiate replacement n).1.operands) :
    ∃ o ∈ e.operands, ∃ k, n ≤ k ∧ (o.instantiate replacement k).1 = o' ∧
      (o.instantiate replacement k).2 ≤ (e.instantiate replacement n).2 := by
  obtain ⟨o, hm, k, k', hr, hk, hk'⟩ := (threaded_operands h replacement n).exists_step
    (fun o _ k o' k' hr => by simpa [hr] using le_operand_instantiate o replacement k) ho
  exact ⟨o, hm, k, hk, by rw [hr], by rw [hr]; exact hk'⟩

/-- Every operand has an instance among the operands of an instance. -/
theorem exists_instance_of_operand {e : Expr} (h : ∀ p, e ≠ .arg p) (replacement : Replacement)
    (n : Nat) {o : Operand} (ho : o ∈ e.operands) :
    ∃ k, n ≤ k ∧ (o.instantiate replacement k).1 ∈ (e.instantiate replacement n).1.operands := by
  obtain ⟨o', ho', k, k', hr, hk⟩ := (threaded_operands h replacement n).exists_result
    (fun o _ k o' k' hr => by simpa [hr] using le_operand_instantiate o replacement k) ho
  exact ⟨k, hk, by rwa [hr]⟩

/-- The operands of an instance are the instances of the operands, position by position. -/
theorem operand_instantiate_at {e : Expr} (inner : ∀ p, e ≠ .arg p) (replacement : Replacement)
    (n i : Nat) :
    (e.operands[i]? = none ∧ (e.instantiate replacement n).1.operands[i]? = none) ∨
      ∃ o k, e.operands[i]? = some o ∧ n ≤ k ∧
        (e.instantiate replacement n).1.operands[i]? = some (o.instantiate replacement k).1 := by
  have steps := (threaded_operands inner replacement n).at_position
    (fun o _ k o' k' hr => by simpa [hr] using le_operand_instantiate o replacement k) i
  rcases steps with none | ⟨o, o', k, k', ho, ho', step, hk⟩
  · exact .inl none
  · exact .inr ⟨o, k, ho, hk, by rw [ho', step]⟩

/-- The operands of an instance are the instances of the operands, with counters in order. -/
theorem exists_counters {e : Expr} (inner : ∀ p, e ≠ .arg p) (replacement : Replacement)
    (n : Nat) : ∃ counter : Nat → Nat, counter 0 = n ∧
      (∀ i, counter i ≤ (e.instantiate replacement n).2) ∧
      (∀ i j, i ≤ j → counter i ≤ counter j) ∧
      ∀ i o, e.operands[i]? = some o →
        (e.instantiate replacement n).1.operands[i]? =
          some (o.instantiate replacement (counter i)).1 ∧
        (o.instantiate replacement (counter i)).2 = counter (i + 1) := by
  obtain ⟨counter, start, within, mono, steps⟩ :=
    (threaded_operands inner replacement n).exists_counters fun o _ k o' k' hr => by
      simpa [hr] using le_operand_instantiate o replacement k
  refine ⟨counter, start, within, mono, fun i o ho => ?_⟩
  obtain ⟨o', ho', step⟩ := steps i o ho
  rw [ho', step]
  exact ⟨rfl, rfl⟩

/-- Only a parameter can become a parameter. -/
theorem instantiate_ne_arg {e : Expr} (h : ∀ p, e ≠ .arg p) {replacement : Replacement} {n : Nat}
    (p : Param) : (e.instantiate replacement n).1 ≠ .arg p := by
  cases e with
  | arg q => exact absurd rfl (h q)
  | includeVia kind parent selector mapping ty =>
      obtain ⟨params, body⟩ := selector
      simp [instantiate]
  | map base lambda =>
      obtain ⟨params, body⟩ := lambda
      simp [instantiate]
  | _ => simp [instantiate]

theorem length_instantiateAll (es : List Expr) (replacement : Replacement) (n : Nat) :
    (instantiateAll es replacement n).1.length = es.length := by
  induction es generalizing n with
  | nil => rfl
  | cons e es ih => simp [instantiateAll, ih]

/-- An instance says on its own what the expression does. -/
theorem head_instantiate {e : Expr} (h : ∀ p, e ≠ .arg p) (replacement : Replacement) (n : Nat) :
    (e.instantiate replacement n).1.head = e.head := by
  cases e with
  | arg p => exact absurd rfl (h p)
  | call | list | record =>
      simp [instantiate, head, List.map_const', length_instantiateAll]
  | map base lambda | includeVia kind parent lambda mapping ty =>
      obtain ⟨params, body⟩ := lambda
      rfl
  | _ => rfl

/-- Only a marker and what stands for a parameter can become a marker. -/
theorem asMarker?_instantiate {e : Expr} (h : ∀ p, e ≠ .arg p) (hm : e.asMarker? = none)
    {replacement : Replacement} {n : Nat} : (e.instantiate replacement n).1.asMarker? = none := by
  cases e with
  | arg q => exact absurd rfl (h q)
  | includeEntity | includeVia => cases hm
  | map base lambda =>
      obtain ⟨params, body⟩ := lambda
      rfl
  | _ => rfl

theorem length_freshen (params : List Param) (replacement : Replacement) (n : Nat) :
    (freshen params replacement n).params.length = params.length := by
  have h := congrArg List.length (freshen_params_ids params replacement n)
  simpa using h

/-- Renamed binders have new identities. -/
theorem freshen_bound {params : List Param} {replacement : Replacement} {n : Nat} {p : Param}
    (hp : p ∈ (freshen params replacement n).params) :
    n ≤ p.id ∧ p.id < (freshen params replacement n).next := by
  have hid : p.id ∈ List.range' n params.length := by
    rw [← freshen_params_ids params replacement n]
    exact List.mem_map_of_mem hp
  rw [freshen_next]
  exact List.mem_range'_1.mp hid

/-- What stands for a parameter that is not renamed still does. -/
theorem freshen_replacement_other {params : List Param} {x : Nat} (h : ∀ p ∈ params, p.id ≠ x)
    (replacement : Replacement) (n : Nat) :
    (freshen params replacement n).replacement x = replacement x := by
  induction params generalizing replacement n with
  | nil => rfl
  | cons p ps ih =>
      have hp : x ≠ p.id := fun hx => h p (by simp) hx.symm
      have rest := ih (fun q hq => h q (by simp [hq]))
        (replacement.set p.id (.arg { p with id := n })) (n + 1)
      simp only [freshen]
      rw [rest, Replacement.set_other _ hp]

/-- A new parameter stands for a renamed one. -/
theorem freshen_replacement_bound {params : List Param} {x : Nat} (h : ∃ p ∈ params, p.id = x)
    (replacement : Replacement) (n : Nat) : ∃ q ∈ (freshen params replacement n).params,
      (freshen params replacement n).replacement x = some (.arg q) := by
  induction params generalizing replacement n with
  | nil => simp at h
  | cons p ps ih =>
      by_cases hx : ∃ q ∈ ps, q.id = x
      · obtain ⟨q, hq, hr⟩ := ih hx (replacement.set p.id (.arg { p with id := n })) (n + 1)
        exact ⟨q, List.mem_cons_of_mem _ hq, hr⟩
      · have hp : p.id = x := by
          obtain ⟨q, hq, hqx⟩ := h
          rcases List.mem_cons.mp hq with rfl | hq
          · exact hqx
          · exact absurd ⟨q, hq, hqx⟩ hx
        refine ⟨{ p with id := n }, by simp [freshen], ?_⟩
        have others : ∀ q ∈ ps, q.id ≠ x := by simpa using hx
        have rest := freshen_replacement_other others
          (replacement.set p.id (.arg { p with id := n })) (n + 1)
        simp only [freshen]
        rw [rest, ← hp, Replacement.set_same]

/-- What stands for a parameter under renamed binders is one of the new parameters, or stood for it
before. -/
theorem forall_freshen_replacement {Q : Expr → Prop} {params : List Param}
    {replacement : Replacement} {n : Nat}
    (new : ∀ p ∈ (freshen params replacement n).params, Q (.arg p))
    (h : ∀ x r, replacement x = some r → Q r) (x : Nat) (r : Expr)
    (hr : (freshen params replacement n).replacement x = some r) : Q r := by
  by_cases hb : ∃ p ∈ params, p.id = x
  · obtain ⟨q, hq, hx⟩ := freshen_replacement_bound hb replacement n
    cases hx.symm.trans hr
    exact new q hq
  · rw [freshen_replacement_other (by simpa using hb)] at hr
    exact h x r hr

/-- Only a constant can become a constant, apart from a parameter. -/
theorem eq_const_of_instantiate {e : Expr} (h : ∀ p, e ≠ .arg p) {replacement : Replacement}
    {n : Nat} {v : Value} (hv : (e.instantiate replacement n).1 = .const v) : e = .const v := by
  cases e with
  | const u => exact hv
  | arg p => exact absurd rfl (h p)
  | includeVia kind parent selector mapping ty =>
      obtain ⟨params, body⟩ := selector
      cases hv
  | map base lambda =>
      obtain ⟨params, body⟩ := lambda
      cases hv
  | _ => cases hv

/-- The renamed binders do not depend on what stands for parameters, and what stands for one under
them depends on nothing else that stands for one. -/
theorem freshen_congr (params : List Param) (σ τ : Replacement) (n : Nat) :
    (freshen params σ n).params = (freshen params τ n).params ∧
      (freshen params σ n).next = (freshen params τ n).next ∧
      ∀ x, (σ x = τ x ∨ ∃ p ∈ params, p.id = x) →
        (freshen params σ n).replacement x = (freshen params τ n).replacement x := by
  induction params generalizing σ τ n with
  | nil =>
      refine ⟨rfl, rfl, fun x h => ?_⟩
      simpa [freshen] using h
  | cons p ps ih =>
      obtain ⟨params, next, replacement⟩ :=
        ih (σ.set p.id (.arg { p with id := n })) (τ.set p.id (.arg { p with id := n })) (n + 1)
      refine ⟨congrArg (List.cons _) params, next, fun x h => replacement x ?_⟩
      by_cases hx : x = p.id
      · simp [hx]
      · rw [Replacement.set_other _ hx, Replacement.set_other _ hx]
        simpa [Ne.symm hx] using h

theorem instantiateAll_congr {es : List Expr} {σ τ : Replacement}
    (each : ∀ e ∈ es, ∀ k, e.instantiate σ k = e.instantiate τ k) (n : Nat) :
    instantiateAll es σ n = instantiateAll es τ n := by
  induction es generalizing n with
  | nil => rfl
  | cons e es ih =>
      simp only [instantiateAll, each e (by simp), ih fun a ha => each a (by simp [ha])]

/-- An instance depends on what stands for the free parameters only. -/
theorem instantiate_congr (e : Expr) {σ τ : Replacement} (h : ∀ x, e.Free x → σ x = τ x) (n : Nat) :
    e.instantiate σ n = e.instantiate τ n := by
  induction e using operand_induction generalizing σ τ n with
  | step e ih =>
    have expr (a : Expr) (ha : ⟨[], a⟩ ∈ e.operands) (k : Nat) :
        a.instantiate σ k = a.instantiate τ k :=
      ih ⟨[], a⟩ ha (fun x hx => h x (.operand ha (by simp) hx)) k
    have func (params : List Param) (body : Expr) (hf : ⟨params, body⟩ ∈ e.operands) (k : Nat) :
        (freshen params σ k).params = (freshen params τ k).params ∧
          body.instantiate (freshen params σ k).replacement (freshen params σ k).next =
            body.instantiate (freshen params τ k).replacement (freshen params τ k).next := by
      obtain ⟨same, next, replacement⟩ := freshen_congr params σ τ k
      refine ⟨same, next ▸ ih ⟨params, body⟩ hf (fun x hx => replacement x ?_) _⟩
      by_cases hb : ∃ p ∈ params, p.id = x
      · exact .inr hb
      · exact .inl (h x (.operand hf (by simpa using hb) hx))
    cases e with
    | arg p => simp only [instantiate, h p.id (.arg rfl)]
    | const v => rfl
    | compare op left right =>
        simp only [instantiate, expr left (by simp), expr right (by simp)]
    | call callee args =>
        have all := instantiateAll_congr fun a (ha : a ∈ args) => expr a (by simp [ha])
        simp only [instantiate, expr callee (by simp), all]
    | cond test yes no =>
        simp only [instantiate, expr test (by simp), expr yes (by simp), expr no (by simp)]
    | field base id => simp only [instantiate, expr base (by simp)]
    | includeEntity kind entity mapping ty =>
        simp only [instantiate, expr entity (by simp), expr mapping (by simp)]
    | includeVia kind parent selector mapping ty =>
        obtain ⟨params, body⟩ := selector
        obtain ⟨binders, inside⟩ := func params body (by simp) (parent.instantiate τ n).2
        simp only [instantiate, expr parent (by simp), binders, inside, expr mapping (by simp)]
    | isNull negate operand => simp only [instantiate, expr operand (by simp)]
    | list items | record model items =>
        have all := instantiateAll_congr fun a (ha : a ∈ items) => expr a (by simp [ha])
        simp only [instantiate, all]
    | map base lambda =>
        obtain ⟨params, body⟩ := lambda
        obtain ⟨binders, inside⟩ := func params body (by simp) (base.instantiate τ n).2
        simp only [instantiate, expr base (by simp), binders, inside]

/-- A parameter that is free at a place of an instance is free in what stands for a free parameter
of the expression, at the rest of the place. -/
theorem exists_freeAt_of_instantiate (e : Expr) {replacement : Replacement} {n x : Nat}
    {place : List Nat} (h : (e.instantiate replacement n).1.FreeAt x place) :
    ∃ (p : Param) (outer rest : List Nat), place = outer ++ rest ∧ e.FreeAt p.id outer ∧
      ((replacement p.id).getD (.arg p)).FreeAt x rest := by
  induction e using operand_induction generalizing replacement n place with
  | step e ih =>
    by_cases he : ∃ p, e = .arg p
    · obtain ⟨p, rfl⟩ := he
      exact ⟨p, [], place, rfl, .arg rfl, h⟩
    · have inner (p : Param) : e ≠ .arg p := fun hp => he ⟨p, hp⟩
      generalize made : (e.instantiate replacement n).1 = inst at h
      cases h with
      | arg => exact absurd made (instantiate_ne_arg inner _)
      | @operand _ o' i place ho' hb h =>
          subst made
          rcases operand_instantiate_at inner replacement n i with ⟨_, none⟩ | ⟨o, k, ho, _, same⟩
          · cases none.symm.trans ho'
          · obtain rfl := Option.some.inj (same.symm.trans ho')
            obtain ⟨p, outer, rest, rfl, hp, hx⟩ := ih o (List.mem_of_getElem? ho) h
            by_cases hbound : ∃ q ∈ o.bound, q.id = p.id
            · obtain ⟨q, hq, hr⟩ := freshen_replacement_bound hbound replacement k
              rw [hr, Option.getD_some, freeAt_arg] at hx
              exact absurd hx.1 (hb q hq)
            · rw [freshen_replacement_other (by simpa using hbound)] at hx
              exact ⟨p, i :: outer, rest, rfl, .operand ho (by simpa using hbound) hp, hx⟩

/-- A free parameter of an instance is free in what stands for a free parameter of the
expression. -/
theorem exists_free_of_instantiate (e : Expr) {replacement : Replacement} {n x : Nat}
    (h : (e.instantiate replacement n).1.Free x) :
    ∃ p : Param, e.Free p.id ∧ ((replacement p.id).getD (.arg p)).Free x := by
  obtain ⟨place, h⟩ := free_iff_exists_freeAt.mp h
  obtain ⟨p, outer, rest, -, hp, hx⟩ := exists_freeAt_of_instantiate e h
  exact ⟨p, hp.free, hx.free⟩

/-- What is free in the expression that stands for a free parameter is free in the instance at every
place of the parameter, if it was given out before. -/
theorem freeAt_instantiate {e : Expr} {replacement : Replacement} {n x : Nat} {p : Param}
    {outer rest : List Nat} (h : e.FreeAt p.id outer)
    (hx : ((replacement p.id).getD (.arg p)).FreeAt x rest) (made : x < n) :
    (e.instantiate replacement n).1.FreeAt x (outer ++ rest) := by
  induction h generalizing replacement n with
  | @arg q same =>
      rw [instantiate, same]
      cases hr : replacement p.id with
      | some r => simpa [hr] using hx
      | none => simpa [hr, same] using hx
  | @operand e o i outer ho hb _ ih =>
      have inner (q : Param) : e ≠ .arg q := by
        rintro rfl
        simp at ho
      rcases operand_instantiate_at inner replacement n i with ⟨none, _⟩ | ⟨o', k, ho', hk, hinst⟩
      · cases none.symm.trans ho
      · obtain rfl := Option.some.inj (ho'.symm.trans ho)
        have other := freshen_replacement_other hb replacement k
        have made : x < k := Nat.lt_of_lt_of_le made hk
        refine .operand hinst ?_ (ih (by rwa [other]) (Nat.lt_of_lt_of_le made (le_freshen _ _ _)))
        -- The renamed binders are newer than all that is free.
        intro q hq same
        have new : k ≤ q.id := (freshen_bound hq).1
        omega

/-- Every parameter that is bound in the expression has a property. -/
def EveryBinder (P : Param → Prop) (e : Expr) : Prop :=
  e.Every fun s => ∀ o ∈ s.operands, ∀ p ∈ o.bound, P p

theorem everyBinder_iff {P : Param → Prop} {e : Expr} :
    e.EveryBinder P ↔ ∀ o ∈ e.operands, (∀ p ∈ o.bound, P p) ∧ o.expr.EveryBinder P := by
  rw [EveryBinder, every_iff]
  constructor
  · exact fun h o ho => ⟨h.1 o ho, h.2 o ho⟩
  · exact fun h => ⟨fun o ho => (h o ho).1, fun o ho => (h o ho).2⟩

theorem EveryBinder.operand {P : Param → Prop} {e : Expr} (h : e.EveryBinder P) {o : Operand}
    (ho : o ∈ e.operands) : (∀ p ∈ o.bound, P p) ∧ o.expr.EveryBinder P :=
  everyBinder_iff.mp h o ho

theorem EveryBinder.imp {P Q : Param → Prop} {e : Expr} (h : e.EveryBinder P)
    (imp : ∀ p, P p → Q p) : e.EveryBinder Q :=
  fun s hs o ho p hp => imp p (h s hs o ho p hp)

/-- The binders of the expression have identities below a bound. -/
def BindersBelow (n : Nat) (e : Expr) : Prop :=
  e.Every fun s => ∀ o ∈ s.operands, ∀ p ∈ o.bound, p.id < n

theorem BindersBelow.mono {e : Expr} {n k : Nat} (h : e.BindersBelow n) (hk : n ≤ k) :
    e.BindersBelow k :=
  EveryBinder.imp h fun _ hp => Nat.lt_of_lt_of_le hp hk

theorem bindersBelow_iff {e : Expr} {n : Nat} :
    e.BindersBelow n ↔ ∀ o ∈ e.operands, (∀ p ∈ o.bound, p.id < n) ∧ o.expr.BindersBelow n :=
  everyBinder_iff

theorem BindersBelow.operand {e : Expr} {n : Nat} (h : e.BindersBelow n) {o : Operand}
    (ho : o ∈ e.operands) : o.expr.BindersBelow n :=
  (EveryBinder.operand h ho).2

theorem bindersBelow_arg (p : Param) (n : Nat) : (arg p).BindersBelow n :=
  bindersBelow_iff.mpr (by simp)

/-- Every binder of an instance is a new one or stands in a replacement. -/
theorem instantiate_bindersBelow (e : Expr) {replacement : Replacement} {n : Nat}
    (h : ∀ x r, replacement x = some r → r.BindersBelow n) :
    (e.instantiate replacement n).1.BindersBelow (e.instantiate replacement n).2 := by
  induction e using operand_induction generalizing replacement n with
  | step e ih =>
    by_cases he : ∃ p, e = .arg p
    · obtain ⟨p, rfl⟩ := he
      simp only [instantiate]
      cases hp : replacement p.id with
      | none => exact bindersBelow_arg p n
      | some r => exact h p.id r hp
    · apply bindersBelow_iff.mpr
      intro o' ho'
      obtain ⟨o, ho, k, hk, rfl, hk'⟩ :=
        exists_operand_of_instantiate (fun p hp => he ⟨p, hp⟩) ho'
      constructor
      · intro p hp
        calc p.id < (freshen o.bound replacement k).next := (freshen_bound hp).2
          _ ≤ (o.instantiate replacement k).2 := o.expr.le_instantiate _ _
          _ ≤ _ := hk'
      · refine (ih o ho (forall_freshen_replacement (fun q _ => bindersBelow_arg q _) ?_)).mono hk'
        exact fun x r hx => (h x r hx).mono (Nat.le_trans hk (le_freshen o.bound replacement k))

/-- Only one expression stands in the place of a parameter. -/
theorem eq_of_single {x r : Expr} {id y : Nat}
    (h : Replacement.empty.set id x y = some r) : x = r := by
  by_cases hy : y = id
  · rw [hy, Replacement.set_same] at h
    exact Option.some.inj h
  · rw [Replacement.set_other _ hy] at h
    cases h

/-- With an expression in the place of one parameter, every binder is a new one or stands in it. -/
theorem bindersBelow_of_single (e : Expr) {x : Expr} {n : Nat} (hx : x.BindersBelow n) (id : Nat) :
    (e.instantiate (Replacement.empty.set id x) n).1.BindersBelow
      (e.instantiate (Replacement.empty.set id x) n).2 := by
  apply e.instantiate_bindersBelow
  intro y r hr
  exact eq_of_single hr ▸ hx

/-- What holds of each instance that is made on the way holds of the instances of a list. -/
theorem forall₂_instantiateAll {P : Expr → Expr → Prop} {es : List Expr}
    {replacement : Replacement} {n : Nat}
    (h : ∀ e ∈ es, ∀ k, n ≤ k → P e (e.instantiate replacement k).1) :
    List.Forall₂ P es (instantiateAll es replacement n).1 := by
  induction es generalizing n with
  | nil => exact .nil
  | cons e es ih =>
      refine .cons (h e (by simp) n (Nat.le_refl n)) (ih fun a ha k hk => h a (by simp [ha]) k ?_)
      exact Nat.le_trans (e.le_instantiate replacement n) hk

/-- Every parameter that is referred to or bound in the expression has a property. -/
def EveryParam (P : Param → Prop) (e : Expr) : Prop :=
  e.Every fun s => (∀ p, s = .arg p → P p) ∧ ∀ o ∈ s.operands, ∀ p ∈ o.bound, P p

theorem everyParam_iff {P : Param → Prop} {e : Expr} : e.EveryParam P ↔ (∀ p, e = .arg p → P p) ∧
    ∀ o ∈ e.operands, (∀ p ∈ o.bound, P p) ∧ o.expr.EveryParam P := by
  rw [EveryParam, every_iff]
  constructor
  · exact fun h => ⟨h.1.1, fun o ho => ⟨h.1.2 o ho, h.2 o ho⟩⟩
  · exact fun h => ⟨⟨h.1, fun o ho => (h.2 o ho).1⟩, fun o ho => (h.2 o ho).2⟩

theorem EveryParam.imp {P Q : Param → Prop} {e : Expr} (h : e.EveryParam P)
    (imp : ∀ p, P p → Q p) : e.EveryParam Q :=
  fun s hs => ⟨fun p hp => imp p ((h s hs).1 p hp), fun o ho p hp => imp p ((h s hs).2 o ho p hp)⟩

/-- A parameter that is referred to in the mapping argument of a marker, outside of what binds
it. -/
inductive FreeInMapping (x : Nat) : Expr → Prop
  | mapping {m : Marker} (h : m.mapping.Free x) : FreeInMapping x m.toExpr
  | operand {e : Expr} {o : Operand} (ho : o ∈ e.operands) (hb : ∀ p ∈ o.bound, p.id ≠ x)
      (h : FreeInMapping x o.expr) : FreeInMapping x e

theorem freeInMapping_iff {e : Expr} {x : Nat} : e.FreeInMapping x ↔
    (∃ m, e.asMarker? = some m ∧ m.mapping.Free x) ∨
      ∃ o ∈ e.operands, (∀ p ∈ o.bound, p.id ≠ x) ∧ o.expr.FreeInMapping x := by
  constructor
  · intro h
    cases h with
    | @mapping m h => exact .inl ⟨m, Marker.asMarker?_toExpr m, h⟩
    | operand ho hb h => exact .inr ⟨_, ho, hb, h⟩
  · rintro (⟨m, hm, h⟩ | ⟨o, ho, hb, h⟩)
    · obtain rfl := (Marker.asMarker?_eq_some_iff e m).mp hm
      exact .mapping h
    · exact .operand ho hb h

theorem FreeInMapping.free {e : Expr} {x : Nat} (h : e.FreeInMapping x) : e.Free x := by
  induction h with
  | @mapping m h => exact .operand (mapping_mem_operands m) (by simp) h
  | operand ho hb _ ih => exact .operand ho hb ih

theorem freeInMapping_operand {e : Expr} {o : Operand} (ho : o ∈ e.operands) {x : Nat}
    (hx : o.expr.FreeInMapping x) : (∃ b ∈ o.bound, b.id = x) ∨ e.FreeInMapping x := by
  by_cases hb : ∃ b ∈ o.bound, b.id = x
  · exact .inl hb
  · exact .inr (.operand ho (by simpa using hb) hx)

section Evaluation

variable (R : Agreement) {call call' : Caller}

/-- What stands for a parameter evaluates to what is read for it, also where newer parameters are
bound. -/
def Stands (call' : Caller) (n : Nat) (replacement : Replacement) (τ σ : Scope) (p : Param) :
    Prop :=
  ∀ σ' : Scope, (∀ y < n, σ'.find? y = σ.find? y) →
    R.rel (τ.read p) (((replacement p.id).getD (.arg p)).evalWith call' σ')

/-- An instance of the expression can be evaluated in its place: what stands for a free parameter
evaluates to what is read for it, also outside of every scope if a mapping argument refers to it. -/
structure Replaceable (call' : Caller) (P : Param → Prop) (n : Nat) (replacement : Replacement)
    (τ σ : Scope) (e : Expr) : Prop where
  params : e.EveryParam P
  free : ∀ p, P p → e.Free p.id → Stands R call' n replacement τ σ p
  closed : ∀ p, P p → e.FreeInMapping p.id → Stands R call' n replacement [] [] p

variable {R} {P : Param → Prop} {n k : Nat} {replacement : Replacement} {τ σ : Scope}

theorem Stands.mono {p : Param} (h : Stands R call' n replacement τ σ p) (hk : n ≤ k) :
    Stands R call' k replacement τ σ p :=
  fun σ' hσ' => h σ' fun y hy => hσ' y (Nat.lt_of_lt_of_le hy hk)

namespace Replaceable

variable {e : Expr}

theorem operand (h : Replaceable R call' P n replacement τ σ e) {a : Expr}
    (ha : ⟨[], a⟩ ∈ e.operands) (hk : n ≤ k) : Replaceable R call' P k replacement τ σ a where
  params := ((everyParam_iff.mp h.params).2 _ ha).2
  free p hp hf := (h.free p hp (.operand ha (by simp) hf)).mono hk
  closed p hp hf := (h.closed p hp (.operand ha (by simp) hf)).mono hk

/-- A mapping argument is evaluated outside of every scope. -/
theorem mapping {m : Marker} (h : Replaceable R call' P n replacement τ σ m.toExpr) (hk : n ≤ k) :
    Replaceable R call' P k replacement [] [] m.mapping where
  params := ((everyParam_iff.mp h.params).2 _ (mapping_mem_operands m)).2
  free p hp hf := (h.closed p hp (.mapping hf)).mono hk
  closed p hp hf := (h.closed p hp (.mapping hf.free)).mono hk

/-- Under a renamed binder the new parameter stands for the old one. Outside of every scope neither
of them has a value. -/
theorem push (hname : ∀ p q, P p → P q → p.id = q.id →
      R.rel (.fail (.unbound p.name) : Outcome Value) (.fail (.unbound q.name)))
    (h : Replaceable R call' P n replacement τ σ e) {p : Param} {body : Expr}
    (hbody : ⟨[p], body⟩ ∈ e.operands) (hk : n ≤ k) (v : Value) :
    Replaceable R call' P (k + 1) (replacement.set p.id (.arg { p with id := k })) (⟨[p], [v]⟩ :: τ)
      (⟨[{ p with id := k }], [v]⟩ :: σ) body := by
  obtain ⟨bound, params⟩ := (everyParam_iff.mp h.params).2 _ hbody
  refine ⟨params, fun q hq hf σ' hσ' => ?free, fun q hq hf σ' hσ' => ?closed⟩
  case free =>
      by_cases hqp : q.id = p.id
      · have new : σ'.find? k = some v := by
          rw [hσ' k (Nat.lt_succ_self k)]
          simp [Scope.find?_push]
        have old : Scope.find? (⟨[p], [v]⟩ :: τ) p.id = some v := by simp [Scope.find?_push]
        simp only [hqp, Replacement.set_same, Option.getD_some, evalWith, Scope.read, new, old]
        exact R.refl _
      · have outer := h.free q hq (.operand hbody (by simpa using Ne.symm hqp) hf)
        simp only [Scope.read, Scope.find?_push, hqp, if_false, Replacement.set_other _ hqp]
        -- The new parameter is newer than all that the replacement refers to, so it hides none.
        refine outer σ' fun y hy => ?_
        have hyk : y ≠ k := by omega
        rw [hσ' y (by omega), Scope.find?_push, if_neg hyk]
  case closed =>
      by_cases hqp : q.id = p.id
      · have new : σ'.find? k = none := hσ' k (Nat.lt_succ_self k)
        simp only [hqp, Replacement.set_same, Option.getD_some, evalWith, Scope.read, new,
          Scope.find?_nil]
        exact hname q p hq (bound p (by simp)) hqp
      · have outer := h.closed q hq (.operand hbody (by simpa using Ne.symm hqp) hf)
        rw [Replacement.set_other _ hqp]
        exact outer σ' fun y hy => hσ' y (by omega)

end Replaceable

/-- Evaluating an instance in the place of the expression agrees with evaluating the expression. -/
theorem instantiate_agrees (hcall : ∀ callee args, R.rel (call callee args) (call' callee args))
    (hname : ∀ p q, P p → P q → p.id = q.id →
      R.rel (.fail (.unbound p.name) : Outcome Value) (.fail (.unbound q.name))) (e : Expr)
    {n : Nat} {replacement : Replacement} {τ σ : Scope}
    (h : Replaceable R call' P n replacement τ σ e) :
    R.rel (e.evalWith call τ) ((e.instantiate replacement n).1.evalWith call' σ) := by
  -- Later operands are instantiated with the identities that are left, which keeps `Replaceable`.
  induction e generalizing n replacement τ σ with
  | arg p =>
      exact h.free p ((everyParam_iff.mp h.params).1 p rfl) (by simp) σ fun _ _ => rfl
  | const v => exact R.refl _
  | compare op left right ihl ihr =>
      apply R.bind (ihl (h.operand (by simp) (Nat.le_refl n)))
      intro v
      have hn := left.le_instantiate replacement n
      exact R.bind (ihr (h.operand (by simp) hn)) fun w => R.refl _
  | call callee args ihf iha =>
      apply R.bind (ihf (h.operand (by simp) (Nat.le_refl n)))
      intro f
      have hn := callee.le_instantiate replacement n
      apply R.bind
      · apply evalAllWith_rel R
        apply forall₂_instantiateAll
        intro a ha k hk
        exact iha a ha (h.operand (by simp [ha]) (Nat.le_trans hn hk))
      · exact fun vs => R.applyWith hcall f vs
  | cond test yes no iht ihy ihn =>
      have ht := test.le_instantiate replacement n
      have hy := yes.le_instantiate replacement (test.instantiate replacement n).2
      apply R.bind (iht (h.operand (by simp) (Nat.le_refl n)))
      intro v
      apply R.bind (R.refl _)
      intro b
      cases b with
      | true => exact ihy (h.operand (by simp) ht)
      | false => exact ihn (h.operand (by simp) (Nat.le_trans ht hy))
  | field base id ih => exact R.bind (ih (h.operand (by simp) (Nat.le_refl n))) fun v => R.refl _
  | includeEntity kind entity mapping ty ihe ihm =>
      have hn := entity.le_instantiate replacement n
      apply R.bind (ihe (h.operand (by simp) (Nat.le_refl n)))
      intro v
      split
      · exact R.refl _
      · have target := Replaceable.mapping (m := ⟨kind, .entity entity, mapping, ty⟩) h hn
        exact R.bind (R.resolve kind (ihm target)) fun t => hcall _ _
  | includeVia kind parent params body mapping ty ihp ihb ihm =>
      apply R.bind (ihp (h.operand (by simp) (Nat.le_refl n)))
      intro v
      split
      · exact R.refl _
      · simp only [length_freshen]
        by_cases hone : params.length = 1
        · obtain ⟨p, rfl⟩ := List.length_eq_one_iff.mp hone
          have hp := parent.le_instantiate replacement n
          have selector :
              ⟨[p], body⟩ ∈ (includeVia kind parent ⟨[p], body⟩ mapping ty).operands := by simp
          refine R.bind (R.refl _) fun _ => R.bind (ihb (h.push hname selector hp v)) fun u => ?_
          split
          · exact R.refl _
          · have hb := le_operand_instantiate ⟨[p], body⟩ replacement
              (parent.instantiate replacement n).2
            let marker : Marker := ⟨kind, .navigation parent ⟨[p], body⟩, mapping, ty⟩
            have target := Replaceable.mapping (m := marker) h (Nat.le_trans hp hb)
            exact R.bind (R.resolve kind (ihm target)) fun t => hcall _ _
        · simp only [checkArity, Ne.symm hone, if_false]
          exact R.refl _
  | isNull negate operand ih =>
      exact R.bind (ih (h.operand (by simp) (Nat.le_refl n))) fun v => R.refl _
  | list items ih =>
      apply R.bind
      · apply evalAllWith_rel R
        apply forall₂_instantiateAll
        intro a ha k hk
        exact ih a ha (h.operand (by simp [ha]) hk)
      · exact fun vs => R.refl _
  | map base params body ihl ihb =>
      apply R.bind (ihl (h.operand (by simp) (Nat.le_refl n)))
      intro v
      apply R.bind (R.refl _)
      intro items
      refine R.bind (R.mapM fun item _ => ?_) fun vs => R.refl _
      simp only [length_freshen]
      by_cases hone : params.length = 1
      · obtain ⟨p, rfl⟩ := List.length_eq_one_iff.mp hone
        have hl := base.le_instantiate replacement n
        exact R.bind (R.refl _) fun _ => ihb (h.push hname (by simp) hl item)
      · simp only [checkArity, Ne.symm hone, if_false]
        exact R.refl _
  | record model fields ih =>
      apply R.bind
      · apply evalAllWith_rel R
        apply forall₂_instantiateAll
        intro a ha k hk
        exact ih a ha (h.operand (by simp [ha]) hk)
      · exact fun vs => R.refl _

variable (R)

/-- What stands for a parameter is a parameter that has a value exactly where it has one. Or the
parameter has none, and that agrees with what stands for it wherever only newer parameters are
bound. -/
def Linked (call' : Caller) (n : Nat) (replacement : Replacement) (τ σ : Scope) (p : Param) :
    Prop :=
  (∃ q : Param, replacement p.id = some (.arg q) ∧ q.id < n ∧ τ.find? p.id = σ.find? q.id) ∨
    (τ.find? p.id = none ∧ ∃ k ≤ n, (∀ y < k, σ.find? y = none) ∧
      ∀ σ' : Scope, (∀ y < k, σ'.find? y = none) → R.rel (.fail (.unbound p.name))
        (((replacement p.id).getD (.arg p)).evalWith call' σ'))

variable {R}

/-- Outside of every scope the links stay. -/
theorem Linked.closed {p : Param} (h : Linked R call' n replacement τ σ p) :
    Linked R call' n replacement [] [] p := by
  rcases h with ⟨q, hq, hn, _⟩ | ⟨_, j, hj, _, h⟩
  · exact .inl ⟨q, hq, hn, rfl⟩
  · exact .inr ⟨rfl, j, hj, fun _ _ => rfl, h⟩

/-- What is linked to a parameter stands for it, where all unbound parameters agree. -/
theorem Linked.stands
    (hfault : ∀ s t, R.rel (.fail (.unbound s) : Outcome Value) (.fail (.unbound t))) {p : Param}
    (h : Linked R call' n replacement τ σ p) : Stands R call' n replacement τ σ p := by
  intro σ' hσ'
  rcases h with ⟨q, hq, hn, hf⟩ | ⟨hf, k, hk, hσ, hx⟩
  · simp only [hq, Option.getD_some, evalWith, Scope.read, hf, hσ' q.id hn]
    cases σ.find? q.id with
    | none => exact hfault _ _
    | some v => exact R.refl _
  · simp only [Scope.read, hf]
    exact hx σ' fun y hy => (hσ' y (Nat.lt_of_lt_of_le hy hk)).trans (hσ y hy)

/-- Evaluating an instance agrees with evaluating the expression as long as what stands for its free
parameters is linked to them. -/
theorem instantiate_rel (hcall : ∀ callee args, R.rel (call callee args) (call' callee args))
    (hfault : ∀ s t, R.rel (.fail (.unbound s) : Outcome Value) (.fail (.unbound t))) (e : Expr)
    {n : Nat} {replacement : Replacement} {τ σ : Scope}
    (h : ∀ p : Param, e.Free p.id → Linked R call' n replacement τ σ p) :
    R.rel (e.evalWith call τ) ((e.instantiate replacement n).1.evalWith call' σ) := by
  apply e.instantiate_agrees (P := fun _ => True) hcall fun p q _ _ _ => hfault p.name q.name
  exact ⟨fun _ _ => ⟨fun _ _ => trivial, fun _ _ _ _ => trivial⟩,
    fun p _ hp => (h p hp).stands hfault, fun p _ hp => (h p hp.free).closed.stands hfault⟩

end Evaluation

end Expr

end RecordMapping
