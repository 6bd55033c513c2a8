import RecordMapping.Proofs.Meaning
import RecordMapping.Proofs.Readings

/-!
# What a composed function computes

A composed function computes what the function as written counts for. So it neither matters in which
order a composer replaces markers, nor that it copies entities with all that stands in them.

## Implementation notes

A parameter may stand for an entity with a key that is tested for it. A composer does not see the
key where only the parameter stands, and makes no test there. What it makes of such an expression
counts for the same value as long as the tests that are missing would have let every run pass.
-/

namespace RecordMapping

variable {guard : FieldId → Option FieldId} {call : Caller}

theorem Readings.present_set {env : Readings} (h : ∀ p, (env.read p).Present) (p : Param)
    {entity : Reading} (present : entity.Present) (q : Param) :
    ((env.set p.id entity).read q).Present := by
  by_cases hq : q.id = p.id
  · simpa [read, hq] using present
  · have outer := h q
    rwa [read, ← set_other env hq, ← read] at outer

/-- With an expression in the place of one parameter, that parameter counts for what the expression
does, and another one for what it did. -/
theorem Readings.fits_single {x : Expr} {n : Nat} (below : ∀ y, x.Reads y → y < n) {p q : Param}
    {env env' : Readings} (other : q.id ≠ p.id → q.id < n ∧ env' q.id = env q.id) :
    Fits guard call n (Replacement.empty.set p.id x) env
      (env'.set p.id (x.reading guard call env)) q := by
  intro inner agree
  by_cases hq : q.id = p.id
  · have same : x.reading guard call inner = x.reading guard call env :=
      x.reading_congr fun y hy => agree y (below y hy)
    simp [hq, read, same]
  · obtain ⟨hn, henv⟩ := other hq
    rw [Replacement.set_other _ hq, Replacement.empty_apply, Option.getD_none, Expr.reading, read,
      read, agree q.id hn, set_other _ hq, henv]

/-- The expression of an entity counts for what the entity of the marker does. -/
theorem Marker.reading_entity {m : Marker} {entity : Expr} {n n' : Nat}
    (h : m.entity n = .ok (entity, n')) (settled : m.toExpr.Settled)
    (below : ∀ x, m.toExpr.Reads x → x < n) (env : Readings) :
    entity.reading guard call env = m.source.reading guard call env := by
  obtain ⟨kind, source, mapping, ty⟩ := m
  cases source with
  | entity e =>
      cases h
      rfl
  | navigation parent selector =>
      obtain ⟨p, hp, hinst⟩ := Func.bindBody_singleton_eq_ok h
      obtain rfl : _ = entity := congrArg Prod.fst hinst
      have fits (q : Param) (hq : selector.body.Reads q.id) :
          Readings.Fits guard call n (Replacement.empty.set p.id parent) env
            (env.set p.id (parent.reading guard call env)) q := by
        refine Readings.fits_single (fun y hy => below y ?_) fun hqp => ⟨below q.id ?_, rfl⟩
        · exact .operand (o := ⟨[], parent⟩) (by simp [toExpr]) (by simp) hy
        · exact .operand (o := ⟨selector.params, selector.body⟩) (by simp [toExpr])
            (by simpa [hp] using Ne.symm hqp) hq
      rw [Expr.reading_instantiate
        (settled.operand (o := ⟨selector.params, selector.body⟩) (by simp [toExpr])) fits,
        Source.reading, hp]
      rfl

namespace Composer

variable {c : Composer} {w w' : Workspace}

/-- The null test in front of a body is the one for what the entity counts for. -/
theorem value_reading_guarded {entity body : Expr} {env : Readings}
    (present : ∀ p, (env.read p).Present) :
    ((guarded (c.subject w entity) body).reading (c.guard w) call env).value =
      (entity.reading (c.guard w) call env).protect (body.reading (c.guard w) call env).value := by
  cases hf : entity.asField? with
  | none =>
      have untested : c.subject w entity = none := by simp [subject, hf]
      rw [untested]
      by_cases ha : ∃ p, entity = .arg p
      · obtain ⟨p, rfl⟩ := ha
        rw [Expr.reading, present p]
        rfl
      · have key : (entity.reading (c.guard w) call env).key = none :=
          Expr.key_reading (fun p hp => ha ⟨p, hp⟩) hf env
        rw [Reading.present_of_key key]
        rfl
  | some read =>
      obtain ⟨base, navigation⟩ := read
      obtain rfl := (Expr.asField?_eq_some_iff _ _ _).mp hf
      have subject : c.subject w (base.field navigation) =
          (c.guard w navigation).map (Expr.field base) := rfl
      rw [subject, Expr.reading, Reading.protect, Reading.field]
      cases c.guard w navigation with
      | none => rfl
      | some key =>
          simp only [Option.map_some, guarded, Expr.isNotNull, Expr.null, Expr.reading,
            Reading.plain_value, Reading.field]
          cases (base.reading (c.guard w) call env).value >>= fun v => v.readField key with
          | ok k => cases hk : k.isNull <;> simp [hk, Value.asBool]
          | fault | stuck | outOfDepth => rfl

/-- What replaces a marker counts for the value that the marker does. -/
theorem value_reading_inlineOnce {depth : Nat} {m : Marker} {e : Expr}
    (once : c.inlineOnce depth m w = (.ok e, w')) (refers : m.toExpr.RefersOnlyTo Func.Closed)
    (below : ∀ x, m.toExpr.Reads x → x < w.nextParam) {env : Readings}
    (present : ∀ p, (env.read p).Present) :
    (e.reading (c.guard w) call env).value = (m.toExpr.reading (c.guard w) call env).value := by
  obtain ⟨entity, n, t, p, hentity, ht, hp, rfl, _, _⟩ := inlineOnce_eq_ok once
  have refersTo : m.mapping.RefersTo m.kind t := ⟨depth, ht⟩
  obtain ⟨closed, inner⟩ := refers.target refersTo
  have hn := Marker.le_entity hentity
  have fits (q : Param) (hq : t.function.body.Reads q.id) :
      Readings.Fits (c.guard w) call n (Replacement.empty.set p.id entity) env
        (Readings.empty.set p.id (entity.reading (c.guard w) call env)) q := by
    refine Readings.fits_single (fun y hy => ?_) fun hqp => ?_
    · exact Nat.lt_of_lt_of_le (below y (Marker.reads_of_entity hentity hy)) hn
    · obtain ⟨r, hr, hrq⟩ := closed q.id hq
      rw [hp, List.mem_singleton] at hr
      exact absurd (hr ▸ hrq.symm) hqp
  rw [value_reading_guarded present, Expr.reading_instantiate inner.settled fits,
    Marker.reading_entity hentity refers.settled below, Marker.reading_toExpr refersTo,
    Func.reading, hp]
  rfl

end Composer

/-- The parameters that the expression reads and binds have identities below a bound. -/
structure Expr.Bounded (n : Nat) (e : Expr) : Prop where
  reads : ∀ x, e.Reads x → x < n
  binders : e.BindersBelow n

namespace Expr.Bounded

variable {n k : Nat} {e : Expr}

theorem mono (h : e.Bounded n) (hk : n ≤ k) : e.Bounded k :=
  ⟨fun x hx => Nat.lt_of_lt_of_le (h.reads x hx) hk, h.binders.mono hk⟩

theorem operand (h : e.Bounded n) {o : Operand} (ho : o ∈ e.live) : o.expr.Bounded n := by
  refine ⟨fun x hx => ?_, h.binders.operand (live_subset ho)⟩
  by_cases hb : ∃ p ∈ o.bound, p.id = x
  · obtain ⟨p, hp, rfl⟩ := hb
    exact (bindersBelow_iff.mp h.binders o (live_subset ho)).1 p hp
  · exact h.reads x (.operand ho (by simpa using hb) hx)

end Expr.Bounded

/-- Parameters that stand for the arguments of a call. -/
def Readings.ofArgs (params : List Param) (args : List Value) : Readings := fun x =>
  (Scope.find? [⟨params, args⟩] x).map fun v => .plain (.ok v)

theorem Readings.follows_ofArgs (params : List Param) (args : List Value) :
    (ofArgs params args).Follows [⟨params, args⟩] := by
  intro p
  rw [read, ofArgs, Scope.read]
  cases Scope.find? [⟨params, args⟩] p.id <;> rfl

theorem Readings.present_ofArgs (params : List Param) (args : List Value) (p : Param) :
    ((ofArgs params args).read p).Present := by
  rw [read, ofArgs]
  cases Scope.find? [⟨params, args⟩] p.id <;> exact Reading.present_plain _

namespace Composer

variable {c : Composer}

/-- What a composer makes of expressions counts for their values, one by one. -/
theorem forall₂_value_reading {es es' : List Expr} {w w' : Workspace}
    (h : Threaded (fun e w e' w' => ∃ _ : c.Expands e w e' w', ∀ {env : Readings},
      c.guard w = guard → e.RefersOnlyTo Func.Closed → e.Bounded w.nextParam →
        (∀ p, (env.read p).Present) →
        (e'.reading guard call env).value = (e.reading guard call env).value) es w es' w')
    {env : Readings} (hg : c.guard w = guard) (refers : ∀ e ∈ es, e.RefersOnlyTo Func.Closed)
    (bounded : ∀ e ∈ es, e.Bounded w.nextParam) (present : ∀ p, (env.read p).Present) :
    List.Forall₂ (fun e' e =>
      (e'.reading guard call env).value = (e.reading guard call env).value) es' es := by
  induction h with
  | nil => exact .nil
  | cons head _ ih =>
      obtain ⟨expands, same⟩ := head
      obtain ⟨hn, hg'⟩ := expands.advances
      refine .cons (same hg (refers _ (by simp)) (bounded _ (by simp)) present) ?_
      exact ih (hg'.trans hg) (fun e he => refers e (by simp [he]))
        fun e he => (bounded e (by simp [he])).mono hn

/-- What a composer makes of an expression counts for the value that the expression does. -/
theorem Expands.value_reading {e e' : Expr} {w w' : Workspace} (h : c.Expands e w e' w')
    {env : Readings} (hg : c.guard w = guard) (refers : e.RefersOnlyTo Func.Closed)
    (bounded : e.Bounded w.nextParam) (present : ∀ p, (env.read p).Present) :
    (e'.reading guard call env).value = (e.reading guard call env).value := by
  induction h using Expands.induct generalizing env with
  | arg p w => rfl
  | const v w => rfl
  | @compare op left right l r w₁ w₂ w₃ hl hr ihl ihr =>
      obtain ⟨hn, hg'⟩ := hl.advances
      have left := ihl hg (refers.operand (o := ⟨[], left⟩) (by simp))
        (bounded.operand (o := ⟨[], left⟩) (by simp)) present
      have right := ihr (hg'.trans hg) (refers.operand (o := ⟨[], right⟩) (by simp))
        ((bounded.operand (o := ⟨[], right⟩) (by simp)).mono hn) present
      simp only [Expr.reading, Reading.plain_value, left, right]
  | @call callee args f as w₁ w₂ w₃ hf ha ihf iha =>
      obtain ⟨hn, hg'⟩ := hf.advances
      have callee := ihf hg (refers.operand (o := ⟨[], callee⟩) (by simp))
        (bounded.operand (o := ⟨[], callee⟩) (by simp)) present
      have args := Expr.readingAll_congr (forall₂_value_reading iha (hg'.trans hg)
        (fun a ha => refers.operand (o := ⟨[], a⟩) (by simp [ha]))
        (fun a ha => (bounded.operand (o := ⟨[], a⟩) (by simp [ha])).mono hn) present)
      simp only [Expr.reading, Reading.plain_value, callee, args]
  | @cond test yes no t y n w₁ w₂ w₃ w₄ ht hy hn iht ihy ihn =>
      obtain ⟨hn₁, hg₁⟩ := ht.advances
      obtain ⟨hn₂, hg₂⟩ := hy.advances
      have test := iht hg (refers.operand (o := ⟨[], test⟩) (by simp))
        (bounded.operand (o := ⟨[], test⟩) (by simp)) present
      have yes := ihy (hg₁.trans hg) (refers.operand (o := ⟨[], yes⟩) (by simp))
        ((bounded.operand (o := ⟨[], yes⟩) (by simp)).mono hn₁) present
      have no := ihn (hg₂.trans (hg₁.trans hg)) (refers.operand (o := ⟨[], no⟩) (by simp))
        ((bounded.operand (o := ⟨[], no⟩) (by simp)).mono (Nat.le_trans hn₁ hn₂)) present
      simp only [Expr.reading, Reading.plain_value, test, yes, no]
  | @field id base b w₁ w₂ hb ih =>
      have base := ih hg (refers.operand (o := ⟨[], base⟩) (by simp))
        (bounded.operand (o := ⟨[], base⟩) (by simp)) present
      simp only [Expr.reading, Reading.field, base]
  | marker m once _ ih =>
      obtain ⟨hn, hg'⟩ := advances_inlineOnce once
      have rest := ih (hg'.trans hg) (inlineOnce_refersOnlyTo once refers)
        ⟨fun x hx => Nat.lt_of_lt_of_le (bounded.reads x (inlineOnce_reads once
          (fun t ht => (refers.target ht).1) hx)) hn, inlineOnce_bindersBelow once bounded.binders⟩
        present
      subst hg
      exact rest.trans (value_reading_inlineOnce once refers bounded.reads present)
  | @isNull negate operand e w₁ w₂ he ih =>
      have operand := ih hg (refers.operand (o := ⟨[], operand⟩) (by simp))
        (bounded.operand (o := ⟨[], operand⟩) (by simp)) present
      simp only [Expr.reading, Reading.plain_value, operand]
  | @list items es w₁ w₂ hs ih =>
      have items := Expr.readingAll_congr (forall₂_value_reading ih hg
        (fun e he => refers.operand (o := ⟨[], e⟩) (by simp [he]))
        (fun e he => bounded.operand (o := ⟨[], e⟩) (by simp [he])) present)
      simp only [Expr.reading, Reading.plain_value, items]
  | @record model fields es w₁ w₂ hs ih =>
      have fields := Expr.readingAll_congr (forall₂_value_reading ih hg
        (fun e he => refers.operand (o := ⟨[], e⟩) (by simp [he]))
        (fun e he => bounded.operand (o := ⟨[], e⟩) (by simp [he])) present)
      simp only [Expr.reading, Reading.plain_value, fields]
  | @map params base body l b w₁ w₂ w₃ hl hb ihl ihb =>
      obtain ⟨hn, hg'⟩ := hl.advances
      have base := ihl hg (refers.operand (o := ⟨[], base⟩) (by simp))
        (bounded.operand (o := ⟨[], base⟩) (by simp)) present
      have each (item : Value) :
          (env.bind params (.plain (.ok item)) fun env => b.reading guard call env).value =
            (env.bind params (.plain (.ok item)) fun env => body.reading guard call env).value := by
        refine Readings.value_bind_congr ?_
        rintro p rfl
        exact ihb (hg'.trans hg) (refers.operand (o := ⟨[p], body⟩) (by simp))
          ((bounded.operand (o := ⟨[p], body⟩) (by simp)).mono hn)
          (Readings.present_set present p (Reading.present_plain _))
      simp only [Expr.reading, Reading.plain_value, base, each]

/-- A composed function returns, on all arguments, what the function as written counts for. -/
theorem call_of_composeFunc {depth : Nat} {f g : Func} {w w' : Workspace}
    (h : c.composeFunc depth f w = (.ok g, w')) (refers : f.body.RefersOnlyTo Func.Closed)
    (bounded : f.body.Bounded w.nextParam) (d : Nat) (args : List Value) :
    g.call d args = (checkArity f.arity args.length >>= fun _ =>
      (f.body.reading (c.guard w) (Callable.call d) (.ofArgs f.params args)).value) := by
  obtain ⟨params, expands⟩ := expands_of_composeFunc h
  rw [← expands.value_reading rfl refers bounded (Readings.present_ofArgs f.params args),
    Expr.value_reading expands.flat (Readings.follows_ofArgs f.params args)]
  unfold Func.call Func.callWith Func.arity
  rw [params]

end Composer

end RecordMapping
