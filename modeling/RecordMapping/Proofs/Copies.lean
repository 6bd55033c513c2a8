import RecordMapping.Proofs.Instantiation
import RecordMapping.Proofs.Moments

/-!
# Copies of expressions in other scopes

An expression follows another one if it returns whatever the other one returns, and passes through
no marker that the other run would not have been allowed to meet. It copies the other one if what it
reads has the same origin as well. Both are kept by every kind of node, so an expression copies
itself wherever more parameters have a value, and binding its parameters to copies of them gives a
copy of it.

## Implementation notes

Nothing is said of an expression that does not return. This is what allows a body to be moved from
the scope of its function alone into the scopes of an expression: a parameter that has no value in
the former is never read there.
-/

namespace RecordMapping

namespace Env

/-- The parameters that have a value in the second environment have the same one in the first, with
the same origin. -/
def Keeps (E' E : Env) : Prop :=
  ∀ x v, E.scope.find? x = some v → E'.scope.find? x = some v ∧ E'.origin x = E.origin x

/-- Identities of parameters that have a value are below a bound. -/
def Below (E : Env) (n : Nat) : Prop := ∀ x v, E.scope.find? x = some v → x < n

variable {E E' E'' : Env}

theorem Keeps.refl : E.Keeps E := fun _ _ h => ⟨h, rfl⟩

theorem Keeps.trans (h' : E''.Keeps E') (h : E'.Keeps E) : E''.Keeps E := by
  intro x v hv
  obtain ⟨hv', ho⟩ := h x v hv
  obtain ⟨hv'', ho'⟩ := h' x v hv'
  exact ⟨hv'', ho'.trans ho⟩

theorem keeps_closed : E.Keeps closed := by
  intro x v h
  cases h

theorem Keeps.push (h : E'.Keeps E) (p : Param) (v : Value) (origin : Option Origin) :
    (E'.push p v origin).Keeps (E.push p v origin) := by
  intro x u hu
  simp only [find?_push, origin_push] at hu ⊢
  split at hu
  · next hx => simpa [hx] using hu
  · next hx => simpa [hx] using h x u hu

/-- A parameter without a value can be given one. -/
theorem keeps_push {n : Nat} (below : E.Below n) {p : Param} (hp : n ≤ p.id) (v : Value)
    (origin : Option Origin) : (E.push p v origin).Keeps E := by
  intro x u hu
  have hx : x ≠ p.id := by
    have := below x u hu
    omega
  simp [find?_push, origin_push, hx, hu]

theorem Below.mono {n n' : Nat} (h : E.Below n) (hn : n ≤ n') : E.Below n' :=
  fun x v hv => Nat.lt_of_lt_of_le (h x v hv) hn

theorem Below.push {n : Nat} (h : E.Below n) {p : Param} (hp : p.id < n) (v : Value)
    (origin : Option Origin) : (E.push p v origin).Below n := by
  intro x u hu
  rw [find?_push] at hu
  split at hu
  · next hx => exact hx ▸ hp
  · exact h x u hu

end Env

/-- An instance of a mapping argument refers to the same target: it is evaluated outside of every
scope, where no parameter has a value. -/
theorem Expr.RefersTo.instantiate {mapping : Expr} {kind : MarkerKind} {t : Target}
    (h : mapping.RefersTo kind t) (replacement : Replacement) (n : Nat) :
    (mapping.instantiate replacement n).1.RefersTo kind t := by
  obtain ⟨d, hd⟩ := h
  have hrel : Agreement.preserving.rel (mapping.evalClosed d)
      ((mapping.instantiate replacement n).1.evalClosed d) := by
    refine Expr.instantiate_rel (fun _ _ => Agreement.preserving.refl _) (fun _ _ => ?_) mapping
      fun _ _ => .inr ⟨rfl, 0, Nat.zero_le n, nofun, fun _ _ => ?_⟩
    · exact nofun
    · exact nofun
  exact ⟨d, Agreement.preserving.resolve kind hrel t hd⟩

/-- What a marker makes of its entity is kept when its mapping argument refers to the same
target. -/
theorem Expr.Maps.mono {kind : MarkerKind} {mapping mapping' : Expr} {u v : Value}
    (h : mapping.Maps kind u v) (hm : ∀ t, mapping.RefersTo kind t → mapping'.RefersTo kind t) :
    mapping'.Maps kind u v := by
  rcases h with h | ⟨hu, t, ht, htv⟩
  · exact .inl h
  · exact .inr ⟨hu, t, hm t ht, htv⟩

/-- Where a marker has found its target, another mapping argument that refers to the same target
refers to nothing else. -/
theorem Expr.Maps.refersTo {kind : MarkerKind} {mapping mapping' : Expr} {u v : Value}
    (h : mapping.Maps kind u v) (hm : ∀ t, mapping.RefersTo kind t → mapping'.RefersTo kind t)
    (hu : u ≠ .null) (t : Target) (ht : mapping'.RefersTo kind t) : mapping.RefersTo kind t := by
  rcases h with ⟨h, _⟩ | ⟨_, t', ht', _⟩
  · exact absurd h hu
  · cases (hm t' ht').unique ht
    exact ht'

namespace Moment

variable {guard : FieldId → Option FieldId}

/-- What the second moment returns in a safe run, the first one does as well. -/
def Follows (guard : FieldId → Option FieldId) (M' M : Moment) : Prop :=
  ∀ v, M.Returns v → M.Safe guard → M'.Returns v ∧ M'.Safe guard

/-- The first moment follows the second one and reads its value from where that one does. -/
def Copies (guard : FieldId → Option FieldId) (M' M : Moment) : Prop :=
  Follows guard M' M ∧ ∀ v, M.Returns v → M.Safe guard →
    ∀ origin, M'.expr.ReadsFrom M'.env origin → M.expr.ReadsFrom M.env origin

theorem Follows.refl (M : Moment) : Follows guard M M := fun _ hv hs => ⟨hv, hs⟩

theorem Follows.trans {M M' M'' : Moment} (h' : Follows guard M'' M') (h : Follows guard M' M) :
    Follows guard M'' M := by
  intro v hv hs
  obtain ⟨hv', hs'⟩ := h v hv hs
  exact h' v hv' hs'

section Nodes

variable {E E' : Env}

theorem Follows.const {v : Value} : Follows guard ⟨.const v, E'⟩ ⟨.const v, E⟩ := by
  intro u hu _
  exact ⟨Expr.returns_const.mpr (Expr.returns_const.mp hu), safe_const⟩

theorem Follows.compare {op : Comparison} {left left' right right' : Expr}
    (hl : Follows guard ⟨left', E'⟩ ⟨left, E⟩) (hr : Follows guard ⟨right', E'⟩ ⟨right, E⟩) :
    Follows guard ⟨.compare op left' right', E'⟩ ⟨.compare op left right, E⟩ := by
  intro v hv hs
  obtain ⟨a, ha, b, hb, hab⟩ := Expr.returns_compare.mp hv
  obtain ⟨ha', hsl⟩ := hl a ha (hs.needed (by simp))
  obtain ⟨hb', hsr⟩ := hr b hb (hs.needed (by simp))
  refine ⟨Expr.returns_compare.mpr ⟨a, ha', b, hb', hab⟩, Safe.of_needed trivial ?_⟩
  simpa using ⟨hsl, hsr⟩

/-- Expressions that follow others one by one return what the others do. -/
theorem Follows.all {es es' : List Expr}
    (h : List.Forall₂ (fun e' e => Follows guard ⟨e', E'⟩ ⟨e, E⟩) es' es) {vs : List Value}
    (hv : List.Forall₂ (fun e v => e.Returns E.scope v) es vs)
    (hs : ∀ e ∈ es, Safe guard ⟨e, E⟩) :
    List.Forall₂ (fun e v => e.Returns E'.scope v) es' vs ∧ ∀ e ∈ es', Safe guard ⟨e, E'⟩ := by
  induction h generalizing vs with
  | nil =>
      cases hv
      exact ⟨.nil, by simp⟩
  | cons he _ ih =>
      cases hv with
      | cons hv hvs =>
          obtain ⟨hv', hs'⟩ := he _ hv (hs _ (by simp))
          obtain ⟨hvs', hss⟩ := ih hvs fun e hm => hs e (by simp [hm])
          exact ⟨.cons hv' hvs', by simpa using ⟨hs', hss⟩⟩

theorem Follows.call {callee callee' : Expr} {args args' : List Expr}
    (hf : Follows guard ⟨callee', E'⟩ ⟨callee, E⟩)
    (ha : List.Forall₂ (fun a' a => Follows guard ⟨a', E'⟩ ⟨a, E⟩) args' args) :
    Follows guard ⟨.call callee' args', E'⟩ ⟨.call callee args, E⟩ := by
  intro v hv hs
  obtain ⟨f, hcallee, vs, hargs, happly⟩ := Expr.returns_call.mp hv
  obtain ⟨hcallee', hsf⟩ := hf f hcallee (hs.needed (by simp))
  obtain ⟨hargs', hsa⟩ := Follows.all ha hargs fun a hm => hs.needed (by simp [hm])
  refine ⟨Expr.returns_call.mpr ⟨f, hcallee', vs, hargs', happly⟩, Safe.of_needed trivial ?_⟩
  simpa using ⟨hsf, hsa⟩

theorem Follows.cond {test test' yes yes' no no' : Expr}
    (ht : Follows guard ⟨test', E'⟩ ⟨test, E⟩) (hy : Follows guard ⟨yes', E'⟩ ⟨yes, E⟩)
    (hn : Follows guard ⟨no', E'⟩ ⟨no, E⟩) :
    Follows guard ⟨.cond test' yes' no', E'⟩ ⟨.cond test yes no, E⟩ := by
  intro v hv hs
  obtain ⟨b, htest, hbranch⟩ := Expr.returns_cond.mp hv
  obtain ⟨hst, hsb⟩ := safe_cond.mp hs
  obtain ⟨htest', hst'⟩ := ht _ htest hst
  have hb : Follows guard ⟨if b then yes' else no', E'⟩ ⟨if b then yes else no, E⟩ := by
    cases b
    · exact hn
    · exact hy
  obtain ⟨hbranch', hsb'⟩ := hb v hbranch (hsb b htest)
  refine ⟨Expr.returns_cond.mpr ⟨b, htest', hbranch'⟩, safe_cond.mpr ⟨hst', fun b' hb' => ?_⟩⟩
  cases htest'.unique hb'
  exact hsb'

theorem Follows.field {base base' : Expr} {id : FieldId}
    (hb : Follows guard ⟨base', E'⟩ ⟨base, E⟩) :
    Follows guard ⟨.field base' id, E'⟩ ⟨.field base id, E⟩ := by
  intro v hv hs
  obtain ⟨r, hr, hread⟩ := Expr.returns_field.mp hv
  obtain ⟨hr', hs'⟩ := hb r hr (hs.needed (by simp))
  refine ⟨Expr.returns_field.mpr ⟨r, hr', hread⟩, Safe.of_needed trivial ?_⟩
  simpa using hs'

theorem Follows.isNull {negate : Bool} {operand operand' : Expr}
    (ho : Follows guard ⟨operand', E'⟩ ⟨operand, E⟩) :
    Follows guard ⟨.isNull negate operand', E'⟩ ⟨.isNull negate operand, E⟩ := by
  intro v hv hs
  obtain ⟨u, hu, huv⟩ := Expr.returns_isNull.mp hv
  obtain ⟨hu', hs'⟩ := ho u hu (hs.needed (by simp))
  refine ⟨Expr.returns_isNull.mpr ⟨u, hu', huv⟩, Safe.of_needed trivial ?_⟩
  simpa using hs'

theorem Follows.list {items items' : List Expr}
    (hi : List.Forall₂ (fun e' e => Follows guard ⟨e', E'⟩ ⟨e, E⟩) items' items) :
    Follows guard ⟨.list items', E'⟩ ⟨.list items, E⟩ := by
  intro v hv hs
  obtain ⟨vs, hvs, rfl⟩ := Expr.returns_list.mp hv
  obtain ⟨hvs', hs'⟩ := Follows.all hi hvs fun e hm => hs.needed hm
  exact ⟨Expr.returns_list.mpr ⟨vs, hvs', rfl⟩, Safe.of_needed trivial hs'⟩

theorem Follows.record {model : ModelId} {fields fields' : List Expr}
    (hf : List.Forall₂ (fun e' e => Follows guard ⟨e', E'⟩ ⟨e, E⟩) fields' fields) :
    Follows guard ⟨.record model fields', E'⟩ ⟨.record model fields, E⟩ := by
  intro v hv hs
  obtain ⟨vs, hvs, rfl⟩ := Expr.returns_record.mp hv
  obtain ⟨hvs', hs'⟩ := Follows.all hf hvs fun e hm => hs.needed hm
  exact ⟨Expr.returns_record.mpr ⟨vs, hvs', rfl⟩, Safe.of_needed trivial hs'⟩

/-- A lambda that follows another one on every item returns what the other does. -/
theorem Follows.items {lambda lambda' : Func}
    (h : ∀ p, lambda.params = [p] → ∃ p', lambda'.params = [p'] ∧ ∀ item,
      Follows guard ⟨lambda'.body, E'.push p' item none⟩ ⟨lambda.body, E.push p item none⟩)
    {items vs : List Value} (hv : List.Forall₂ (lambda.ReturnsOn E.scope) items vs)
    (hs : ∀ item ∈ items, ∀ p, lambda.params = [p] →
      Safe guard ⟨lambda.body, E.push p item none⟩) :
    List.Forall₂ (lambda'.ReturnsOn E'.scope) items vs ∧ ∀ item ∈ items, ∀ p,
      lambda'.params = [p] → Safe guard ⟨lambda'.body, E'.push p item none⟩ := by
  induction hv with
  | nil => exact ⟨.nil, by simp⟩
  | @cons item u _ _ hu _ ih =>
      obtain ⟨p, hp, hu⟩ := hu
      obtain ⟨p', hp', hbody⟩ := h p hp
      obtain ⟨hu', hs'⟩ := hbody item u hu (hs item (by simp) p hp)
      obtain ⟨hvs', hss⟩ := ih fun i hm => hs i (by simp [hm])
      refine ⟨.cons ⟨p', hp', hu'⟩ hvs', fun i hm q hq => ?_⟩
      cases hp'.symm.trans hq
      rcases List.mem_cons.mp hm with rfl | hm
      · exact hs'
      · exact hss i hm p' hp'

theorem Follows.map {base base' : Expr} {lambda lambda' : Func}
    (hb : Follows guard ⟨base', E'⟩ ⟨base, E⟩)
    (hl : ∀ p, lambda.params = [p] → ∃ p', lambda'.params = [p'] ∧ ∀ item,
      Follows guard ⟨lambda'.body, E'.push p' item none⟩ ⟨lambda.body, E.push p item none⟩) :
    Follows guard ⟨.map base' lambda', E'⟩ ⟨.map base lambda, E⟩ := by
  intro v hv hs
  obtain ⟨items, hitems, vs, hvs, rfl⟩ := Expr.returns_map.mp hv
  obtain ⟨hsb, hsi⟩ := safe_map.mp hs
  obtain ⟨hitems', hsb'⟩ := hb _ hitems hsb
  obtain ⟨hvs', hsi'⟩ := Follows.items hl hvs (hsi items hitems)
  refine ⟨Expr.returns_map.mpr ⟨items, hitems', vs, hvs', rfl⟩, safe_map.mpr ⟨hsb', ?_⟩⟩
  intro items' hi'
  cases hitems'.unique hi'
  exact hsi'

/-- A marker that stands for another one in another environment: its entities are entities of the
other one, with the same origins, and are mapped by the same targets. -/
structure StandsFor (E' : Env) (m' : Marker) (E : Env) (m : Marker) : Prop where
  parent : (∃ parent selector, m'.source = .navigation parent selector ∧
    parent.Returns E'.scope .null) → ∃ parent selector, m.source = .navigation parent selector ∧
      parent.Returns E.scope .null
  meets : ∀ v origin, m'.Meets E' v origin → m.Meets E v origin
  target : ∀ v origin, m.Meets E v origin → v ≠ .null →
    ∀ t, m'.mapping.RefersTo m'.kind t → m.mapping.RefersTo m.kind t

theorem StandsFor.admissible {m m' : Marker} (h : StandsFor E' m' E m)
    (ha : m.Admissible guard E) : m'.Admissible guard E' where
  parent parent selector hsrc hnull := by
    obtain ⟨parent, selector, hsrc, hnull⟩ := h.parent ⟨parent, selector, hsrc, hnull⟩
    exact ha.parent parent selector hsrc hnull
  unguarded v origin hv hg := ha.unguarded v origin (h.meets v origin hv) hg
  guarded v record navigation key hv hg :=
    ha.guarded v record navigation key (h.meets _ _ hv) hg
  compiled v origin t hv hn ht := by
    have hv := h.meets v origin hv
    exact ha.compiled v origin t hv hn (h.target v origin hv hn t ht)

theorem StandsFor.targetsSafe {m m' : Marker} (h : StandsFor E' m' E m)
    (hs : TargetsSafe guard m E) : TargetsSafe guard m' E' := by
  intro v origin t p hv hn ht hp
  have hv := h.meets v origin hv
  exact hs v origin t p hv hn (h.target v origin hv hn t ht) hp

theorem Follows.includeEntity {kind : MarkerKind} {entity entity' mapping mapping' : Expr} {ty : Ty}
    (he : Copies guard ⟨entity', E'⟩ ⟨entity, E⟩)
    (hm : ∀ t, mapping.RefersTo kind t → mapping'.RefersTo kind t) :
    Follows guard ⟨.includeEntity kind entity' mapping' ty, E'⟩
      ⟨.includeEntity kind entity mapping ty, E⟩ := by
  intro v hv hs
  obtain ⟨u, hu, hmapped⟩ := Expr.returns_includeEntity.mp hv
  obtain ⟨ha, hse, hst⟩ := safe_includeEntity.mp hs
  obtain ⟨hu', hse'⟩ := he.1 u hu hse
  have stands : StandsFor E' ⟨kind, .entity entity', mapping', ty⟩ E
      ⟨kind, .entity entity, mapping, ty⟩ := by
    refine ⟨nofun, ?_, ?_⟩
    · rintro w origin ⟨hw, ho⟩
      cases hu'.unique hw
      exact ⟨hu, he.2 u hu hse origin ho⟩
    · rintro w origin ⟨hw, _⟩ hn
      cases hu.unique hw
      exact hmapped.refersTo hm hn
  refine ⟨Expr.returns_includeEntity.mpr ⟨u, hu', hmapped.mono hm⟩, ?_⟩
  exact safe_includeEntity.mpr ⟨stands.admissible ha, hse', stands.targetsSafe hst⟩

theorem Follows.includeVia {kind : MarkerKind} {parent parent' mapping mapping' : Expr}
    {selector selector' : Func} {ty : Ty} (hp : Copies guard ⟨parent', E'⟩ ⟨parent, E⟩)
    (hsel : ∀ p, selector.params = [p] → ∃ p', selector'.params = [p'] ∧ ∀ r origin,
      Copies guard ⟨selector'.body, E'.push p' r origin⟩ ⟨selector.body, E.push p r origin⟩)
    (hm : ∀ t, mapping.RefersTo kind t → mapping'.RefersTo kind t) :
    Follows guard ⟨.includeVia kind parent' selector' mapping' ty, E'⟩
      ⟨.includeVia kind parent selector mapping ty, E⟩ := by
  intro v hv hs
  obtain ⟨r, hr, hpicked⟩ := Expr.returns_includeVia.mp hv
  obtain ⟨ha, hsp, hss, hst⟩ := safe_includeVia.mp hs
  obtain ⟨hr', hsp'⟩ := hp.1 r hr hsp
  have hn : r ≠ .null := by
    rintro rfl
    exact ha.parent parent selector rfl hr
  obtain ⟨u, ⟨p, hparam, hu⟩, hmapped⟩ := (hpicked.resolve_left fun h => hn h.1).2
  obtain ⟨p', hparam', hbody⟩ := hsel p hparam
  -- The selector runs alike whatever the origin of the parent is.
  have picks (o : Option Origin) (ho : parent'.ReadsFrom E' o) :
      parent.ReadsFrom E o ∧ Safe guard ⟨selector.body, E.push p r o⟩ :=
    have ho := hp.2 r hr hsp o ho
    ⟨ho, hss p r o hparam hr hn ho⟩
  obtain ⟨o, ho⟩ := Expr.exists_readsFrom hr'
  have hu' := ((hbody r o).1 u hu (picks o ho).2).1
  have stands : StandsFor E' ⟨kind, .navigation parent' selector', mapping', ty⟩ E
      ⟨kind, .navigation parent selector, mapping, ty⟩ := by
    refine ⟨?_, ?_, ?_⟩
    · rintro ⟨_, _, hsrc, hnull⟩
      cases hsrc
      exact absurd (hr'.unique hnull) hn
    · rintro w origin ⟨q, r', o', hq, hr'', _, ho', hw, hread⟩
      cases hparam'.symm.trans hq
      cases hr'.unique hr''
      cases hu'.unique hw
      obtain ⟨ho, hs⟩ := picks o' ho'
      exact ⟨p, _, o', hparam, hr, hn, ho, hu, (hbody _ o').2 _ hu hs origin hread⟩
    · rintro w origin ⟨q, r', o', hq, hr'', _, _, hw, _⟩ hwn
      cases hparam.symm.trans hq
      cases hr.unique hr''
      cases hu.unique hw
      exact hmapped.refersTo hm hwn
  refine ⟨Expr.returns_includeVia.mpr ⟨r, hr', .inr ⟨hn, u, ⟨p', hparam', hu'⟩, ?_⟩⟩, ?_⟩
  · exact hmapped.mono hm
  · refine safe_includeVia.mpr ⟨stands.admissible ha, hsp', ?_, stands.targetsSafe hst⟩
    intro q r' o' hq hr'' _ ho'
    cases hparam'.symm.trans hq
    cases hr'.unique hr''
    exact ((hbody _ o').1 _ hu (picks o' ho').2).2

theorem Copies.field {base base' : Expr} {id : FieldId}
    (hb : Follows guard ⟨base', E'⟩ ⟨base, E⟩) :
    Copies guard ⟨.field base' id, E'⟩ ⟨.field base id, E⟩ := by
  refine ⟨hb.field, ?_⟩
  rintro v hv hs origin ⟨r', hr', rfl⟩
  obtain ⟨r, hr, _⟩ := Expr.returns_field.mp hv
  obtain ⟨hr'', _⟩ := hb r hr (hs.needed (by simp))
  cases hr''.unique hr'
  exact ⟨_, hr, rfl⟩

end Nodes

/-- An expression copies itself where more parameters have a value. -/
theorem copies_of_keeps (e : Expr) {E E' : Env} (h : E'.Keeps E) :
    Copies guard ⟨e, E'⟩ ⟨e, E⟩ := by
  induction e generalizing E E' with
  | arg p =>
      constructor
      · intro v hv _
        exact ⟨Expr.returns_arg.mpr (h p.id v (Expr.returns_arg.mp hv)).1, safe_arg⟩
      · intro v hv _ origin ho
        exact ho.trans (h p.id v (Expr.returns_arg.mp hv)).2
  | const v => exact ⟨.const, fun _ _ _ _ ho => ho⟩
  | compare op left right ihl ihr =>
      exact ⟨.compare (ihl h).1 (ihr h).1, fun _ _ _ _ ho => ho⟩
  | call callee args ihf iha =>
      refine ⟨.call (ihf h).1 (List.forall₂_same.mpr fun a ha => (iha a ha h).1), ?_⟩
      exact fun _ _ _ _ ho => ho
  | cond test yes no iht ihy ihn =>
      exact ⟨.cond (iht h).1 (ihy h).1 (ihn h).1, fun _ _ _ _ ho => ho⟩
  | field base id ih => exact .field (ih h).1
  | includeEntity kind entity mapping ty ihe ihm =>
      exact ⟨.includeEntity (ihe h) fun _ ht => ht, fun _ _ _ _ ho => ho⟩
  | includeVia kind parent params body mapping ty ihp ihb ihm =>
      refine ⟨.includeVia (ihp h) (fun p hp => ?_) fun _ ht => ht, fun _ _ _ _ ho => ho⟩
      exact ⟨p, hp, fun r origin => ihb (h.push p r origin)⟩
  | isNull negate operand ih => exact ⟨.isNull (ih h).1, fun _ _ _ _ ho => ho⟩
  | list items ih =>
      exact ⟨.list (List.forall₂_same.mpr fun e he => (ih e he h).1), fun _ _ _ _ ho => ho⟩
  | map base params body ihl ihb =>
      refine ⟨.map (ihl h).1 fun p hp => ?_, fun _ _ _ _ ho => ho⟩
      exact ⟨p, hp, fun item => (ihb (h.push p item none)).1⟩
  | record model fields ih =>
      exact ⟨.record (List.forall₂_same.mpr fun e he => (ih e he h).1), fun _ _ _ _ ho => ho⟩

/-- What stands for a parameter copies it, in every environment that keeps the first one. -/
def Fits (guard : FieldId → Option FieldId) (replacement : Replacement) (E' E : Env) : Prop :=
  ∀ (p : Param) (E'' : Env), E''.Keeps E' →
    Copies guard ⟨(replacement p.id).getD (.arg p), E''⟩ ⟨.arg p, E⟩

/-- Under a renamed binder the new parameter stands for the old one, and what stands for the others
still does. -/
theorem Fits.push {replacement : Replacement} {E' E : Env} (h : Fits guard replacement E' E)
    {n : Nat} (below : E'.Below n) {p p' : Param} (hp : n ≤ p'.id) (v : Value)
    (origin : Option Origin) :
    Fits guard (replacement.set p.id (.arg p')) (E'.push p' v origin) (E.push p v origin) := by
  intro q E'' keeps
  by_cases hq : q.id = p.id
  · have bound : E''.scope.find? p'.id = some v ∧ E''.origin p'.id = origin := by
      simpa [Env.find?_push, Env.origin_push] using keeps p'.id v (by simp [Env.find?_push])
    rw [hq, Replacement.set_same, Option.getD_some]
    refine ⟨fun u hu _ => ⟨?_, safe_arg⟩, fun u _ _ o ho => ?_⟩
    · have hu : (E.push p v origin).scope.find? q.id = some u := Expr.returns_arg.mp hu
      rw [Env.find?_push, if_pos hq] at hu
      cases hu
      exact Expr.returns_arg.mpr bound.1
    · change o = (E.push p v origin).origin q.id
      rw [Env.origin_push, if_pos hq]
      exact ho.trans bound.2
  · rw [Replacement.set_other _ hq]
    have copies := h q E'' (keeps.trans (Env.keeps_push below hp v origin))
    have same {u : Value} (hu : Returns ⟨.arg q, E.push p v origin⟩ u) :
        Returns ⟨.arg q, E⟩ u := by
      have hu : (E.push p v origin).scope.find? q.id = some u := Expr.returns_arg.mp hu
      rw [Env.find?_push, if_neg hq] at hu
      exact Expr.returns_arg.mpr hu
    refine ⟨fun u hu _ => copies.1 u (same hu) safe_arg, fun u hu _ o ho => ?_⟩
    have ho : o = E.origin q.id := copies.2 u (same hu) safe_arg o ho
    change o = (E.push p v origin).origin q.id
    rw [Env.origin_push, if_neg hq]
    exact ho

/-- An instance of an expression copies it if what stands for its parameters copies them. -/
theorem copies_instantiate (e : Expr) {replacement : Replacement} {n : Nat} {E E' : Env}
    (fits : Fits guard replacement E' E) (below : E'.Below n) :
    Copies guard ⟨(e.instantiate replacement n).1, E'⟩ ⟨e, E⟩ := by
  induction e generalizing replacement n E E' with
  | arg p => exact fits p E' .refl
  | const v => exact ⟨.const, fun _ _ _ _ ho => ho⟩
  | compare op left right ihl ihr =>
      have hn := left.le_instantiate replacement n
      exact ⟨.compare (ihl fits below).1 (ihr fits (below.mono hn)).1, fun _ _ _ _ ho => ho⟩
  | call callee args ihf iha =>
      have hn := callee.le_instantiate replacement n
      refine ⟨.call (ihf fits below).1 ?_, fun _ _ _ _ ho => ho⟩
      refine (Expr.forall₂_instantiateAll fun a ha k hk => ?_).flip
      exact (iha a ha fits (below.mono (Nat.le_trans hn hk))).1
  | cond test yes no iht ihy ihn =>
      have ht := test.le_instantiate replacement n
      have hy := yes.le_instantiate replacement (test.instantiate replacement n).2
      refine ⟨.cond (iht fits below).1 ?_ ?_, fun _ _ _ _ ho => ho⟩
      · exact (ihy fits (below.mono ht)).1
      · exact (ihn fits (below.mono (Nat.le_trans ht hy))).1
  | field base id ih => exact .field (ih fits below).1
  | includeEntity kind entity mapping ty ihe ihm =>
      refine ⟨.includeEntity (ihe fits below) fun t ht => ?_, fun _ _ _ _ ho => ho⟩
      exact ht.instantiate _ _
  | includeVia kind parent params body mapping ty ihp ihb ihm =>
      have hn := parent.le_instantiate replacement n
      refine ⟨.includeVia (ihp fits below) ?_ fun t ht => ?_, fun _ _ _ _ ho => ho⟩
      · rintro p rfl
        refine ⟨_, rfl, fun r origin => ihb (fits.push (below.mono hn) (Nat.le_refl _) r origin) ?_⟩
        exact ((below.mono hn).mono (Nat.le_succ _)).push (Nat.lt_succ_self _) r origin
      · exact ht.instantiate _ _
  | isNull negate operand ih => exact ⟨.isNull (ih fits below).1, fun _ _ _ _ ho => ho⟩
  | list items ih =>
      refine ⟨.list ?_, fun _ _ _ _ ho => ho⟩
      refine (Expr.forall₂_instantiateAll fun a ha k hk => ?_).flip
      exact (ih a ha fits (below.mono hk)).1
  | map base params body ihl ihb =>
      have hn := base.le_instantiate replacement n
      refine ⟨.map (ihl fits below).1 ?_, fun _ _ _ _ ho => ho⟩
      rintro p rfl
      refine ⟨_, rfl, fun item =>
        (ihb (fits.push (below.mono hn) (Nat.le_refl _) item none) ?_).1⟩
      exact ((below.mono hn).mono (Nat.le_succ _)).push (Nat.lt_succ_self _) item none
  | record model fields ih =>
      refine ⟨.record ?_, fun _ _ _ _ ho => ho⟩
      refine (Expr.forall₂_instantiateAll fun a ha k hk => ?_).flip
      exact (ih a ha fits (below.mono hk)).1

end Moment

end RecordMapping
