import RecordMapping.Proofs.Acyclic

/-!
# Ranks of expressions

The rank of an expression bounds how often markers are replaced in what replaces them, provided that
what stands for its parameters has the ranks that are given for them. An instance of an expression
has its rank, and what a marker refers to has a smaller one than the marker.

A mapping argument may refer to parameters as long as nothing known is put in their place: what
fails ahead of any record fails there as well. An instance of such an argument then ends as the
argument does and refers to the same target.

## Implementation notes

The size of an expression would not do: a replacement copies the entity, markers and all, any number
of times and into the entities of other markers. A rank is therefore relative to what stands for the
parameters. The entity is ranked first, then the body of the function that the marker refers to,
with the rank of the entity for its parameter. Lambdas are never bound to an expression while
markers are replaced, so their parameters have rank zero.

A mapping argument is evaluated within the depth that is left when a composer comes to its marker.
So the rank of what is unknown bounds the depth in which evaluating it fails.
-/

namespace RecordMapping

/-- What may be put in the place of a parameter: an expression of the rank, and one that has no
value ahead of any record if it has to be unknown. -/
structure Grade where
  rank : Nat
  unknown : Prop

namespace Grade

/-- Nothing but another parameter is put in the place of the parameter. -/
def bare : Grade := ⟨0, True⟩

/-- A lower grade asks for more. -/
instance : LE Grade := ⟨fun g h => g.rank ≤ h.rank ∧ (h.unknown → g.unknown)⟩

theorem le_refl (g : Grade) : g ≤ g := ⟨Nat.le_refl _, id⟩

end Grade

/-- Something for each parameter. -/
abbrev PerParam (α : Type) := Nat → α

namespace PerParam

variable {α : Type} (κ : PerParam α) {params : List Param} (a : α) {x : Nat}

/-- The parameters are given the one thing, and all others keep what they have. -/
def bind (κ : PerParam α) (params : List Param) (a : α) : PerParam α := fun x =>
  if params.any fun p => p.id = x then a else κ x

theorem bind_bound (h : ∃ p ∈ params, p.id = x) : κ.bind params a x = a := by
  simpa [bind] using fun hn => absurd h (by simpa using hn)

theorem bind_other (h : ∀ p ∈ params, p.id ≠ x) : κ.bind params a x = κ x := by
  simpa [bind] using fun p hp hx => absurd hx (h p hp)

/-- What relates the things that are bound, and those of each parameter that is not, relates the
things of every parameter. -/
theorem bind_rel {β : Type} {κ : PerParam α} {κ' : PerParam β} {a : α} {b : β} {R : α → β → Prop}
    (hb : R a b) (h : (∀ p ∈ params, p.id ≠ x) → R (κ x) (κ' x)) :
    R (κ.bind params a x) (κ'.bind params b x) := by
  by_cases hx : ∀ p ∈ params, p.id ≠ x
  · rw [bind_other _ _ hx, bind_other _ _ hx]
    exact h hx
  · have hx : ∃ p ∈ params, p.id = x := by simpa using hx
    rw [bind_bound _ _ hx, bind_bound _ _ hx]
    exact hb

end PerParam

/-- The grade of each parameter. -/
abbrev Ranks := PerParam Grade

namespace Ranks

/-- No parameter is replaced by an expression with markers. -/
def zero : Ranks := fun _ => .bare

@[simp] theorem zero_bind (params : List Param) : zero.bind params .bare = zero := by
  funext x
  simp [PerParam.bind, zero]

variable {κ κ' : Ranks} {params : List Param} {g : Grade} {x : Nat}

theorem bind_le (h : (∀ p ∈ params, p.id ≠ x) → κ' x ≤ κ x) :
    κ'.bind params g x ≤ κ.bind params g x :=
  PerParam.bind_rel (R := (· ≤ ·)) g.le_refl h

/-- What is unknown is graded so, if what the parameters are bound to is. -/
theorem unknown_bind {U : PerParam Prop} {unknown : Prop} (hg : unknown → g.unknown)
    (h : (∀ p ∈ params, p.id ≠ x) → U x → (κ x).unknown) :
    U.bind params unknown x → (κ.bind params g x).unknown :=
  PerParam.bind_rel (R := fun (u : Prop) (g : Grade) => u → g.unknown) hg h

end Ranks

namespace Expr

/-- The expression refers only to parameters below `n` that stand for something unknown whose rank
is within the depth. -/
def Blind (n : Nat) (κ : Ranks) (depth : Nat) (e : Expr) : Prop :=
  ∀ x, e.Free x → x < n ∧ (κ x).unknown ∧ (κ x).rank ≤ depth

/-- Evaluating the expression outside of every scope fails within the depth, whatever is put in the
place of its parameters. -/
structure Hidden (n : Nat) (κ : Ranks) (depth : Nat) (e : Expr) : Prop where
  blind : e.Blind n κ depth
  fails : ∃ fault, e.evalClosed depth = .fault fault

/-- The expression is unknown if the grade asks for that. -/
def Suits (n : Nat) (κ : Ranks) (g : Grade) (e : Expr) : Prop := g.unknown → e.Hidden n κ g.rank

/-- The argument that says what a marker refers to depends on nothing known, and evaluating it ends
within the depth. -/
structure Settles (n : Nat) (κ : Ranks) (kind : MarkerKind) (depth : Nat) (mapping : Expr) :
    Prop where
  blind : mapping.Blind n κ depth
  ends : (Target.resolve kind (mapping.evalClosed depth)).Ended

/-- An expression whose parameters have identities below `n` has a rank, given grades for what
stands for its parameters. -/
inductive Ranked (n : Nat) : Nat → Ranks → Expr → Prop
  | arg {rank κ} {p : Param} (hp : p.id < n) (h : (κ p.id).rank ≤ rank) : Ranked n rank κ (.arg p)
  | node {rank κ} {e : Expr} (inner : ∀ p, e ≠ .arg p) (unmarked : e.asMarker? = none)
      (operands : ∀ o ∈ e.operands, Ranked n rank (κ.bind o.bound .bare) o.expr) : Ranked n rank κ e
  | entity {rank κ kind entity mapping ty g} (settles : mapping.Settles n κ kind rank)
      (hg : g.rank ≤ rank) (entity_suits : entity.Suits n κ g)
      (entity_ranked : Ranked n g.rank κ entity)
      (target : ∀ t, mapping.RefersTo kind t →
        Ranked n rank (Ranks.zero.bind t.function.params g) t.function.body) :
      Ranked n (rank + 1) κ (.includeEntity kind entity mapping ty)
  | navigation {rank κ kind parent selector mapping ty q g}
      (settles : mapping.Settles n κ kind rank) (hg : g.rank ≤ rank)
      (parent_suits : parent.Suits n κ q) (parent_ranked : Ranked n q.rank κ parent)
      (selector_suits : selector.body.Suits n (κ.bind selector.params q) g)
      (selector_ranked : Ranked n g.rank (κ.bind selector.params q) selector.body)
      (target : ∀ t, mapping.RefersTo kind t →
        Ranked n rank (Ranks.zero.bind t.function.params g) t.function.body) :
      Ranked n (rank + 1) κ (.includeVia kind parent selector mapping ty)

/-- The expression may be put in the place of a parameter of the grade. -/
structure Graded (n : Nat) (κ : Ranks) (g : Grade) (e : Expr) : Prop where
  ranked : e.Ranked n g.rank κ
  suits : e.Suits n κ g

section Mono

variable {n n' rank rank' depth depth' : Nat} {κ κ' : Ranks} {g : Grade} {kind : MarkerKind}
  {e mapping : Expr}

/-- What fails outside of every scope fails within a greater depth. -/
theorem fails_deeper {fault : Fault} (h : e.evalClosed depth = .fault fault)
    (hd : depth ≤ depth') : e.evalClosed depth' = .fault fault := by
  rw [evalClosed] at h ⊢
  exact (Agreement.eq_of_deeper (e.steady_eval [] hd) (by simp [h])).trans h

/-- What an argument refers to, it refers to within a greater depth. -/
theorem resolve_deeper {t : Target} (h : Target.resolve kind (mapping.evalClosed depth) = .ok t)
    (hd : depth ≤ depth') : Target.resolve kind (mapping.evalClosed depth') = .ok t :=
  (Agreement.eq_of_deeper (steady_resolve kind mapping hd) (by simp [h])).trans h

theorem Blind.mono (h : e.Blind n κ depth) (hn : n ≤ n') (hd : depth ≤ depth')
    (hκ : ∀ x, e.Free x → κ' x ≤ κ x) : e.Blind n' κ' depth' := by
  intro x hx
  obtain ⟨lt, unknown, le⟩ := h x hx
  obtain ⟨lower, kept⟩ := hκ x hx
  exact ⟨by omega, kept unknown, by omega⟩

theorem Suits.mono (h : e.Suits n κ g) (hn : n ≤ n') (hκ : ∀ x, e.Free x → κ' x ≤ κ x) :
    e.Suits n' κ' g :=
  fun unknown => ⟨(h unknown).blind.mono hn (Nat.le_refl _) hκ, (h unknown).fails⟩

theorem Settles.mono (h : mapping.Settles n κ kind depth) (hn : n ≤ n') (hd : depth ≤ depth')
    (hκ : ∀ x, mapping.Free x → κ' x ≤ κ x) : mapping.Settles n' κ' kind depth' :=
  ⟨h.blind.mono hn hd hκ, h.ends.deeper (steady_resolve kind mapping hd)⟩

theorem Suits.widen (h : e.Suits n κ g) (hn : n ≤ n') : e.Suits n' κ g :=
  h.mono hn fun _ _ => Grade.le_refl _

theorem Settles.widen (h : mapping.Settles n κ kind depth) (hn : n ≤ n') :
    mapping.Settles n' κ kind depth :=
  h.mono hn (Nat.le_refl _) fun _ _ => Grade.le_refl _

namespace Ranked

theorem free_lt (h : e.Ranked n rank κ) {x : Nat} (hx : e.Free x) : x < n := by
  induction h with
  | arg hp h =>
      rw [free_arg] at hx
      exact hx ▸ hp
  | node inner unmarked operands ih =>
      rcases free_iff.mp hx with ⟨p, hp, _⟩ | ⟨o, ho, _, hfree⟩
      · exact absurd hp (inner p)
      · exact ih o ho hfree
  | entity settles hg _ entity_ranked target ihe iht =>
      rcases free_includeEntity.mp hx with hx | hx
      · exact ihe hx
      · exact (settles.blind x hx).1
  | navigation settles hg _ parent_ranked _ selector_ranked target ihp ihs iht =>
      rcases free_includeVia.mp hx with hx | ⟨_, hx⟩ | hx
      · exact ihp hx
      · exact ihs hx
      · exact (settles.blind x hx).1

/-- Ranks may be raised, and the grades of the parameters lowered where they are free. -/
theorem mono (h : e.Ranked n rank κ) (hn : n ≤ n') (hrank : rank ≤ rank')
    (hκ : ∀ x, e.Free x → κ' x ≤ κ x) : e.Ranked n' rank' κ' := by
  induction h generalizing rank' κ' with
  | arg hp h =>
      apply Ranked.arg (Nat.lt_of_lt_of_le hp hn)
      calc (κ' _).rank ≤ _ := (hκ _ (by simp)).1
        _ ≤ _ := h
        _ ≤ rank' := hrank
  | node inner unmarked operands ih =>
      apply Ranked.node inner unmarked
      intro o ho
      exact ih o ho hrank fun x hx => Ranks.bind_le fun hb => hκ x (.operand ho hb hx)
  | entity settles hg entity_suits entity_ranked target ihe iht =>
      obtain ⟨rank', rfl⟩ : ∃ r, rank' = r + 1 := ⟨rank' - 1, by omega⟩
      have hrank := Nat.le_of_succ_le_succ hrank
      have entity_le x hx := hκ x (free_includeEntity.mpr (.inl hx))
      apply Ranked.entity _ (Nat.le_trans hg hrank) (entity_suits.mono hn entity_le)
      · exact ihe (Nat.le_refl _) entity_le
      · exact fun t ht => iht t ht hrank fun x _ => Grade.le_refl _
      · exact settles.mono hn hrank fun x hx => hκ x (by simp [hx])
  | @navigation rank κ kind parent selector mapping ty q g settles hg parent_suits parent_ranked
      selector_suits selector_ranked target ihp ihs iht =>
      obtain ⟨rank', rfl⟩ : ∃ r, rank' = r + 1 := ⟨rank' - 1, by omega⟩
      have hrank := Nat.le_of_succ_le_succ hrank
      have parent_le x hx := hκ x (free_includeVia.mpr (.inl hx))
      have selector_le x hx : κ'.bind selector.params q x ≤ κ.bind selector.params q x :=
        Ranks.bind_le fun hb => hκ x (free_includeVia.mpr (.inr (.inl ⟨hb, hx⟩)))
      apply Ranked.navigation _ (Nat.le_trans hg hrank) (parent_suits.mono hn parent_le) _
        (selector_suits.mono hn selector_le)
      · exact ihs (Nat.le_refl _) selector_le
      · exact fun t ht => iht t ht hrank fun x _ => Grade.le_refl _
      · exact settles.mono hn hrank fun x hx => hκ x (by simp [hx])
      · exact ihp (Nat.le_refl _) parent_le

theorem widen (h : e.Ranked n rank κ) (hn : n ≤ n') : e.Ranked n' rank κ :=
  h.mono hn (Nat.le_refl _) fun _ _ => Grade.le_refl _

end Ranked

theorem Graded.mono (h : e.Graded n κ g) (hn : n ≤ n') (hκ : ∀ x, e.Free x → κ' x ≤ κ x) :
    e.Graded n' κ' g :=
  ⟨h.ranked.mono hn (Nat.le_refl _) hκ, h.suits.mono hn hκ⟩

theorem Graded.widen (h : e.Graded n κ g) (hn : n ≤ n') : e.Graded n' κ g :=
  h.mono hn fun _ _ => Grade.le_refl _

/-- A parameter is of its own grade: it has no value outside of every scope. -/
theorem graded_arg {p : Param} (hp : p.id < n) : (arg p).Graded n κ (κ p.id) := by
  refine ⟨.arg hp (Nat.le_refl _), fun unknown => ⟨fun x hx => ?_, _, rfl⟩⟩
  rw [free_arg] at hx
  exact hx ▸ ⟨hp, unknown, Nat.le_refl _⟩

end Mono

/-- What stands for each free parameter is of the grade of the parameter. -/
def Fits (k : Nat) (κ' : Ranks) (replacement : Replacement) (κ : Ranks) (e : Expr) : Prop :=
  ∀ p : Param, e.Free p.id → ((replacement p.id).getD (.arg p)).Graded k κ' (κ p.id)

section Instances

variable {n k k' rank depth : Nat} {κ κ' : Ranks} {g : Grade} {kind : MarkerKind}
  {replacement : Replacement} {e mapping : Expr}

/-- What stands for the free parameters of a part still fits after further identities are given
out. -/
theorem Fits.part (h : Fits k κ' replacement κ e) {s : Expr} (hs : ∀ x, s.Free x → e.Free x)
    (hk : k ≤ k') : Fits k' κ' replacement κ s :=
  fun p hp => (h p (hs p.id hp)).widen hk

/-- Under renamed binders, what stands for the free parameters of an operand is still of their
grades. -/
theorem Fits.operand (h : Fits k κ' replacement κ e) {o : Operand} (ho : o ∈ e.operands)
    (hk : k ≤ k') (g : Grade) : Fits (freshen o.bound replacement k').next
      (κ'.bind (freshen o.bound replacement k').params g)
      (freshen o.bound replacement k').replacement (κ.bind o.bound g) o.expr := by
  intro p hp
  by_cases hb : ∃ q ∈ o.bound, q.id = p.id
  · obtain ⟨q, hq, hr⟩ := freshen_replacement_bound hb replacement k'
    have graded := graded_arg (κ := κ'.bind (freshen o.bound replacement k').params g)
      (freshen_bound hq).2
    rw [PerParam.bind_bound _ _ ⟨q, hq, rfl⟩] at graded
    rwa [hr, Option.getD_some, PerParam.bind_bound _ _ hb]
  · have hb : ∀ q ∈ o.bound, q.id ≠ p.id := by simpa using hb
    have graded := h p (.operand ho hb hp)
    rw [freshen_replacement_other hb, PerParam.bind_other _ _ hb]
    -- A new binder captures nothing, since everything that is free is below `k`.
    apply graded.mono (Nat.le_trans hk (le_freshen o.bound replacement k'))
    intro x hx
    have new : ∀ q ∈ (freshen o.bound replacement k').params, q.id ≠ x := by
      intro q hq hqx
      have := (freshen_bound hq).1
      have := graded.ranked.free_lt hx
      omega
    rw [PerParam.bind_other _ _ new]
    exact Grade.le_refl _

/-- Outside of every scope, an instance of an expression that depends on nothing known ends as the
expression does, but for what a fault says. -/
theorem Blind.evalClosed_instantiate (h : e.Blind n κ depth) (fits : Fits k κ' replacement κ e)
    (hd : depth ≤ n') : Agreement.alike.rel (e.evalClosed n')
      ((e.instantiate replacement k).1.evalClosed n') := by
  apply instantiate_rel
  · exact fun _ _ => Agreement.alike.refl _
  · exact fun _ _ => .inr ⟨_, _, rfl, rfl⟩
  · intro p hp
    obtain ⟨_, unknown, le⟩ := h p.id hp
    obtain ⟨⟨_, fault, fails⟩, ranked⟩ := And.intro ((fits p hp).suits unknown) (fits p hp).ranked
    refine .inr ⟨rfl, k, Nat.le_refl k, fun _ _ => rfl, fun σ' hσ' => .inr ⟨_, fault, rfl, ?_⟩⟩
    rw [evalWith_congr _ (σ := []) fun x hx => hσ' x (ranked.free_lt hx)]
    exact fails_deeper fails (Nat.le_trans le hd)

theorem Blind.instantiate (h : e.Blind n κ depth) (fits : Fits k κ' replacement κ e) :
    (e.instantiate replacement k).1.Blind k κ' depth := by
  intro x hx
  obtain ⟨p, hp, hx⟩ := e.exists_free_of_instantiate hx
  obtain ⟨_, unknown, le⟩ := h p.id hp
  obtain ⟨lt, unknown, le'⟩ := ((fits p hp).suits unknown).blind x hx
  exact ⟨lt, unknown, Nat.le_trans le' le⟩

theorem Suits.instantiate (h : e.Suits n κ g) (fits : Fits k κ' replacement κ e) :
    (e.instantiate replacement k).1.Suits k κ' g := by
  intro unknown
  obtain ⟨blind, fault, fails⟩ := h unknown
  refine ⟨blind.instantiate fits, ?_⟩
  rcases blind.evalClosed_instantiate fits (Nat.le_refl _) with same | ⟨_, fault', _, fails'⟩
  · exact ⟨fault, same.symm.trans fails⟩
  · exact ⟨fault', fails'⟩

theorem Settles.instantiate (h : mapping.Settles n κ kind depth)
    (fits : Fits k κ' replacement κ mapping) :
    (mapping.instantiate replacement k).1.Settles k κ' kind depth where
  blind := h.blind.instantiate fits
  ends := by
    have alike := h.blind.evalClosed_instantiate fits (Nat.le_refl depth)
    exact h.ends.alike (Agreement.alike.resolve kind alike)

/-- An instance of a mapping argument that depends on nothing known refers to nothing new. -/
theorem Settles.refersTo_of_instantiate (h : mapping.Settles n κ kind depth)
    (fits : Fits k κ' replacement κ mapping) {t : Target}
    (ht : (mapping.instantiate replacement k).1.RefersTo kind t) : mapping.RefersTo kind t := by
  obtain ⟨d, hd⟩ := ht
  have later := resolve_deeper hd (Nat.le_max_left d depth)
  have alike := h.blind.evalClosed_instantiate fits (Nat.le_max_right d depth)
  rcases Agreement.alike.resolve kind alike with same | ⟨_, _, _, fails⟩
  · exact ⟨_, same.trans later⟩
  · cases fails.symm.trans later

/-- An instance of an expression has the rank of the expression. -/
theorem Ranked.instantiate (h : e.Ranked n rank κ) (hk : n ≤ k)
    (fits : Fits k κ' replacement κ e) :
    (e.instantiate replacement k).1.Ranked (e.instantiate replacement k).2 rank κ' := by
  induction h generalizing κ' replacement k with
  | arg hp h => exact (fits _ (by simp)).ranked.mono (Nat.le_refl _) h fun _ _ => Grade.le_refl _
  | node inner unmarked operands ih =>
      apply Ranked.node (instantiate_ne_arg inner) (asMarker?_instantiate inner unmarked)
      intro o' ho'
      obtain ⟨o, ho, k', hk', rfl, last⟩ := exists_operand_of_instantiate inner ho'
      have next := calc n ≤ k := hk
        _ ≤ k' := hk'
        _ ≤ (freshen o.bound replacement k').next := le_freshen o.bound replacement k'
      exact (ih o ho next (fits.operand ho hk' .bare)).widen last
  | @entity rank κ kind entity mapping ty g settles hg entity_suits entity_ranked target ihe iht =>
      have he := entity.le_instantiate replacement k
      have hm := mapping.le_instantiate replacement (entity.instantiate replacement k).2
      have entity_fits := fits.part (s := entity) (by simp +contextual) (Nat.le_refl k)
      have mapping_fits := fits.part (s := mapping) (by simp +contextual) he
      have settled := settles.instantiate mapping_fits
      apply Ranked.entity (g := g) (settled.widen hm) hg
      · exact (entity_suits.instantiate entity_fits).widen (Nat.le_trans he hm)
      · exact (ihe hk entity_fits).widen hm
      · intro t ht
        have ranked := target t (settles.refersTo_of_instantiate mapping_fits ht)
        exact ranked.widen (Nat.le_trans hk (Nat.le_trans he hm))
  | @navigation rank κ kind parent selector mapping ty q g settles hg parent_suits parent_ranked
      selector_suits selector_ranked target ihp ihs iht =>
      obtain ⟨params, body⟩ := selector
      have hp := parent.le_instantiate replacement k
      have hs := le_operand_instantiate ⟨params, body⟩ replacement
        (parent.instantiate replacement k).2
      have hm := mapping.le_instantiate replacement (Operand.instantiate ⟨params, body⟩ replacement
        (parent.instantiate replacement k).2).2
      have parent_fits := fits.part (s := parent) (by simp +contextual) (Nat.le_refl k)
      have mapping_fits := fits.part (s := mapping) (by simp +contextual) (Nat.le_trans hp hs)
      have selector_fits := fits.operand (o := ⟨params, body⟩) (by simp) hp q
      have settled := settles.instantiate mapping_fits
      apply Ranked.navigation (q := q) (g := g) (settled.widen hm) hg
      · exact (parent_suits.instantiate parent_fits).widen (Nat.le_trans hp (Nat.le_trans hs hm))
      · exact (ihp hk parent_fits).widen (Nat.le_trans hs hm)
      · exact (selector_suits.instantiate selector_fits).widen
          (Nat.le_trans (body.le_instantiate _ _) hm)
      · have next := calc n ≤ k := hk
          _ ≤ (parent.instantiate replacement k).2 := hp
          _ ≤ (freshen params replacement _).next := le_freshen params replacement _
        exact (ihs next selector_fits).widen hm
      · intro t ht
        have ranked := target t (settles.refersTo_of_instantiate mapping_fits ht)
        exact ranked.widen (Nat.le_trans hk (Nat.le_trans hp (Nat.le_trans hs hm)))

/-- What is put in the place of one parameter of its grade fits, since the other parameters stay. -/
theorem Fits.single {p : Param} {x : Expr} (h : e.Ranked n rank (κ.bind [p] g)) (hk : n ≤ k)
    (hx : x.Graded k κ g) : Fits k κ (Replacement.empty.set p.id x) (κ.bind [p] g) e := by
  intro q hq
  by_cases hp : p.id = q.id
  · rw [← hp, Replacement.set_same, Option.getD_some, PerParam.bind_bound _ _ ⟨p, by simp, rfl⟩]
    exact hx
  · rw [Replacement.set_other _ (Ne.symm hp), PerParam.bind_other _ _ (by simpa using hp)]
    exact graded_arg (Nat.lt_of_lt_of_le (h.free_lt hq) hk)

end Instances

variable {n rank : Nat} {κ : Ranks} {m : Marker}

theorem Ranked.operand {e : Expr} (h : e.Ranked n rank κ) (unmarked : e.asMarker? = none)
    {o : Operand} (ho : o ∈ e.operands) : o.expr.Ranked n rank (κ.bind o.bound .bare) := by
  cases h with
  | arg => simp at ho
  | node _ _ operands => exact operands o ho
  | entity | navigation => cases unmarked

/-- What a marker's rank says of it: the entity and the target have smaller ranks. -/
theorem Ranked.marker_cases (h : m.toExpr.Ranked n rank κ) :
    ∃ rank' g, rank = rank' + 1 ∧ g.rank ≤ rank' ∧ m.mapping.Settles n κ m.kind rank' ∧
      (∀ {k k' : Nat} {entity : Expr}, n ≤ k → m.entity k = .ok (entity, k') →
        entity.Graded k' κ g) ∧
      ∀ t, m.mapping.RefersTo m.kind t →
        t.function.body.Ranked n rank' (Ranks.zero.bind t.function.params g) := by
  obtain ⟨kind, source, mapping, ty⟩ := m
  cases source with
  | entity entity =>
      cases h with
      | node _ unmarked => cases unmarked
      | entity settles hg suits ranked target =>
          refine ⟨_, _, rfl, hg, settles, ?_, target⟩
          intro k k' e hk he
          cases he
          exact Graded.widen ⟨ranked, suits⟩ hk
  | navigation parent selector =>
      cases h with
      | node _ unmarked => cases unmarked
      | navigation settles hg parent_suits parent_ranked selector_suits selector_ranked target =>
          refine ⟨_, _, rfl, hg, settles, ?_, target⟩
          intro k k' e hk he
          obtain ⟨p, hp, hinst⟩ := Func.bindBody_singleton_eq_ok he
          rw [hp] at selector_ranked selector_suits
          have above : parent.Graded n κ _ := ⟨parent_ranked, parent_suits⟩
          have fits := Fits.single selector_ranked hk (above.widen hk)
          have ranked := selector_ranked.instantiate hk fits
          have suits := (selector_suits.instantiate fits).widen
            (selector.body.le_instantiate (Replacement.empty.set p.id parent) k)
          rw [hinst] at ranked suits
          exact ⟨ranked, suits⟩

/-- A single rank does for all operands. -/
theorem exists_rank_of_operands {os : List Operand}
    (h : ∀ o ∈ os, ∃ rank, o.expr.Ranked n rank (κ.bind o.bound .bare)) :
    ∃ rank, ∀ o ∈ os, o.expr.Ranked n rank (κ.bind o.bound .bare) :=
  exists_forall_mem_of_mono
    (fun hr ranked => ranked.mono (Nat.le_refl _) hr fun _ _ => Grade.le_refl _) h

/-- Evaluating the expression outside of every scope ends with a fault. -/
def Faults (e : Expr) : Prop := ∃ depth fault, e.evalClosed depth = .fault fault

/-- Nothing about the expression is known ahead of any record: it has no value outside of every
scope, and it refers only to parameters that stand for something unknown. -/
def Unseen (U : PerParam Prop) (e : Expr) : Prop := e.Faults ∧ ∀ x, e.Free x → U x

/-- Composing puts nothing known in the place of a parameter of a mapping argument, and evaluating
any mapping argument that it comes to ends. The parameters for which `U` holds stand for something
unknown, among them those of lambdas. -/
inductive Foreseen : PerParam Prop → Expr → Prop
  | node {U} {e : Expr} (unmarked : e.asMarker? = none)
      (operands : ∀ o ∈ e.operands, Foreseen (U.bind o.bound True) o.expr) : Foreseen U e
  | entity {U kind entity mapping ty} (ends : ∃ depth, (mapping.evalClosed depth).Ended)
      (blind : ∀ x, mapping.Free x → U x) (entity_foreseen : Foreseen U entity)
      (target : ∀ t, mapping.RefersTo kind t →
        Foreseen (PerParam.bind (fun _ => True) t.function.params (entity.Unseen U))
          t.function.body) :
      Foreseen U (.includeEntity kind entity mapping ty)
  | navigation {U kind parent selector mapping ty}
      (ends : ∃ depth, (mapping.evalClosed depth).Ended) (blind : ∀ x, mapping.Free x → U x)
      (parent_foreseen : Foreseen U parent)
      (selector_foreseen : Foreseen (U.bind selector.params (parent.Unseen U)) selector.body)
      (target : ∀ t, mapping.RefersTo kind t →
        Foreseen (PerParam.bind (fun _ => True) t.function.params
          (selector.body.Unseen (U.bind selector.params (parent.Unseen U)))) t.function.body) :
      Foreseen U (.includeVia kind parent selector mapping ty)

/-- Nothing at all comes into mapping arguments that refer to no parameter. -/
theorem foreseen_of_closed {e : Expr} (h : e.Along fun s => ∀ m, s.asMarker? = some m →
    (∃ depth, (m.mapping.evalClosed depth).Ended) ∧ ∀ x, ¬ m.mapping.Free x)
    (U : PerParam Prop) : e.Foreseen U := by
  induction e using reference_induction generalizing U with
  | step e operand target =>
    cases hm : e.asMarker? with
    | none =>
        have live := live_of_unmarked hm
        exact .node hm fun o ho => operand o (live ▸ ho) (h.operand (live ▸ ho)) _
    | some m =>
        obtain ⟨ends, closed⟩ := h.self m hm
        obtain rfl := (Marker.asMarker?_eq_some_iff e m).mp hm
        have target (U : PerParam Prop) (t : Target) (ht : m.mapping.RefersTo m.kind t) :
            t.function.body.Foreseen U := target m t rfl ht (h.target ht) U
        obtain ⟨kind, source, mapping, ty⟩ := m
        have blind (x : Nat) (hx : mapping.Free x) : U x := absurd hx (closed x)
        cases source with
        | entity entity =>
            have ho : ⟨[], entity⟩ ∈ (includeEntity kind entity mapping ty).live := by simp
            exact .entity ends blind (operand _ ho (h.operand ho) U) fun t ht => target _ t ht
        | navigation parent selector =>
            have hp : ⟨[], parent⟩ ∈ (includeVia kind parent selector mapping ty).live := by simp
            have hs : ⟨selector.params, selector.body⟩ ∈
              (includeVia kind parent selector mapping ty).live := by simp
            exact .navigation ends blind (operand _ hp (h.operand hp) U)
              (operand _ hs (h.operand hs) _) fun t ht => target _ t ht

section Existence

variable {n rank : Nat} {κ : Ranks} {U : PerParam Prop} {e : Expr}

/-- The ranks of the parameters that are given out by then are bounded. -/
theorem exists_bound (n : Nat) (κ : Ranks) : ∃ b, ∀ x < n, (κ x).rank ≤ b := by
  obtain ⟨b, hb⟩ := exists_forall_mem_of_mono (P := fun b x => (κ x).rank ≤ b)
    (fun hle h => Nat.le_trans h hle) fun x (_ : x ∈ List.range n) => ⟨_, Nat.le_refl _⟩
  exact ⟨b, fun x hx => hb x (List.mem_range.mpr hx)⟩

/-- An expression with a rank has a grade as well, that of something unknown if nothing about the
expression is known. -/
theorem Ranked.exists_grade (h : e.Ranked n rank κ)
    (hκ : ∀ x, e.Free x → U x → (κ x).unknown) : ∃ r, e.Graded n κ ⟨r, e.Unseen U⟩ := by
  by_cases unseen : e.Unseen U
  · obtain ⟨⟨depth, fault, fails⟩, free⟩ := unseen
    obtain ⟨b, hb⟩ := exists_bound n κ
    obtain ⟨r, hr⟩ : ∃ r, rank ≤ r ∧ depth ≤ r ∧ b ≤ r := ⟨max rank (max depth b), by omega⟩
    refine ⟨r, h.mono (Nat.le_refl n) hr.1 fun _ _ => Grade.le_refl _, fun _ => ⟨?_, fault, ?_⟩⟩
    · intro x hx
      exact ⟨h.free_lt hx, hκ x hx (free x hx), Nat.le_trans (hb x (h.free_lt hx)) hr.2.2⟩
    · exact fails_deeper fails hr.2.1
  · exact ⟨rank, h, fun unknown => absurd unknown unseen⟩

/-- A mapping argument settles what it refers to within the rank of that, for any grade of the
entity. -/
theorem exists_rank_of_target {kind : MarkerKind} {mapping : Expr}
    (ends : ∃ depth, (mapping.evalClosed depth).Ended) (g : Grade)
    (blind : ∀ x, mapping.Free x → x < n ∧ (κ x).unknown)
    (target : ∀ t, mapping.RefersTo kind t →
      ∃ rank, t.function.body.Ranked n rank (Ranks.zero.bind t.function.params g)) :
    ∃ rank, g.rank ≤ rank ∧ mapping.Settles n κ kind rank ∧ ∀ t, mapping.RefersTo kind t →
      t.function.body.Ranked n rank (Ranks.zero.bind t.function.params g) := by
  obtain ⟨d, hd⟩ := ends
  obtain ⟨b, hb⟩ := exists_bound n κ
  have settles {rank : Nat} (hr : max d b ≤ rank) : mapping.Settles n κ kind rank := by
    refine ⟨fun x hx => ?_, ?_⟩
    · obtain ⟨lt, unknown⟩ := blind x hx
      have := hb x lt
      exact ⟨lt, unknown, by omega⟩
    · exact (Target.ended_resolve hd kind).deeper (steady_resolve kind mapping (by omega))
  by_cases hrefers : ∃ t, mapping.RefersTo kind t
  · obtain ⟨t, ht⟩ := hrefers
    obtain ⟨rank, hrank⟩ := target t ht
    refine ⟨max g.rank (max (max d b) rank), by omega, settles (by omega), fun t' ht' => ?_⟩
    cases ht.unique ht'
    exact hrank.mono (Nat.le_refl _) (by omega) fun _ _ => Grade.le_refl _
  · exact ⟨max g.rank (max d b), by omega, settles (by omega), fun t ht => absurd ⟨t, ht⟩ hrefers⟩

/-- An expression has a rank if nothing known comes into a mapping argument and evaluating these
ends. -/
theorem Foreseen.exists_rank (h : e.Foreseen U)
    (below : e.Along fun s => ∀ x, s.Free x → x < n)
    (hκ : ∀ x, e.Free x → U x → (κ x).unknown) : ∃ rank, e.Ranked n rank κ := by
  induction h generalizing κ with
  | @node U e unmarked _ ih =>
      by_cases he : ∃ p, e = .arg p
      · obtain ⟨p, rfl⟩ := he
        exact ⟨(κ p.id).rank, .arg (below.self p.id (by simp)) (Nat.le_refl _)⟩
      · obtain ⟨rank, h⟩ := exists_rank_of_operands (n := n) (κ := κ) fun o ho => by
          apply ih o ho (below.operand (live_of_unmarked unmarked ▸ ho))
          exact fun x hx => Ranks.unknown_bind (fun _ => trivial)
            fun hb => hκ x (.operand ho hb hx)
        exact ⟨rank, .node (fun p hp => he ⟨p, hp⟩) unmarked h⟩
  | @entity U kind entity mapping ty ends blind _ _ ihe iht =>
      let m : Marker := ⟨kind, .entity entity, mapping, ty⟩
      have unknown x (hx : entity.Free x) := hκ x (free_includeEntity.mpr (.inl hx))
      obtain ⟨_, ranked⟩ := ihe (below.operand (o := ⟨[], entity⟩) (by simp)) unknown
      obtain ⟨r, graded⟩ := ranked.exists_grade unknown
      have blind x (hx : mapping.Free x) : x < n ∧ (κ x).unknown := by
        have hx' : m.toExpr.Free x := free_includeEntity.mpr (.inr hx)
        exact ⟨below.self x hx', hκ x hx' (blind x hx)⟩
      obtain ⟨rank, hle, settles, target⟩ := exists_rank_of_target ends ⟨r, entity.Unseen U⟩ blind
        fun t ht => iht t ht (Along.target (m := m) below ht)
          fun x _ => Ranks.unknown_bind id fun _ _ => trivial
      exact ⟨rank + 1, .entity settles hle graded.suits graded.ranked target⟩
  | @navigation U kind parent selector mapping ty ends blind _ _ _ ihp ihs iht =>
      let m : Marker := ⟨kind, .navigation parent selector, mapping, ty⟩
      have unknown x (hx : parent.Free x) := hκ x (free_includeVia.mpr (.inl hx))
      obtain ⟨_, ranked⟩ := ihp (below.operand (o := ⟨[], parent⟩) (by simp)) unknown
      obtain ⟨q, above⟩ := ranked.exists_grade unknown
      have picked x (hx : selector.body.Free x) :
          U.bind selector.params (parent.Unseen U) x →
            (κ.bind selector.params ⟨q, parent.Unseen U⟩ x).unknown :=
        Ranks.unknown_bind id fun hb => hκ x (free_includeVia.mpr (.inr (.inl ⟨hb, hx⟩)))
      obtain ⟨_, ranked⟩ := ihs
        (below.operand (o := ⟨selector.params, selector.body⟩) (by simp)) picked
      obtain ⟨r, graded⟩ := ranked.exists_grade picked
      have blind x (hx : mapping.Free x) : x < n ∧ (κ x).unknown := by
        have hx' : m.toExpr.Free x := free_includeVia.mpr (.inr (.inr hx))
        exact ⟨below.self x hx', hκ x hx' (blind x hx)⟩
      obtain ⟨rank, hle, settles, target⟩ := exists_rank_of_target ends ⟨r, _⟩ blind
        fun t ht => iht t ht (Along.target (m := m) below ht)
          fun x _ => Ranks.unknown_bind id fun _ _ => trivial
      exact ⟨rank + 1, .navigation settles hle above.suits above.ranked graded.suits
        graded.ranked target⟩

end Existence

end Expr

end RecordMapping
