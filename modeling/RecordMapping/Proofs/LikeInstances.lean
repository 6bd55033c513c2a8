import RecordMapping.Proofs.Likeness

/-!
# Instances of expressions that are alike

An expression is like the instances of what it is like, and its own instances are, if what stands
for its free parameters fits on both sides. New binders are given out after all that is referred to,
so nothing is captured on either side.

## Implementation notes

On the right the instance has what stands for a parameter instantiated in turn, so any replacement
will do that the new pairing allows. On the left a replacement has to be like what stands for the
parameter that it replaces. A mapping argument is compared more strictly than the marker that it
stands in, so a replacement that gets there has to be strictly like it.
-/

namespace RecordMapping

/-- Binders may be given new identities on the right. -/
structure Tolerance.RenamesRight (t t' : Tolerance) (n : Nat) : Prop where
  binder : ∀ {b c k}, t.binder b c → n ≤ k → t'.binder b { c with id := k }
  refers : ∀ {p b}, t.refers p b → t'.refers p b
  refl : ∀ b, t'.refers b b

/-- Binders may be given new identities on the left. -/
structure Tolerance.RenamesLeft (t t' : Tolerance) (n : Nat) : Prop where
  binder : ∀ {b c k}, t.binder b c → n ≤ k → t'.binder { b with id := k } c
  refers : ∀ {p b}, t.refers p b → t'.refers p b
  refl : ∀ b, t'.refers b b

namespace Tolerance

variable {t t' : Tolerance} {n k : Nat}

theorem RenamesRight.mono (h : t.RenamesRight t' n) (hk : n ≤ k) : t.RenamesRight t' k where
  binder hb hj := h.binder hb (Nat.le_trans hk hj)
  refers := h.refers
  refl := h.refl

theorem RenamesLeft.mono (h : t.RenamesLeft t' n) (hk : n ≤ k) : t.RenamesLeft t' k where
  binder hb hj := h.binder hb (Nat.le_trans hk hj)
  refers := h.refers
  refl := h.refl

end Tolerance

namespace Pairing

section Right

/-- In the instances of what stands for parameters, new binders capture nothing. -/
structure Carries (replacement : Replacement) (n : Nat) (E D : Pairing) : Prop where
  stands : ∀ {p r k}, E p r → n ≤ k → D p (r.instantiate replacement k).1
  below : ∀ {p r} {q : Param} {x}, E p r → r.Free q.id →
    ((replacement q.id).getD (.arg q)).Free x → x < n

variable {t t' : Tolerance} {replacement : Replacement} {n : Nat} {E D : Pairing}

theorem Carries.mono (h : Carries replacement n E D) {k : Nat} (hk : n ≤ k) :
    Carries replacement k E D where
  stands hp hj := h.stands hp (Nat.le_trans hk hj)
  below hp hr hx := Nat.lt_of_lt_of_le (h.below hp hr hx) hk

theorem Carries.push (h : Carries replacement n E D) (ht : t.RenamesRight t' n) (b c : Param) :
    Carries (replacement.set c.id (.arg { c with id := n })) (n + 1) (E.push t b c)
      (D.push t' b { c with id := n }) where
  stands {p r k} hp hk := by
    unfold Pairing.push at hp ⊢
    split at hp
    · obtain ⟨refers, q, rfl, same, _⟩ := hp
      rw [if_pos ‹_›]
      refine ⟨ht.refers refers, { c with id := n }, ?_, rfl, ht.refl _⟩
      simp [Expr.instantiate, same]
    · rw [if_neg ‹_›]
      have kept : r.instantiate (replacement.set c.id (.arg { c with id := n })) k =
          r.instantiate replacement k := by
        refine r.instantiate_congr (fun x hx => Replacement.set_other _ ?_ _) k
        rintro rfl
        exact hp.2 hx
      rw [kept]
      refine ⟨h.stands hp.1 (Nat.le_of_succ_le hk), fun hfree => ?_⟩
      obtain ⟨q, hq, hx⟩ := Expr.exists_free_of_instantiate r hfree
      exact Nat.lt_irrefl n (h.below hp.1 hq hx)
  below {p r q x} hp hr hx := by
    by_cases hq : q.id = c.id
    · rw [hq, Replacement.set_same, Option.getD_some, Expr.free_arg] at hx
      exact hx ▸ Nat.lt_succ_self n
    · rw [Replacement.set_other _ hq] at hx
      unfold Pairing.push at hp
      split at hp
      · obtain ⟨_, q', rfl, same, _⟩ := hp
        exact absurd ((Expr.free_arg.mp hr).symm.trans same) hq
      · exact Nat.lt_succ_of_lt (h.below hp.1 hr hx)

theorem Carries.under {bs cs : List Param} (binders : List.Forall₂ t.binder bs cs)
    (h : Carries replacement n E D) (ht : t.RenamesRight t' n) :
    Carries (freshen cs replacement n).replacement (freshen cs replacement n).next
        (E.under t bs cs) (D.under t' bs (freshen cs replacement n).params) ∧
      List.Forall₂ t'.binder bs (freshen cs replacement n).params := by
  induction binders generalizing replacement n E D with
  | nil => exact ⟨h, .nil⟩
  | @cons b c bs cs head _ ih =>
      obtain ⟨carries, binders⟩ := ih (h.push ht b c) (ht.mono (Nat.le_succ n))
      exact ⟨carries, .cons (ht.binder head (Nat.le_refl n)) binders⟩

end Right

section Left

/-- What is put in the place of free parameters is like what stands for them, also where the shapes
of markers matter, and new binders capture nothing in it. -/
structure Fits (t : Tolerance) (shapes : Bool) (replacement : Replacement) (n : Nat)
    (free resolved : Nat → Prop) (E D : Pairing) : Prop where
  stands : ∀ {p r}, E p r → free p.id →
    ((replacement p.id).getD (.arg p)).Like t shapes D r
  strict : ∀ {p r}, E p r → resolved p.id → ((replacement p.id).getD (.arg p)).Like t false D r
  below : ∀ {p : Param} {x}, free p.id → ((replacement p.id).getD (.arg p)).Free x → x < n

variable {t t' : Tolerance} {shapes : Bool} {replacement : Replacement} {n : Nat}
  {free resolved : Nat → Prop} {E D : Pairing}

theorem Fits.mono (h : Fits t shapes replacement n free resolved E D) {k : Nat} (hk : n ≤ k)
    {free' resolved' : Nat → Prop} (hfree : ∀ {x}, free' x → free x)
    (hresolved : ∀ {x}, resolved' x → resolved x) :
    Fits t shapes replacement k free' resolved' E D where
  stands hp hf := h.stands hp (hfree hf)
  strict hp hf := h.strict hp (hresolved hf)
  below hf hx := Nat.lt_of_lt_of_le (h.below (hfree hf) hx) hk

/-- In mapping arguments shapes matter. -/
theorem Fits.inMapping (h : Fits t shapes replacement n free resolved E D)
    (sub : ∀ {x}, resolved x → free x) : Fits t false replacement n resolved resolved E D where
  stands := h.strict
  strict := h.strict
  below hf hx := h.below (sub hf) hx

/-- One more binder gets a new identity. -/
theorem Fits.extend (h : Fits t shapes replacement n free resolved E D)
    (sub : ∀ {x}, resolved x → free x) {b : Param} {E' D' : Pairing}
    (bound : ∀ {p r}, E' p r → p.id = b.id → D' { b with id := n } r)
    (other : ∀ {p r}, E' p r → p.id ≠ b.id →
      E p r ∧ ∀ q s, D q s → q.id ≠ n → (∀ x, s.Free x → r.Free x) → D' q s) :
    Fits t shapes (replacement.set b.id (.arg { b with id := n })) (n + 1)
      (fun x => b.id = x ∨ free x) (fun x => b.id = x ∨ resolved x) E' D' := by
  have fresh {q : Param} {p : Param} (hf : free p.id)
      (hq : ((replacement p.id).getD (.arg p)).Free q.id) : q.id ≠ n :=
    Nat.ne_of_lt (h.below hf hq)
  constructor
  case stands =>
    intro p r hp hf
    by_cases same : p.id = b.id
    · rw [same, Replacement.set_same, Option.getD_some]
      exact .arg (bound hp same)
    · obtain ⟨hE, later⟩ := other hp same
      have hf := hf.resolve_left (Ne.symm same)
      rw [Replacement.set_other _ same]
      exact (h.stands hE hf).weaken fun q s hs hq => later q s hs (fresh hf hq)
  case strict =>
    intro p r hp hf
    by_cases same : p.id = b.id
    · rw [same, Replacement.set_same, Option.getD_some]
      exact .arg (bound hp same)
    · obtain ⟨hE, later⟩ := other hp same
      have hf := hf.resolve_left (Ne.symm same)
      rw [Replacement.set_other _ same]
      exact (h.strict hE hf).weaken fun q s hs hq => later q s hs (fresh (sub hf) hq)
  case below =>
    intro p x hf hx
    by_cases same : p.id = b.id
    · rw [same, Replacement.set_same, Option.getD_some, Expr.free_arg] at hx
      exact hx ▸ Nat.lt_succ_self n
    · rw [Replacement.set_other _ same] at hx
      exact Nat.lt_succ_of_lt (h.below (hf.resolve_left (Ne.symm same)) hx)

theorem Fits.push (h : Fits t' shapes replacement n free resolved E D) (ht : t.RenamesLeft t' n)
    (sub : ∀ {x}, resolved x → free x) (b c : Param) :
    Fits t' shapes (replacement.set b.id (.arg { b with id := n })) (n + 1)
      (fun x => b.id = x ∨ free x) (fun x => b.id = x ∨ resolved x) (E.push t b c)
      (D.push t' { b with id := n } c) := by
  refine h.extend sub (fun {p r} hp same => ?_) fun {p r} hp other => ?_
  · rw [Pairing.push, if_pos same] at hp
    obtain ⟨-, q, hr, hq, refers⟩ := hp
    rw [Pairing.push, if_pos rfl]
    exact ⟨ht.refl _, q, hr, hq, ht.refers refers⟩
  · rw [Pairing.push, if_neg other] at hp
    refine ⟨hp.1, fun q s hs new hsub => ?_⟩
    rw [Pairing.push, if_neg new]
    exact ⟨hs, fun hc => hp.2 (hsub _ hc)⟩

theorem Fits.fill (h : Fits t shapes replacement n free resolved E D)
    (sub : ∀ {x}, resolved x → free x) (b : Param) (picked : Expr → Prop) :
    Fits t shapes (replacement.set b.id (.arg { b with id := n })) (n + 1)
      (fun x => b.id = x ∨ free x) (fun x => b.id = x ∨ resolved x) (E.fill b picked)
      (D.fill { b with id := n } picked) := by
  refine h.extend sub (fun {p r} hp same => ?_) fun {p r} hp other => ?_
  · rw [Pairing.fill, if_pos same] at hp
    rwa [Pairing.fill, if_pos rfl]
  · rw [Pairing.fill, if_neg other] at hp
    refine ⟨hp, fun q s hs new _ => ?_⟩
    rwa [Pairing.fill, if_neg new]

theorem Fits.under {bs cs : List Param} (binders : List.Forall₂ t.binder bs cs)
    (h : Fits t' shapes replacement n free resolved E D) (ht : t.RenamesLeft t' n)
    (sub : ∀ {x}, resolved x → free x) :
    Fits t' shapes (freshen bs replacement n).replacement (freshen bs replacement n).next
        (fun x => (∃ b ∈ bs, b.id = x) ∨ free x) (fun x => (∃ b ∈ bs, b.id = x) ∨ resolved x)
        (E.under t bs cs) (D.under t' (freshen bs replacement n).params cs) ∧
      List.Forall₂ t'.binder (freshen bs replacement n).params cs := by
  induction binders generalizing replacement n free resolved E D with
  | nil => exact ⟨h.mono (Nat.le_refl n) (by simp) (by simp), .nil⟩
  | @cons b c bs cs head _ ih =>
      obtain ⟨fits, binders⟩ := ih (h.push ht sub b c) (ht.mono (Nat.le_succ n)) (Or.imp_right sub)
      have later {P : Nat → Prop} {x : Nat} (hx : (∃ d ∈ b :: bs, d.id = x) ∨ P x) :
          (∃ d ∈ bs, d.id = x) ∨ b.id = x ∨ P x := by
        simpa [or_assoc, or_left_comm] using hx
      exact ⟨fits.mono (Nat.le_refl _) later later, .cons (ht.binder head (Nat.le_refl n)) binders⟩

end Left

end Pairing

namespace Expr

variable {t t' : Tolerance} {shapes : Bool} {E D : Pairing}

/-- An expression is like an instance of what it is like. -/
theorem Like.instantiate_right {e e' : Expr} (h : e.Like t shapes E e') {replacement : Replacement}
    {n : Nat} (ht : t.RenamesRight t' n) (carries : Pairing.Carries replacement n E D) :
    e.Like t' shapes D (e'.instantiate replacement n).1 := by
  induction h generalizing replacement n D with
  | arg h => exact .arg (carries.stands h (Nat.le_refl n))
  | @node _ E e e' inner head binders _ ih =>
      have inner' : ∀ p, e' ≠ .arg p := by
        rintro p rfl
        exact inner p (head_eq_arg_iff.mp head.symm)
      have step {i : Nat} {o₁ : Operand}
          (ho₁ : (e'.instantiate replacement n).1.operands[i]? = some o₁) :
          ∃ o' k, e'.operands[i]? = some o' ∧ n ≤ k ∧ (o'.instantiate replacement k).1 = o₁ := by
        rcases operand_instantiate_at inner' replacement n i with ⟨_, none⟩ | ⟨o', k, ho', hk, same⟩
        · cases none.symm.trans ho₁
        · exact ⟨o', k, ho', hk, Option.some.inj (same.symm.trans ho₁)⟩
      refine .node inner ((head_instantiate inner' _ _).trans head) ?_ ?_
      · intro i o o₁ ho ho₁
        obtain ⟨o', k, ho', hk, rfl⟩ := step ho₁
        exact ((carries.mono hk).under (binders ho ho') (ht.mono hk)).2
      · intro i o o₁ ho ho₁
        obtain ⟨o', k, ho', hk, rfl⟩ := step ho₁
        have under := ((carries.mono hk).under (binders ho ho') (ht.mono hk)).1
        exact ih ho ho' (ht.mono (Nat.le_trans hk (le_freshen _ _ _))) under
  | @shape E kind parent body mapping b ty entity' mapping' picked hp _ _ ihp ihe ihm =>
      have hk := entity'.le_instantiate replacement n
      let pickedThere : Expr → Prop := fun r =>
        ∃ s k, picked s ∧ n ≤ k ∧ r = (s.instantiate replacement k).1
      have entity : Pairing.Carries replacement n (E.fill b picked) (D.fill b pickedThere) := by
        constructor
        · intro q r k hq hk
          unfold Pairing.fill at hq ⊢
          split at hq
          · next same => simpa [same] using ⟨r, k, hq, hk, rfl⟩
          · next other => simpa [other] using carries.stands hq hk
        · intro q r y x hq hr hx
          unfold Pairing.fill at hq
          split at hq
          · obtain ⟨p', r', hp', hr'⟩ := (hp r hq).exists_free hr
            exact carries.below hp' hr' hx
          · exact carries.below hq hr hx
      refine .shape ?_ (ihe ht entity) (ihm (ht.mono hk) (carries.mono hk))
      rintro r ⟨s, k, hs, hk, rfl⟩
      exact ihp s hs (ht.mono hk) (carries.mono hk)

theorem mappingPosition?_instantiate {e : Expr} (h : ∀ p, e ≠ .arg p) (replacement : Replacement)
    (n : Nat) : (e.instantiate replacement n).1.mappingPosition? = e.mappingPosition? := by
  rw [← mappingPosition?_head, head_instantiate h, mappingPosition?_head]

/-- What stands at the position of the mapping argument is the mapping argument. -/
theorem exists_marker_of_mappingPosition {e : Expr} {i : Nat} {o : Operand}
    (hi : e.mappingPosition? = some i) (ho : e.operands[i]? = some o) :
    ∃ m : Marker, e = m.toExpr ∧ o = ⟨[], m.mapping⟩ := by
  cases e with
  | includeEntity kind entity mapping ty =>
      cases hi
      cases ho
      exact ⟨⟨kind, .entity entity, mapping, ty⟩, rfl, rfl⟩
  | includeVia kind parent selector mapping ty =>
      cases hi
      cases ho
      exact ⟨⟨kind, .navigation parent selector, mapping, ty⟩, rfl, rfl⟩
  | _ => cases hi

/-- An instance of an expression is like what the expression is like. -/
theorem Like.instantiate_left {e e' : Expr} (h : e.Like t shapes E e') {replacement : Replacement}
    {n : Nat} (ht : t.RenamesLeft t' n)
    (fits : Pairing.Fits t' shapes replacement n (Free · e) (FreeInMapping · e) E D) :
    (e.instantiate replacement n).1.Like t' shapes D e' := by
  induction h generalizing replacement n D with
  | arg h => exact fits.stands h (by simp)
  | @node shapes E e e' inner head binders _ ih =>
      have step {i : Nat} {o₁ : Operand}
          (ho₁ : (e.instantiate replacement n).1.operands[i]? = some o₁) :
          ∃ o k, e.operands[i]? = some o ∧ n ≤ k ∧ (o.instantiate replacement k).1 = o₁ := by
        rcases operand_instantiate_at inner replacement n i with ⟨_, none⟩ | ⟨o, k, ho, hk, same⟩
        · cases none.symm.trans ho₁
        · exact ⟨o, k, ho, hk, Option.some.inj (same.symm.trans ho₁)⟩
      have sub {x : Nat} (hx : e.FreeInMapping x) : e.Free x := hx.free
      refine .node (instantiate_ne_arg inner) (head.trans (head_instantiate inner _ _).symm) ?_ ?_
      · intro i o₁ o' ho₁ ho'
        obtain ⟨o, k, ho, hk, rfl⟩ := step ho₁
        have fits := fits.mono hk id id
        exact (fits.under (binders ho ho') (ht.mono hk) sub).2
      · intro i o₁ o' ho₁ ho'
        obtain ⟨o, k, ho, hk, rfl⟩ := step ho₁
        have hm := List.mem_of_getElem? ho
        have fits := fits.mono hk id id
        rw [mappingPosition?_instantiate inner]
        refine ih ho ho' (ht.mono (Nat.le_trans hk (le_freshen _ _ _))) ?_
        by_cases hi : e.mappingPosition? = some i
        · obtain ⟨m, rfl, rfl⟩ := exists_marker_of_mappingPosition hi ho
          have under := ((fits.inMapping sub).under (binders ho ho') (ht.mono hk) id).1
          have mapping {x : Nat} (hx : m.mapping.Free x) : m.toExpr.FreeInMapping x := .mapping hx
          have strict : (shapes && m.toExpr.mappingPosition? != some i) = false := by simp [hi]
          rw [strict]
          exact under.mono (Nat.le_refl _) (fun hx => .inr (mapping hx))
            fun hx => .inr (mapping hx.free)
        · have under := (fits.under (binders ho ho') (ht.mono hk) sub).1
          have same : (shapes && e.mappingPosition? != some i) = shapes := by simp [hi]
          rw [same]
          exact under.mono (Nat.le_refl _) (free_operand hm) (freeInMapping_operand hm)
  | @shape E kind parent body mapping b ty entity' mapping' picked hp _ _ ihp ihe ihm =>
      have sub {x : Nat}
          (hx : (includeVia kind parent ⟨[b], body⟩ mapping ty).FreeInMapping x) :
          (includeVia kind parent ⟨[b], body⟩ mapping ty).Free x := hx.free
      have hk := parent.le_instantiate replacement n
      have hj := Nat.le_trans hk (le_operand_instantiate ⟨[b], body⟩ replacement
        (parent.instantiate replacement n).2)
      refine .shape (fun r hr => ihp r hr ht ?_) (ihe (ht.mono (Nat.le_succ_of_le hk)) ?_)
        (ihm (ht.mono hj) ?_)
      · have hm : ⟨[], parent⟩ ∈ (includeVia kind parent ⟨[b], body⟩ mapping ty).operands := by simp
        exact fits.mono (Nat.le_refl n) (fun hx => (free_operand hm hx).resolve_left (by simp))
          fun hx => (freeInMapping_operand hm hx).resolve_left (by simp)
      · have hm : ⟨[b], body⟩ ∈ (includeVia kind parent ⟨[b], body⟩ mapping ty).operands := by simp
        exact ((fits.mono hk id id).fill sub b picked).mono (Nat.le_refl _)
          (fun hx => by simpa using free_operand hm hx)
          fun hx => by simpa using freeInMapping_operand hm hx
      · have mapping' {x : Nat} (hx : mapping.Free x) :
            (includeVia kind parent ⟨[b], body⟩ mapping ty).FreeInMapping x :=
          .mapping (m := ⟨kind, .navigation parent ⟨[b], body⟩, mapping, ty⟩) hx
        exact (fits.inMapping sub).mono hj mapping' fun hx => mapping' hx.free

end Expr

namespace Tolerance

theorem identities_right (n : Nat) : identities.RenamesRight identities n :=
  ⟨fun h _ => h, id, fun _ => trivial⟩

theorem identities_left (n : Nat) : identities.RenamesLeft identities n :=
  ⟨fun h _ => h, id, fun _ => trivial⟩

end Tolerance

end RecordMapping
