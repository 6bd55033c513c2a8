import RecordMapping.Proofs.Instantiation
import Mathlib.Data.List.Forall2

/-!
# Expressions that are alike

Two expressions are the same up to the identities of binders if they are built alike and their
references correspond: a reference to a binder of the one to a reference to the binder in its place
of the other, and every other reference to one of the same parameter. More generally, one expression
is like another one if it has something else in the place of free parameters, and where shapes do
not matter also if it has a marker over an entity in the place of a marker over a selector that
picks this entity.

## Implementation notes

A pairing says what may stand for a parameter; below a binder it is extended. Renaming, replacing
parameters and changing shapes are then one relation with one induction, and what is said of
instances is said once. An expression is compared by its head, which is its own data, and by its
operands.
-/

namespace RecordMapping

/-- How far two expressions that are alike may differ in their binders. -/
structure Tolerance where
  /-- A binder, and the one that may stand in its place. -/
  binder : Param → Param → Prop
  /-- A reference, and a binder of its identity. -/
  refers : Param → Param → Prop

/-- What may stand in one expression for the parameters of another one. -/
abbrev Pairing := Param → Expr → Prop

namespace Pairing

/-- Below a binder on both sides, a reference to the one stands for a reference to the other. What
stands for any other parameter is not captured. -/
def push (E : Pairing) (t : Tolerance) (b c : Param) : Pairing := fun p r =>
  if p.id = b.id then t.refers p b ∧ ∃ q, r = .arg q ∧ q.id = c.id ∧ t.refers q c
  else E p r ∧ ¬ r.Free c.id

/-- Below several binders on both sides. -/
def under (t : Tolerance) : Pairing → List Param → List Param → Pairing
  | E, b :: bs, c :: cs => under t (E.push t b c) bs cs
  | E, _, _ => E

/-- What is picked stands for one more parameter. -/
def fill (E : Pairing) (b : Param) (picked : Expr → Prop) : Pairing := fun p r =>
  if p.id = b.id then picked r else E p r

/-- Every parameter stands for itself. -/
def self : Pairing := fun p r => r = .arg p

end Pairing

namespace Expr

/-- The position of the mapping argument among the operands of a marker. -/
def mappingPosition? : Expr → Option Nat
  | .includeEntity _ _ _ _ => some 1
  | .includeVia _ _ _ _ _ => some 2
  | _ => none

@[simp] theorem mappingPosition?_head (e : Expr) :
    e.head.mappingPosition? = e.mappingPosition? := by
  cases e <;> rfl

/-- The second expression is the first one up to the identities of binders, with what stands for
each parameter in its place. If shapes do not matter, a marker with a selector may also give way to
one over the entity that is picked from the parent, outside of mapping arguments. -/
inductive Like (t : Tolerance) : Bool → Pairing → Expr → Expr → Prop
  | arg {shapes : Bool} {E : Pairing} {p : Param} {r : Expr} (h : E p r) :
      Like t shapes E (.arg p) r
  | node {shapes : Bool} {E : Pairing} {e e' : Expr} (inner : ∀ p, e ≠ .arg p)
      (head : e'.head = e.head)
      (binders : ∀ {i : Nat} {o o' : Operand}, e.operands[i]? = some o → e'.operands[i]? = some o' →
        List.Forall₂ t.binder o.bound o'.bound)
      (operands : ∀ {i : Nat} {o o' : Operand}, e.operands[i]? = some o →
        e'.operands[i]? = some o' → Like t (shapes && e.mappingPosition? != some i)
          (E.under t o.bound o'.bound) o.expr o'.expr) :
      Like t shapes E e e'
  | shape {E : Pairing} {kind : MarkerKind} {parent body mapping : Expr} {b : Param} {ty : Ty}
      {entity' mapping' : Expr} {picked : Expr → Prop}
      (hp : ∀ r, picked r → Like t true E parent r)
      (he : Like t true (E.fill b picked) body entity') (hm : Like t false E mapping mapping') :
      Like t true E (.includeVia kind parent ⟨[b], body⟩ mapping ty)
        (.includeEntity kind entity' mapping' ty)

end Expr

namespace Pairing

variable {t : Tolerance}

theorem under_imp {bs cs : List Param} (length : bs.length = cs.length) {E D : Pairing} {p : Param}
    {r : Expr} (h : E.under t bs cs p r)
    (outer : E p r → (∀ b ∈ bs, b.id ≠ p.id) → (∀ c ∈ cs, ¬ r.Free c.id) → D p r) :
    D.under t bs cs p r := by
  induction bs generalizing cs E D with
  | nil =>
      obtain rfl := List.length_eq_zero_iff.mp length.symm
      exact outer h (by simp) (by simp)
  | cons b bs ih =>
      obtain _ | ⟨c, cs⟩ := cs
      · cases length
      · refine ih (Nat.succ.inj length) h fun hp hbs hcs => ?_
        unfold push at hp ⊢
        split at hp
        · next same => simpa [same] using hp
        · next other =>
          rw [if_neg other]
          exact ⟨outer hp.1 (by simpa [Ne.symm other] using hbs) (by simpa [hp.2] using hcs), hp.2⟩

/-- What stands for a parameter below binders and refers to none of them stands for it above. -/
theorem of_under {bs cs : List Param} {E : Pairing} {p : Param} {r : Expr} {x : Nat}
    (h : E.under t bs cs p r) (hr : r.Free x) (hcs : ∀ c ∈ cs, c.id ≠ x) : E p r := by
  induction bs generalizing cs E with
  | nil => exact h
  | cons b bs ih =>
      obtain _ | ⟨c, cs⟩ := cs
      · exact h
      · have hp := ih h fun d hd => hcs d (by simp [hd])
        unfold push at hp
        split at hp
        · obtain ⟨_, q, rfl, same, _⟩ := hp
          exact absurd (same.symm.trans (Expr.free_arg.mp hr)) (hcs c (by simp))
        · exact hp.1

end Pairing

namespace Expr

variable {t t' : Tolerance} {shapes : Bool} {E D : Pairing}

theorem Like.weaken {e e' : Expr} (h : e.Like t shapes E e')
    (sub : ∀ p r, E p r → e.Free p.id → (∀ x, r.Free x → e'.Free x) → D p r) :
    e.Like t shapes D e' := by
  induction h generalizing D with
  | @arg _ _ p r h => exact .arg (sub p r h (by simp) fun _ hx => hx)
  | @node _ E e e' inner head binders _ ih =>
      refine .node inner head binders fun {i o o'} ho ho' => ih ho ho' fun p r hp hf hr => ?_
      have length := (binders ho ho').length_eq
      refine Pairing.under_imp length hp fun hE hbs hcs => sub p r hE ?_ fun x hx => ?_
      · exact .operand (List.mem_of_getElem? ho) hbs hf
      · refine .operand (List.mem_of_getElem? ho') (fun c hc same => hcs c hc (same ▸ hx)) (hr x hx)
  | @shape E kind parent body mapping b ty entity' mapping' picked _ _ _ ihp ihe ihm =>
      -- Only what is picked and stands in the entity matters.
      have above (r : Expr) (hr : picked r ∧ ∀ x, r.Free x → entity'.Free x) :
          parent.Like t true D r := by
        obtain ⟨hr, hfree⟩ := hr
        refine ihp r hr fun p s hs hf hsub => sub p s hs (by simp [hf]) fun x hx => ?_
        simp [hfree x (hsub x hx)]
      refine .shape above ?_ ?_
      · refine ihe fun p r hp hf hr => ?_
        unfold Pairing.fill at hp ⊢
        split at hp
        · next same => simpa [same] using ⟨hp, hr⟩
        · next other =>
          rw [if_neg other]
          refine sub p r hp ?_ fun x hx => by simp [hr x hx]
          simp [hf, Ne.symm other]
      · refine ihm fun p r hp hf hr => sub p r hp (by simp [hf]) fun x hx => ?_
        simp [hr x hx]

/-- What is free in an expression that is like another one is free in what stands for a
parameter. -/
theorem Like.exists_free {e e' : Expr} (h : e.Like t shapes E e') {x : Nat} (hx : e'.Free x) :
    ∃ p r, E p r ∧ r.Free x := by
  induction h with
  | arg h => exact ⟨_, _, h, hx⟩
  | @node _ E e e' inner head _ _ ih =>
      rcases free_iff.mp hx with ⟨p, rfl, _⟩ | ⟨o', ho', hb, hfree⟩
      · exact absurd (head_eq_arg_iff.mp head.symm) (inner p)
      · obtain ⟨i, hi⟩ := List.mem_iff_getElem?.mp ho'
        obtain ⟨o, ho⟩ : ∃ o, e.operands[i]? = some o := by
          have inside := (List.getElem?_eq_some_iff.mp hi).1
          rw [← length_operands_head, head, length_operands_head] at inside
          exact ⟨_, List.getElem?_eq_getElem inside⟩
        obtain ⟨p, r, hp, hr⟩ := ih ho hi hfree
        exact ⟨p, r, Pairing.of_under hp hr hb, hr⟩
  | shape _ _ _ ihp ihe ihm =>
      rcases free_includeEntity.mp hx with hx | hx
      · obtain ⟨p, r, hp, hr⟩ := ihe hx
        unfold Pairing.fill at hp
        split at hp
        · exact ihp r hp hr
        · exact ⟨p, r, hp, hr⟩
      · exact ihm hx

end Expr

namespace Pairing

variable {t : Tolerance} {P : Param → Prop}

/-- The parameters with a property stand for themselves. -/
def keep (P : Param → Prop) : Pairing := fun p r => r = .arg p ∧ P p

/-- Below the same binders on both sides, a parameter still stands for itself. -/
theorem under_keep (refers : ∀ {p b}, P p → P b → p.id = b.id → t.refers p b) {bs : List Param}
    (hbs : ∀ b ∈ bs, P b) {E : Pairing} {p : Param} (hp : P p) (hE : E p (.arg p)) :
    E.under t bs bs p (.arg p) := by
  induction bs generalizing E with
  | nil => exact hE
  | cons b bs ih =>
      refine ih (fun d hd => hbs d (by simp [hd])) ?_
      have hb := hbs b (by simp)
      unfold push
      split
      · next same => exact ⟨refers hp hb same, p, rfl, same, refers hp hb same⟩
      · next other => exact ⟨hE, by simpa using other⟩

end Pairing

namespace Expr

variable {t : Tolerance} {shapes : Bool} {P : Param → Prop}

/-- Every expression is like itself. -/
theorem Like.refl {e : Expr} (params : e.EveryParam P)
    (binders : e.EveryBinder fun b => t.binder b b)
    (refers : ∀ {p b}, P p → P b → p.id = b.id → t.refers p b) :
    e.Like t shapes (.keep fun p => P p ∧ e.Free p.id) e := by
  have like : e.Like t shapes (.keep P) e := by
    induction e using operand_induction generalizing shapes with
    | step e ih =>
      obtain ⟨here, below⟩ := everyParam_iff.mp params
      by_cases he : ∃ p, e = .arg p
      · obtain ⟨p, rfl⟩ := he
        exact .arg ⟨rfl, here p rfl⟩
      · refine .node (fun p hp => he ⟨p, hp⟩) rfl ?_ ?_
        · intro i o o' ho ho'
          cases ho.symm.trans ho'
          exact List.forall₂_same.mpr (binders.operand (List.mem_of_getElem? ho)).1
        · intro i o o' ho ho'
          cases ho.symm.trans ho'
          have hm := List.mem_of_getElem? ho
          refine (ih o hm (below o hm).2 (binders.operand hm).2).weaken fun p r hp _ _ => ?_
          obtain ⟨rfl, hp⟩ := hp
          exact Pairing.under_keep refers (below o hm).1 hp ⟨rfl, hp⟩
  exact like.weaken fun p r hp hf _ => ⟨hp.1, hp.2, hf⟩

end Expr

/-- Binders of the same name and type may stand for each other, and identities alone decide what a
reference refers to. -/
def Tolerance.identities : Tolerance where
  binder b c := c.name = b.name ∧ c.ty = b.ty
  refers _ _ := True

/-- The expressions are the same up to the identities of the binders in them. -/
def Expr.AlphaEq (e e' : Expr) : Prop := e.Like .identities false .self e'

/-- The functions have the same parameters, and bodies that are the same up to the identities of the
binders in them. -/
structure Func.AlphaEq (f g : Func) : Prop where
  params : g.params = f.params
  body : f.body.AlphaEq g.body

namespace Expr

/-- Every expression is like itself, its free parameters standing for themselves. -/
theorem like_self (e : Expr) (shapes : Bool) :
    e.Like .identities shapes (.keep fun p => e.Free p.id) e := by
  have params : e.EveryParam fun _ => True :=
    fun _ _ => ⟨fun _ _ => trivial, fun _ _ _ _ => trivial⟩
  have like : e.Like .identities shapes (.keep fun p => True ∧ e.Free p.id) e :=
    .refl params (fun _ _ _ _ _ _ => ⟨rfl, rfl⟩) fun _ _ _ => trivial
  exact like.weaken fun p r hp _ _ => ⟨hp.1, hp.2.2⟩

theorem AlphaEq.refl (e : Expr) : e.AlphaEq e :=
  (e.like_self false).weaken fun _ _ hp _ _ => hp.1

end Expr

end RecordMapping
