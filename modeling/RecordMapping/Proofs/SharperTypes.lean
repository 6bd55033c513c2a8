import RecordMapping.Proofs.FreeParams
import RecordMapping.Proofs.InferredTypes
import RecordMapping.Proofs.RenamedBinders

/-!
# Types of bound bodies

Putting expressions in the place of parameters can only tell more about the type of a body: where it
was not known before it may become known, and elsewhere it stays. So nothing that was inferred for a
function on its own is taken back when it is bound.

## Implementation notes

Types are not equal before and after, since a parameter that is called becomes a function to look
into, and a condition may be typed by its other branch once the first one is known to be null. That
is why refinement is a relation of its own; it is not acceptance, by which null may stand for any
type.

A parameter carries its type wherever it is referred to. A parameter is made with an identity of
its own, and renaming keeps its type, so an identity has one type; that is said of the function, as
it is of names elsewhere.
-/

namespace RecordMapping

/-- The first type says at least what the second one says: they are the same, the second one is not
known, or both are lists and this holds of their items. -/
inductive Ty.Refines : Ty → Ty → Prop
  | unknown {found : Ty} : Refines found .unknown
  | same {ty : Ty} : Refines ty ty
  | list {found ty : Ty} (item : Refines found ty) : Refines (.list found) (.list ty)

namespace Ty.Refines

/-- Only null says what null says. -/
theorem null_right {found : Ty} (h : found.Refines .null) : found = .null := by
  cases h
  rfl

/-- Null says nothing else than itself. -/
theorem null_left {ty : Ty} (h : Ty.null.Refines ty) : ty = .unknown ∨ ty = .null := by
  cases h with
  | unknown => exact .inl rfl
  | same => exact .inr rfl

end Ty.Refines

namespace Expr

variable {schema : Schema} {types : Nat → Ty}

/-- What stands for each parameter says at least what the type of its identity says. -/
def Sharpens (schema : Schema) (types : Nat → Ty) (replacement : Replacement) : Prop :=
  ∀ x r, replacement x = some r → (r.infer schema).Refines (types x)

/-- Renamed binders keep their types. -/
theorem Sharpens.freshen {replacement : Replacement} (h : Sharpens schema types replacement)
    {params : List Param} (typed : ∀ p ∈ params, p.ty = types p.id) (n : Nat) :
    Sharpens schema types (freshen params replacement n).replacement := by
  intro x r hr
  cases hi : lastSlot? (params.map Param.id) x with
  | none =>
      rw [freshen_replacement_of_no_slot hi] at hr
      exact h x r hr
  | some i =>
      obtain ⟨p, hp, put⟩ := freshen_replacement_of_slot hi replacement n
      cases put.symm.trans hr
      have hx : p.id = x := by simpa [hp] using getElem?_of_lastSlot? hi
      have same : p.ty = types x := hx ▸ typed p (List.mem_of_getElem? hp)
      exact same ▸ .same

/-- The type of a condition says at least what that of another one says if the types of its branches
do. -/
theorem infer_cond_refines {test yes no test' yes' no' : Expr}
    (yes_refines : (yes'.infer schema).Refines (yes.infer schema))
    (no_refines : (no'.infer schema).Refines (no.infer schema)) :
    ((cond test' yes' no').infer schema).Refines ((cond test yes no).infer schema) := by
  by_cases null : yes.infer schema = .null
  · have null' : yes'.infer schema = .null := (null ▸ yes_refines).null_right
    rwa [infer_cond_of_null null, infer_cond_of_null null']
  · rw [infer_cond_of_ne_null null]
    by_cases null' : yes'.infer schema = .null
    · -- The first branch has become null, so neither its type was known nor that of the condition.
      have unknown := ((null' ▸ yes_refines).null_left).resolve_right null
      exact unknown ▸ .unknown
    · rwa [infer_cond_of_ne_null null']

/-- The type of an instance says at least what that of the expression says, if what stands for the
parameters does. -/
theorem infer_instantiate_refines {e : Expr} (typed : e.EveryParam fun p => p.ty = types p.id)
    {replacement : Replacement} (sharpens : Sharpens schema types replacement) (n : Nat) :
    ((e.instantiate replacement n).1.infer schema).Refines (e.infer schema) := by
  induction e generalizing replacement n with
  | arg p =>
      have hp : p.ty = types p.id := (everyParam_iff.mp typed).1 p rfl
      simp only [instantiate]
      cases hr : replacement p.id with
      | none => exact .same
      | some r => exact (hp ▸ sharpens p.id r hr : (r.infer schema).Refines p.ty)
  | compare | field | includeEntity | includeVia | isNull | record | const => exact .same
  | call callee args ihf iha =>
      by_cases known : ∃ v, callee = .const v
      · obtain ⟨v, rfl⟩ := known
        let args' := (instantiateAll args replacement n).1
        have kept : (Expr.call (.const v) args).infer schema =
            (Expr.call (.const v) args').infer schema := (infer_call (.const v) args args').1
        exact kept ▸ .same
      · rw [(infer_call callee args []).2 fun v hv => known ⟨v, hv⟩]
        exact .unknown
  | cond test yes no iht ihy ihn =>
      have below := (everyParam_iff.mp typed).2
      exact infer_cond_refines (ihy (below ⟨[], yes⟩ (by simp)).2 sharpens _)
        (ihn (below ⟨[], no⟩ (by simp)).2 sharpens _)
  | list items ih =>
      cases items with
      | nil => exact .same
      | cons item items =>
          have below := (everyParam_iff.mp typed).2 ⟨[], item⟩ (by simp)
          exact .list (ih item (by simp) below.2 sharpens n)
  | map base params body ihl ihb =>
      obtain ⟨bound, below⟩ := (everyParam_iff.mp typed).2 ⟨params, body⟩ (by simp)
      exact .list (ihb below (sharpens.freshen bound _) _)

end Expr

namespace Func

/-- Binding parameters to expressions, each of which says by its type at least what the type of the
parameter says, gives a body that says by its type at least what that of the function's body says.
An identity has one type. -/
theorem bindBody_refines {schema : Schema} {f : Func} {rs : List Expr} {types : Nat → Ty}
    (distinct : (f.params.map Param.id).Nodup)
    (typed : (∀ p ∈ f.params, p.ty = types p.id) ∧ f.body.EveryParam fun p => p.ty = types p.id)
    (sharper : List.Forall₂ (fun p r => (r.infer schema).Refines p.ty) f.params rs) (next : Nat) :
    ∃ bound next', f.bindBody (rs.map some) next = .ok (bound, next') ∧
      (bound.infer schema).Refines (f.body.infer schema) := by
  refine ⟨_, _, bindBody_eq_ok sharper.length_eq.symm next, ?_⟩
  refine Expr.infer_instantiate_refines typed.2 (fun x r hr => ?_) next
  obtain ⟨p, hp, rfl⟩ := (Replacement.ofParams_eq_some_iff _ distinct).mp hr
  rw [List.zip_map_right, List.mem_map] at hp
  obtain ⟨⟨q, s⟩, mem, ⟨⟩⟩ := hp
  have refines := (List.forall₂_iff_zip.mp sharper).2 mem
  exact typed.1 q (List.of_mem_zip mem).1 ▸ refines

/-- The items of a list, and what a function makes of those that are null. -/
def defaulting : Func :=
  let items : Param := ⟨0, "items", .list .i64⟩
  let make : Param := ⟨1, "make", .func⟩
  let item : Param := ⟨2, "item", .i64⟩
  ⟨[items, make], .map (.arg items) ⟨[item],
    .cond (.isNull false (.arg item)) (.call (.arg make) [.arg item]) (.arg item)⟩⟩

/-- Once the function is known to give null, the items are typed by the other branch. -/
theorem defaulting_refines : ∃ bound next',
    defaulting.bindBody [some (.const (.list [.i64 1])),
      some (.const (.func 0 ⟨[⟨3, "p", .unknown⟩], .null⟩))] 4 = .ok (bound, next') ∧
    defaulting.body.infer ⟨[]⟩ = .list .unknown ∧ bound.infer ⟨[]⟩ = .list .i64 ∧
    (bound.infer ⟨[]⟩).Refines (defaulting.body.infer ⟨[]⟩) := by
  let types (id : Nat) : Ty := if id = 0 then .list .i64 else if id = 1 then .func else .i64
  have typed : defaulting.body.EveryParam fun p => p.ty = types p.id := by
    have iff (e : Expr) := Expr.everyParam_iff (P := fun p => p.ty = types p.id) (e := e)
    simp [defaulting, iff (.map _ _), iff (.cond _ _ _), iff (.isNull _ _), iff (.call _ _),
      iff (.arg _), types]
  have sharper : List.Forall₂ (fun p r => (Expr.infer ⟨[]⟩ r).Refines p.ty) defaulting.params
      [.const (.list [.i64 1]), .const (.func 0 ⟨[⟨3, "p", .unknown⟩], .null⟩)] :=
    .cons .same (.cons .same .nil)
  obtain ⟨bound, next', run, refines⟩ :=
    bindBody_refines (by decide) ⟨by simp [defaulting, types], typed⟩ sharper 4
  cases run
  exact ⟨_, _, rfl, rfl, rfl, refines⟩

end Func

end RecordMapping
