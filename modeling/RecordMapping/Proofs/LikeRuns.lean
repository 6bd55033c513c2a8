import RecordMapping.Proofs.LikeForms
import RecordMapping.Proofs.WellScoped

/-!
# Runs of functions with renamed binders

Which identities the binders inside a function have does not show. If they are renamed without
capture, the function gives the same results and the same faults on all arguments, and it compiles
to the same code, or is rejected for the same reason.

## Implementation notes

Code refers to parameters by position, so what corresponds on both sides has to be in the same slot.
A renaming may make a binder shadow an outer parameter, or no longer do so: only the references that
there are have to keep their binders.

The fault for a reference in a mapping argument tells its name. A reference is made from its binder,
so both have one name and type; that is part of what a renaming is.
-/

namespace RecordMapping

/-- The second function is the first one with the binders in its body renamed: references to binders
follow them, and all else stays, names, types and constants included. -/
structure Func.Renamed (f g : Func) : Prop where
  params : g.params = f.params
  body : f.body.Like (.labels fun _ => False) false .self g.body

namespace Pairing

variable {foreign : Nat → Prop} {E : Pairing}

/-- The one binder stands for the other one below both. -/
theorem under_here (E : Pairing) (b c : Param) : E.under (.labels foreign) [b] [c] b (.arg c) := by
  show E.push (.labels foreign) b c b (.arg c)
  rw [push, if_pos rfl]
  exact ⟨.refl b, c, rfl, rfl, .refl c⟩

/-- What stands for a parameter is a parameter of the same name and type that is in the same
slot. -/
structure Places (E : Pairing) (slots' slots : List Nat) : Prop where
  length : slots'.length = slots.length
  finds : E.Finds (lastSlot? slots') (lastSlot? slots)

theorem Places.push {slots' slots : List Nat} (h : E.Places slots' slots) {b c : Param}
    (hb : b.SameLabel c) :
    (E.push (.labels foreign) b c).Places (slots' ++ [c.id]) (slots ++ [b.id]) where
  length := by simp [h.length]
  finds := by
    refine h.finds.push hb ?_ (fun x hx => ?_) fun x hx => ?_
    · rw [lastSlot?_append_singleton, lastSlot?_append_singleton, if_pos rfl, if_pos rfl, h.length]
    · rw [lastSlot?_append_singleton, if_neg hx]
    · rw [lastSlot?_append_singleton, if_neg hx]

/-- Parameters that stand for themselves are found alike in the same place. -/
theorem finds_self {α : Type} (find : Nat → Option α) : Finds .self find find := by
  rintro p _ rfl
  exact ⟨p, rfl, .refl p, rfl⟩

end Pairing

namespace Expr

variable {foreign : Nat → Prop} {E : Pairing} {e e' : Expr}

/-- Markers over selectors with operands that are alike are alike. -/
theorem Like.includeVia {t : Tolerance} {kind : MarkerKind} {parent parent' : Expr}
    {selector selector' : Func} {mapping mapping' : Expr} {ty : Ty}
    (hp : parent.Like t false E parent')
    (ho : Operand.Like t false E ⟨selector.params, selector.body⟩
      ⟨selector'.params, selector'.body⟩)
    (hm : mapping.Like t false E mapping') :
    (Expr.includeVia kind parent selector mapping ty).Like t false E
      (.includeVia kind parent' selector' mapping' ty) := by
  have each {i : Nat} {o o' : Operand}
      (hi : (Expr.includeVia kind parent selector mapping ty).operands[i]? = some o)
      (hi' : (Expr.includeVia kind parent' selector' mapping' ty).operands[i]? = some o') :
      Operand.Like t false E o o' := by
    rcases i with _ | _ | _ | i <;> cases hi <;> cases hi'
    · exact Operand.like_nil.mpr hp
    · exact ho
    · exact Operand.like_nil.mpr hm
  exact .node (by simp) rfl (fun hi hi' => (each hi hi').binders) fun hi hi' => (each hi hi').expr

theorem compileAllWith_eq {target : MarkerKind → Expr → Outcome Compiled} {slots' slots : List Nat}
    {es es' : List Expr}
    (h : List.Forall₂ (fun e e' => e'.compileWith target slots' = e.compileWith target slots)
      es es') : compileAllWith target es' slots' = compileAllWith target es slots := by
  induction h with
  | nil => rfl
  | cons head _ ih => simp only [compileAllWith, head, ih]

/-- Expressions that are alike have the same code on frames where what corresponds is in the same
slot, if the code of targets only depends on what mapping arguments are alike to. -/
theorem Like.compileWith_eq (h : e.Like (.labels foreign) false E e') {slots' slots : List Nat}
    (places : E.Places slots' slots) (target : MarkerKind → Expr → Outcome Compiled)
    (targets : ∀ {D : Pairing} {m m' : Expr}, m.Like (.labels foreign) false D m' → D.Renames →
      ∀ kind, target kind m' = target kind m) :
    e'.compileWith target slots' = e.compileWith target slots := by
  have all {D : Pairing} {es es' : List Expr}
      (h : List.Forall₂ (Like (.labels foreign) false D) es es') {slots' slots : List Nat}
      (each : ∀ e ∈ es, ∀ e' ∈ es', e.Like (.labels foreign) false D e' →
        e'.compileWith target slots' = e.compileWith target slots) :
      compileAllWith target es' slots' = compileAllWith target es slots :=
    compileAllWith_eq (forall₂_of_like h each)
  induction e generalizing E e' slots' slots with
  | arg p =>
      obtain ⟨q, rfl, label, slot⟩ := places.finds p e' (like_arg.mp h)
      simp only [compileWith, slot, label.name]
  | const v =>
      obtain rfl := like_const.mp h
      rfl
  | compare op left right ihl ihr =>
      obtain ⟨left', right', rfl, hl, hr⟩ := like_compare.mp h
      simp only [compileWith, ihl hl places, ihr hr places]
  | call callee args ihf iha =>
      obtain ⟨callee', args', rfl, hf, ha⟩ := like_call.mp h
      have args := all ha fun a ha _ _ h => iha a ha h places
      simp only [compileWith, ihf hf places, args]
  | cond test yes no iht ihy ihn =>
      obtain ⟨test', yes', no', rfl, ht, hy, hn⟩ := like_cond.mp h
      simp only [compileWith, iht ht places, ihy hy places, ihn hn places]
  | field base id ih =>
      obtain ⟨base', rfl, hb⟩ := like_field.mp h
      simp only [compileWith, ih hb places]
  | isNull negate operand ih =>
      obtain ⟨operand', rfl, ho⟩ := like_isNull.mp h
      simp only [compileWith, ih ho places]
  | list items ih =>
      obtain ⟨items', rfl, hi⟩ := like_list.mp h
      have items := all hi fun a ha _ _ h => ih a ha h places
      simp only [compileWith, items]
  | map base params body ihl ihb =>
      obtain ⟨base', ⟨params', body'⟩, rfl, hl, binders, like⟩ := like_map.mp h
      -- Unless the lambda takes one parameter, both are rejected with the number that it takes.
      cases binders with
      | nil => rfl
      | cons hb rest =>
          cases rest with
          | nil =>
              have body := ihb like (places.push hb.toSameLabel)
              simp only [compileWith, ihl hl places, body]
          | cons _ rest => simp only [compileWith, List.length_cons, rest.length_eq]
  | record model fields ih =>
      obtain ⟨fields', rfl, hf⟩ := like_record.mp h
      have fields := all hf fun a ha _ _ h => ih a ha h places
      simp only [compileWith, fields]
  | includeEntity kind entity mapping ty ihe =>
      obtain ⟨entity', mapping', rfl, he, hm⟩ := h.exists_includeEntity
      simp only [compileWith, ihe he places, targets hm places.finds.renames]
  | includeVia kind parent params body mapping ty ihp ihb =>
      obtain ⟨parent', ⟨params', body'⟩, mapping', rfl, hp, ⟨binders, like⟩, hm⟩ :=
        h.includeVia_cases.resolve_right (by simp)
      -- The target comes first: its fault, if any, hides one of the selector.
      have mapping := targets hm places.finds.renames kind
      cases binders with
      | nil => simp only [compileWith, mapping]
      | cons hb rest =>
          cases rest with
          | nil =>
              have picked := ihb like (places.push hb.toSameLabel)
              simp only [compileWith, mapping, ihp hp places, picked]
          | cons _ rest => simp only [compileWith, mapping, List.length_cons, rest.length_eq]

end Expr

namespace Func

variable {f g : Func}

/-- A function with renamed binders is interpreted alike. -/
theorem Renamed.call_eq (h : f.Renamed g) (depth : Nat) (args : List Value) :
    g.call depth args = f.call depth args := by
  obtain ⟨params, body⟩ := g
  obtain rfl : params = f.params := h.params
  have reads : Pairing.self.Reads [⟨f.params, args⟩] [⟨f.params, args⟩] := Pairing.finds_self _
  have values := h.body.evalWith_eq reads (Callable.call depth)
  simp only [call, callWith, arity, values]

/-- A function with renamed binders compiles to the same code, or is rejected with the same
fault. -/
theorem Renamed.compile_eq (h : f.Renamed g) (depth : Nat) : g.compile depth = f.compile depth := by
  obtain ⟨params, body⟩ := g
  obtain rfl : params = f.params := h.params
  cases depth with
  | zero => rfl
  | succ depth =>
      have places : Pairing.self.Places (f.params.map Param.id) (f.params.map Param.id) :=
        ⟨rfl, Pairing.finds_self _⟩
      have code := h.body.compileWith_eq places (fun kind mapping =>
        Target.resolve kind (mapping.evalClosed depth) >>=
          Target.compileWith (Func.compile depth)) fun like renames kind => by
        have value := like.evalWith_eq renames.reads (Callable.call depth)
        simp only [Expr.evalClosed, Expr.eval, value]
      simp only [compile, code, arity]

/-- Renaming binders without capture changes nothing: the function ends in the same way on all
arguments, it compiles if and only if it did, with the same fault if it does not, and its code is
the same. -/
theorem Renamed.runs_alike (h : f.Renamed g) :
    (∀ depth args, g.call depth args = f.call depth args) ∧
    (∀ depth, g.compile depth = f.compile depth) ∧ (g.Compiles ↔ f.Compiles) ∧
    ∀ {n m : Nat} {c c' : Compiled}, f.compile n = .ok c → g.compile m = .ok c' → c' = c := by
  refine ⟨h.call_eq, h.compile_eq, ?_, fun {n m c c'} hc hc' => ?_⟩
  · simp only [Compiles, h.compile_eq]
  · rw [h.compile_eq] at hc'
    exact Yields.unique f.steady_compile ⟨m, hc'⟩ ⟨n, hc⟩

/-- The function `nested` with other binders: the inner lambda now binds the identity of the
parameter of the function, and not that of the outer one. -/
def nestedRenamed : Func :=
  let param (id : Nat) : Param := ⟨id, "p", .unknown⟩
  let position (index : Nat) : FieldId := ⟨⟨0⟩, index⟩
  let inner : Func := ⟨[param 0], .arg (param 0)⟩
  let outer : Func := ⟨[param 5], .map (.list [.arg (param 5)]) inner⟩
  let selector : Func := ⟨[param 1], .field (.arg (param 0)) (position 1)⟩
  let referenced : Func := ⟨[param 3], .field (.arg (param 3)) (position 0)⟩
  ⟨[param 0], .record ⟨1⟩
    [.map (.field (.arg (param 0)) (position 0)) outer,
      .includeVia .ast (.arg (param 0)) selector (.const (.func 0 referenced)) .unknown]⟩

theorem renamed_nested : nested.Renamed nestedRenamed := by
  have binder (x y : Nat) :
      Param.Matches (fun _ => False) ⟨x, "p", .unknown⟩ ⟨y, "p", .unknown⟩ :=
    ⟨⟨rfl, rfl⟩, not_false, not_false⟩
  refine ⟨rfl, Expr.like_record.mpr ⟨_, rfl, .cons ?lists (.cons ?related .nil)⟩⟩
  case lists =>
    refine Expr.like_map.mpr ⟨_, _, rfl, Expr.like_field.mpr ⟨_, rfl, .arg rfl⟩,
      .cons (binder 1 5) .nil, Expr.like_map.mpr ⟨_, _, rfl, ?_, .cons (binder 1 0) .nil, ?_⟩⟩
    · exact Expr.like_list.mpr ⟨_, rfl, .cons (.arg (Pairing.under_here ..)) .nil⟩
    · exact .arg (Pairing.under_here ..)
  case related =>
    refine .includeVia (.arg rfl) ⟨.cons (binder 2 1) .nil, ?_⟩ (Expr.like_const.mpr rfl)
    exact Expr.like_field.mpr ⟨_, rfl, .arg ⟨rfl, by simp⟩⟩

/-- Both give the lists of a record and the first field of a related one. -/
theorem nested_runs_alike : nested.Renamed nestedRenamed ∧ nestedRenamed.Compiles ∧
    nestedRenamed.call 2
      [.record [.list [.bool true, .bool false], .record [.string "related"]]] =
        .ok (.record [.list [.list [.bool true], .list [.bool false]], .string "related"]) := by
  obtain ⟨calls, _, compiles, _⟩ := renamed_nested.runs_alike
  exact ⟨renamed_nested, compiles.mpr ⟨2, _, rfl⟩, (calls _ _).trans rfl⟩

end Func

end RecordMapping
