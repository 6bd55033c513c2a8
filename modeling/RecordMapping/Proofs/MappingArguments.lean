import RecordMapping.Proofs.Compilable
import RecordMapping.Proofs.Identities
import RecordMapping.Proofs.Termination

/-!
# Which mapping arguments a composer refuses

A composer evaluates the mapping argument of a marker when it comes to the marker. In the function
that it was given, that is the argument as written. In a function that this one references, it is
the argument with the entity in the place of the parameter. As long as nothing known comes into an
argument in this way, that makes no difference: what has no target as it is written has none then,
and composing ends with a fault. But if the entity is known, a mapping argument may depend on it.
Composing may then succeed, and it may as well go on forever.

## Implementation notes

What is known ahead of any record is what does not fail outside of every scope. That a composer ends
and that it comes to no target are shown from the same ranks, since both say of an instance of a
mapping argument that it ends as the argument does.
-/

namespace RecordMapping

/-- Nothing known comes into the mapping arguments that composing the function comes to, in the
function and in those that it references, and evaluating these arguments ends. -/
def Func.Foreseen (f : Func) : Prop :=
  f.body.Foreseen fun _ => True

namespace Expr

/-- A composer is bound to come to a marker without a target: one that stands outside of other
markers, in the expression or in a function that it references. -/
inductive Rejected : Expr → Prop
  | unresolved {m : Marker} (h : ∀ t, ¬ m.mapping.RefersTo m.kind t) : Rejected m.toExpr
  | referenced {m : Marker} {t : Target} (ht : m.mapping.RefersTo m.kind t)
      (h : Rejected t.function.body) : Rejected m.toExpr
  | operand {e : Expr} {o : Operand} (unmarked : e.asMarker? = none) (ho : o ∈ e.operands)
      (h : Rejected o.expr) : Rejected e

variable {n k rank : Nat} {κ κ' : Ranks} {replacement : Replacement} {e : Expr} {m : Marker}

/-- If a marker with a target is rejected, that is because of the target. -/
theorem Rejected.target (h : m.toExpr.Rejected) {t : Target} (ht : m.mapping.RefersTo m.kind t) :
    t.function.body.Rejected := by
  generalize he : m.toExpr = e at h
  cases h with
  | unresolved h =>
      obtain rfl := Marker.toExpr_injective he
      exact absurd ht (h t)
  | referenced ht' h =>
      obtain rfl := Marker.toExpr_injective he
      cases ht.unique ht'
      exact h
  | operand unmarked => simp [← he] at unmarked

/-- An instance of a ranked marker refers to what the marker refers to. -/
theorem Ranked.exists_instance (h : m.toExpr.Ranked n rank κ)
    (fits : Fits k κ' replacement κ m.toExpr) :
    ∃ m' : Marker, (m.toExpr.instantiate replacement k).1 = m'.toExpr ∧
      ∀ t, m'.mapping.RefersTo m'.kind t ↔ m.mapping.RefersTo m.kind t := by
  obtain ⟨_, _, _, _, settles, _⟩ := h.marker_cases
  obtain ⟨m', k', same, le, kind, mapping⟩ := m.exists_mapping_instance replacement k
  refine ⟨m', same, fun t => ?_⟩
  rw [kind, mapping]
  constructor
  · refine settles.refersTo_of_instantiate (fits.part (fun x hx => ?_) le)
    exact .operand (mapping_mem_operands m) (by simp) hx
  · exact fun ht => ht.instantiate replacement k'

/-- An instance is rejected as the expression is. -/
theorem Rejected.instantiate (h : e.Rejected) (ranked : e.Ranked n rank κ)
    (fits : Fits k κ' replacement κ e) : (e.instantiate replacement k).1.Rejected := by
  induction h generalizing n rank k κ κ' replacement with
  | unresolved h =>
      obtain ⟨m', same, refers⟩ := ranked.exists_instance fits
      rw [same]
      exact .unresolved fun t ht => h t ((refers t).mp ht)
  | referenced ht h _ =>
      obtain ⟨m', same, refers⟩ := ranked.exists_instance fits
      rw [same]
      exact .referenced ((refers _).mpr ht) h
  | @operand e o unmarked ho h ih =>
      have inner : ∀ p, e ≠ .arg p := by
        rintro p rfl
        simp at ho
      obtain ⟨k', le, ho'⟩ := exists_instance_of_operand inner replacement k ho
      refine .operand (asMarker?_instantiate inner unmarked) ho' ?_
      exact ih (ranked.operand unmarked ho) (fits.operand ho le .bare)

end Expr

namespace Composer

variable {c : Composer} {n rank depth : Nat} {m : Marker} {e : Expr} {w w' : Workspace}

/-- A function with a mapping argument that is its own parameter. -/
def applying : Func :=
  let p : Param := ⟨1, "p", .unknown⟩
  ⟨[p], .includeEntity .ast (.const (.bool true)) (.arg p) .unknown⟩

/-- A function that hands an entity on to that one. -/
def applyingTo (entity : Expr) : Func :=
  ⟨[⟨0, "x", .unknown⟩], .includeEntity .ast entity (.const (.func 0 applying)) .unknown⟩

end Composer

end RecordMapping
