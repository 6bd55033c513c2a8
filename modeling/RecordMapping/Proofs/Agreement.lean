import RecordMapping.Call
import RecordMapping.Proofs.Operands
import Mathlib.Data.List.Forall2

/-!
# Agreement between runs

Two runs of the same shape agree in a given sense when their first steps do and every continuation
does. Running out of depth, preserving results and ending alike are such senses, and evaluation
carries each of them from the calls and the scopes to the whole expression.

## Implementation notes

A sense of agreement is a family of relations on outcomes that sequencing and added context respect.
Whatever is said of two evaluations of one expression follows from a single induction, with the
sense as a parameter.
-/

namespace RecordMapping

/-- A sequence has a result exactly when both steps have one. -/
theorem Outcome.bind_eq_ok_iff {α β : Type} {x : Outcome α} {next : α → Outcome β} {b : β} :
    (x >>= next) = .ok b ↔ ∃ a, x = .ok a ∧ next a = .ok b := by
  cases x <;> simp

/-- A sense in which two outcomes agree, kept by sequencing and by added context. -/
structure Agreement where
  /-- The two outcomes agree. -/
  rel : ∀ {α : Type}, Outcome α → Outcome α → Prop
  refl : ∀ {α : Type} (x : Outcome α), rel x x
  bind : ∀ {α β : Type} {x y : Outcome α} {f g : α → Outcome β}, rel x y →
    (∀ a, rel (f a) (g a)) → rel (x >>= f) (y >>= g)
  context : ∀ {α : Type} (kind : FaultKind) {x y : Outcome α}, rel x y →
    rel (x.context kind) (y.context kind)

namespace Agreement

/-- Both runs end in the same way. -/
def same : Agreement where
  rel x y := x = y
  refl _ := rfl
  bind := by
    rintro α β x _ f g rfl h
    exact bind_congr h
  context := by
    rintro α kind x _ rfl
    rfl

/-- The first run may run out of depth; otherwise both end in the same way. -/
def deeper : Agreement where
  rel x y := x = .outOfDepth ∨ x = y
  refl _ := .inr rfl
  bind := by
    rintro α β x y f g (rfl | rfl) h
    · exact .inl rfl
    · cases x with
      | ok a => exact h a
      | fault | stuck | outOfDepth => exact .inr rfl
  context := by
    rintro α kind x y (rfl | rfl)
    · exact .inl rfl
    · exact .inr rfl

/-- If the first run has a result, the second one has the same. -/
def preserving : Agreement where
  rel x y := ∀ a, x = .ok a → y = .ok a
  refl _ _ h := h
  bind := by
    intro α β x y f g hxy h b hb
    cases x with
    | ok a => rw [hxy a rfl]; exact h a b hb
    | fault | stuck | outOfDepth => cases hb
  context := by
    intro α kind x y hxy a ha
    cases x with
    | ok b => rw [hxy b rfl]; exact ha
    | fault | stuck | outOfDepth => cases ha

/-- Both runs end in the same way, but for what a fault says. -/
def alike : Agreement where
  rel x y := x = y ∨ ∃ f g, x = .fault f ∧ y = .fault g
  refl _ := .inl rfl
  bind := by
    rintro α β x y f g (rfl | ⟨f', g', rfl, rfl⟩) h
    · cases x with
      | ok a => exact h a
      | fault | stuck | outOfDepth => exact .inl rfl
    · exact .inr ⟨f', g', rfl, rfl⟩
  context := by
    rintro α kind x y (rfl | ⟨f, g, rfl, rfl⟩)
    · exact .inl rfl
    · exact .inr ⟨_, _, rfl, rfl⟩

/-- The same agreement with the two runs exchanged. -/
def flip (R : Agreement) : Agreement where
  rel x y := R.rel y x
  refl x := R.refl x
  bind hxy h := R.bind hxy h
  context kind _ _ hxy := R.context kind hxy

variable (R : Agreement)

theorem mapM {α β : Type} {f g : α → Outcome β} {items : List α}
    (h : ∀ a ∈ items, R.rel (f a) (g a)) : R.rel (items.mapM f) (items.mapM g) := by
  induction items with
  | nil => simpa using R.refl _
  | cons a as ih =>
      simp only [List.mapM_cons]
      apply R.bind (h a (by simp))
      intro b
      exact R.bind (ih fun a ha => h a (by simp [ha])) fun _ => R.refl _

theorem applyWith {call call' : Caller}
    (hcall : ∀ callee args, R.rel (call callee args) (call' callee args)) (v : Value)
    (args : List Value) : R.rel (v.applyWith call args) (v.applyWith call' args) := by
  cases v with
  | func label f => exact hcall _ _
  | mapping m =>
      match args with
      | [row] => exact hcall _ _
      | [] | _ :: _ :: _ => exact R.refl _
  | _ => exact R.refl _

theorem resolve (kind : MarkerKind) {x y : Outcome Value} (h : R.rel x y) :
    R.rel (Target.resolve kind x) (Target.resolve kind y) :=
  R.bind (R.context _ h) fun _ => R.refl _

end Agreement

namespace Scope

/-- A parameter of the innermost layer is read there, and every other one further out. -/
theorem read_cons (layer : Layer) (outer : Scope) (p : Param) :
    read (layer :: outer) p =
      if ∀ q ∈ layer.params, q.id ≠ p.id then outer.read p else read [layer] p := by
  split
  next h =>
    have hn : layer.position? p.id = none := by simpa [Layer.position?] using h
    simp [read, find?_cons_of_none hn]
  next h =>
    obtain ⟨i, hi⟩ : ∃ i, layer.position? p.id = some i := by
      rw [← Option.isSome_iff_exists]
      simpa [Layer.position?] using h
    simp [read, find?_cons_of_some hi]

/-- The value of a parameter in a layer that binds a single one. -/
theorem find?_push (p : Param) (v : Value) (outer : Scope) (x : Nat) :
    find? (⟨[p], [v]⟩ :: outer) x = if x = p.id then some v else outer.find? x := by
  by_cases h : x = p.id
  · simp [find?, Layer.position?, List.findIdx?_cons, h]
  · simp [find?, Layer.position?, List.findIdx?_cons, h, Ne.symm h]

end Scope

namespace Expr

variable (R : Agreement) {call call' : Caller}

/-- Evaluations of lists of expressions agree when those of their items do. -/
theorem evalAllWith_rel {es es' : List Expr} {τ σ : Scope}
    (h : List.Forall₂ (fun e e' => R.rel (e.evalWith call τ) (e'.evalWith call' σ)) es es') :
    R.rel (evalAllWith call es τ) (evalAllWith call' es' σ) := by
  induction h with
  | nil => exact R.refl _
  | cons he _ ih => exact R.bind he fun v => R.bind ih fun vs => R.refl _

/-- Binding the same layer on both sides keeps the scopes in agreement. -/
theorem read_rel_cons {τ σ : Scope} {layer : Layer} {p : Param}
    (h : (∀ q ∈ layer.params, q.id ≠ p.id) → R.rel (τ.read p) (σ.read p)) :
    R.rel (Scope.read (layer :: τ) p) (Scope.read (layer :: σ) p) := by
  rw [Scope.read_cons, Scope.read_cons layer σ]
  split
  next hq => exact h hq
  next => exact R.refl _

/-- Evaluations of one expression agree when the calls do and the scopes do on the free
parameters. -/
theorem evalWith_rel (hcall : ∀ callee args, R.rel (call callee args) (call' callee args))
    (e : Expr) {τ σ : Scope} (h : ∀ p : Param, e.Free p.id → R.rel (τ.read p) (σ.read p)) :
    R.rel (e.evalWith call τ) (e.evalWith call' σ) := by
  induction e generalizing τ σ with
  | arg p => exact h p (by simp)
  | compare op left right ihl ihr =>
      apply R.bind (ihl fun p hp => h p (by simp [hp]))
      intro v
      exact R.bind (ihr fun p hp => h p (by simp [hp])) fun w => R.refl _
  | call callee args ihf iha =>
      apply R.bind (ihf fun p hp => h p (by simp [hp]))
      intro f
      apply R.bind
      · apply evalAllWith_rel R
        apply List.forall₂_same.mpr
        intro a ha
        exact iha a ha fun p hp => h p (free_call.mpr (.inr ⟨a, ha, hp⟩))
      · exact fun vs => R.applyWith hcall f vs
  | cond test yes no iht ihy ihn =>
      apply R.bind (iht fun p hp => h p (by simp [hp]))
      intro v
      apply R.bind (R.refl _)
      intro b
      cases b with
      | true => exact ihy fun p hp => h p (by simp [hp])
      | false => exact ihn fun p hp => h p (by simp [hp])
  | field base id ih =>
      exact R.bind (ih fun p hp => h p (by simp [hp])) fun v => R.refl _
  | includeEntity kind entity mapping ty ihe ihm =>
      apply R.bind (ihe fun p hp => h p (by simp [hp]))
      intro v
      split
      · exact R.refl _
      · exact R.bind (R.resolve kind (ihm fun p _ => R.refl _)) fun t => hcall _ _
  | includeVia kind parent params body mapping ty ihp ihb ihm =>
      apply R.bind (ihp fun p hp => h p (by simp [hp]))
      intro v
      split
      · exact R.refl _
      · refine R.bind (R.refl _) fun _ => R.bind (ihb fun p hp => ?_) fun u => ?_
        · exact read_rel_cons R fun hq => h p (free_includeVia.mpr (.inr (.inl ⟨hq, hp⟩)))
        · split
          · exact R.refl _
          · exact R.bind (R.resolve kind (ihm fun p _ => R.refl _)) fun t => hcall _ _
  | isNull negate operand ih =>
      exact R.bind (ih fun p hp => h p (by simp [hp])) fun v => R.refl _
  | list items ih =>
      apply R.bind
      · apply evalAllWith_rel R
        apply List.forall₂_same.mpr
        intro a ha
        exact ih a ha fun p hp => h p (free_list.mpr ⟨a, ha, hp⟩)
      · exact fun vs => R.refl _
  | map base params body ihl ihb =>
      apply R.bind (ihl fun p hp => h p (by simp [hp]))
      intro v
      apply R.bind (R.refl _)
      intro items
      refine R.bind (R.mapM fun item _ => R.bind (R.refl _) fun _ => ihb fun p hp => ?_)
        fun vs => R.refl _
      exact read_rel_cons R fun hq => h p (free_map.mpr (.inr ⟨hq, hp⟩))
  | record model fields ih =>
      apply R.bind
      · apply evalAllWith_rel R
        apply List.forall₂_same.mpr
        intro a ha
        exact ih a ha fun p hp => h p (free_record.mpr ⟨a, ha, hp⟩)
      · exact fun vs => R.refl _
  | const v => exact R.refl _

/-- Evaluating an expression only depends on the values of its free parameters. -/
theorem evalWith_congr (e : Expr) {τ σ : Scope} (h : ∀ x, e.Free x → τ.find? x = σ.find? x) :
    e.evalWith call τ = e.evalWith call σ := by
  refine evalWith_rel Agreement.same (fun _ _ => rfl) e fun p hp => ?_
  simp only [Agreement.same, Scope.read, h p.id hp]

end Expr

end RecordMapping
