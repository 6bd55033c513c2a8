import RecordMapping.Expr.Infer
import RecordMapping.Proofs.Identities

/-!
# Renumbering identities

Expressions that differ only in the identities that were given out on the way say the same: with
other numbers for parameters and binders an expression evaluates and is typed as before, and its
instances are the renumbered ones.

## Implementation notes

Constants are left as they are. That is harmless where the new numbers begin after everything that
was made before, because then nothing in a constant would be renumbered.
-/

namespace RecordMapping

/-- The parameter under another number. -/
def Param.rename (ρ : Nat → Nat) (p : Param) : Param := { p with id := ρ p.id }

mutual

/-- The expression with other numbers for its parameters and binders. -/
def Expr.rename (ρ : Nat → Nat) : Expr → Expr
  | .arg p => .arg (p.rename ρ)
  | .compare op left right => .compare op (left.rename ρ) (right.rename ρ)
  | .call callee args => .call (callee.rename ρ) (Expr.renameAll ρ args)
  | .cond test yes no => .cond (test.rename ρ) (yes.rename ρ) (no.rename ρ)
  | .field base id => .field (base.rename ρ) id
  | .includeEntity kind entity mapping ty =>
      .includeEntity kind (entity.rename ρ) (mapping.rename ρ) ty
  | .includeVia kind parent ⟨params, body⟩ mapping ty =>
      .includeVia kind (parent.rename ρ) ⟨params.map (Param.rename ρ), body.rename ρ⟩
        (mapping.rename ρ) ty
  | .isNull negate operand => .isNull negate (operand.rename ρ)
  | .list items => .list (Expr.renameAll ρ items)
  | .map base ⟨params, body⟩ =>
      .map (base.rename ρ) ⟨params.map (Param.rename ρ), body.rename ρ⟩
  | .record model fields => .record model (Expr.renameAll ρ fields)
  | .const v => .const v

/-- The expressions with other numbers for their parameters and binders. -/
def Expr.renameAll (ρ : Nat → Nat) : List Expr → List Expr
  | [] => []
  | e :: es => e.rename ρ :: Expr.renameAll ρ es

end

/-- The function with other numbers for its parameters and binders. -/
def Func.rename (ρ : Nat → Nat) (f : Func) : Func :=
  ⟨f.params.map (Param.rename ρ), f.body.rename ρ⟩

/-- What is numbered from one start on is numbered from another one on; everything before keeps its
number. -/
def renumber (start start' : Nat) (x : Nat) : Nat := if x < start then x else x - start + start'

/-- The numbers from the start on are moved together, and every number before is kept. -/
structure Renumbers (start : Nat) (ρ : Nat → Nat) : Prop where
  injective : Function.Injective ρ
  fixed : ∀ x, x < start → ρ x = x
  next : ∀ x, start ≤ x → ρ (x + 1) = ρ x + 1

theorem renumber_self (start start' : Nat) : renumber start start' start = start' := by
  simp [renumber]

/-- Numbers that move up stay apart. -/
theorem renumbers_renumber {start start' : Nat} (h : start ≤ start') :
    Renumbers start (renumber start start') where
  injective x y hxy := by
    unfold renumber at hxy
    split at hxy <;> split at hxy <;> omega
  fixed x hx := if_pos hx
  next x hx := by
    rw [renumber, renumber, if_neg (by omega), if_neg (by omega)]
    omega

namespace Expr

variable {ρ : Nat → Nat}

@[simp] theorem renameAll_eq_map (es : List Expr) : renameAll ρ es = es.map (rename ρ) := by
  induction es with
  | nil => rfl
  | cons e es ih => simp [renameAll, ih]

theorem map_rename_eq_self {α : Type} {f : α → α} {as : List α} (h : ∀ a ∈ as, f a = a) :
    as.map f = as :=
  (List.map_congr_left h).trans (List.map_id' as)

/-- What was made before the start is left as it is. -/
theorem rename_eq_self {start : Nat} (hρ : Renumbers start ρ) {e : Expr}
    (h : e.MadeBefore start) : e.rename ρ = e := by
  induction e using operand_induction with
  | step e ih =>
    have expr (bound : List Param) (s : Expr) (hs : ⟨bound, s⟩ ∈ e.operands) : s.rename ρ = s :=
      ih ⟨bound, s⟩ hs (h.operand hs)
    have params (bound : List Param) (s : Expr) (hs : ⟨bound, s⟩ ∈ e.operands) :
        bound.map (Param.rename ρ) = bound :=
      map_rename_eq_self fun p hp => by simp [Param.rename, hρ.fixed p.id (h.binder hs hp)]
    cases e with
    | arg p => simp [rename, Param.rename, hρ.fixed p.id (h p.id (.arg rfl))]
    | const v => rfl
    | compare op left right =>
        simp [rename, expr [] left (by simp), expr [] right (by simp)]
    | call callee args =>
        have all := map_rename_eq_self fun a (ha : a ∈ args) => expr [] a (by simp [ha])
        simp [rename, expr [] callee (by simp), all]
    | cond test yes no =>
        simp [rename, expr [] test (by simp), expr [] yes (by simp), expr [] no (by simp)]
    | field base id => simp [rename, expr [] base (by simp)]
    | includeEntity kind entity mapping ty =>
        simp [rename, expr [] entity (by simp), expr [] mapping (by simp)]
    | includeVia kind parent selector mapping ty =>
        obtain ⟨bound, body⟩ := selector
        simp [rename, expr [] parent (by simp), expr bound body (by simp),
          params bound body (by simp), expr [] mapping (by simp)]
    | isNull negate operand => simp [rename, expr [] operand (by simp)]
    | list items =>
        have all := map_rename_eq_self fun a (ha : a ∈ items) => expr [] a (by simp [ha])
        simp [rename, all]
    | map base lambda =>
        obtain ⟨bound, body⟩ := lambda
        simp [rename, expr [] base (by simp), expr bound body (by simp),
          params bound body (by simp)]
    | record model fields =>
        have all := map_rename_eq_self fun a (ha : a ∈ fields) => expr [] a (by simp [ha])
        simp [rename, all]

end Expr

/-- The function is left as it is if it was made before the start. -/
theorem Func.rename_eq_self {ρ : Nat → Nat} {start : Nat} (hρ : Renumbers start ρ) {f : Func}
    (h : f.MadeBefore start) : f.rename ρ = f := by
  obtain ⟨params, body⟩ := f
  obtain ⟨hparams, hbody⟩ := madeBefore_iff.mp h
  have kept : params.map (Param.rename ρ) = params :=
    Expr.map_rename_eq_self fun p hp => by simp [Param.rename, hρ.fixed p.id (hparams p hp)]
  simp only [rename, kept, Expr.rename_eq_self hρ hbody]

/-- The scope with other numbers for its parameters. -/
def Scope.rename (ρ : Nat → Nat) (scope : Scope) : Scope :=
  scope.map fun layer => ⟨layer.params.map (Param.rename ρ), layer.args⟩

/-- With numbers that stay apart, a parameter has the value that it had. -/
theorem Scope.read_rename {ρ : Nat → Nat} (injective : Function.Injective ρ) (scope : Scope)
    (p : Param) : (scope.rename ρ).read (p.rename ρ) = scope.read p := by
  have found : (scope.rename ρ).find? (ρ p.id) = scope.find? p.id := by
    induction scope with
    | nil => rfl
    | cons layer outer ih =>
        have position : Layer.position? ⟨layer.params.map (Param.rename ρ), layer.args⟩ (ρ p.id) =
            layer.position? p.id := by
          simp [Layer.position?, List.findIdx?_map, Function.comp_def, Param.rename,
            injective.eq_iff]
        rw [rename, List.map_cons, find?, find?, position]
        cases layer.position? p.id with
        | some i => rfl
        | none => exact ih
  simp only [read, Param.rename, found]

namespace Expr

section Evaluation

variable {ρ : Nat → Nat} {call : Caller}

theorem evalAllWith_map {f : Expr → Expr} {es : List Expr} {τ σ : Scope}
    (h : ∀ e ∈ es, (f e).evalWith call σ = e.evalWith call τ) :
    evalAllWith call (es.map f) σ = evalAllWith call es τ := by
  induction es with
  | nil => rfl
  | cons e es ih =>
      rw [List.map_cons, evalAllWith, h e (by simp), ih fun a ha => h a (by simp [ha]), evalAllWith]

/-- An expression evaluates as before if all numbers stay apart. -/
theorem evalWith_rename (injective : Function.Injective ρ) (e : Expr) (scope : Scope) :
    (e.rename ρ).evalWith call (scope.rename ρ) = e.evalWith call scope := by
  induction e generalizing scope with
  | arg p => exact Scope.read_rename injective scope p
  | const v => rfl
  | compare op left right ihl ihr => simp only [rename, evalWith, ihl, ihr]
  | call callee args ihf iha =>
      have all := evalAllWith_map fun a ha => iha a ha scope
      simp only [rename, renameAll_eq_map, evalWith, ihf, all]
  | cond test yes no iht ihy ihn => simp only [rename, evalWith, iht, ihy, ihn]
  | field base id ih => simp only [rename, evalWith, ih]
  | includeEntity kind entity mapping ty ihe ihm =>
      have closed : (mapping.rename ρ).evalWith call [] = mapping.evalWith call [] := ihm []
      simp only [rename, evalWith, ihe, closed]
  | includeVia kind parent params body mapping ty ihp ihb ihm =>
      have closed : (mapping.rename ρ).evalWith call [] = mapping.evalWith call [] := ihm []
      have inner (v : Value) :
          (body.rename ρ).evalWith call (⟨params.map (Param.rename ρ), [v]⟩ :: scope.rename ρ) =
            body.evalWith call (⟨params, [v]⟩ :: scope) := ihb (⟨params, [v]⟩ :: scope)
      simp only [rename, evalWith, ihp, inner, closed, List.length_map]
  | isNull negate operand ih => simp only [rename, evalWith, ih]
  | list items ih =>
      have all := evalAllWith_map fun a ha => ih a ha scope
      simp only [rename, renameAll_eq_map, evalWith, all]
  | map base params body ihl ihb =>
      have inner (v : Value) :
          (body.rename ρ).evalWith call (⟨params.map (Param.rename ρ), [v]⟩ :: scope.rename ρ) =
            body.evalWith call (⟨params, [v]⟩ :: scope) := ihb (⟨params, [v]⟩ :: scope)
      simp only [rename, evalWith, ihl, inner, List.length_map]
  | record model fields ih =>
      have all := evalAllWith_map fun a ha => ih a ha scope
      simp only [rename, renameAll_eq_map, evalWith, all]

/-- Outside of every scope an expression evaluates as before. -/
theorem evalClosed_rename (injective : Function.Injective ρ) (depth : Nat) (e : Expr) :
    (e.rename ρ).evalClosed depth = e.evalClosed depth :=
  evalWith_rename injective e []

/-- Types do not depend on numbers. -/
theorem infer_rename (ρ : Nat → Nat) (schema : Schema) (e : Expr) :
    (e.rename ρ).infer schema = e.infer schema := by
  induction e with
  | call callee args ihf iha =>
      cases callee with
      | const v =>
          cases v with
          | func label f =>
              obtain ⟨params, body⟩ := f
              simp [rename, infer]
          | mapping m =>
              obtain ⟨label, ⟨params, body⟩, compiled⟩ := m
              simp [rename, infer]
          | _ => simp [rename, infer]
      | includeVia kind parent selector mapping ty =>
          obtain ⟨params, body⟩ := selector
          simp [rename, infer]
      | map base lambda =>
          obtain ⟨params, body⟩ := lambda
          simp [rename, infer]
      | _ => simp [rename, infer]
  | cond test yes no iht ihy ihn => simp only [rename, infer, ihy, ihn]
  | list items ih =>
      cases items with
      | nil => rfl
      | cons item items => simp only [rename, renameAll, infer, ih item (by simp)]
  | map base params body ihl ihb => simp only [rename, infer, ihb]
  | _ => simp [rename, infer, Param.rename]

end Evaluation

end Expr

/-- The replacement puts renumbered expressions in the place of renumbered parameters. -/
def Replacement.Renamed (ρ : Nat → Nat) (replacement replacement' : Replacement) : Prop :=
  ∀ x, replacement' (ρ x) = (replacement x).map (Expr.rename ρ)

section Instances

variable {ρ : Nat → Nat} {start : Nat} (hρ : Renumbers start ρ)
include hρ

theorem Replacement.Renamed.set {replacement replacement' : Replacement}
    (h : replacement.Renamed ρ replacement') (id : Nat) (e : Expr) :
    (replacement.set id e).Renamed ρ (replacement'.set (ρ id) (e.rename ρ)) := by
  intro x
  by_cases hx : x = id
  · simp [hx]
  · have hne : ρ x ≠ ρ id := fun h => hx (hρ.injective h)
    rw [Replacement.set_other _ hne, Replacement.set_other _ hx]
    exact h x

/-- Renumbered binders are renamed to renumbered new ones. -/
theorem freshen_rename (params : List Param) {replacement replacement' : Replacement}
    (h : replacement.Renamed ρ replacement') {k : Nat} (hk : start ≤ k) :
    (freshen (params.map (Param.rename ρ)) replacement' (ρ k)).params =
        (freshen params replacement k).params.map (Param.rename ρ) ∧
      (freshen params replacement k).replacement.Renamed ρ
        (freshen (params.map (Param.rename ρ)) replacement' (ρ k)).replacement ∧
      (freshen (params.map (Param.rename ρ)) replacement' (ρ k)).next =
        ρ (freshen params replacement k).next := by
  induction params generalizing replacement replacement' k with
  | nil => exact ⟨rfl, h, rfl⟩
  | cons p ps ih =>
      obtain ⟨hparams, hreplacement, hnext⟩ :=
        ih (h.set hρ p.id (.arg { p with id := k })) (Nat.le_succ_of_le hk)
      rw [hρ.next k hk] at hparams hreplacement hnext
      exact ⟨congrArg (List.cons _) hparams, hreplacement, hnext⟩

omit hρ in
theorem Expr.instantiateAll_rename {es : List Expr} {replacement replacement' : Replacement}
    (each : ∀ e ∈ es, ∀ k, start ≤ k → (e.rename ρ).instantiate replacement' (ρ k) =
      ((e.instantiate replacement k).1.rename ρ, ρ (e.instantiate replacement k).2))
    {k : Nat} (hk : start ≤ k) :
    instantiateAll (es.map (rename ρ)) replacement' (ρ k) =
      ((instantiateAll es replacement k).1.map (rename ρ),
        ρ (instantiateAll es replacement k).2) := by
  induction es generalizing k with
  | nil => rfl
  | cons e es ih =>
      have he := Nat.le_trans hk (e.le_instantiate replacement k)
      simp only [List.map_cons, instantiateAll, each e (by simp) k hk,
        ih (fun a ha => each a (by simp [ha])) he]

/-- An instance of a renumbered expression is the renumbered instance. -/
theorem Expr.instantiate_rename (e : Expr) {replacement replacement' : Replacement}
    (h : replacement.Renamed ρ replacement') {k : Nat} (hk : start ≤ k) :
    (e.rename ρ).instantiate replacement' (ρ k) =
      ((e.instantiate replacement k).1.rename ρ, ρ (e.instantiate replacement k).2) := by
  induction e generalizing replacement replacement' k with
  | arg p =>
      simp only [rename, instantiate, Param.rename, h p.id]
      cases replacement p.id <;> rfl
  | const v => rfl
  | compare op left right ihl ihr =>
      have hl := Nat.le_trans hk (left.le_instantiate replacement k)
      simp only [rename, instantiate, ihl h hk, ihr h hl]
  | call callee args ihf iha =>
      have hf := Nat.le_trans hk (callee.le_instantiate replacement k)
      have all := instantiateAll_rename (fun a ha k hk => iha a ha h hk) hf
      simp only [rename, renameAll_eq_map, instantiate, ihf h hk, all]
  | cond test yes no iht ihy ihn =>
      have ht := Nat.le_trans hk (test.le_instantiate replacement k)
      have hy := Nat.le_trans ht (yes.le_instantiate replacement _)
      simp only [rename, instantiate, iht h hk, ihy h ht, ihn h hy]
  | field base id ih => simp only [rename, instantiate, ih h hk]
  | includeEntity kind entity mapping ty ihe ihm =>
      have he := Nat.le_trans hk (entity.le_instantiate replacement k)
      simp only [rename, instantiate, ihe h hk, ihm h he]
  | includeVia kind parent params body mapping ty ihp ihb ihm =>
      have hp := Nat.le_trans hk (parent.le_instantiate replacement k)
      obtain ⟨hparams, hreplacement, hnext⟩ := freshen_rename hρ params h hp
      have hn := Nat.le_trans hp (le_freshen params replacement _)
      have hb := Nat.le_trans hn (body.le_instantiate
        (freshen params replacement (parent.instantiate replacement k).2).replacement _)
      simp only [rename, instantiate, ihp h hk, hparams, hnext, ihb hreplacement hn, ihm h hb]
  | isNull negate operand ih => simp only [rename, instantiate, ih h hk]
  | list items ih =>
      have all := instantiateAll_rename (fun a ha k hk => ih a ha h hk) hk
      simp only [rename, renameAll_eq_map, instantiate, all]
  | map base params body ihl ihb =>
      have hl := Nat.le_trans hk (base.le_instantiate replacement k)
      obtain ⟨hparams, hreplacement, hnext⟩ := freshen_rename hρ params h hl
      have hn := Nat.le_trans hl (le_freshen params replacement _)
      simp only [rename, instantiate, ihl h hk, hparams, hnext, ihb hreplacement hn]
  | record model fields ih =>
      have all := instantiateAll_rename (fun a ha k hk => ih a ha h hk) hk
      simp only [rename, renameAll_eq_map, instantiate, all]

/-- Binding a renumbered function to a renumbered expression leaves the renumbered body. -/
theorem Func.bindBody_rename (f : Func) (e : Expr) {k : Nat} (hk : start ≤ k) :
    (f.rename ρ).bindBody [some (e.rename ρ)] (ρ k) =
      f.bindBody [some e] k >>= fun b => .ok (b.1.rename ρ, ρ b.2) := by
  obtain ⟨params, body⟩ := f
  match params with
  | [p] =>
      have single : (Replacement.empty.set p.id e).Renamed ρ
          (Replacement.empty.set (p.rename ρ).id (e.rename ρ)) :=
        Replacement.Renamed.set hρ (fun _ => rfl) p.id e
      have inst := body.instantiate_rename hρ single hk
      simp [bindBody, bind, rename, Replacement.ofParams, inst]
  | [] | _ :: _ :: _ => simp [bindBody, bind, rename, Outcome.fail]

end Instances

end RecordMapping
