import RecordMapping.Proofs.Expansion

/-!
# Flat expressions

An expression is flat when no part of it is a marker. What a composer makes of an expression is
flat, however far the mappings refer to each other, and the search for markers finds exactly the
expressions that are not flat. A flat function is left as it is by every composer, so composing
twice is composing once.
-/

namespace RecordMapping

namespace Expr

/-- No part of the expression is a marker. -/
def Flat (e : Expr) : Prop := e.Every fun s => s.asMarker? = none

theorem flat_iff {e : Expr} : e.Flat ↔ e.asMarker? = none ∧ ∀ o ∈ e.operands, o.expr.Flat :=
  every_iff

theorem anyHasMarker_eq_false_iff (es : List Expr) :
    anyHasMarker es = false ↔ ∀ e ∈ es, e.hasMarker = false := by
  induction es with
  | nil => simp [anyHasMarker]
  | cons e es ih => simp [anyHasMarker, ih]

/-- The search for markers comes back empty exactly for flat expressions. -/
theorem hasMarker_eq_false_iff_flat (e : Expr) : e.hasMarker = false ↔ e.Flat := by
  induction e with
  | arg | const | includeEntity | includeVia =>
      rw [flat_iff]
      simp [hasMarker, asMarker?]
  | compare op left right ihl ihr =>
      rw [flat_iff]
      simp [hasMarker, asMarker?, ihl, ihr]
  | call callee args ihf iha =>
      rw [flat_iff]
      simp +contextual [hasMarker, asMarker?, ihf, anyHasMarker_eq_false_iff, iha]
  | cond test yes no iht ihy ihn =>
      rw [flat_iff]
      simp [hasMarker, asMarker?, iht, ihy, ihn, and_assoc]
  | field base id ih =>
      rw [flat_iff]
      simp [hasMarker, asMarker?, ih]
  | isNull negate operand ih =>
      rw [flat_iff]
      simp [hasMarker, asMarker?, ih]
  | map base params body ihl ihb =>
      rw [flat_iff]
      simp [hasMarker, asMarker?, ihl, ihb]
  | list items ih | record model items ih =>
      rw [flat_iff]
      simp +contextual [hasMarker, asMarker?, anyHasMarker_eq_false_iff, ih]

section Flatten

variable {inline : Marker → Stateful Workspace Expr}

theorem flattenAllWith_of_pure {es : List Expr} (h : ∀ e ∈ es, e.flattenWith inline = pure e) :
    flattenAllWith inline es = pure es := by
  induction es with
  | nil => rfl
  | cons e es ih =>
      rw [flattenAllWith, h e (by simp), ih fun e he => h e (by simp [he])]
      simp

/-- A flat expression is left as it is, and nothing is used up or learned. -/
theorem flattenWith_of_flat {e : Expr} (flat : e.Flat) : e.flattenWith inline = pure e := by
  induction e with
  | arg | const => rfl
  | includeEntity | includeVia => cases (flat_iff.mp flat).1
  | compare op left right ihl ihr =>
      obtain ⟨hl, hr⟩ : left.Flat ∧ right.Flat := by simpa using (flat_iff.mp flat).2
      simp [flattenWith, ihl hl, ihr hr]
  | call callee args ihf iha =>
      obtain ⟨hf, ha⟩ : callee.Flat ∧ ∀ a ∈ args, a.Flat := by simpa using (flat_iff.mp flat).2
      simp [flattenWith, ihf hf, flattenAllWith_of_pure fun a h => iha a h (ha a h)]
  | cond test yes no iht ihy ihn =>
      obtain ⟨ht, hy, hn⟩ : test.Flat ∧ yes.Flat ∧ no.Flat := by simpa using (flat_iff.mp flat).2
      simp [flattenWith, iht ht, ihy hy, ihn hn]
  | field base id ih =>
      have hb : base.Flat := by simpa using (flat_iff.mp flat).2
      simp [flattenWith, ih hb]
  | isNull negate operand ih =>
      have ho : operand.Flat := by simpa using (flat_iff.mp flat).2
      simp [flattenWith, ih ho]
  | map base params body ihl ihb =>
      obtain ⟨hl, hb⟩ : base.Flat ∧ body.Flat := by simpa using (flat_iff.mp flat).2
      simp [flattenWith, ihl hl, ihb hb]
  | list items ih | record model items ih =>
      have hs : ∀ e ∈ items, e.Flat := by simpa using (flat_iff.mp flat).2
      simp [flattenWith, flattenAllWith_of_pure fun e h => ih e h (hs e h)]

end Flatten

end Expr

namespace Composer

variable {c : Composer}

/-- A marker is gone once it is expanded, and every other node keeps its shape. -/
theorem Expands.flat {e e' : Expr} {w w' : Workspace} (h : c.Expands e w e' w') : e'.Flat := by
  induction h using Expands.induct with
  | arg p w => exact Expr.flat_iff.mpr ⟨rfl, by simp⟩
  | compare op _ _ hl hr =>
      exact Expr.flat_iff.mpr ⟨rfl, by simpa using ⟨hl, hr⟩⟩
  | call _ _ hf ha =>
      have has := ha.forall_right fun _ _ _ _ h => h.2
      exact Expr.flat_iff.mpr ⟨rfl, by simpa using ⟨hf, has⟩⟩
  | cond _ _ _ ht hy hn =>
      exact Expr.flat_iff.mpr ⟨rfl, by simpa using ⟨ht, hy, hn⟩⟩
  | field id _ hb => exact Expr.flat_iff.mpr ⟨rfl, by simpa using hb⟩
  | marker m _ _ rest => exact rest
  | isNull negate _ he => exact Expr.flat_iff.mpr ⟨rfl, by simpa using he⟩
  | map params _ _ hl hb =>
      exact Expr.flat_iff.mpr ⟨rfl, by simpa using ⟨hl, hb⟩⟩
  | list _ hs | record _ _ hs =>
      have hes := hs.forall_right fun _ _ _ _ h => h.2
      exact Expr.flat_iff.mpr ⟨rfl, by simpa using hes⟩
  | const v w => exact Expr.flat_iff.mpr ⟨rfl, by simp⟩

/-- A composed function has the parameters of the function as written and no marker anywhere in its
body, so the search for markers finds none. -/
theorem composeFunc_flat {depth : Nat} {f g : Func} {w w' : Workspace}
    (h : c.composeFunc depth f w = (.ok g, w')) :
    g.params = f.params ∧ g.body.Flat ∧ g.hasMarker = false := by
  obtain ⟨params, expands⟩ := expands_of_composeFunc h
  have flat := expands.flat
  exact ⟨params, flat, (Expr.hasMarker_eq_false_iff_flat g.body).mpr flat⟩

/-- For each item of a list, a related record mapped by a mapping that itself refers to another
one. -/
def chained : Func :=
  let param (id : Nat) : Param := ⟨id, "p", .unknown⟩
  let related (id : Nat) : Expr := .field (.arg (param id)) ⟨⟨0⟩, 1⟩
  let leaf : Func := ⟨[param 3], .list [.arg (param 3)]⟩
  let middle : Func :=
    ⟨[param 2], .list [.includeEntity .ast (related 2) (.const (.func 0 leaf)) .unknown]⟩
  let lambda : Func :=
    ⟨[param 1], .includeEntity .ast (related 1) (.const (.func 1 middle)) .unknown⟩
  ⟨[param 0], .map (.field (.arg (param 0)) ⟨⟨0⟩, 0⟩) lambda⟩

/-- A composer that tests the third field of a record in the place of all of its relations. -/
def keyed : Composer :=
  ⟨⟨[]⟩, fun navigation => ⟨some ⟨navigation.model, 2⟩, true⟩, .surrogateKey⟩

theorem chained_flat : ∃ g w', keyed.composeFunc 3 chained ⟨4, 2, {}, []⟩ = (.ok g, w') ∧
    g.params = chained.params ∧ g.body.Flat ∧ g.hasMarker = false := by
  have composed : keyed.composeFunc 3 chained ⟨4, 2, {}, []⟩ = (.ok _, _) := rfl
  exact ⟨_, _, composed, composeFunc_flat composed⟩

/-- A flat function is composed in one pass, which gives the function itself and leaves the
workspace as it was: no identity is given out, no key is looked up, and none is learned. -/
theorem composeFunc_of_flat (c : Composer) (depth : Nat) {g : Func} (h : g.body.Flat)
    (w : Workspace) : c.composeFunc (depth + 1) g w = (.ok g, w) := by
  obtain ⟨params, body⟩ := g
  have kept : c.flatten (depth + 1) body = pure body := Expr.flattenWith_of_flat h
  rw [composeFunc, kept, pure_bind, Stateful.pure_run]

/-- Composing a second time changes nothing, whichever composer does it and whatever is known to it
by then: the function is the same down to the identities of its binders. -/
theorem composeFunc_idempotent {depth : Nat} {f g : Func} {w w' : Workspace}
    (h : c.composeFunc depth f w = (.ok g, w')) (c₂ : Composer) (depth₂ : Nat) (w₂ : Workspace) :
    c₂.composeFunc (depth₂ + 1) g w₂ = (.ok g, w₂) :=
  composeFunc_of_flat c₂ depth₂ (expands_of_composeFunc h).2.flat w₂

theorem chained_idempotent : ∃ g w', keyed.composeFunc 3 chained ⟨4, 2, {}, []⟩ = (.ok g, w') ∧
    ∀ (c₂ : Composer) (depth₂ : Nat) (w₂ : Workspace),
      c₂.composeFunc (depth₂ + 1) g w₂ = (.ok g, w₂) := by
  have composed : keyed.composeFunc 3 chained ⟨4, 2, {}, []⟩ = (.ok _, _) := rfl
  exact ⟨_, _, composed, composeFunc_idempotent composed⟩

end Composer

end RecordMapping
