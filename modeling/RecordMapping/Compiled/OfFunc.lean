import RecordMapping.Marker

/-!
# Compiling functions

Compiling resolves each parameter to a slot of the frame and each marker to the code of its target.
A function that compiles refers to no parameter outside of its scope, in no branch, and each of its
markers refers to a mapping that compiles or already has code.

## Implementation notes

The slots of the parameters in scope are listed from the bottom of the frame; a parameter that is
bound again inside a lambda is the one nearest to the top. The target of a marker is compiled
before the marker's own operands, so its faults come first.
-/

namespace RecordMapping

/-- The slot of a parameter: its last position among the parameters in scope. -/
def lastSlot? : List Nat → Nat → Option Nat
  | [], _ => none
  | slot :: rest, id =>
      match lastSlot? rest id with
      | some i => some (i + 1)
      | none => if slot = id then some 0 else none

/-- A slot is found exactly for the parameters in scope. -/
theorem lastSlot?_eq_none_iff (slots : List Nat) (id : Nat) :
    lastSlot? slots id = none ↔ id ∉ slots := by
  induction slots with
  | nil => simp [lastSlot?]
  | cons slot rest ih =>
      cases h : lastSlot? rest id with
      | none =>
          have hr := ih.mp h
          by_cases hs : slot = id
          · simp [lastSlot?, h, hs]
          · simp [lastSlot?, h, hs, hr, Ne.symm hs]
      | some i =>
          have hr : id ∈ rest := by
            by_cases hm : id ∈ rest
            · exact hm
            · rw [ih.mpr hm] at h; cases h
          simp [lastSlot?, h, hr]

/-- The slot found holds the parameter. -/
theorem getElem?_of_lastSlot? {slots : List Nat} {id i : Nat} (h : lastSlot? slots id = some i) :
    slots[i]? = some id := by
  induction slots generalizing i with
  | nil => simp [lastSlot?] at h
  | cons slot rest ih =>
      cases hr : lastSlot? rest id with
      | some j =>
          simp only [lastSlot?, hr, Option.some.injEq] at h
          subst h
          simpa using ih hr
      | none =>
          by_cases hs : slot = id
          · simp only [lastSlot?, hr, hs, if_true, Option.some.injEq] at h
            subst h
            simp [hs]
          · simp [lastSlot?, hr, hs] at h

mutual

/-- The code of an expression on a frame with the given slots. -/
def Expr.compileWith (target : MarkerKind → Expr → Outcome Compiled) :
    Expr → List Nat → Outcome Code
  | .arg p, slots =>
      match lastSlot? slots p.id with
      | some i => .ok (.slot i)
      | none => .fail (.unbound p.name)
  | .compare op left right, slots => do
      let l ← left.compileWith target slots
      let r ← right.compileWith target slots
      return .compare op l r
  | .call callee args, slots => do
      let f ← callee.compileWith target slots
      let as ← Expr.compileAllWith target args slots
      return .call f as
  | .cond test yes no, slots => do
      let t ← test.compileWith target slots
      let y ← yes.compileWith target slots
      let n ← no.compileWith target slots
      return .cond t y n
  | .field base id, slots => do
      let b ← base.compileWith target slots
      return .field b id
  | .includeEntity kind entity mapping _, slots => do
      let t ← target kind mapping
      let e ← entity.compileWith target slots
      return .apply e t
  | .includeVia kind parent ⟨params, body⟩ mapping _, slots => do
      let t ← target kind mapping
      match params with
      | [p] => do
          let l ← parent.compileWith target slots
          let s ← body.compileWith target (slots ++ [p.id])
          return .apply (.select l s) t
      | _ => .fail (.arity 1 params.length)
  | .isNull negate operand, slots => do
      let e ← operand.compileWith target slots
      return .isNull negate e
  | .list items, slots => do
      let es ← Expr.compileAllWith target items slots
      return .list es
  | .map base ⟨params, body⟩, slots =>
      match params with
      | [p] => do
          let l ← base.compileWith target slots
          let b ← body.compileWith target (slots ++ [p.id])
          return .map l b
      | _ => .fail (.arity 1 params.length)
  | .record _ fields, slots => do
      let es ← Expr.compileAllWith target fields slots
      return .record es
  | .const v, _ => .ok (.const v)
termination_by structural e => e

/-- The code of expressions, from left to right. -/
def Expr.compileAllWith (target : MarkerKind → Expr → Outcome Compiled) :
    List Expr → List Nat → Outcome (List Code)
  | [], _ => .ok []
  | e :: es, slots => do
      let c ← e.compileWith target slots
      let cs ← Expr.compileAllWith target es slots
      return c :: cs
termination_by structural es => es

end

/-- The code of a marker's target: what it carries, or else the code of its function. It has to
take one argument. -/
def Target.compileWith (compile : Func → Outcome Compiled) (target : Target) :
    Outcome Compiled := do
  let c ← match target with
    | .func _ f => compile f
    | .mapping m =>
        match m.compiled with
        | some c => .ok c
        | none => compile m.func
  if c.arity = 1 then return c else .fail (.arity 1 c.arity)

/-- The code of a function. The depth bounds both the markers that are followed into each other
and the calls inside a mapping argument. -/
def Func.compile : Nat → Func → Outcome Compiled
  | 0, _ => .outOfDepth
  | depth + 1, f => do
      let target (kind : MarkerKind) (mapping : Expr) : Outcome Compiled := do
        let t ← Target.resolve kind (mapping.evalClosed depth)
        t.compileWith (Func.compile depth)
      let body ← f.body.compileWith target (f.params.map Param.id)
      return ⟨f.arity, body⟩

/-- Code takes as many arguments as the function it was compiled from. -/
theorem Func.arity_of_compile {depth : Nat} {f : Func} {c : Compiled}
    (h : f.compile depth = .ok c) : c.arity = f.arity := by
  cases depth with
  | zero => cases h
  | succ depth =>
      simp only [compile] at h
      generalize Expr.compileWith _ _ _ = body at h
      cases body <;> cases h
      rfl

end RecordMapping
