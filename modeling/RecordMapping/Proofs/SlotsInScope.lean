import RecordMapping.Proofs.CompiledForm
import RecordMapping.Proofs.References
import RecordMapping.Proofs.RunFrames

/-!
# The slots in scope of compiled code

Compiling gives each piece of code the slots that are in scope of the expression it is made from: a
lambda or a selector has one more than the expression around it. A run that starts with a value for
each slot comes to every piece of code with a value for each of the slots in its scope, so a slot is
never outside of the frame.

## Implementation notes

The code of an expression has the code of its live operands at the same positions, but for a marker
with a selector. There the code that picks the entity stands in between.
-/

namespace RecordMapping

namespace Expr

/-- The place in the code of an expression where the code of the live operand at the position
stands. -/
def codePlace : Expr → Nat → List Nat
  | .includeVia _ _ _ _ _, i => [0, i]
  | _, i => [i]

/-- Compiling the expression on the slots has put the code at the place, which was compiled with the
inner slots in scope. -/
inductive CompiledAt (target : MarkerKind → Expr → Outcome Compiled) :
    Expr → List Nat → List Nat → List Nat → Code → Prop
  | here {e : Expr} {slots : List Nat} {code : Code} (h : e.compileWith target slots = .ok code) :
      CompiledAt target e slots [] slots code
  | selection {kind : MarkerKind} {parent body mapping : Expr} {p : Param} {ty : Ty}
      {slots : List Nat} {code : Code} {t : Compiled}
      (h : (includeVia kind parent ⟨[p], body⟩ mapping ty).compileWith target slots =
        .ok (.apply code t)) :
      CompiledAt target (.includeVia kind parent ⟨[p], body⟩ mapping ty) slots [0] slots code
  | operand {e : Expr} {slots inner place : List Nat} {i : Nat} {o : Operand} {node : Code}
      (ho : e.live[i]? = some o)
      (h : CompiledAt target o.expr (slots ++ o.bound.map Param.id) place inner node) :
      CompiledAt target e slots (e.codePlace i ++ place) inner node

variable {target : MarkerKind → Expr → Outcome Compiled} {e : Expr} {slots : List Nat}

/-- A marker with a selector compiles to code that applies its target to what the code of the
selector picks from the code of the parent. -/
theorem compileWith_includeVia_eq_ok {kind : MarkerKind} {parent mapping : Expr} {selector : Func}
    {ty : Ty} {code : Code}
    (h : (includeVia kind parent selector mapping ty).compileWith target slots = .ok code) :
    ∃ p l s t, selector.params = [p] ∧ target kind mapping = .ok t ∧
      parent.compileWith target slots = .ok l ∧
      selector.body.compileWith target (slots ++ [p.id]) = .ok s ∧
      code = .apply (.select l s) t := by
  obtain ⟨params, body⟩ := selector
  obtain ⟨t, ht, h⟩ := Outcome.bind_eq_ok_iff.mp h
  rcases params with _ | ⟨p, _ | ⟨_, _⟩⟩
  · cases h
  · obtain ⟨l, hl, h⟩ := Outcome.bind_eq_ok_iff.mp h
    obtain ⟨s, hs, h⟩ := Outcome.bind_eq_ok_iff.mp h
    cases h
    exact ⟨p, l, s, t, rfl, ht, hl, hs, rfl⟩
  · cases h

/-- A slot that an expression compiles to is one of those in scope, a constant is the expression
itself, and what code applies is the code of the target of a marker. -/
theorem compileWith_own {code : Code} (h : e.compileWith target slots = .ok code) :
    (∀ i, code = .slot i → i < slots.length) ∧ (∀ v, code = .const v → e = .const v) ∧
      ∀ entity c, code = .apply entity c →
        ∃ m, e.asMarker? = some m ∧ target m.kind m.mapping = .ok c := by
  cases e with
  | arg p =>
      rw [compileWith] at h
      split at h
      · next found =>
        cases h
        refine ⟨?_, by simp, by simp⟩
        rintro i ⟨⟩
        exact (List.getElem?_eq_some_iff.mp (getElem?_of_lastSlot? found)).1
      · cases h
  | const v =>
      cases h
      exact ⟨by simp, by simp, by simp⟩
  | includeEntity kind entity mapping ty =>
      obtain ⟨t, ht, h⟩ := Outcome.bind_eq_ok_iff.mp h
      obtain ⟨b, _, h⟩ := Outcome.bind_eq_ok_iff.mp h
      cases h
      refine ⟨by simp, by simp, ?_⟩
      rintro _ _ ⟨⟩
      exact ⟨_, rfl, ht⟩
  | includeVia kind parent selector mapping ty =>
      obtain ⟨p, l, s, t, _, ht, _, _, rfl⟩ := compileWith_includeVia_eq_ok h
      refine ⟨by simp, by simp, ?_⟩
      rintro _ _ ⟨⟩
      exact ⟨_, rfl, ht⟩
  | map base lambda =>
      obtain ⟨params, body⟩ := lambda
      rcases params with _ | ⟨p, _ | ⟨_, _⟩⟩
      · cases h
      · refine ⟨?_, ?_, ?_⟩ <;> intros <;> subst_vars <;>
          simp [compileWith, Outcome.bind_eq_ok_iff] at h
      · cases h
  | _ =>
      refine ⟨?_, ?_, ?_⟩ <;> intros <;> subst_vars <;>
        simp [compileWith, Outcome.bind_eq_ok_iff] at h

/-- The code of expressions has the code of each at its position. -/
theorem getElem?_of_compileAllWith {es : List Expr} {codes : List Code}
    (h : compileAllWith target es slots = .ok codes) {i : Nat} {c : Code}
    (hc : codes[i]? = some c) : ∃ e, es[i]? = some e ∧ e.compileWith target slots = .ok c := by
  induction es generalizing codes i with
  | nil =>
      cases h
      cases hc
  | cons e es ih =>
      obtain ⟨c₀, h₀, h⟩ := Outcome.bind_eq_ok_iff.mp h
      obtain ⟨cs, hcs, h⟩ := Outcome.bind_eq_ok_iff.mp h
      cases h
      cases i with
      | zero =>
          cases hc
          exact ⟨e, rfl, h₀⟩
      | succ i => exact ih hcs hc

/-- The operand of code at a position is the code of the live operand there, but for a marker with a
selector, and it has as many values on top of the frame as that one binds parameters. -/
theorem exists_live_of_operand {code c : Code} (h : e.compileWith target slots = .ok code)
    (aligned : ∀ i, e.codePlace i = [i]) {i : Nat} (hc : code.operands[i]? = some c) :
    ∃ o, e.live[i]? = some o ∧
      o.expr.compileWith target (slots ++ o.bound.map Param.id) = .ok c ∧
      o.bound.length = code.pushes i := by
  have plain {e : Expr} (he : e.compileWith target slots = .ok c) :
      e.compileWith target (slots ++ ([] : List Param).map Param.id) = .ok c := by
    rwa [List.map_nil, List.append_nil]
  cases e with
  | arg p =>
      rw [compileWith] at h
      split at h <;> cases h
      cases hc
  | const v =>
      cases h
      cases hc
  | compare op left right =>
      obtain ⟨l, hl, h⟩ := Outcome.bind_eq_ok_iff.mp h
      obtain ⟨r, hr, h⟩ := Outcome.bind_eq_ok_iff.mp h
      cases h
      rcases i with _ | _ | i <;> cases hc
      · exact ⟨_, rfl, plain hl, rfl⟩
      · exact ⟨_, rfl, plain hr, rfl⟩
  | call callee args =>
      obtain ⟨f, hf, h⟩ := Outcome.bind_eq_ok_iff.mp h
      obtain ⟨as, has, h⟩ := Outcome.bind_eq_ok_iff.mp h
      cases h
      rcases i with _ | i
      · cases hc
        exact ⟨_, rfl, plain hf, rfl⟩
      · obtain ⟨a, ha, hc⟩ := getElem?_of_compileAllWith has hc
        exact ⟨⟨[], a⟩, by simp [ha], plain hc, rfl⟩
  | cond test yes no =>
      obtain ⟨t, ht, h⟩ := Outcome.bind_eq_ok_iff.mp h
      obtain ⟨y, hy, h⟩ := Outcome.bind_eq_ok_iff.mp h
      obtain ⟨n, hn, h⟩ := Outcome.bind_eq_ok_iff.mp h
      cases h
      rcases i with _ | _ | _ | i <;> cases hc
      · exact ⟨_, rfl, plain ht, rfl⟩
      · exact ⟨_, rfl, plain hy, rfl⟩
      · exact ⟨_, rfl, plain hn, rfl⟩
  | field base id =>
      obtain ⟨b, hb, h⟩ := Outcome.bind_eq_ok_iff.mp h
      cases h
      rcases i with _ | i <;> cases hc
      exact ⟨_, rfl, plain hb, rfl⟩
  | isNull negate operand =>
      obtain ⟨b, hb, h⟩ := Outcome.bind_eq_ok_iff.mp h
      cases h
      rcases i with _ | i <;> cases hc
      exact ⟨_, rfl, plain hb, rfl⟩
  | includeEntity kind entity mapping ty =>
      obtain ⟨t, _, h⟩ := Outcome.bind_eq_ok_iff.mp h
      obtain ⟨b, hb, h⟩ := Outcome.bind_eq_ok_iff.mp h
      cases h
      rcases i with _ | i <;> cases hc
      exact ⟨_, rfl, plain hb, rfl⟩
  | includeVia => cases aligned 0
  | list items =>
      obtain ⟨cs, hcs, h⟩ := Outcome.bind_eq_ok_iff.mp h
      cases h
      obtain ⟨a, ha, hc⟩ := getElem?_of_compileAllWith hcs hc
      exact ⟨⟨[], a⟩, by simp [ha], plain hc, rfl⟩
  | record model fields =>
      obtain ⟨cs, hcs, h⟩ := Outcome.bind_eq_ok_iff.mp h
      cases h
      obtain ⟨a, ha, hc⟩ := getElem?_of_compileAllWith hcs hc
      exact ⟨⟨[], a⟩, by simp [ha], plain hc, rfl⟩
  | map base lambda =>
      obtain ⟨params, body⟩ := lambda
      rcases params with _ | ⟨p, _ | ⟨_, _⟩⟩
      · cases h
      · obtain ⟨l, hl, h⟩ := Outcome.bind_eq_ok_iff.mp h
        obtain ⟨b, hb, h⟩ := Outcome.bind_eq_ok_iff.mp h
        cases h
        rcases i with _ | _ | i <;> cases hc
        · exact ⟨_, rfl, plain hl, rfl⟩
        · exact ⟨_, rfl, hb, rfl⟩
      · cases h

/-- A run of the code of an expression that starts with a value for each slot comes to code on a
frame with a value for each slot that was in scope where it was compiled. -/
theorem exists_compiledAt_of_reaches {code node : Code} (h : e.compileWith target slots = .ok code)
    {call : Caller} {frame frame' : Frame} (size : frame.size = slots.length) {place : List Nat}
    (reaches : code.Reaches call frame place node frame') :
    ∃ inner, e.CompiledAt target slots place inner node ∧ frame'.size = inner.length := by
  induction e using operand_induction generalizing slots code frame place with
  | step e ih =>
    have below {i : Nat} {o : Operand} (ho : e.live[i]? = some o) {c : Code}
        (hc : o.expr.compileWith target (slots ++ o.bound.map Param.id) = .ok c) {inside : Frame}
        (size : inside.size = slots.length + o.bound.length) {rest : List Nat}
        (reaches : c.Reaches call inside rest node frame') :
        ∃ inner, e.CompiledAt target slots (e.codePlace i ++ rest) inner node ∧
          frame'.size = inner.length := by
      obtain ⟨inner, compiled, size⟩ :=
        ih o (live_subset (List.mem_of_getElem? ho)) hc (by simpa using size) reaches
      exact ⟨inner, .operand ho compiled, size⟩
    cases reaches with
    | here => exact ⟨slots, .here h, size⟩
    | @comes _ c _ _ frame₁ _ i rest step reaches =>
        by_cases aligned : ∀ i, e.codePlace i = [i]
        · obtain ⟨o, ho, hc, bound⟩ := exists_live_of_operand h aligned step.operand
          have found := below ho hc (by rw [step.size, size, bound]) reaches
          rwa [aligned] at found
        · cases e with
          | includeVia kind parent selector mapping ty =>
              obtain ⟨params, body⟩ := selector
              obtain ⟨p, l, s, t, rfl, _, hl, hs, rfl⟩ := compileWith_includeVia_eq_ok h
              -- The selection stands between the code of the marker and that of its operands.
              have picked := step.operand
              rcases i with _ | i <;> cases picked
              have size : frame₁.size = slots.length := step.size.trans size
              cases reaches with
              | here => exact ⟨slots, .selection h, size⟩
              | @comes _ c _ _ frame₂ _ i rest step reaches =>
                  have part := step.operand
                  rcases i with _ | _ | i <;> cases part
                  · refine below (i := 0) rfl ?_ (step.size.trans size) reaches
                    rwa [List.map_nil, List.append_nil]
                  · exact below (i := 1) rfl hs (by rw [step.size, size]; rfl) reaches
          | _ => exact absurd (fun i => rfl) aligned

theorem codePlace_append_inj {i j : Nat} {place place' : List Nat}
    (h : e.codePlace i ++ place = e.codePlace j ++ place') : i = j ∧ place = place' := by
  cases e <;> simpa [codePlace] using h

theorem codePlace_append_ne_nil (e : Expr) (i : Nat) (place : List Nat) :
    e.codePlace i ++ place ≠ [] := by
  cases e <;> simp [codePlace]

/-- The place decides which code was put there, and which slots were in scope of it. -/
theorem CompiledAt.unique {inner inner' place : List Nat} {node node' : Code}
    (h : e.CompiledAt target slots place inner node)
    (h' : e.CompiledAt target slots place inner' node') : inner' = inner ∧ node' = node := by
  induction h with
  | @here e slots code h =>
      generalize hp : ([] : List Nat) = whole at h'
      cases h' with
      | here h' => exact ⟨rfl, Outcome.ok.inj (h'.symm.trans h)⟩
      | selection => cases hp
      | operand => exact absurd hp.symm (codePlace_append_ne_nil _ _ _)
  | selection h =>
      generalize hp : [0] = whole at h'
      cases h' with
      | here => cases hp
      | selection h' =>
          cases h'.symm.trans h
          exact ⟨rfl, rfl⟩
      | operand => cases hp
  | @operand e slots inner place i o node ho h ih =>
      generalize hp : e.codePlace i ++ place = whole at h'
      cases h' with
      | here => exact absurd hp (codePlace_append_ne_nil _ _ _)
      | selection => cases hp
      | operand ho' h' =>
          obtain ⟨rfl, rfl⟩ := codePlace_append_inj hp
          cases ho.symm.trans ho'
          exact ih h'

/-- A slot is inside of the frame that it was compiled for. -/
theorem CompiledAt.lt_of_slot {inner place : List Nat} {node : Code}
    (h : e.CompiledAt target slots place inner node) {i : Nat} (slot : node = .slot i) :
    i < inner.length := by
  induction h with
  | here h => exact (compileWith_own h).1 i slot
  | selection h =>
      obtain ⟨p, l, s, t, _, _, _, _, same⟩ := compileWith_includeVia_eq_ok h
      cases same
      cases slot
  | operand _ _ ih => exact ih slot

end Expr

namespace Func

/-- Compiling the function within the depth has put the code at the place in its body, which was
compiled with the slots in scope. -/
def CompiledAt (f : Func) (place slots : List Nat) (node : Code) : Nat → Prop
  | 0 => False
  | depth + 1 => f.body.CompiledAt (fun kind mapping =>
      Target.resolve kind (mapping.evalClosed depth) >>= Target.compileWith (Func.compile depth))
        (f.params.map Param.id) place slots node

variable {f : Func} {depth : Nat} {place slots : List Nat} {node : Code}

/-- A run of the code of a function on a value for each parameter comes to code on a frame with a
value for each slot in scope. -/
theorem exists_compiledAt_of_reaches {c : Compiled} (h : f.compile depth = .ok c) {call : Caller}
    {frame frame' : Frame} (size : frame.size = f.arity)
    (reaches : c.body.Reaches call frame place node frame') :
    ∃ slots, f.CompiledAt place slots node depth ∧ frame'.size = slots.length := by
  obtain ⟨k, body, rfl, rfl, hbody⟩ := compile_eq_ok h
  exact Expr.exists_compiledAt_of_reaches hbody (by simpa [arity] using size) reaches

theorem CompiledAt.unique {slots' : List Nat} {node' : Code}
    (h : f.CompiledAt place slots node depth) (h' : f.CompiledAt place slots' node' depth) :
    slots' = slots ∧ node' = node := by
  cases depth with
  | zero => exact h.elim
  | succ depth => exact Expr.CompiledAt.unique h h'

theorem CompiledAt.lt_of_slot {i : Nat} (h : f.CompiledAt place slots (.slot i) depth) :
    i < slots.length := by
  cases depth with
  | zero => exact h.elim
  | succ depth => exact Expr.CompiledAt.lt_of_slot h rfl

end Func

end RecordMapping
