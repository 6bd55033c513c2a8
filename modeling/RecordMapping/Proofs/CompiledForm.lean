import RecordMapping.Proofs.Depth
import RecordMapping.Proofs.Layers

/-!
# Compiled functions

A function that compiles and the code it compiles to end in the same way on every list of arguments.

## Implementation notes

Compiling looks a parameter up once, in the list of slots, and interpreting looks it up each time,
in the stack of layers. Both find the same value as long as slots, frame and scope agree. Of several
arguments for one parameter they find different ones, so what is said of all functions is said with
parameters and arguments in reverse order.

A marker's target is found when the function is compiled and again on each run of the interpreter,
which therefore needs as much more depth as compiling took.
-/

namespace RecordMapping

/-- The value of every parameter in the scope is the value in its slot. -/
structure Matches (slots : List Nat) (frame : Frame) (scope : Scope) : Prop where
  size : frame.size = slots.length
  find : ∀ id, scope.find? id = (lastSlot? slots id).bind fun i => frame[i]?

theorem lastSlot?_append_singleton (slots : List Nat) (id x : Nat) :
    lastSlot? (slots ++ [id]) x = if x = id then some slots.length else lastSlot? slots x := by
  induction slots with
  | nil =>
      by_cases h : x = id
      · simp [lastSlot?, h]
      · simp [lastSlot?, h, Ne.symm h]
  | cons slot rest ih =>
      rw [List.cons_append, lastSlot?, ih]
      by_cases h : x = id
      · simp [h]
      · simp [h, lastSlot?]

namespace Matches

/-- The arguments of a function, on the frame and in the scope, where the last argument for a
parameter counts. -/
theorem ofArgs {params : List Param} {args : List Value} (h : args.length = params.length) :
    Matches (params.map Param.id) args.toArray [Layer.reverse ⟨params, args⟩] where
  size := by simpa using h
  find id := by
    rw [Scope.find?_reverse h]
    cases lastSlot? (params.map Param.id) id <;> simp

/-- One more value on the frame and one more layer in the scope. -/
theorem push {slots : List Nat} {frame : Frame} {scope : Scope} (h : Matches slots frame scope)
    (p : Param) (v : Value) :
    Matches (slots ++ [p.id]) (frame.push v) (⟨[p], [v]⟩ :: scope) where
  size := by simp [h.size]
  find id := by
    rw [lastSlot?_append_singleton, Scope.find?_push]
    by_cases hp : id = p.id
    · simp [hp, ← h.size]
    · rw [if_neg hp, if_neg hp, h.find id]
      cases hs : lastSlot? slots id with
      | none => rfl
      | some i =>
          have hi : i < frame.size := by
            rw [h.size]
            exact (List.getElem?_eq_some_iff.mp (getElem?_of_lastSlot? hs)).1
          simp [Array.getElem?_push, Nat.ne_of_lt hi]

/-- A slot that was found holds the value of its parameter. -/
theorem read {slots : List Nat} {frame : Frame} {scope : Scope} (h : Matches slots frame scope)
    {p : Param} {i : Nat} (hi : lastSlot? slots p.id = some i) :
    ∃ v, frame[i]? = some v ∧ scope.read p = .ok v := by
  have hlt : i < frame.size := by
    rw [h.size]
    exact (List.getElem?_eq_some_iff.mp (getElem?_of_lastSlot? hi)).1
  refine ⟨frame[i], by simp [hlt], ?_⟩
  have hf := h.find p.id
  simp only [hi, Option.bind_some, Array.getElem?_eq_getElem hlt] at hf
  simp [Scope.read, hf]

end Matches

namespace Expr

variable (R : Agreement) {call call' : Caller} {target : MarkerKind → Expr → Outcome Compiled}

/-- Interpreting expressions agrees with running their code if it does so for each of them. -/
theorem compileAllWith_rel {es : List Expr} {codes : List Code} {slots : List Nat} {frame : Frame}
    {scope : Scope}
    (each : ∀ e ∈ es, ∀ {code}, e.compileWith target slots = .ok code →
      R.rel (e.evalWith call scope) (code.valueWith call' frame))
    (h : compileAllWith target es slots = .ok codes) :
    R.rel (evalAllWith call es scope) (Code.valuesWith call' codes frame) := by
  induction es generalizing codes with
  | nil =>
      cases h
      exact R.refl _
  | cons e es ih =>
      obtain ⟨c, hc, h⟩ := Outcome.bind_eq_ok_iff.mp h
      obtain ⟨cs, hcs, h⟩ := Outcome.bind_eq_ok_iff.mp h
      cases h
      rw [Code.valuesWith_cons]
      apply R.bind (each e (by simp) hc)
      intro v
      exact R.bind (ih (fun a ha => each a (by simp [ha])) hcs) fun vs => R.refl _

/-- Interpreting an expression agrees with running its code if the calls agree and every marker's
target agrees with the code it was compiled to. -/
theorem compileWith_rel (hcall : ∀ callee args, R.rel (call callee args) (call' callee args))
    (htarget : ∀ kind mapping c, target kind mapping = .ok c → ∀ v,
      R.rel (Target.resolve kind (mapping.evalWith call []) >>= fun t => call t.callable [v])
        (call' (.compiled c) [v]))
    {e : Expr} {slots : List Nat} {code : Code} (h : e.compileWith target slots = .ok code)
    {frame : Frame} {scope : Scope} (hm : Matches slots frame scope) :
    R.rel (e.evalWith call scope) (code.valueWith call' frame) := by
  induction e generalizing slots code frame scope with
  | arg p =>
      rw [compileWith] at h
      split at h
      · next i hi =>
        cases h
        obtain ⟨v, hv, hr⟩ := hm.read hi
        rw [Code.valueWith_slot, hv, evalWith, hr]
        exact R.refl _
      · cases h
  | compare op left right ihl ihr =>
      obtain ⟨l, hl, h⟩ := Outcome.bind_eq_ok_iff.mp h
      obtain ⟨r, hr, h⟩ := Outcome.bind_eq_ok_iff.mp h
      cases h
      rw [Code.valueWith_compare]
      exact R.bind (ihl hl hm) fun v => R.bind (ihr hr hm) fun w => R.refl _
  | call callee args ihf iha =>
      obtain ⟨f, hf, h⟩ := Outcome.bind_eq_ok_iff.mp h
      obtain ⟨as, has, h⟩ := Outcome.bind_eq_ok_iff.mp h
      cases h
      rw [Code.valueWith_call]
      apply R.bind (ihf hf hm)
      intro f
      have hargs := compileAllWith_rel R (fun a ha _ hc => iha a ha hc hm) has
      exact R.bind hargs fun vs => R.applyWith hcall f vs
  | cond test yes no iht ihy ihn =>
      obtain ⟨t, ht, h⟩ := Outcome.bind_eq_ok_iff.mp h
      obtain ⟨y, hy, h⟩ := Outcome.bind_eq_ok_iff.mp h
      obtain ⟨n, hn, h⟩ := Outcome.bind_eq_ok_iff.mp h
      cases h
      rw [Code.valueWith_cond]
      apply R.bind (iht ht hm)
      intro v
      apply R.bind (R.refl _)
      intro b
      cases b with
      | true => exact ihy hy hm
      | false => exact ihn hn hm
  | field base id ih =>
      obtain ⟨b, hb, h⟩ := Outcome.bind_eq_ok_iff.mp h
      cases h
      rw [Code.valueWith_field]
      exact R.bind (ih hb hm) fun v => R.refl _
  | includeEntity kind entity mapping ty ihe ihm =>
      obtain ⟨t, ht, h⟩ := Outcome.bind_eq_ok_iff.mp h
      obtain ⟨c, hc, h⟩ := Outcome.bind_eq_ok_iff.mp h
      cases h
      rw [Code.valueWith_apply]
      apply R.bind (ihe hc hm)
      intro v
      split
      · exact R.refl _
      · exact htarget kind mapping t ht v
  | includeVia kind parent params body mapping ty ihp ihb ihm =>
      obtain ⟨t, ht, h⟩ := Outcome.bind_eq_ok_iff.mp h
      match params with
      | [p] =>
          obtain ⟨l, hl, h⟩ := Outcome.bind_eq_ok_iff.mp h
          obtain ⟨s, hs, h⟩ := Outcome.bind_eq_ok_iff.mp h
          cases h
          rw [Code.valueWith_apply, Code.valueWith_select, bind_assoc]
          apply R.bind (ihp hl hm)
          intro v
          split
          · exact R.refl _
          · apply R.bind (ihb hs (hm.push p v))
            intro u
            split
            · exact R.refl _
            · exact htarget kind mapping t ht u
      | [] | _ :: _ :: _ => cases h
  | isNull negate operand ih =>
      obtain ⟨c, hc, h⟩ := Outcome.bind_eq_ok_iff.mp h
      cases h
      rw [Code.valueWith_isNull]
      exact R.bind (ih hc hm) fun v => R.refl _
  | list items ih =>
      obtain ⟨cs, hcs, h⟩ := Outcome.bind_eq_ok_iff.mp h
      cases h
      rw [Code.valueWith_list]
      exact R.bind (compileAllWith_rel R (fun a ha _ hc => ih a ha hc hm) hcs) fun vs => R.refl _
  | map base params body ihl ihb =>
      match params with
      | [p] =>
          obtain ⟨l, hl, h⟩ := Outcome.bind_eq_ok_iff.mp h
          obtain ⟨b, hb, h⟩ := Outcome.bind_eq_ok_iff.mp h
          cases h
          rw [Code.valueWith_map]
          apply R.bind (ihl hl hm)
          intro v
          apply R.bind (R.refl _)
          intro items
          exact R.bind (R.mapM fun item _ => ihb hb (hm.push p item)) fun vs => R.refl _
      | [] | _ :: _ :: _ => cases h
  | record model fields ih =>
      obtain ⟨cs, hcs, h⟩ := Outcome.bind_eq_ok_iff.mp h
      cases h
      rw [Code.valueWith_record]
      exact R.bind (compileAllWith_rel R (fun a ha _ hc => ih a ha hc hm) hcs) fun vs => R.refl _
  | const v =>
      cases h
      exact R.refl _

end Expr

namespace Target

/-- What a target compiles to takes one argument: it is what the target carries, or else the code of
the function that is interpreted in its place. -/
theorem compileWith_eq_ok {compile : Func → Outcome Compiled} {t : Target} {c : Compiled}
    (h : t.compileWith compile = .ok c) :
    c.arity = 1 ∧ (t.callable = .compiled c ∨
      ∃ g, t.callable = .interpreted g ∧ compile g = .ok c) := by
  have checked : ∀ x : Outcome Compiled,
      (x >>= fun c => if c.arity = 1 then return c else .fail (.arity 1 c.arity)) = .ok c →
        x = .ok c ∧ c.arity = 1 := by
    intro x hx
    obtain ⟨c', hc', hx⟩ := Outcome.bind_eq_ok_iff.mp hx
    split at hx
    · next arity =>
      cases hx
      exact ⟨hc', arity⟩
    · cases hx
  match t with
  | .func label g =>
      obtain ⟨hc, arity⟩ := checked _ h
      exact ⟨arity, .inr ⟨g, rfl, hc⟩⟩
  | .mapping ⟨label, g, some c'⟩ =>
      obtain ⟨hc, arity⟩ := checked _ h
      cases hc
      exact ⟨arity, .inl rfl⟩
  | .mapping ⟨label, g, none⟩ =>
      obtain ⟨hc, arity⟩ := checked _ h
      exact ⟨arity, .inr ⟨g, rfl, hc⟩⟩

/-- A target that was found is found within a greater depth. -/
theorem resolve_of_le {depth d : Nat} (hd : depth ≤ d) {kind : MarkerKind} {mapping : Expr}
    {t : Target} (h : resolve kind (mapping.evalClosed depth) = .ok t) :
    resolve kind (mapping.evalClosed d) = .ok t := by
  have hr : Agreement.deeper.rel (resolve kind (mapping.evalClosed depth))
      (resolve kind (mapping.evalClosed d)) :=
    Agreement.deeper.resolve kind (Expr.eval_deeper hd mapping [])
  rw [h] at hr
  exact Agreement.eq_of_deeper hr nofun

/-- A target that was found is found within every depth that does not run out. -/
theorem resolve_deeper {depth : Nat} {kind : MarkerKind} {mapping : Expr} {t : Target}
    (h : resolve kind (mapping.evalClosed depth) = .ok t) (d : Nat) :
    Agreement.deeper.rel (resolve kind (mapping.evalClosed d)) (.ok t) := by
  rcases Nat.le_total d depth with hd | hd
  · rw [← h]
    exact Agreement.deeper.resolve kind (Expr.eval_deeper hd mapping [])
  · exact .inr (resolve_of_le hd h)

end Target

namespace Func

/-- Interpreting a function with parameters and arguments in reverse order agrees with running its
code if the calls agree and every marker's target agrees with the code it was compiled to. -/
theorem compileWith_rel (R : Agreement) {call call' : Caller}
    {target : MarkerKind → Expr → Outcome Compiled}
    (hcall : ∀ callee args, R.rel (call callee args) (call' callee args))
    (htarget : ∀ kind mapping c, target kind mapping = .ok c → ∀ v,
      R.rel (Target.resolve kind (mapping.evalWith call []) >>= fun t => call t.callable [v])
        (call' (.compiled c) [v]))
    {f : Func} {body : Code}
    (h : f.body.compileWith target (f.params.map Param.id) = .ok body) (args : List Value) :
    R.rel (f.reversed.callWith call args.reverse)
      (Compiled.callWith call' ⟨f.arity, body⟩ args) := by
  by_cases hargs : args.length = f.arity
  · simp only [callWith, Compiled.callWith, arity_reversed, List.length_reverse, ← hargs,
      checkArity_self, Outcome.ok_bind]
    exact Expr.compileWith_rel R hcall htarget h (.ofArgs hargs)
  · simp only [callWith, Compiled.callWith, arity_reversed, List.length_reverse, checkArity, hargs,
      if_false]
    exact R.refl _

/-- A function that compiles does so from the code of its body, where each marker stands for the
code of its target. -/
theorem compile_eq_ok {depth : Nat} {f : Func} {c : Compiled} (h : f.compile depth = .ok c) :
    ∃ k body, depth = k + 1 ∧ c = ⟨f.arity, body⟩ ∧
      f.body.compileWith (fun kind mapping => Target.resolve kind (mapping.evalClosed k) >>=
        Target.compileWith (Func.compile k)) (f.params.map Param.id) = .ok body := by
  cases depth with
  | zero => cases h
  | succ k =>
      obtain ⟨body, hbody, h⟩ := Outcome.bind_eq_ok_iff.mp h
      cases h
      exact ⟨k, body, rfl, rfl, hbody⟩

end Func

namespace Callable

/-- The interpreter, where it does not run out of depth, ends as the code does, with the last
argument for each parameter. -/
theorem reversed_call_deeper_compiled {d depth : Nat} {f : Func} {c : Compiled}
    (h : f.compile depth = .ok c) (args : List Value) :
    Agreement.deeper.rel (call d (.interpreted f.reversed) args.reverse)
      (call d (.compiled c) args) := by
  induction d generalizing depth f c args with
  | zero => exact .inl rfl
  | succ d ih =>
      obtain ⟨k, body, rfl, rfl, hbody⟩ := Func.compile_eq_ok h
      refine Func.compileWith_rel _ (fun _ _ => Agreement.deeper.refl _)
        (fun kind mapping c hc v => ?_) hbody args
      obtain ⟨t, ht, hc⟩ := Outcome.bind_eq_ok_iff.mp hc
      refine Agreement.deeper_trans
        (Agreement.deeper.bind (Target.resolve_deeper ht d) fun t => Agreement.deeper.refl _) ?_
      obtain ⟨arity, carried | ⟨g, interpreted, hg⟩⟩ := Target.compileWith_eq_ok hc
      · rw [Outcome.ok_bind, carried]
        exact Agreement.deeper.refl _
      · rw [Outcome.ok_bind, interpreted]
        have target := ih hg [v]
        rwa [Func.reversed_of_arity ((Func.arity_of_compile hg).symm.trans arity)] at target

/-- The code, where it does not run out of depth, ends as the interpreter does with as much more
depth as compiling took and with the last argument for each parameter. -/
theorem compiled_reversed_call_deeper {d depth : Nat} {f : Func} {c : Compiled}
    (h : f.compile depth = .ok c) (args : List Value) :
    Agreement.deeper.rel (call d (.compiled c) args)
      (call (d + depth) (.interpreted f.reversed) args.reverse) := by
  induction d generalizing depth f c args with
  | zero => exact .inl rfl
  | succ d ih =>
      obtain ⟨k, body, rfl, rfl, hbody⟩ := Func.compile_eq_ok h
      rw [show d + 1 + (k + 1) = (d + k + 1) + 1 by omega]
      refine Func.compileWith_rel Agreement.deeper.flip (call_deeper (by omega))
        (fun kind mapping c hc v => ?_) hbody args
      obtain ⟨t, ht, hc⟩ := Outcome.bind_eq_ok_iff.mp hc
      have found := Target.resolve_of_le (show k ≤ d + k + 1 by omega) ht
      refine Agreement.deeper_trans ?_
        (Agreement.deeper.bind (.inr found.symm) fun t => Agreement.deeper.refl _)
      obtain ⟨arity, carried | ⟨g, interpreted, hg⟩⟩ := Target.compileWith_eq_ok hc
      · rw [Outcome.ok_bind, carried]
        exact call_deeper (by omega) _ _
      · rw [Outcome.ok_bind, interpreted]
        have target := ih hg [v]
        rw [Func.reversed_of_arity ((Func.arity_of_compile hg).symm.trans arity)] at target
        exact Agreement.deeper_trans target (call_deeper (by omega) _ _)

theorem call_reversed_of_distinct {f : Func} (distinct : (f.params.map Param.id).Nodup) (d : Nat)
    (args : List Value) :
    call d (.interpreted f.reversed) args.reverse = call d (.interpreted f) args := by
  cases d with
  | zero => rfl
  | succ d => exact Func.callWith_reversed_of_distinct distinct _ args

/-- The interpreter, where it does not run out of depth, ends as the code does. -/
theorem call_deeper_compiled {d depth : Nat} {f : Func} {c : Compiled}
    (distinct : (f.params.map Param.id).Nodup) (h : f.compile depth = .ok c) (args : List Value) :
    Agreement.deeper.rel (call d (.interpreted f) args) (call d (.compiled c) args) := by
  rw [← call_reversed_of_distinct distinct]
  exact reversed_call_deeper_compiled h args

/-- The code, where it does not run out of depth, ends as the interpreter does with as much more
depth as compiling took. -/
theorem compiled_call_deeper {d depth : Nat} {f : Func} {c : Compiled}
    (distinct : (f.params.map Param.id).Nodup) (h : f.compile depth = .ok c) (args : List Value) :
    Agreement.deeper.rel (call d (.compiled c) args) (call (d + depth) (.interpreted f) args) := by
  rw [← call_reversed_of_distinct distinct]
  exact compiled_reversed_call_deeper h args

end Callable

/-- A function with pairwise distinct parameters and the code it compiles to have the same ends on
every list of arguments: the same value, the same fault, or none at all. -/
theorem Func.ends_iff_compiled_ends {depth : Nat} {f : Func} {c : Compiled}
    (distinct : (f.params.map Param.id).Nodup) (h : f.compile depth = .ok c) (args : List Value)
    (r : Outcome Value) :
    Ends (fun d => f.call d args) r ↔ Ends (fun d => c.call d args) r := by
  constructor
  · rintro ⟨hr, d, rfl⟩
    have hd : Agreement.deeper.rel (f.call d args) (c.call d args) :=
      Callable.call_deeper_compiled (d := d + 1) distinct h args
    exact ⟨hr, d, Agreement.eq_of_deeper hd hr⟩
  · rintro ⟨hr, d, rfl⟩
    have hd : Agreement.deeper.rel (c.call d args) (f.call (d + depth) args) := by
      have hd := Callable.compiled_call_deeper (d := d + 1) distinct h args
      rwa [show d + 1 + depth = (d + depth) + 1 by omega] at hd
    exact ⟨hr, d + depth, Agreement.eq_of_deeper hd hr⟩

namespace Func

/-- The lists of a record with every item in a list of its own, and the first field of a related
record; the parameter of the outer lambda is bound again by the inner one. -/
def nested : Func :=
  let param (id : Nat) : Param := ⟨id, "p", .unknown⟩
  let position (index : Nat) : FieldId := ⟨⟨0⟩, index⟩
  let inner : Func := ⟨[param 1], .arg (param 1)⟩
  let outer : Func := ⟨[param 1], .map (.list [.arg (param 1)]) inner⟩
  let selector : Func := ⟨[param 2], .field (.arg (param 0)) (position 1)⟩
  let referenced : Func := ⟨[param 3], .field (.arg (param 3)) (position 0)⟩
  ⟨[param 0], .record ⟨1⟩
    [.map (.field (.arg (param 0)) (position 0)) outer,
      .includeVia .ast (.arg (param 0)) selector (.const (.func 0 referenced)) .unknown]⟩

theorem nested_ends : ∃ c, nested.compile 2 = .ok c ∧
    Ends (fun d => c.call d
      [.record [.list [.bool true, .bool false], .record [.string "related"]]])
      (.ok (.record [.list [.list [.bool true], .list [.bool false]], .string "related"])) := by
  have compiled : nested.compile 2 = .ok _ := rfl
  exact ⟨_, compiled,
    (ends_iff_compiled_ends (by decide) compiled _ _).mp ⟨nofun, 2, rfl⟩⟩

end Func

end RecordMapping
