import RecordMapping.Proofs.FirstOrder
import RecordMapping.Proofs.SlotsInScope

/-!
# Sound code

Code is sound if no piece of it reads a slot outside of its frame, in the code itself and in all
code that it holds or applies. The code of a function is sound if the code that the function holds
is, and so is native code. Where all code is sound, no run is stuck.

## Implementation notes

What compiling makes of a function is sound if the code that the function holds is, and so is the
native code that `Compiled.native` makes. So if a program has no other code, all of its code is
sound. Code that a caller supplies is only covered as far as it can be written as `Code`. The code
that a value holds may stand in the constants of a function or of other code.
-/

namespace RecordMapping

mutual

/-- All code that the value holds is sound on frames with one value for each of its arguments. -/
inductive Value.Sound : Value → Prop
  | bool (b : Bool) : Value.Sound (.bool b)
  | i32 (n : Int32) : Value.Sound (.i32 n)
  | i64 (n : Int64) : Value.Sound (.i64 n)
  | null : Value.Sound .null
  | string (s : String) : Value.Sound (.string s)
  | record {fields : List Value} (h : ∀ v ∈ fields, Value.Sound v) : Value.Sound (.record fields)
  | list {items : List Value} (h : ∀ v ∈ items, Value.Sound v) : Value.Sound (.list items)
  | func {label : Nat} {f : Func} (h : f.body.Constants Value.Sound) : Value.Sound (.func label f)
  | mapping {m : Mapping} (func : m.func.body.Constants Value.Sound)
      (compiled : ∀ c, m.compiled = some c → Code.Sound c.arity c.body) : Value.Sound (.mapping m)

/-- On frames with this many values no slot is outside of its frame, and all code that the code
applies or holds is sound. -/
inductive Code.Sound : Nat → Code → Prop
  | intro {n : Nat} {code : Code} (slot : ∀ i, code = .slot i → i < n)
      (const : ∀ v, code = .const v → Value.Sound v)
      (target : ∀ entity c, code = .apply entity c → Code.Sound c.arity c.body)
      (operand : ∀ i o, code.operands[i]? = some o → Code.Sound (n + code.pushes i) o) :
      Code.Sound n code

end

/-- All code that the function holds is sound. -/
def Func.Sound (f : Func) : Prop := f.body.Constants Value.Sound

/-- The code is sound on frames with one value for each argument. -/
def Compiled.Sound (c : Compiled) : Prop := c.body.Sound c.arity

/-- All code in what can be called is sound. -/
def Callable.Sound : Callable → Prop
  | .interpreted f => f.Sound
  | .compiled c => c.Sound

namespace Code.Sound

variable {n : Nat} {code : Code}

theorem lt_of_slot {i : Nat} (h : (Code.slot i).Sound n) : i < n := by
  cases h with
  | intro slot => exact slot i rfl

theorem operand (h : code.Sound n) {i : Nat} {o : Code} (ho : code.operands[i]? = some o) :
    o.Sound (n + code.pushes i) := by
  cases h with
  | intro _ _ _ operand => exact operand i o ho

theorem target {entity : Code} {c : Compiled} (h : (Code.apply entity c).Sound n) : c.Sound := by
  cases h with
  | intro _ _ target => exact target entity c rfl

/-- The constants of sound code are sound. -/
theorem constants (h : code.Sound n) : code.Constants Value.Sound := by
  intro v hv
  induction hv generalizing n with
  | const =>
      cases h with
      | intro _ const => exact const v rfl
  | operand ho _ ih =>
      obtain ⟨i, hi⟩ := List.mem_iff_getElem?.mp ho
      exact ih (h.operand hi)
  | target _ ih => exact ih h.target

end Code.Sound

namespace Value

theorem hereditary_sound : Hereditary Sound where
  bool := .bool
  null := .null
  record {fields} := by
    constructor
    · intro h
      cases h with
      | record h => exact h
    · exact .record
  list {items} := by
    constructor
    · intro h
      cases h with
      | list h => exact h
    · exact .list
  func h := by
    cases h with
    | func h => exact h
  mapping h := by
    cases h with
    | mapping func compiled => exact ⟨func, fun c hc => (compiled c hc).constants⟩

theorem Sound.callable {m : Mapping} (h : (Value.mapping m).Sound) : m.callable.Sound := by
  obtain ⟨label, f, _ | c⟩ := m
  · cases h with
    | mapping func => exact func
  · cases h with
    | mapping _ compiled => exact compiled c rfl

/-- What a sound value refers to is sound. -/
theorem Sound.target {v : Value} (h : v.Sound) {kind : MarkerKind} {t : Target}
    (ht : Target.ofValue kind v = .ok t) : t.callable.Sound := by
  unfold Target.ofValue at ht
  split at ht <;> cases ht
  · exact hereditary_sound.func h
  · exact (hereditary_sound.mapping h).1
  · exact h.callable

end Value

/-- Native code is sound, if the value that it gives is. -/
theorem Compiled.sound_native (arity : Nat) : (∀ v, v.Sound → (constant arity v).Sound) ∧
    (arguments arity).Sound ∧ ∀ text, (failing arity text).Sound := by
  refine ⟨fun v hv => .intro (by simp [constant]) ?_ (by simp [constant]) (by simp [constant]),
    ?arguments, fun text => ?failing⟩
  · rintro _ ⟨⟩
    exact hv
  case arguments =>
    exact .intro (by simp [arguments]) (by simp [arguments]) (by simp [arguments])
      (by simp [arguments])
  case failing =>
    exact .intro (by simp [failing]) (by simp [failing]) (by simp [failing]) (by simp [failing])

section Compiling

/-- The code of a target is sound if the target is and functions that are compiled for it give sound
code. -/
theorem Target.sound_compileWith {t : Target} {compile : Func → Outcome Compiled} {c : Compiled}
    (h : t.compileWith compile = .ok c) (sound : t.callable.Sound)
    (compiled : ∀ g c, g.Sound → compile g = .ok c → c.Sound) : c.Sound := by
  obtain ⟨_, carried | ⟨g, interpreted, hg⟩⟩ := compileWith_eq_ok h
  · rwa [carried] at sound
  · rw [interpreted] at sound
    exact compiled g c sound hg

/-- The code of an expression is sound on frames with a value for each slot, if what the expression
holds and the code of its targets are sound. -/
theorem Expr.sound_compileWith {target : MarkerKind → Expr → Outcome Compiled} {e : Expr}
    {slots : List Nat} {code : Code} (h : e.compileWith target slots = .ok code)
    (sound : e.Constants Value.Sound)
    (targets : ∀ kind mapping c, mapping.Constants Value.Sound → target kind mapping = .ok c →
      c.Sound) : code.Sound slots.length := by
  induction e using operand_induction generalizing slots code with
  | step e ih =>
    obtain ⟨slot, const, applied⟩ := compileWith_own h
    have below {i : Nat} {o : Operand} (ho : e.live[i]? = some o) {c : Code}
        (hc : o.expr.compileWith target (slots ++ o.bound.map Param.id) = .ok c) :
        c.Sound (slots.length + o.bound.length) := by
      have hm := live_subset (List.mem_of_getElem? ho)
      simpa using ih o hm hc (sound.operand hm)
    refine .intro slot (fun v hv => ?_) (fun entity c hc => ?_) fun i c hc => ?_
    · exact (constants_iff.mp sound).1 v (const v hv)
    · obtain ⟨m, hm, ht⟩ := applied entity c hc
      obtain rfl := (Marker.asMarker?_eq_some_iff e m).mp hm
      exact targets _ _ c (sound.operand (mapping_mem_operands m)) ht
    · by_cases aligned : ∀ i, e.codePlace i = [i]
      · obtain ⟨o, ho, hc, bound⟩ := exists_live_of_operand h aligned hc
        exact bound ▸ below ho hc
      · cases e with
        | includeVia kind parent selector mapping ty =>
            obtain ⟨params, body⟩ := selector
            obtain ⟨p, l, s, t, rfl, _, hl, hs, rfl⟩ := compileWith_includeVia_eq_ok h
            -- The selection stands between the code of the marker and that of its operands.
            rcases i with _ | i <;> cases hc
            refine .intro (by simp) (by simp) (by simp) fun i c hc => ?_
            rcases i with _ | _ | i <;> cases hc
            · refine below (i := 0) rfl ?_
              rwa [List.map_nil, List.append_nil]
            · exact below (i := 1) rfl hs
        | _ => exact absurd (fun i => rfl) aligned

/-- The code of a function is sound if the code that the function holds is. -/
theorem Func.sound_compile {depth : Nat} {f : Func} {c : Compiled} (h : f.compile depth = .ok c)
    (sound : f.Sound) : c.Sound := by
  induction depth generalizing f c with
  | zero => cases h
  | succ depth ih =>
      obtain ⟨k, body, ⟨⟩, rfl, hbody⟩ := compile_eq_ok h
      have targets (kind : MarkerKind) (mapping : Expr) (c : Compiled)
          (hm : mapping.Constants Value.Sound)
          (hc : (Target.resolve kind (mapping.evalClosed depth) >>=
            Target.compileWith (Func.compile depth)) = .ok c) : c.Sound := by
        obtain ⟨t, ht, hc⟩ := Outcome.bind_eq_ok_iff.mp hc
        obtain ⟨v, hv, hvt⟩ :=
          Expr.RefersTo.exists_value Value.hereditary_sound ⟨depth, ht⟩ hm
        exact Target.sound_compileWith hc (hv.target hvt) fun g c hg hc => ih hc hg
      have code := Expr.sound_compileWith hbody sound targets
      rwa [List.length_map] at code

end Compiling

/-- Calls of what is sound on sound arguments are not stuck and give sound values. -/
structure Caller.Sound (call : Caller) : Prop where
  handsOn : call.HandsOn Value.Sound
  unstuck : ∀ callee args, callee.Sound → (∀ v ∈ args, v.Sound) → call callee args ≠ .stuck

theorem Target.resolve_ne_stuck {kind : MarkerKind} {argument : Outcome Value}
    (h : argument ≠ .stuck) : resolve kind argument ≠ .stuck := by
  refine Outcome.bind_ne_stuck ?_ fun v _ => (ended_ofValue kind v).ne_stuck
  cases argument <;> simp at h ⊢
  simp [Outcome.context]

theorem Expr.evalAllWith_ne_stuck {call : Caller} {es : List Expr} {scope : Scope}
    (h : ∀ e ∈ es, e.evalWith call scope ≠ .stuck) : evalAllWith call es scope ≠ .stuck := by
  induction es with
  | nil => simp [evalAllWith]
  | cons e es ih =>
      refine Outcome.bind_ne_stuck (h e (by simp)) fun v _ => ?_
      exact Outcome.bind_ne_stuck (ih fun a ha => h a (by simp [ha])) fun vs _ => by simp

section Running

variable {call : Caller} (safe : call.Sound)
include safe

theorem Value.Sound.applyWith_ne_stuck {v : Value} (h : v.Sound) {args : List Value}
    (ha : ∀ u ∈ args, u.Sound) : v.applyWith call args ≠ .stuck := by
  cases v with
  | func label f => exact safe.unstuck _ _ (hereditary_sound.func h) ha
  | mapping m =>
      match args with
      | [row] => exact safe.unstuck _ _ h.callable ha
      | [] | _ :: _ :: _ => simp [applyWith, Outcome.fail]
  | _ => simp [applyWith, Outcome.fail]

/-- Evaluating an expression that holds sound code only is not stuck in a scope of sound values. -/
theorem Expr.evalWith_ne_stuck {e : Expr} (he : e.Constants Value.Sound) {scope : Scope}
    (hs : scope.Constants Value.Sound) : e.evalWith call scope ≠ .stuck := by
  induction e using operand_induction generalizing scope with
  | step e ih =>
    have runs (bound : List Param) (s : Expr) (h : ⟨bound, s⟩ ∈ e.operands) {scope : Scope}
        (hs : scope.Constants Value.Sound) : s.evalWith call scope ≠ .stuck :=
      ih ⟨bound, s⟩ h (he.operand h) hs
    have gives (bound : List Param) (s : Expr) (h : ⟨bound, s⟩ ∈ e.operands) {scope : Scope}
        (hs : scope.Constants Value.Sound) {v : Value} (hv : s.evalWith call scope = .ok v) :
        v.Sound :=
      gives_evalWith Value.hereditary_sound safe.handsOn (he.operand h) hs v hv
    have all {es : List Expr} (h : ∀ a ∈ es, ⟨[], a⟩ ∈ e.operands) :
        evalAllWith call es scope ≠ .stuck :=
      evalAllWith_ne_stuck fun a ha => runs [] a (h a ha) hs
    have mapped (kind : MarkerKind) (mapping : Expr) (h : ⟨[], mapping⟩ ∈ e.operands) {v : Value}
        (hv : v.Sound) : (Target.resolve kind (mapping.evalWith call []) >>= fun t =>
          call t.callable [v]) ≠ .stuck := by
      have nil := Scope.constants_nil (P := Value.Sound)
      refine Outcome.bind_ne_stuck (Target.resolve_ne_stuck (runs [] mapping h nil)) fun t ht => ?_
      obtain ⟨u, hu, hut⟩ := Target.gives_resolve kind (fun _ => gives [] mapping h nil) t ht
      exact safe.unstuck _ _ (hu.target hut) (by simpa using hv)
    cases e with
    | arg p => exact (scope.ended_read p).ne_stuck
    | const v => simp [evalWith]
    | compare op left right =>
        refine Outcome.bind_ne_stuck (runs [] left (by simp) hs) fun v _ => ?_
        refine Outcome.bind_ne_stuck (runs [] right (by simp) hs) fun w _ => ?_
        exact (op.ended_apply v w).ne_stuck
    | call callee args =>
        refine Outcome.bind_ne_stuck (runs [] callee (by simp) hs) fun f hf => ?_
        refine Outcome.bind_ne_stuck (all fun a ha => by simp [ha]) fun vs hvs => ?_
        refine Value.Sound.applyWith_ne_stuck safe (gives [] callee (by simp) hs hf) ?_
        exact gives_evalAllWith (fun a ha v hv => gives [] a (by simp [ha]) hs hv) vs hvs
    | cond test yes no =>
        refine Outcome.bind_ne_stuck (runs [] test (by simp) hs) fun v _ => ?_
        refine Outcome.bind_ne_stuck v.ended_asBool.ne_stuck fun b _ => ?_
        cases b with
        | true => exact runs [] yes (by simp) hs
        | false => exact runs [] no (by simp) hs
    | field base id =>
        refine Outcome.bind_ne_stuck (runs [] base (by simp) hs) fun v _ => ?_
        exact (v.ended_readField id).ne_stuck
    | includeEntity kind entity mapping ty =>
        refine Outcome.bind_ne_stuck (runs [] entity (by simp) hs) fun v hv => ?_
        split
        · simp
        · exact mapped kind mapping (by simp) (gives [] entity (by simp) hs hv)
    | includeVia kind parent selector mapping ty =>
        obtain ⟨params, body⟩ := selector
        refine Outcome.bind_ne_stuck (runs [] parent (by simp) hs) fun p hp => ?_
        have inside : Scope.Constants Value.Sound (⟨params, [p]⟩ :: scope) :=
          hs.push (gives [] parent (by simp) hs hp)
        split
        · simp
        · refine Outcome.bind_ne_stuck (ended_checkArity _ _).ne_stuck fun _ _ => ?_
          refine Outcome.bind_ne_stuck (runs params body (by simp) inside) fun v hv => ?_
          split
          · simp
          · exact mapped kind mapping (by simp) (gives params body (by simp) inside hv)
    | isNull negate operand =>
        exact Outcome.bind_ne_stuck (runs [] operand (by simp) hs) fun v _ => by simp
    | list items =>
        exact Outcome.bind_ne_stuck (all fun a ha => by simp [ha]) fun vs _ => by simp
    | map base lambda =>
        obtain ⟨params, body⟩ := lambda
        refine Outcome.bind_ne_stuck (runs [] base (by simp) hs) fun v hv => ?_
        refine Outcome.bind_ne_stuck v.ended_asList.ne_stuck fun items hi => ?_
        have list := gives [] base (by simp) hs hv
        have sound := Value.gives_asList Value.hereditary_sound list items hi
        refine Outcome.bind_ne_stuck (fun stuck => ?_) fun vs _ => by simp
        obtain ⟨before, item, after, _, rfl, _, stuck⟩ := Outcome.exists_stuck_of_mapM stuck
        refine Outcome.bind_ne_stuck (ended_checkArity _ _).ne_stuck (fun _ _ => ?_) stuck
        exact runs params body (by simp) (hs.push (sound item (by simp)))
    | record model fields =>
        exact Outcome.bind_ne_stuck (all fun a ha => by simp [ha]) fun vs _ => by simp

namespace Code

variable {code node : Code} {frame frame' : Frame} {place : List Nat}

/-- What a run of sound code comes to is sound on the frame there, and so are all values on it. -/
theorem Sound.comes (sound : code.Sound frame.size) (hf : ∀ v ∈ frame, v.Sound) {i : Nat}
    {o : Code} (step : Comes call frame code i o frame') :
    o.Sound frame'.size ∧ ∀ v ∈ frame', v.Sound := by
  refine ⟨step.size ▸ sound.operand step.operand, ?_⟩
  rcases step.cases_frame.2 with ⟨_, rfl⟩ | ⟨base, v, u, hbase, hv, hu, _, rfl⟩
  · exact hf
  · have base := (sound.operand hbase).constants
    have hv := gives_valueWith Value.hereditary_sound safe.handsOn base hf v hv
    intro w hw
    rcases Array.mem_push.mp hw with hw | rfl
    · exact hf w hw
    · rcases hu with rfl | ⟨items, rfl, hu⟩
      · exact hv
      · exact Value.hereditary_sound.list.mp hv w hu

theorem Sound.reaches (sound : code.Sound frame.size) (hf : ∀ v ∈ frame, v.Sound)
    (h : code.Reaches call frame place node frame') :
    node.Sound frame'.size ∧ ∀ v ∈ frame', v.Sound := by
  induction h with
  | here => exact ⟨sound, hf⟩
  | comes step _ ih =>
      obtain ⟨sound, hf⟩ := sound.comes safe hf step
      exact ih sound hf

/-- A run of sound code is not stuck: every slot that it reaches is inside of the frame there, and
what it calls is sound. -/
theorem Sound.valueWith_ne_stuck (sound : code.Sound frame.size) (hf : ∀ v ∈ frame, v.Sound) :
    code.valueWith call frame ≠ .stuck := by
  intro stuck
  obtain ⟨place, node, frame', reaches, sticks⟩ := reaches_sticks stuck
  obtain ⟨sound, hf⟩ := sound.reaches safe hf reaches
  have gives {o : Code} (ho : o ∈ node.operands) :
      (o.valueWith call frame').Gives Value.Sound :=
    gives_valueWith Value.hereditary_sound safe.handsOn (sound.constants.operand ho) hf
  cases sticks with
  | slot outside => exact absurd sound.lt_of_slot (Nat.not_lt.mpr outside)
  | call hf hvs stuck =>
      refine Value.Sound.applyWith_ne_stuck safe (gives (by simp) _ hf) ?_ stuck
      exact gives_valuesWith (fun a ha => gives (by simp [ha])) _ hvs
  | apply hv stuck =>
      refine safe.unstuck (.compiled _) _ sound.target ?_ stuck
      simpa using gives (by simp) _ hv

end Code

end Running

/-- Calls within a depth are not stuck on what is sound. -/
theorem Callable.sound_call (depth : Nat) : Caller.Sound (call depth) where
  handsOn := handsOn_call Value.hereditary_sound depth
  unstuck := by
    induction depth with
    | zero => simp
    | succ depth ih =>
        have safe : Caller.Sound (call depth) :=
          ⟨handsOn_call Value.hereditary_sound depth, ih⟩
        intro callee args sound ha
        rw [call_succ]
        cases callee with
        | interpreted f =>
            refine Outcome.bind_ne_stuck (ended_checkArity _ _).ne_stuck fun _ _ => ?_
            refine Expr.evalWith_ne_stuck safe sound ?_
            simpa [Scope.Constants] using ha
        | compiled c =>
            refine Outcome.bind_ne_stuck (ended_checkArity _ _).ne_stuck fun _ arity => ?_
            have size : args.toArray.size = c.arity := checkArity_eq_ok_iff.mp arity
            have code : c.body.Sound args.toArray.size := size ▸ sound
            exact code.valueWith_ne_stuck safe (by simpa using ha)

/-- The code of a function that compiles keeps to its frames. On a value for each parameter, a run
comes to code only on a frame with a value for each parameter that was in scope where the code was
compiled. So a slot is inside of the frame there, and when the code has ended, with a result or not,
its frame is as it was. A run is only stuck if a call that it makes is; and if the code that the
function and the arguments hold comes from compiling or is native, so that it is sound, no call is
stuck. -/
theorem Func.compiled_keeps_frames {f : Func} {depth : Nat} {c : Compiled}
    (h : f.compile depth = .ok c) {args : List Value} (length : args.length = f.arity) :
    (∀ (call : Caller) (place : List Nat) (node : Code) (frame : Frame),
      c.body.Reaches call args.toArray place node frame →
        (∃ slots, f.CompiledAt place slots node depth) ∧
        (∀ slots, f.CompiledAt place slots node depth → frame.size = slots.length) ∧
        (∀ i, node = .slot i → i < frame.size) ∧ (node.runWith call frame).2 = frame) ∧
    (∀ call : Caller, (∀ callee args, call callee args ≠ .stuck) →
      c.callWith call args ≠ .stuck) ∧
    (f.Sound → (∀ v ∈ args, v.Sound) → ∀ d, c.call d args ≠ .stuck) := by
  have inside {call : Caller} {place : List Nat} {i : Nat} {frame : Frame}
      (reaches : c.body.Reaches call args.toArray place (.slot i) frame) : i < frame.size := by
    obtain ⟨slots, compiled, size⟩ :=
      f.exists_compiledAt_of_reaches h (by simpa using length) reaches
    exact size ▸ compiled.lt_of_slot
  refine ⟨fun call place node frame reaches => ?_, fun call calls => ?_, fun sound ha d => ?_⟩
  · obtain ⟨slots, compiled, size⟩ :=
      f.exists_compiledAt_of_reaches h (by simpa using length) reaches
    refine ⟨⟨slots, compiled⟩, fun slots' compiled' => ?_, ?_, Code.runWith_restores call node frame⟩
    · rw [size, (compiled'.unique compiled).1]
    · rintro i rfl
      exact inside reaches
  · refine Outcome.bind_ne_stuck (ended_checkArity _ _).ne_stuck fun _ _ stuck => ?_
    obtain ⟨place, node, frame, reaches, sticks⟩ := Code.reaches_sticks stuck
    obtain ⟨i, rfl, outside⟩ := sticks.exists_slot calls
    exact absurd (inside reaches) (Nat.not_lt.mpr outside)
  · exact (Callable.sound_call (d + 1)).unstuck (.compiled c) args (sound_compile h sound) ha

namespace Func

/-- Which numbers in the lists of a record are below ten, and what native code makes of a related
record. -/
def surveyed : Func :=
  let param (id : Nat) : Param := ⟨id, "p", .unknown⟩
  let position (index : Nat) : FieldId := ⟨⟨0⟩, index⟩
  let inner : Func := ⟨[param 1], .compare .lt (.arg (param 1)) (.const (.i64 10))⟩
  let outer : Func := ⟨[param 1], .map (.arg (param 1)) inner⟩
  let selector : Func := ⟨[param 2], .field (.arg (param 2)) (position 1)⟩
  let native : Mapping := ⟨0, ⟨[param 3], .arg (param 3)⟩, some (.failing 1 "unavailable")⟩
  ⟨[param 0], .record ⟨1⟩
    [.map (.field (.arg (param 0)) (position 0)) outer,
      .includeVia .compiled (.arg (param 0)) selector (.const (.mapping native)) .unknown]⟩

theorem sound_surveyed : surveyed.Sound := by
  have native : (Value.mapping ⟨0, ⟨[⟨3, "p", .unknown⟩], .arg ⟨3, "p", .unknown⟩⟩,
      some (.failing 1 "unavailable")⟩).Sound := by
    refine .mapping (Expr.constants_arg _) ?_
    rintro _ ⟨⟩
    exact (Compiled.sound_native 1).2.2 "unavailable"
  refine Expr.constants_record.mpr (List.forall_mem_cons.mpr ⟨?_, ?_⟩)
  · simpa [Expr.constants_arg] using Value.Sound.i64 10
  · rw [List.forall_mem_singleton, Expr.constants_iff]
    simpa [Expr.constants_arg] using native

/-- The code of the function: its own parameter is in slot 0, that of the outer lambda or of the
selector in slot 1 and that of the inner lambda in slot 2. -/
def surveyedCode : Compiled :=
  let position (index : Nat) : FieldId := ⟨⟨0⟩, index⟩
  ⟨1, .record
    [.map (.field (.slot 0) (position 0))
      (.map (.slot 1) (.compare .lt (.slot 2) (.const (.i64 10)))),
      .apply (.select (.slot 0) (.field (.slot 1) (position 1))) (.failing 1 "unavailable")]⟩

/-- A record with a number and a flag in a list. -/
def survey : Value := .record [.list [.list [.i64 3, .bool true]], .record []]

theorem sound_survey : survey.Sound := by
  refine .record (List.forall_mem_cons.mpr ⟨.list ?_, by simpa using .record (by simp)⟩)
  simpa using Value.Sound.list (by simpa using ⟨.i64 3, .bool true⟩)

/-- The flag is read in the last slot of a frame of three values. -/
theorem surveyed_reaches (call : Caller) : surveyedCode.body.Reaches call #[survey] [0, 1, 1, 0]
    (.slot 2) #[survey, .list [.i64 3, .bool true], .bool true] := by
  have list := @Code.Comes.lambda call #[survey] (.field (.slot 0) ⟨⟨0⟩, 0⟩)
    (.map (.slot 1) (.compare .lt (.slot 2) (.const (.i64 10)))) [] []
    (.list [.i64 3, .bool true]) [] _ _ rfl rfl
  have flag := @Code.Comes.lambda call #[survey, .list [.i64 3, .bool true]] (.slot 1)
    (.compare .lt (.slot 2) (.const (.i64 10))) [.i64 3] [] (.bool true) [.bool true] _ _ rfl rfl
  exact .comes (.first rfl) (.comes list (.comes flag (.comes (.first rfl) .here)))

/-- The run fails on the flag, which it reads where three parameters are in scope. -/
theorem surveyed_keeps_frames : surveyed.compile 2 = .ok surveyedCode ∧
    [survey].length = surveyed.arity ∧
    (∃ slots, surveyed.CompiledAt [0, 1, 1, 0] slots (.slot 2) 2 ∧ 3 = slots.length) ∧
    (∀ d, surveyedCode.call d [survey] = .fail (.evaluation (.unordered .bool .i64))) ∧
    ∀ d, surveyedCode.call d [survey] ≠ .stuck := by
  have compiled : surveyed.compile 2 = .ok surveyedCode := rfl
  have length : [survey].length = surveyed.arity := rfl
  obtain ⟨frames, _, unstuck⟩ := compiled_keeps_frames compiled length
  obtain ⟨⟨slots, scope⟩, size, _⟩ := frames (Callable.call 0) _ _ _ (surveyed_reaches _)
  exact ⟨compiled, length, ⟨slots, scope, size slots scope⟩, fun d => rfl,
    unstuck sound_surveyed (by simpa using sound_survey)⟩

end Func

end RecordMapping
