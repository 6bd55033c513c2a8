import RecordMapping.Proofs.Acyclic
import RecordMapping.Proofs.Compilable
import RecordMapping.Proofs.Termination

/-!
# Well-scoped functions

A function compiles exactly if it is well scoped: in no branch does it read a parameter that is not
bound, its lambdas and selectors take one parameter, and each of its markers has a target that takes
one argument and comes with code or is well scoped itself. If the mapping arguments that compiling
looks at can be evaluated to an end, compiling has an end as well, so a function that is not well
scoped is rejected with a fault.

## Implementation notes

The function of a target only counts if the target comes without code. So the functions to look at
are those that a function follows, and not all those that it refers to.

The depth that compiling needs is not known ahead. What holds of each marker from some depth on
holds of all markers of an expression from some depth on, since there are finitely many of them.
-/

namespace RecordMapping

/-- The number of arguments that a function or code takes. -/
def Callable.arity : Callable → Nat
  | .interpreted f => f.arity
  | .compiled c => c.arity

namespace Func

/-- A marker of the first function refers to the second one, which has to be compiled for it. -/
def Follows (f g : Func) : Prop :=
  ∃ m t, f.body.Marks m ∧ m.mapping.RefersTo m.kind t ∧ t.callable = .interpreted g

/-- The function reads no parameter but its own, outside of what its lambdas and selectors bind.
Each of these takes one parameter, and each marker has a target that takes one argument. The
functions of targets without code are well scoped as well. -/
inductive WellScoped : Func → Prop
  | intro {f : Func} (closed : f.Closed) (unary : f.body.Unary)
      (targets : ∀ m, f.body.Marks m →
        ∃ t, m.mapping.RefersTo m.kind t ∧ t.callable.arity = 1)
      (followed : ∀ g, f.Follows g → WellScoped g) : WellScoped f

/-- Evaluating the mapping argument of each marker ends, in the function and in those that it
follows. -/
inductive ArgumentsEnd : Func → Prop
  | intro {f : Func} (ends : ∀ m, f.body.Marks m → ∃ depth, (m.mapping.evalClosed depth).Ended)
      (followed : ∀ g, f.Follows g → ArgumentsEnd g) : ArgumentsEnd f

end Func

/-- A relation between outcomes that sequencing keeps, and in which results and faults are related
to themselves. -/
structure Outcome.Sequential (rel : ∀ {α : Type}, Outcome α → Outcome α → Prop) : Prop where
  ok : ∀ {α : Type} (a : α), rel (.ok a) (.ok a)
  fail : ∀ {α : Type} (kind : FaultKind), rel (.fail kind : Outcome α) (.fail kind)
  bind : ∀ {α β : Type} {x y : Outcome α} {f g : α → Outcome β}, rel x y →
    (∀ a, rel (f a) (g a)) → rel (x >>= f) (y >>= g)

theorem Agreement.sequential (R : Agreement) : Outcome.Sequential R.rel where
  ok _ := R.refl _
  fail _ := R.refl _
  bind := R.bind

theorem Outcome.sequential_ended : Outcome.Sequential fun x _ => x.Ended where
  ok a := .inl ⟨a, rfl⟩
  fail kind := .inr ⟨.root kind, rfl⟩
  bind hx h := hx.bind fun a _ => h a

namespace Target

variable {compile compile' : Func → Outcome Compiled} {t : Target}

/-- A target that comes with code has this code, if it takes one argument. -/
theorem compileWith_of_compiled {c : Compiled} (h : t.callable = .compiled c) :
    t.compileWith compile = if c.arity = 1 then .ok c else .fail (.arity 1 c.arity) := by
  match t with
  | .func label f => cases h
  | .mapping ⟨label, f, none⟩ => cases h
  | .mapping ⟨label, f, some c⟩ =>
      cases h
      rfl

theorem function_of_interpreted {g : Func} (h : t.callable = .interpreted g) : t.function = g := by
  match t with
  | .func label f =>
      cases h
      rfl
  | .mapping ⟨label, f, none⟩ =>
      cases h
      rfl
  | .mapping ⟨label, f, some c⟩ => cases h

/-- A target without code has the code of its function, if it takes one argument. -/
theorem compileWith_of_interpreted {g : Func} (h : t.callable = .interpreted g) :
    t.compileWith compile =
      compile g >>= fun c => if c.arity = 1 then return c else .fail (.arity 1 c.arity) := by
  match t with
  | .func label f =>
      cases h
      rfl
  | .mapping ⟨label, f, none⟩ =>
      cases h
      rfl
  | .mapping ⟨label, f, some c⟩ => cases h

/-- Two ways of compiling functions give related outcomes for a target if they do for its function,
in case that has to be compiled. -/
theorem compileWith_related {rel : ∀ {α : Type}, Outcome α → Outcome α → Prop}
    (sequential : Outcome.Sequential rel) (t : Target)
    (h : ∀ g, t.callable = .interpreted g → rel (compile g) (compile' g)) :
    rel (t.compileWith compile) (t.compileWith compile') := by
  have checked (c : Compiled) :
      rel (if c.arity = 1 then .ok c else .fail (.arity 1 c.arity))
        (if c.arity = 1 then .ok c else .fail (.arity 1 c.arity)) := by
    split
    · exact sequential.ok c
    · exact sequential.fail _
  cases ht : t.callable with
  | compiled c =>
      rw [compileWith_of_compiled ht, compileWith_of_compiled ht]
      exact checked c
  | interpreted g =>
      rw [compileWith_of_interpreted ht, compileWith_of_interpreted ht]
      exact sequential.bind (h g ht) checked

/-- Finding the code of a target ends if compiling its function does, in case that is needed. -/
theorem ended_compileWith (h : ∀ g, t.callable = .interpreted g → (compile g).Ended) :
    (t.compileWith compile).Ended :=
  @compileWith_related compile compile _ Outcome.sequential_ended t h

/-- There is code for a target exactly if it takes one argument and its function compiles, unless
it comes with code. -/
theorem exists_code_iff : (∃ c, Yields (fun d => t.compileWith (Func.compile d)) c) ↔
    t.callable.arity = 1 ∧ ∀ g, t.callable = .interpreted g → g.Compiles := by
  cases ht : t.callable with
  | compiled c =>
      simp only [compileWith_of_compiled ht, Callable.arity]
      by_cases one : c.arity = 1 <;> simp [one, Outcome.fail]
  | interpreted g =>
      simp only [compileWith_of_interpreted ht, Callable.interpreted.injEq, forall_eq']
      constructor
      · rintro ⟨_, d, h⟩
        obtain ⟨c, hc, h⟩ := Outcome.bind_eq_ok_iff.mp h
        by_cases one : c.arity = 1
        · exact ⟨(Func.arity_of_compile hc).symm.trans one, d, c, hc⟩
        · simp [one, Outcome.fail] at h
      · rintro ⟨one, d, c, hc⟩
        exact ⟨c, d, by simp [hc, (Func.arity_of_compile hc).trans one]⟩

end Target

namespace Expr

theorem LivePart.within {s e : Expr} (h : s.LivePart e) : s.Within e := by
  induction h with
  | self => exact .self
  | operand ho _ ih => exact .operand (live_subset ho) ih

section Targets

variable {rel : ∀ {α : Type}, Outcome α → Outcome α → Prop} (sequential : Outcome.Sequential rel)
  {target target' : MarkerKind → Expr → Outcome Compiled} {slots : List Nat} {e : Expr}

include sequential

theorem compileAllWith_related {es : List Expr}
    (each : ∀ e ∈ es, rel (e.compileWith target slots) (e.compileWith target' slots)) :
    rel (compileAllWith target es slots) (compileAllWith target' es slots) := by
  induction es with
  | nil => exact sequential.ok _
  | cons e es ih =>
      apply sequential.bind (each e (by simp))
      intro code
      exact sequential.bind (ih fun e he => each e (by simp [he])) fun codes => sequential.ok _

/-- Two ways of finding the code of targets give related outcomes for an expression if they do for
each of its markers. -/
theorem compileWith_related
    (h : ∀ m, e.Marks m → rel (target m.kind m.mapping) (target' m.kind m.mapping)) :
    rel (e.compileWith target slots) (e.compileWith target' slots) := by
  have live {e : Expr}
      (h : ∀ m, e.Marks m → rel (target m.kind m.mapping) (target' m.kind m.mapping))
      (o : Operand) (ho : o ∈ e.live) (m : Marker) (hm : o.expr.Marks m) :=
    h m (.operand ho hm)
  induction e generalizing slots with
  | arg p =>
      rw [compileWith, compileWith]
      split
      · exact sequential.ok _
      · exact sequential.fail _
  | const v => exact sequential.ok _
  | compare op left right ihl ihr =>
      apply sequential.bind (ihl (live h ⟨[], left⟩ (by simp)))
      intro l
      apply sequential.bind (ihr (live h ⟨[], right⟩ (by simp)))
      exact fun r => sequential.ok _
  | call callee args ihf iha =>
      apply sequential.bind (ihf (live h ⟨[], callee⟩ (by simp)))
      intro f
      apply sequential.bind
      · apply compileAllWith_related sequential
        exact fun a ha => iha a ha (live h ⟨[], a⟩ (by simp [ha]))
      · exact fun as => sequential.ok _
  | cond test yes no iht ihy ihn =>
      apply sequential.bind (iht (live h ⟨[], test⟩ (by simp)))
      intro t
      apply sequential.bind (ihy (live h ⟨[], yes⟩ (by simp)))
      intro y
      apply sequential.bind (ihn (live h ⟨[], no⟩ (by simp)))
      exact fun n => sequential.ok _
  | field base id ih =>
      apply sequential.bind (ih (live h ⟨[], base⟩ (by simp)))
      exact fun b => sequential.ok _
  | includeEntity kind entity mapping ty ihe =>
      apply sequential.bind (h ⟨kind, .entity entity, mapping, ty⟩ .self)
      intro t
      apply sequential.bind (ihe (live h ⟨[], entity⟩ (by simp)))
      exact fun e => sequential.ok _
  | includeVia kind parent params body mapping ty ihp ihb =>
      apply sequential.bind (h ⟨kind, .navigation parent ⟨params, body⟩, mapping, ty⟩ .self)
      intro t
      rcases params with _ | ⟨p, _ | ⟨_, _⟩⟩
      · exact sequential.fail _
      · apply sequential.bind (ihp (live h ⟨[], parent⟩ (by simp)))
        intro l
        apply sequential.bind (ihb (live h ⟨[p], body⟩ (by simp)))
        exact fun s => sequential.ok _
      · exact sequential.fail _
  | isNull negate operand ih =>
      apply sequential.bind (ih (live h ⟨[], operand⟩ (by simp)))
      exact fun e => sequential.ok _
  | list items ih =>
      apply sequential.bind
      · apply compileAllWith_related sequential
        exact fun e he => ih e he (live h ⟨[], e⟩ (by simp [he]))
      · exact fun es => sequential.ok _
  | map base params body ihl ihb =>
      rcases params with _ | ⟨p, _ | ⟨_, _⟩⟩
      · exact sequential.fail _
      · apply sequential.bind (ihl (live h ⟨[], base⟩ (by simp)))
        intro l
        apply sequential.bind (ihb (live h ⟨[p], body⟩ (by simp)))
        exact fun b => sequential.ok _
      · exact sequential.fail _
  | record model fields ih =>
      apply sequential.bind
      · apply compileAllWith_related sequential
        exact fun e he => ih e he (live h ⟨[], e⟩ (by simp [he]))
      · exact fun es => sequential.ok _

end Targets

/-- Compiling an expression ends if finding the code for each of its markers does. -/
theorem ended_compileWith {target : MarkerKind → Expr → Outcome Compiled} {slots : List Nat}
    {e : Expr} (h : ∀ m, e.Marks m → (target m.kind m.mapping).Ended) :
    (e.compileWith target slots).Ended :=
  @compileWith_related _ Outcome.sequential_ended target target slots e h

/-- What each marker of an expression has from some depth on, all of them have from some depth
on. -/
theorem exists_depth_of_marks {P : Nat → Marker → Prop}
    (later : ∀ {m d d'}, d ≤ d' → P d m → P d' m) (e : Expr) (h : ∀ m, e.Marks m → ∃ d, P d m) :
    ∃ d, ∀ m, e.Marks m → P d m := by
  induction e using operand_induction with
  | step e ih =>
    obtain ⟨d, hd⟩ := exists_forall_mem_of_mono (P := fun d o => ∀ m, o.expr.Marks m → P d m)
      (fun hd h m hm => later hd (h m hm)) fun o (ho : o ∈ e.live) =>
        ih o (live_subset ho) fun m hm => h m (.operand ho hm)
    cases hm : e.asMarker? with
    | none =>
        refine ⟨d, fun m marks => ?_⟩
        rcases marks_iff.mp marks with here | ⟨o, ho, marks⟩
        · cases hm.symm.trans here
        · exact hd o ho m marks
    | some m₀ =>
        obtain ⟨d₀, h₀⟩ := h m₀ (marks_iff.mpr (.inl hm))
        refine ⟨max d d₀, fun m marks => ?_⟩
        rcases marks_iff.mp marks with here | ⟨o, ho, marks⟩
        · cases hm.symm.trans here
          exact later (Nat.le_max_right d d₀) h₀
        · exact later (Nat.le_max_left d d₀) (hd o ho m marks)

end Expr

/-- Compiling keeps its end within a greater depth. -/
theorem Func.steady_compile (f : Func) : Steady fun d => f.compile d := by
  intro d d' hd
  induction d generalizing f d' with
  | zero => exact .inl rfl
  | succ d ih =>
      obtain ⟨k, rfl⟩ : ∃ k, d' = k + 1 := ⟨d' - 1, by omega⟩
      have hd : d ≤ k := by omega
      apply Agreement.deeper.bind
      · apply Expr.compileWith_related Agreement.deeper.sequential
        intro m _
        apply Agreement.deeper.bind (Expr.steady_resolve m.kind m.mapping hd)
        exact fun t => t.compileWith_related Agreement.deeper.sequential fun g _ => ih g hd
      · exact fun body => Agreement.deeper.refl _

theorem Target.steady_compileWith (t : Target) :
    Steady fun d => t.compileWith (Func.compile d) :=
  fun _ _ hd => t.compileWith_related Agreement.deeper.sequential fun g _ => g.steady_compile hd

namespace Marker

/-- The code of what the marker refers to. -/
def targetCode (depth : Nat) (m : Marker) : Outcome Compiled :=
  m.resolve depth >>= Target.compileWith (Func.compile depth)

theorem steady_targetCode (m : Marker) : Steady fun d => m.targetCode d :=
  (Expr.steady_resolve m.kind m.mapping).bind Target.steady_compileWith

/-- There is code for what a marker refers to exactly if that is a target that takes one argument,
and its function compiles, unless it comes with code. -/
theorem exists_targetCode_iff {m : Marker} : (∃ c, Yields (fun d => m.targetCode d) c) ↔
    ∃ t, m.mapping.RefersTo m.kind t ∧ t.callable.arity = 1 ∧
      ∀ g, t.callable = .interpreted g → g.Compiles := by
  have bind (c : Compiled) : Yields (fun d => m.targetCode d) c ↔
      ∃ t, m.mapping.RefersTo m.kind t ∧ Yields (fun d => t.compileWith (Func.compile d)) c :=
    Yields.bind_iff (Expr.steady_resolve m.kind m.mapping) Target.steady_compileWith
  simp only [bind, ← Target.exists_code_iff]
  constructor
  · rintro ⟨c, t, ht, hc⟩
    exact ⟨t, ht, c, hc⟩
  · rintro ⟨t, ht, c, hc⟩
    exact ⟨c, t, ht, hc⟩

/-- Finding the code of what a marker refers to ends if evaluating the mapping argument does, and
compiling the function of the target, in case it has no code. -/
theorem exists_ended_targetCode {m : Marker} (ends : ∃ d, (m.mapping.evalClosed d).Ended)
    (target : ∀ t g, m.mapping.RefersTo m.kind t → t.callable = .interpreted g →
      ∃ d, (g.compile d).Ended) : ∃ d, (m.targetCode d).Ended := by
  obtain ⟨d, hd⟩ := ends
  rcases Target.ended_resolve hd m.kind with ⟨t, ht⟩ | ⟨fault, hf⟩
  · have enough : ∃ k, ∀ g, t.callable = .interpreted g → (g.compile k).Ended := by
      cases interpreted : t.callable with
      | compiled c => exact ⟨0, nofun⟩
      | interpreted g =>
          obtain ⟨k, hk⟩ := target t g ⟨d, ht⟩ interpreted
          exact ⟨k, fun _ same => by cases same; exact hk⟩
    obtain ⟨k, hk⟩ := enough
    refine ⟨max d k, ?_⟩
    rw [targetCode, resolve, Target.resolve_of_le (Nat.le_max_left d k) ht]
    apply Target.ended_compileWith
    exact fun g interpreted =>
      (hk g interpreted).deeper (g.steady_compile (Nat.le_max_right d k))
  · exact ⟨d, .inr ⟨fault, by rw [targetCode, resolve, hf]; rfl⟩⟩

end Marker

namespace Func

variable {f g : Func}

/-- A function is larger than those that it follows. -/
theorem Follows.sizeOf_lt (h : f.Follows g) : sizeOf g.body < sizeOf f.body := by
  obtain ⟨m, t, hm, ht, interpreted⟩ := h
  rw [← Target.function_of_interpreted interpreted]
  exact Nat.lt_trans ht.sizeOf_lt hm.sizeOf_mapping_lt

/-- What follows for a function from those that it follows holds of every function. -/
theorem followed_induction {P : Func → Prop} (step : ∀ f : Func, (∀ g, f.Follows g → P g) → P f)
    (f : Func) : P f :=
  step f fun g _ => followed_induction step g
termination_by sizeOf f.body
decreasing_by exact Follows.sizeOf_lt ‹_›

/-- A function compiles exactly if it reads no parameter but its own, its lambdas and selectors take
one parameter, each of its markers has a target that takes one argument, and the functions that it
follows compile. -/
theorem compiles_iff : f.Compiles ↔ f.Closed ∧ f.body.Unary ∧
    (∀ m, f.body.Marks m → ∃ t, m.mapping.RefersTo m.kind t ∧ t.callable.arity = 1) ∧
      ∀ g, f.Follows g → g.Compiles := by
  have scope : (∀ x, f.body.Reads x → x ∈ f.params.map Param.id) ↔ f.Closed := by simp [Closed]
  have atDepth (d : Nat) : (∃ code, f.compile (d + 1) = .ok code) ↔
      f.Closed ∧ f.body.Unary ∧ ∀ m, f.body.Marks m → ∃ c, m.targetCode d = .ok c := by
    rw [compile_succ_iff, Expr.compiles_iff, scope]
    rfl
  constructor
  · rintro ⟨_ | d, h⟩
    · simp [compile] at h
    · obtain ⟨closed, unary, codes⟩ := (atDepth d).mp h
      have target {m : Marker} (hm : f.body.Marks m) : ∃ t, m.mapping.RefersTo m.kind t ∧
          t.callable.arity = 1 ∧ ∀ g, t.callable = .interpreted g → g.Compiles := by
        obtain ⟨c, hc⟩ := codes m hm
        exact Marker.exists_targetCode_iff.mp ⟨c, d, hc⟩
      refine ⟨closed, unary, fun m hm => ?_, ?_⟩
      · obtain ⟨t, ht, one, _⟩ := target hm
        exact ⟨t, ht, one⟩
      · rintro g ⟨m, t, hm, ht, interpreted⟩
        obtain ⟨t', ht', _, compiles⟩ := target hm
        exact compiles g (ht'.unique ht ▸ interpreted)
  · rintro ⟨closed, unary, targets, followed⟩
    have each (m : Marker) (hm : f.body.Marks m) : ∃ d c, m.targetCode d = .ok c := by
      obtain ⟨t, ht, one⟩ := targets m hm
      obtain ⟨c, d, hc⟩ := Marker.exists_targetCode_iff.mpr
        ⟨t, ht, one, fun g interpreted => followed g ⟨m, t, hm, ht, interpreted⟩⟩
      exact ⟨d, c, hc⟩
    have later {m : Marker} {d d' : Nat} (hd : d ≤ d') (h : ∃ c, m.targetCode d = .ok c) :
        ∃ c, m.targetCode d' = .ok c := by
      obtain ⟨c, hc⟩ := h
      have same := Agreement.eq_of_deeper (m.steady_targetCode hd) (by simp [hc])
      exact ⟨c, same.trans hc⟩
    obtain ⟨d, codes⟩ :=
      f.body.exists_depth_of_marks (P := fun d m => ∃ c, m.targetCode d = .ok c) later each
    exact ⟨d + 1, (atDepth d).mpr ⟨closed, unary, codes⟩⟩

/-- A function compiles exactly if it is well scoped. -/
theorem compiles_iff_wellScoped : f.Compiles ↔ f.WellScoped := by
  constructor
  · intro h
    -- The functions that are followed are smaller, so the induction is on them and not on a depth.
    induction f using followed_induction with
    | step f ih =>
        obtain ⟨closed, unary, targets, followed⟩ := compiles_iff.mp h
        exact .intro closed unary targets fun g hg => ih g hg (followed g hg)
  · intro h
    induction h with
    | intro closed unary targets _ ih => exact compiles_iff.mpr ⟨closed, unary, targets, ih⟩

/-- Compiling ends if evaluating the mapping arguments does. -/
theorem ArgumentsEnd.exists_ended (h : f.ArgumentsEnd) : ∃ depth, (f.compile depth).Ended := by
  induction h with
  | @intro f ends _ ih =>
      have each (m : Marker) (hm : f.body.Marks m) : ∃ d, (m.targetCode d).Ended :=
        Marker.exists_ended_targetCode (ends m hm) fun t g ht interpreted =>
          ih g ⟨m, t, hm, ht, interpreted⟩
      obtain ⟨d, codes⟩ := f.body.exists_depth_of_marks (P := fun d m => (m.targetCode d).Ended)
        (fun {m d d'} hd h => h.deeper (m.steady_targetCode hd)) each
      refine ⟨d + 1, ?_⟩
      apply Outcome.Ended.bind
      · exact Expr.ended_compileWith codes
      · exact fun body _ => .inl ⟨_, rfl⟩

/-- If evaluating the mapping arguments ends, compiling a function ends from some depth on, and it
gives code exactly if the function is well scoped. -/
theorem compile_accepts_wellScoped (ends : f.ArgumentsEnd) : ∃ depth, ∀ d, depth ≤ d →
    (f.compile d).Ended ∧ ((∃ code, f.compile d = .ok code) ↔ f.WellScoped) := by
  obtain ⟨depth, ended⟩ := ends.exists_ended
  refine ⟨depth, fun d hd => ?_⟩
  have ended := ended.deeper (f.steady_compile hd)
  refine ⟨ended, ?_⟩
  rw [← compiles_iff_wellScoped]
  constructor
  · exact fun h => ⟨d, h⟩
  · rintro ⟨d', code, h⟩
    rcases ended with accepted | ⟨fault, rejected⟩
    · exact accepted
    · have ends : Ends (fun d => f.compile d) (.ok code) := ⟨nofun, d', h⟩
      have ends' : Ends (fun d => f.compile d) (.fault fault) := ⟨nofun, d, rejected⟩
      cases ends.unique f.steady_compile ends'

/-- A function that is self-contained follows only functions that are. -/
theorem SelfContained.followed (h : f.SelfContained) (hg : f.Follows g) : g.SelfContained := by
  obtain ⟨m, t, hm, ht, interpreted⟩ := hg
  have contained := h _ hm.within m (Marker.asMarker?_toExpr m)
  have inside : t.function.body.Within f.body :=
    (contained.nested t ht).body_within.trans
      (.trans (.operand (Expr.mapping_mem_operands m) .self) hm.within)
  rw [← Target.function_of_interpreted interpreted]
  exact h.within inside

/-- Evaluating the mapping arguments of a self-contained function ends. -/
theorem SelfContained.argumentsEnd (h : f.SelfContained) : f.ArgumentsEnd := by
  induction f using followed_induction with
  | step f ih =>
      refine .intro (fun m hm => ?_) fun g hg => ih g hg (h.followed hg)
      exact (h _ hm.within m (Marker.asMarker?_toExpr m)).ends

end Func

namespace Composer

theorem chained_accepted : chained.ArgumentsEnd ∧ chained.WellScoped ∧
    ∃ depth, ∀ d, depth ≤ d →
      (chained.compile d).Ended ∧ ((∃ code, chained.compile d = .ok code) ↔ chained.WellScoped) := by
  have contained : chained.SelfContained := by
    apply chained_throughout
    · exact fun p _ m hm => by cases hm
    · intro e _ constant m hm
      obtain ⟨v, hv⟩ := constant m hm
      exact Marker.selfContained_of_const hv
  have wellScoped : chained.WellScoped := Func.compiles_iff_wellScoped.mp ⟨3, _, rfl⟩
  have ends := contained.argumentsEnd
  exact ⟨ends, wellScoped, Func.compile_accepts_wellScoped ends⟩

end Composer

end RecordMapping
