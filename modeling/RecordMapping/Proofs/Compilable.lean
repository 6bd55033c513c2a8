import RecordMapping.Proofs.CompiledForm
import RecordMapping.Proofs.Meaning
import RecordMapping.Proofs.References

/-!
# Which functions compile

A function compiles exactly when it reads no parameter but its own, each of its lambdas and
selectors takes one parameter, and each of its markers has a target with code. What a composer makes
of a function that compiles compiles as well, and nothing in it has to be resolved any more.

## Implementation notes

Compiling looks at every live operand, also in branches that no run ever takes, and never into a
mapping argument. So it is the parameters that are read that count, not those that are free. The two
are the same once no marker is left.
-/

namespace RecordMapping

namespace Expr

variable {target : MarkerKind → Expr → Outcome Compiled} {slots : List Nat} {e : Expr}

/-- There is code for the expression on a frame with the given slots. -/
def Compiles (target : MarkerKind → Expr → Outcome Compiled) (slots : List Nat) (e : Expr) : Prop :=
  ∃ code, e.compileWith target slots = .ok code

theorem exists_compileAllWith_iff (target : MarkerKind → Expr → Outcome Compiled)
    (slots : List Nat) (es : List Expr) :
    (∃ codes, compileAllWith target es slots = .ok codes) ↔ ∀ e ∈ es, e.Compiles target slots := by
  induction es with
  | nil => simp [compileAllWith]
  | cons e es ih =>
      rw [List.forall_mem_cons, ← ih]
      simp [compileAllWith, Outcome.bind_eq_ok_iff, Compiles]

/-- There is code for an expression exactly when there is code for each of its live operands, and
the expression itself is in order. -/
theorem compiles_step : e.Compiles target slots ↔
    (∀ p, e = .arg p → p.id ∈ slots) ∧ e.TakesOne ∧
      (∀ m, e.asMarker? = some m → ∃ c, target m.kind m.mapping = .ok c) ∧
      ∀ o ∈ e.live, o.expr.Compiles target (slots ++ o.bound.map Param.id) := by
  cases e with
  | arg p =>
      have found : (arg p).Compiles target slots ↔ p.id ∈ slots := by
        rw [Compiles, compileWith]
        cases h : lastSlot? slots p.id with
        | none => simp [Outcome.fail, (lastSlot?_eq_none_iff slots p.id).mp h]
        | some i => simp [List.mem_of_getElem? (getElem?_of_lastSlot? h)]
      simp [found, TakesOne, asMarker?]
  | const v => simp [Compiles, compileWith, TakesOne, asMarker?]
  | compare | cond | field | isNull =>
      simp [Compiles, compileWith, Outcome.bind_eq_ok_iff, TakesOne, asMarker?]
  | call callee args =>
      have all := exists_compileAllWith_iff target slots args
      simp [Compiles, compileWith, Outcome.bind_eq_ok_iff, TakesOne, asMarker?, all]
  | list items | record _ items =>
      have all := exists_compileAllWith_iff target slots items
      simp [Compiles, compileWith, Outcome.bind_eq_ok_iff, TakesOne, asMarker?, all]
  | includeEntity kind entity mapping ty =>
      simp [Compiles, compileWith, Outcome.bind_eq_ok_iff, TakesOne, asMarker?]
  | includeVia kind parent selector mapping ty =>
      obtain ⟨params, body⟩ := selector
      rcases params with _ | ⟨p, _ | ⟨_, _⟩⟩
      · simp [Compiles, compileWith, Outcome.bind_eq_ok_iff, TakesOne, Func.arity, Outcome.fail]
      · simp [Compiles, compileWith, Outcome.bind_eq_ok_iff, TakesOne, Func.arity, asMarker?]
      · simp [Compiles, compileWith, Outcome.bind_eq_ok_iff, TakesOne, Func.arity, Outcome.fail]
  | map base lambda =>
      obtain ⟨params, body⟩ := lambda
      rcases params with _ | ⟨p, _ | ⟨_, _⟩⟩
      · simp [Compiles, compileWith, TakesOne, Func.arity, Outcome.fail]
      · simp [Compiles, compileWith, Outcome.bind_eq_ok_iff, TakesOne, Func.arity, asMarker?]
      · simp [Compiles, compileWith, TakesOne, Func.arity, Outcome.fail]

/-- There is code for an expression exactly when it reads no parameter without a slot, each of its
lambdas and selectors takes one parameter and each of its markers has a target with code. -/
theorem compiles_iff : e.Compiles target slots ↔ (∀ x, e.Reads x → x ∈ slots) ∧ e.Unary ∧
    ∀ m, e.Marks m → ∃ c, target m.kind m.mapping = .ok c := by
  induction e using operand_induction generalizing slots with
  | step e ih =>
    have inner (o : Operand) (ho : o ∈ e.live) :=
      @ih o (live_subset ho) (slots ++ o.bound.map Param.id)
    rw [compiles_step]
    constructor
    · rintro ⟨arg, one, marker, operands⟩
      refine ⟨fun x hx => ?_, unary_iff.mpr ⟨one, fun o ho => ?_⟩, fun m hm => ?_⟩
      · rcases reads_iff.mp hx with ⟨p, rfl, rfl⟩ | ⟨o, ho, hb, hx⟩
        · exact arg p rfl
        · have hs := ((inner o ho).mp (operands o ho)).1 x hx
          simp only [List.mem_append, List.mem_map] at hs
          exact hs.resolve_right fun ⟨p, hp, hpx⟩ => hb p hp hpx
      · exact ((inner o ho).mp (operands o ho)).2.1
      · cases hm with
        | self => exact marker m (Marker.asMarker?_toExpr m)
        | operand ho hm => exact ((inner _ ho).mp (operands _ ho)).2.2 m hm
    · rintro ⟨reads, unary, marks⟩
      refine ⟨fun p hp => reads p.id (hp ▸ .arg rfl), (unary_iff.mp unary).1, fun m hm => ?_,
        fun o ho => (inner o ho).mpr ⟨fun x hx => ?_, unary.operand ho, fun m hm => ?_⟩⟩
      · obtain rfl := (Marker.asMarker?_eq_some_iff e m).mp hm
        exact marks m .self
      · simp only [List.mem_append, List.mem_map]
        by_cases hb : ∃ p ∈ o.bound, p.id = x
        · exact .inr hb
        · exact .inl (reads x (.operand ho (by simpa using hb) hx))
      · exact marks m (.operand ho hm)

/-- Without markers every operand is live. -/
theorem Flat.live {e : Expr} (h : e.Flat) : e.live = e.operands :=
  live_of_unmarked (flat_iff.mp h).1

theorem Flat.operand {e : Expr} (h : e.Flat) {o : Operand} (ho : o ∈ e.operands) : o.expr.Flat :=
  (flat_iff.mp h).2 o ho

theorem Flat.livePart {s e : Expr} (flat : e.Flat) (h : s.Part e) : s.LivePart e := by
  induction h with
  | self => exact .self
  | operand ho _ ih => exact .operand (flat.live ▸ ho) (ih (flat.operand ho))

theorem Flat.reads {x : Nat} {e : Expr} (flat : e.Flat) (h : e.Free x) : e.Reads x := by
  induction h with
  | arg h => exact .arg h
  | operand ho hb _ ih => exact .operand (flat.live ▸ ho) hb (ih (flat.operand ho))

theorem Flat.not_marks {e : Expr} (flat : e.Flat) (m : Marker) : ¬ e.Marks m := by
  have none_of {s : Expr} (h : s.LivePart e) : s.asMarker? = none := by
    induction h with
    | self => exact (flat_iff.mp flat).1
    | operand ho _ ih => exact ih (flat.operand (live_subset ho))
  intro h
  have hm := none_of h
  rw [Marker.asMarker?_toExpr] at hm
  cases hm

end Expr

namespace Func

/-- The function compiles within some depth. -/
def Compiles (f : Func) : Prop := ∃ depth code, f.compile depth = .ok code

/-- The code of a function is that of its body. -/
theorem compile_succ_iff {depth : Nat} {f : Func} : (∃ code, f.compile (depth + 1) = .ok code) ↔
    f.body.Compiles (fun kind mapping => Target.resolve kind (mapping.evalClosed depth) >>=
      Target.compileWith (Func.compile depth)) (f.params.map Param.id) := by
  simp only [compile, Outcome.bind_eq_ok_iff, Expr.Compiles]
  constructor
  · rintro ⟨_, body, hbody, _⟩
    exact ⟨body, hbody⟩
  · rintro ⟨body, hbody⟩
    exact ⟨_, body, hbody, rfl⟩

variable {f : Func}

theorem Compiles.closed (h : f.Compiles) : f.Closed := by
  obtain ⟨depth, code, h⟩ := h
  obtain ⟨k, body, rfl, rfl, hbody⟩ := compile_eq_ok h
  intro x hx
  simpa using (Expr.compiles_iff.mp ⟨body, hbody⟩).1 x hx

theorem Compiles.unary (h : f.Compiles) : f.body.Unary := by
  obtain ⟨depth, code, h⟩ := h
  obtain ⟨k, body, rfl, rfl, hbody⟩ := compile_eq_ok h
  exact (Expr.compiles_iff.mp ⟨body, hbody⟩).2.1

/-- The target of a marker in a function that compiles comes with its code or compiles itself. -/
theorem Compiles.target (h : f.Compiles) {m : Marker} (hm : f.body.Marks m) :
    ∃ t, m.mapping.RefersTo m.kind t ∧
      ((∃ m', t = .mapping m' ∧ m'.compiled ≠ none) ∨ t.function.Compiles) := by
  obtain ⟨depth, code, h⟩ := h
  obtain ⟨k, body, rfl, rfl, hbody⟩ := compile_eq_ok h
  obtain ⟨c, hc⟩ := (Expr.compiles_iff.mp ⟨body, hbody⟩).2.2 m hm
  obtain ⟨t, ht, hc⟩ := Outcome.bind_eq_ok_iff.mp hc
  refine ⟨t, ⟨k, ht⟩, ?_⟩
  obtain ⟨_, carried | ⟨g, interpreted, hg⟩⟩ := Target.compileWith_eq_ok hc
  · match t with
    | .func label g => cases carried
    | .mapping ⟨label, g, none⟩ => cases carried
    | .mapping ⟨label, g, some code⟩ => exact .inl ⟨_, rfl, nofun⟩
  · match t with
    | .func label g =>
        cases interpreted
        exact .inr ⟨k, c, hg⟩
    | .mapping ⟨label, g, none⟩ =>
        cases interpreted
        exact .inr ⟨k, c, hg⟩
    | .mapping ⟨label, g, some code⟩ => cases interpreted

/-- A function that compiles refers only to functions that compile, if the mappings that come with
code have such functions. -/
theorem Compiles.refersOnlyTo (h : f.Compiles)
    (supplied : ∀ m, f.body.References (.mapping m) → m.compiled ≠ none → m.func.Compiles) :
    f.body.RefersOnlyTo Compiles := by
  have settled {f : Func} (h : f.Compiles) : f.body.Settled := by
    intro m hm
    obtain ⟨t, ht, _⟩ := h.target hm
    exact ⟨t, ht⟩
  have compiles {f : Func} (h : f.Compiles)
      (supplied : ∀ m, f.body.References (.mapping m) → m.compiled ≠ none → m.func.Compiles)
      {m : Marker} (hm : f.body.Marks m) {t : Target} (ht : m.mapping.RefersTo m.kind t) :
      t.function.Compiles := by
    obtain ⟨t', ht', ⟨m', rfl, hc⟩ | ht''⟩ := h.target hm
    · cases ht'.unique ht
      exact supplied m' (.here hm ht) hc
    · exact ht'.unique ht ▸ ht''
  have all {e : Expr} {t : Target} (ht : e.References t) : ∀ f : Func, f.body = e → f.Compiles →
      (∀ m, f.body.References (.mapping m) → m.compiled ≠ none → m.func.Compiles) →
      t.function.Compiles := by
    induction ht with
    | here hm ht =>
        rintro f rfl h supplied
        exact compiles h supplied hm ht
    | there hm ht _ ih =>
        rintro f rfl h supplied
        exact ih _ rfl (compiles h supplied hm ht) fun m hr => supplied m (.there hm ht hr)
  refine ⟨settled h, fun t ht => ?_⟩
  have ht := all ht f rfl h supplied
  exact ⟨settled ht, ht⟩

end Func

namespace Composer

variable {c : Composer}

/-- The operands of the second list are those of the first one in turn: each binds the same
parameters, and the two are related on a workspace that the given one advances to. -/
def OperandsRelated (c : Composer) (P : Expr → Workspace → Expr → Prop) (w : Workspace)
    (os os' : List Operand) : Prop :=
  List.Forall₂ (fun o o' => o'.bound = o.bound ∧
    ∃ w', c.Advances w w' ∧ P o.expr w' o'.expr) os os'

namespace OperandsRelated

variable {P : Expr → Workspace → Expr → Prop} {w : Workspace} {os os' : List Operand}

theorem exists_left (h : OperandsRelated c P w os os') {o' : Operand} (ho' : o' ∈ os') :
    ∃ o ∈ os, o'.bound = o.bound ∧ ∃ w', c.Advances w w' ∧ P o.expr w' o'.expr := by
  induction h with
  | nil => cases ho'
  | @cons o₁ o₂ _ _ head _ ih =>
      rcases List.mem_cons.mp ho' with rfl | ho'
      · exact ⟨o₁, by simp, head⟩
      · obtain ⟨o, ho, related⟩ := ih ho'
        exact ⟨o, by simp [ho], related⟩

theorem of_threaded {es es' : List Expr} {w w' : Workspace}
    (h : Threaded (fun e w e' w' => ∃ _ : c.Expands e w e' w', P e w e') es w es' w')
    {w₀ : Workspace} (hw : c.Advances w₀ w) :
    OperandsRelated c P w₀ (es.map (Operand.mk [])) (es'.map (Operand.mk [])) := by
  induction h with
  | nil => exact .nil
  | cons head _ ih =>
      obtain ⟨expands, head⟩ := head
      exact .cons ⟨rfl, _, hw, head⟩ (ih (hw.trans expands.advances))

end OperandsRelated

/-- Induction on an expansion that does not tell the nodes apart: what is not a marker keeps its
form and expands operand by operand. -/
theorem Expands.operand_induction {P : Expr → Workspace → Expr → Prop}
    (inner : ∀ {e e' : Expr} {w}, e.asMarker? = none → (∀ p, e' = .arg p → e = .arg p) →
      (e.TakesOne → e'.TakesOne) → OperandsRelated c P w e.operands e'.operands → P e w e')
    (marker : ∀ {m : Marker} {depth e₁ e' w₁ w₂}, c.inlineOnce depth m w₁ = (.ok e₁, w₂) →
      P e₁ w₂ e' → P m.toExpr w₁ e') {e e' : Expr} {w w' : Workspace} (h : c.Expands e w e' w') :
    P e w e' := by
  have same (w : Workspace) : c.Advances w w := .refl w
  induction h using Expands.induct with
  | arg p w => exact inner rfl (fun _ h => h) (fun h => h) .nil
  | const v w => exact inner rfl nofun (fun h => h) .nil
  | compare op expandsLeft _ hl hr =>
      refine inner rfl nofun (fun h => h) (.cons ⟨rfl, _, same _, hl⟩ ?_)
      exact .cons ⟨rfl, _, expandsLeft.advances, hr⟩ .nil
  | call expandsCallee _ hf ha =>
      refine inner rfl nofun (fun h => h) (.cons ⟨rfl, _, same _, hf⟩ ?_)
      exact OperandsRelated.of_threaded ha expandsCallee.advances
  | cond expandsTest expandsYes _ ht hy hn =>
      refine inner rfl nofun (fun h => h) (.cons ⟨rfl, _, same _, ht⟩ ?_)
      refine .cons ⟨rfl, _, expandsTest.advances, hy⟩ (.cons ⟨rfl, _, ?_, hn⟩ .nil)
      exact expandsTest.advances.trans expandsYes.advances
  | field id _ hb => exact inner rfl nofun (fun h => h) (.cons ⟨rfl, _, same _, hb⟩ .nil)
  | marker m once _ rest => exact marker once rest
  | isNull negate _ he => exact inner rfl nofun (fun h => h) (.cons ⟨rfl, _, same _, he⟩ .nil)
  | list _ hs | record _ _ hs =>
      exact inner rfl nofun (fun h => h) (.of_threaded hs (same _))
  | map params expandsBase _ hl hb =>
      refine inner rfl nofun (fun h => h) (.cons ⟨rfl, _, same _, hl⟩ ?_)
      exact .cons ⟨rfl, _, expandsBase.advances, hb⟩ .nil

/-- An expansion reads what the expression reads, if the functions that it refers to read no
parameters but their own. -/
theorem Expands.reads {e e' : Expr} {w w' : Workspace} (h : c.Expands e w e' w')
    (refers : e.RefersOnlyTo Func.Closed) {x : Nat} (hx : e'.Reads x) : e.Reads x := by
  revert refers hx
  refine Expands.operand_induction
    (P := fun e _ e' => e.RefersOnlyTo Func.Closed → e'.Reads x → e.Reads x) ?inner ?marker h
  case inner =>
      intro e e' w unmarked arg one operands refers hx
      have live := Expr.live_of_unmarked unmarked
      rcases Expr.reads_iff.mp hx with ⟨p, hp, rfl⟩ | ⟨o', ho', hb, hx⟩
      · rw [arg p hp]
        exact .arg rfl
      · obtain ⟨o, ho, hbound, _, _, reads⟩ := operands.exists_left (Expr.live_subset ho')
        rw [← live] at ho
        exact .operand ho (hbound ▸ hb) (reads (refers.operand ho) hx)
  case marker =>
      intro m depth e₁ e' w₁ w₂ once rest refers hx
      have reads := rest (inlineOnce_refersOnlyTo once refers) hx
      exact inlineOnce_reads once (fun t ht => (refers.target ht).1) reads

/-- The lambdas of an expansion take one parameter, if those of the expression and of the functions
that it refers to do. -/
theorem Expands.unary {e e' : Expr} {w w' : Workspace} (h : c.Expands e w e' w')
    (refers : e.RefersOnlyTo fun f => f.body.Unary) (unary : e.Unary) : e'.Unary := by
  revert refers unary
  refine Expands.operand_induction
    (P := fun e _ e' => (e.RefersOnlyTo fun f => f.body.Unary) → e.Unary → e'.Unary)
    ?inner ?marker h
  case inner =>
      intro e e' w unmarked arg one operands refers unary
      have live := Expr.live_of_unmarked unmarked
      refine Expr.unary_iff.mpr ⟨one (Expr.unary_iff.mp unary).1, fun o' ho' => ?_⟩
      obtain ⟨o, ho, _, _, _, h⟩ := operands.exists_left (Expr.live_subset ho')
      rw [← live] at ho
      exact h (refers.operand ho) (unary.operand ho)
  case marker =>
      intro m depth e₁ e' w₁ w₂ once rest refers unary
      exact rest (inlineOnce_refersOnlyTo once refers)
        (inlineOnce_unary once unary fun t ht => (refers.target ht).1)

/-- What a composer makes of a function that compiles, and refers only to functions that compile,
has all its parameters bound and all its lambdas of one parameter, in every branch. -/
theorem composeFunc_scoped {depth : Nat} {f g : Func} {w w' : Workspace}
    (h : c.composeFunc depth f w = (.ok g, w')) (compiles : f.Compiles)
    (supplied : ∀ m, f.body.References (.mapping m) → m.compiled ≠ none → m.func.Compiles) :
    g.Closed ∧ g.body.Unary := by
  obtain ⟨params, expands⟩ := expands_of_composeFunc h
  have refers := compiles.refersOnlyTo supplied
  have reads {x : Nat} := expands.reads (x := x) (refers.mono fun f h => h.closed)
  have unary := expands.unary (refers.mono fun f h => h.unary) compiles.unary
  exact ⟨fun x hx => params ▸ compiles.closed x (reads hx), unary⟩

theorem compose_eq_ok {depth : Nat} {f : Func} {m : Mapping} {w w' : Workspace}
    (h : c.compose depth f w = (.ok m, w')) :
    ∃ code w₁, c.composeFunc depth f w = (.ok m.func, w₁) ∧ f.compile depth = .ok code ∧
      m.compiled = some code := by
  obtain ⟨g, w₁, hg, h⟩ := Stateful.bind_eq_ok_iff.mp h
  obtain ⟨code, w₂, hcode, h⟩ := Stateful.bind_eq_ok_iff.mp h
  obtain ⟨compiled, rfl⟩ := Stateful.lift_eq_ok_iff.mp hcode
  obtain ⟨label, w₃, _, h⟩ := Stateful.bind_eq_ok_iff.mp h
  obtain ⟨rfl, rfl⟩ := Stateful.pure_eq_ok_iff.mp h
  exact ⟨code, w₁, hg, compiled, rfl⟩

/-- The expression of a composed mapping stands on its own: it compiles, without following any
marker. In no branch does it refer to a parameter that is not bound, each of its lambdas takes one
parameter, and no marker is left in it. -/
theorem compose_compiles {depth : Nat} {f : Func} {m : Mapping} {w w' : Workspace}
    (h : c.compose depth f w = (.ok m, w'))
    (supplied : ∀ m', f.body.References (.mapping m') → m'.compiled ≠ none → m'.func.Compiles) :
    (∀ d, ∃ code, m.func.compile (d + 1) = .ok code) ∧
      (∀ x, m.func.body.Free x → ∃ p ∈ m.func.params, p.id = x) ∧
      m.func.body.Every Expr.TakesOne ∧ m.func.body.Flat := by
  obtain ⟨code, w₁, composed, compiled, _⟩ := compose_eq_ok h
  have flat := (expands_of_composeFunc composed).2.flat
  have ⟨closed, unary⟩ := composeFunc_scoped composed ⟨depth, code, compiled⟩ supplied
  refine ⟨fun d => ?_, fun x hx => closed x (flat.reads hx),
    fun s hs => unary s (flat.livePart hs), flat⟩
  refine Func.compile_succ_iff.mpr (Expr.compiles_iff.mpr ⟨fun x hx => ?_, unary, fun m hm => ?_⟩)
  · simpa using closed x hx
  · exact absurd hm (flat.not_marks m)

/-- A mapping to a list of one item, with its code. -/
def listed : Mapping :=
  let p : Param := ⟨2, "p", .unknown⟩
  ⟨0, ⟨[p], .list [.arg p]⟩, some ⟨1, .list [.slot 0]⟩⟩

/-- For each item of a list, a related record mapped by a mapping that comes with its code. -/
def coded : Func :=
  let param (id : Nat) : Param := ⟨id, "p", .unknown⟩
  let related : Expr := .field (.arg (param 1)) ⟨⟨0⟩, 1⟩
  ⟨[param 0], .map (.field (.arg (param 0)) ⟨⟨0⟩, 0⟩)
    ⟨[param 1], .includeEntity .compiled related (.const (.mapping listed)) .unknown⟩⟩

theorem coded_references {t : Target} (h : coded.body.References t) : t = .mapping listed := by
  have flat {e : Expr} (h : e.hasMarker = false) (m : Marker) : ¬ e.Marks m :=
    ((Expr.hasMarker_eq_false_iff_flat e).mp h).not_marks m
  have here {m : Marker} (hm : coded.body.Marks m) {t : Target} (ht : m.mapping.RefersTo m.kind t) :
      t = .mapping listed := by
    rcases Expr.marks_iff.mp hm with hm | ⟨o, ho, hm⟩
    · cases hm
    · simp only [coded, Expr.live, Expr.operands, List.mem_cons, List.not_mem_nil, or_false] at ho
      rcases ho with rfl | rfl
      · exact absurd hm (flat rfl m)
      · rcases Expr.marks_iff.mp hm with hm | ⟨o, ho, hm⟩
        · cases hm
          exact ht.unique ⟨0, rfl⟩
        · obtain rfl := List.mem_singleton.mp ho
          exact absurd hm (flat rfl m)
  cases h with
  | here hm ht => exact here hm ht
  | there hm ht h =>
      cases here hm ht
      cases h with
      | here hm _ | there hm _ _ => exact absurd hm (flat rfl _)

theorem coded_compiles : ∃ m w', keyed.compose 2 coded ⟨3, 1, {}, []⟩ = (.ok m, w') ∧
    (∀ d, ∃ code, m.func.compile (d + 1) = .ok code) ∧
      (∀ x, m.func.body.Free x → ∃ p ∈ m.func.params, p.id = x) ∧
      m.func.body.Every Expr.TakesOne ∧ m.func.body.Flat := by
  have composed : keyed.compose 2 coded ⟨3, 1, {}, []⟩ = (.ok _, _) := rfl
  refine ⟨_, _, composed, compose_compiles composed fun m' hr _ => ?_⟩
  cases coded_references hr
  exact ⟨1, _, rfl⟩

end Composer

end RecordMapping
