import RecordMapping.Proofs.RenamedBinders
import RecordMapping.Proofs.StagedBinding

/-!
# Runs of bindings

Functions are bound to expressions any number of times, and what comes out may be bound again or
put in the place of a parameter. Every binder of a bound function's own body is renamed on the way,
to an identity that nothing has that was there before. So no two binders that come from such bodies
have one identity, neither in one result nor in two of them.

## Implementation notes

What is made outside of binding only uses identities that were given out before. That holds of
results as well, so it is an invariant of everything that there is, in the functions and the
mappings that it holds as constants too.
-/

namespace RecordMapping

/-- A call that bound a function, with all that there was before. -/
structure BindCall where
  functions : List Func
  exprs : List Expr
  func : Func
  replacements : List (Option Expr)
  start : Nat
  body : Expr
  finish : Nat

namespace BindCall

/-- At a place and a position, the function's own body has the first binder and the result has the
second one. -/
def Renames (c : BindCall) (place : List Nat) (i : Nat) (p q : Param) : Prop :=
  Operand.binder? ⟨[], c.func.body⟩ place i = some p ∧
    Operand.binder? ⟨[], c.body⟩ place i = some q

/-- The call renamed the binders of the function's own body and left everything else alone. -/
structure Faithful (c : BindCall) : Prop where
  /-- The parameters that stay open are the same ones in the same order. -/
  openParams : c.func.bind c.replacements c.start = .ok
    (⟨((c.func.params.zip c.replacements).filter fun pr => pr.2.isNone).map Prod.fst, c.body⟩,
      c.finish)
  /-- Binding for the body alone gives the same one. -/
  bindBody : c.func.bindBody c.replacements c.start = .ok (c.body, c.finish)
  /-- A binder of the function's own body keeps its place, its position, its name and its type. -/
  kept : ∀ place i p, Operand.binder? ⟨[], c.func.body⟩ place i = some p →
    ∃ q, c.Renames place i p q ∧ q.name = p.name ∧ q.ty = p.ty
  /-- It has an identity that stands nowhere in what there was before. -/
  new : ∀ place i p q, c.Renames place i p q →
    (∀ f ∈ c.functions, ¬ f.Mentions q.id) ∧ ∀ e ∈ c.exprs, ¬ e.Mentions q.id
  /-- No two of them have the same one. -/
  distinct : ∀ place place' i i' p p' q q', c.Renames place i p q → c.Renames place' i' p' q' →
    q.id = q'.id → place = place' ∧ i = i'
  /-- It binds the references that it did before. -/
  references : ∀ place i p q, c.Renames place i p q → ∀ reference,
    Operand.Binds ⟨[], c.body⟩ place i reference ↔
      Operand.Binds ⟨[], c.func.body⟩ place i reference
  /-- All other operands of the result, and so all other binders, stand in a replacement. -/
  others : ∀ place s, Operand.below? ⟨[], c.body⟩ place = some s →
    (∃ own, Operand.below? ⟨[], c.func.body⟩ place = some own ∧
      s.bound.length = own.bound.length) ∨
    ∃ p r outer rest, (p, some r) ∈ c.func.params.zip c.replacements ∧ place = outer ++ rest ∧
      rest ≠ [] ∧ c.func.body.FreeAt p.id outer ∧ Operand.below? ⟨[], r⟩ rest = some s

/-- A function was bound when there were these functions and expressions, all of them made
before. -/
structure Valid (c : BindCall) : Prop where
  func : c.func ∈ c.functions
  replacements : ∀ r, some r ∈ c.replacements → r ∈ c.exprs
  functionsMade : ∀ f ∈ c.functions, f.MadeBefore c.start
  exprsMade : ∀ e ∈ c.exprs, e.MadeBefore c.start
  length : c.replacements.length = c.func.params.length
  result : c.func.body.instantiate (.ofParams .empty c.func.params c.replacements) c.start =
    (c.body, c.finish)

end BindCall

/-- What stands for a parameter is one of its replacements. -/
theorem Replacement.mem_zip_of_ofParams {params : List Param} {rs : List (Option Expr)}
    {replacement : Replacement} {x : Nat} {r : Expr}
    (h : ofParams replacement params rs x = some r) :
    (∃ p, (p, some r) ∈ params.zip rs ∧ p.id = x) ∨ replacement x = some r := by
  fun_induction ofParams replacement params rs with
  | case1 replacement p ps e rs ih =>
      rcases ih h with ⟨q, hq, hx⟩ | set
      · exact .inl ⟨q, by simp [hq], hx⟩
      · by_cases hx : x = p.id
        · subst hx
          simp only [set_same, Option.some.injEq] at set
          exact .inl ⟨p, by simp [set], rfl⟩
        · exact .inr ((replacement.set_other hx e).symm.trans set)
  | case2 replacement p ps rs ih =>
      rcases ih h with ⟨q, hq, hx⟩ | before
      · exact .inl ⟨q, by simp [hq], hx⟩
      · exact .inr before
  | case3 => exact .inr h

/-- The open parameters are those without a replacement. -/
theorem Func.openParams_eq (params : List Param) (rs : List (Option Expr)) :
    openParams params rs = ((params.zip rs).filter fun pr => pr.2.isNone).map Prod.fst := by
  induction params generalizing rs with
  | nil => simp [openParams]
  | cons p ps ih =>
      rcases rs with _ | ⟨_ | r, rs⟩
      · simp [openParams]
      · simp [openParams, ih]
      · simp [openParams, ih]

namespace BindCall

variable {c : BindCall}

namespace Valid

theorem instance_eq (h : c.Valid) : ((⟨[], c.func.body⟩ : Operand).instantiate
    (.ofParams .empty c.func.params c.replacements) c.start) = (⟨[], c.body⟩, c.finish) := by
  simp [Operand.instantiate, freshen, h.result]

/-- The identities of renamed binders are given out during the call. -/
theorem bounds (h : c.Valid) {place : List Nat} {i : Nat} {p q : Param}
    (renames : c.Renames place i p q) : c.start ≤ q.id ∧ q.id < c.finish := by
  obtain ⟨x, at_, le, lt⟩ := Operand.binder?_instantiate renames.1
    (.ofParams .empty c.func.params c.replacements) c.start
  rw [h.instance_eq] at at_ lt
  cases at_.symm.trans renames.2
  exact ⟨le, lt⟩

theorem older (h : c.Valid) :
    (Replacement.ofParams .empty c.func.params c.replacements).Older c.start := by
  intro x r hr y hy
  rcases Replacement.mem_zip_of_ofParams hr with ⟨p, hp, -⟩ | none
  · exact h.exprsMade r (h.replacements r (List.of_mem_zip hp).2) y hy.mentions
  · cases none

theorem faithful (h : c.Valid) : c.Faithful where
  openParams := by
    rw [Func.bind_eq_ok h.length, h.result, Func.openParams_eq]
  bindBody := by
    simp [Func.bindBody, Func.bind_eq_ok h.length, h.result]
  kept place i p hp := by
    obtain ⟨x, at_, -, -⟩ := Operand.binder?_instantiate hp
      (.ofParams .empty c.func.params c.replacements) c.start
    rw [h.instance_eq] at at_
    exact ⟨_, ⟨hp, at_⟩, rfl, rfl⟩
  new place i p q renames := by
    have new := (h.bounds renames).1
    refine ⟨fun f hf mentions => ?_, fun e he mentions => ?_⟩
    · have := h.functionsMade f hf q.id mentions
      omega
    · have := h.exprsMade e he q.id mentions
      omega
  distinct place place' i i' p p' q q' renames renames' same := by
    have at_ := renames.2
    have at_' := renames'.2
    rw [show (⟨[], c.body⟩ : Operand) = _ from (congrArg Prod.fst h.instance_eq).symm] at at_ at_'
    exact Operand.binder?_instantiate_injective renames.1 renames'.1 at_ at_' same
  references place i p q renames reference := by
    obtain ⟨inner, below, -⟩ := Option.bind_eq_some_iff.mp renames.1
    have made := (Func.madeBefore_iff.mp (h.functionsMade c.func h.func)).2
    have iff := Operand.binds_instantiate_iff below made h.older i reference
    rwa [h.instance_eq] at iff
  others place s hs := by
    have hs' : ((⟨[], c.func.body⟩ : Operand).instantiate
        (.ofParams .empty c.func.params c.replacements) c.start).1.below? place = some s := by
      rw [h.instance_eq]
      exact hs
    rcases Operand.below?_of_instantiate hs' with
      own | ⟨x, r, outer, rest, rfl, deep, free, hr, at_⟩
    · exact .inl own
    · rcases Replacement.mem_zip_of_ofParams hr with ⟨p, hp, rfl⟩ | none
      · exact .inr ⟨p, r, outer, rest, hp, rfl, deep, free, at_⟩
      · cases none

end Valid

end BindCall

/-- What a program comes to that binds functions: the next unused identity, the functions and the
expressions that there are, and the calls, the latest one first. -/
inductive BindRun : Nat → List Func → List Expr → List BindCall → Prop
  | start (next : Nat) : BindRun next [] [] []
  /-- A parameter is made. -/
  | param {next functions exprs calls} (h : BindRun next functions exprs calls) :
      BindRun (next + 1) functions exprs calls
  /-- A function is made from identities that were given out. -/
  | func {next functions exprs calls} (h : BindRun next functions exprs calls) {f : Func}
      (made : f.MadeBefore next) : BindRun next (f :: functions) exprs calls
  /-- An expression is made from identities that were given out. -/
  | expr {next functions exprs calls} (h : BindRun next functions exprs calls) {e : Expr}
      (made : e.MadeBefore next) : BindRun next functions (e :: exprs) calls
  | bind {next functions exprs calls f rs g next'} (h : BindRun next functions exprs calls)
      (hf : f ∈ functions) (hrs : ∀ r, some r ∈ rs → r ∈ exprs)
      (bound : f.bind rs next = .ok (g, next')) :
      BindRun next' (g :: functions) (g.body :: exprs)
        (⟨functions, exprs, f, rs, next, g.body, next'⟩ :: calls)
  | bindBody {next functions exprs calls f rs body next'}
      (h : BindRun next functions exprs calls)
      (hf : f ∈ functions) (hrs : ∀ r, some r ∈ rs → r ∈ exprs)
      (bound : f.bindBody rs next = .ok (body, next')) :
      BindRun next' functions (body :: exprs)
        (⟨functions, exprs, f, rs, next, body, next'⟩ :: calls)

/-- What a successful call gives. -/
theorem Func.eq_of_bind {f g : Func} {rs : List (Option Expr)} {next next' : Nat}
    (h : f.bind rs next = .ok (g, next')) : rs.length = f.params.length ∧
      g.params = openParams f.params rs ∧
      f.body.instantiate (.ofParams .empty f.params rs) next = (g.body, next') := by
  by_cases length : rs.length = f.params.length
  · rw [bind_eq_ok length] at h
    cases h
    exact ⟨length, rfl, rfl⟩
  · rw [(bind_eq_fail_iff f rs next).mpr length] at h
    cases h

/-- All that there is was made from identities that were given out, and every call was valid and is
over. -/
structure BindRun.Sound (next : Nat) (functions : List Func) (exprs : List Expr)
    (calls : List BindCall) : Prop where
  functionsMade : ∀ f ∈ functions, f.MadeBefore next
  exprsMade : ∀ e ∈ exprs, e.MadeBefore next
  valid : ∀ c ∈ calls, c.Valid ∧ c.finish ≤ next
  order : calls.Pairwise fun later earlier => earlier.finish ≤ later.start

namespace BindRun

variable {next : Nat} {functions : List Func} {exprs : List Expr} {calls : List BindCall}

theorem Sound.mono (h : Sound next functions exprs calls) {next' : Nat} (le : next ≤ next') :
    Sound next' functions exprs calls where
  functionsMade f hf := (h.functionsMade f hf).mono le
  exprsMade e he := (h.exprsMade e he).mono le
  valid c hc := ⟨(h.valid c hc).1, Nat.le_trans (h.valid c hc).2 le⟩
  order := h.order

/-- A call leaves what there was as it is and adds its result. -/
theorem Sound.call (h : Sound next functions exprs calls) {f : Func} {rs : List (Option Expr)}
    {body : Expr} {next' : Nat} (hf : f ∈ functions) (hrs : ∀ r, some r ∈ rs → r ∈ exprs)
    (length : rs.length = f.params.length)
    (result : f.body.instantiate (.ofParams .empty f.params rs) next = (body, next')) :
    next ≤ next' ∧ Sound next' functions (body :: exprs)
      (⟨functions, exprs, f, rs, next, body, next'⟩ :: calls) := by
  have le : next ≤ next' := by
    have := f.body.le_instantiate (.ofParams .empty f.params rs) next
    rwa [result] at this
  have valid : BindCall.Valid ⟨functions, exprs, f, rs, next, body, next'⟩ :=
    ⟨hf, hrs, h.functionsMade, h.exprsMade, length, result⟩
  have fits : ∀ x r, Replacement.ofParams .empty f.params rs x = some r → r.MadeBefore next := by
    intro x r hr
    rcases Replacement.mem_zip_of_ofParams hr with ⟨p, hp, -⟩ | none
    · exact h.exprsMade r (hrs r (List.of_mem_zip hp).2)
    · cases none
  have bodyMade : body.MadeBefore next' := by
    have := (Func.madeBefore_iff.mp (h.functionsMade f hf)).2.instantiate (Nat.le_refl next) fits
    rwa [result] at this
  refine ⟨le, (h.mono le).functionsMade, List.forall_mem_cons.mpr ⟨bodyMade, (h.mono le).exprsMade⟩,
    List.forall_mem_cons.mpr ⟨⟨valid, Nat.le_refl next'⟩, (h.mono le).valid⟩,
    List.pairwise_cons.mpr ⟨fun c hc => (h.valid c hc).2, h.order⟩⟩

theorem sound (h : BindRun next functions exprs calls) : Sound next functions exprs calls := by
  induction h with
  | start => exact ⟨by simp, by simp, by simp, .nil⟩
  | param _ ih => exact ih.mono (Nat.le_succ _)
  | func _ made ih =>
      exact { ih with functionsMade := List.forall_mem_cons.mpr ⟨made, ih.functionsMade⟩ }
  | expr _ made ih =>
      exact { ih with exprsMade := List.forall_mem_cons.mpr ⟨made, ih.exprsMade⟩ }
  | @bind next functions _ _ f rs g next' _ hf hrs bound ih =>
      obtain ⟨length, params, result⟩ := Func.eq_of_bind bound
      obtain ⟨le, sound⟩ := ih.call hf hrs length result
      have made : g.MadeBefore next' := by
        refine Func.madeBefore_iff.mpr ⟨fun p hp => ?_, sound.exprsMade g.body (by simp)⟩
        rw [params] at hp
        have mem := (Func.openParams_sublist f.params rs).subset hp
        exact (Func.madeBefore_iff.mp (sound.functionsMade f hf)).1 p mem
      exact { sound with functionsMade := List.forall_mem_cons.mpr ⟨made, sound.functionsMade⟩ }
  | @bindBody next functions _ _ f rs body next' _ hf hrs bound ih =>
      obtain ⟨⟨g, n⟩, ran, same⟩ := Outcome.bind_eq_ok_iff.mp bound
      cases same
      obtain ⟨length, -, result⟩ := Func.eq_of_bind ran
      exact (ih.call hf hrs length result).2

/-- However many times functions are bound, every binder of a lambda or a selector of a bound
function's own body is renamed to an identity that stands in nothing that there was before. These
differ within a result and between the results of any two calls, and each binder binds the
references that it did before. The parameters that stay open are kept as they are. -/
theorem binders_fresh (h : BindRun next functions exprs calls) :
    (∀ c ∈ calls, c.Faithful) ∧
      calls.Pairwise fun later earlier => ∀ place place' i i' p p' q q',
        later.Renames place i p q → earlier.Renames place' i' p' q' → q.id ≠ q'.id := by
  obtain ⟨-, -, valid, order⟩ := h.sound
  refine ⟨fun c hc => (valid c hc).1.faithful, ?_⟩
  refine order.imp_of_mem fun {later earlier} hl he le => ?_
  intro place place' i i' p p' q q' renames renames'
  have new := (valid later hl).1.bounds renames
  have old := (valid earlier he).1.bounds renames'
  omega

/-- One function is bound twice to a parameter with the identity that its lambda has. -/
theorem gathered_binders_fresh : ∃ next functions exprs first second,
    BindRun next functions exprs [second, first] ∧
    first.Renames [0, 1] 0 ⟨2, "item", .unknown⟩ ⟨3, "item", .unknown⟩ ∧
    second.Renames [0, 1] 0 ⟨2, "item", .unknown⟩ ⟨5, "item", .unknown⟩ ∧
    second.Renames [1, 1] 0 ⟨0, "record", .unknown⟩ ⟨6, "record", .unknown⟩ ∧
    first.Faithful ∧ second.Faithful ∧
    ∀ place place' i i' p p' q q',
      second.Renames place i p q → first.Renames place' i' p' q' → q.id ≠ q'.id := by
  let item : Expr := .arg ⟨2, "item", .unknown⟩
  have made : Func.gathered.MadeBefore 3 := by
    simp [Func.madeBefore_iff, Func.gathered]
  have run : BindRun 3 [Func.gathered] [item] [] :=
    .expr (.func (.start 3) made) (by simp [item])
  have given : ∀ r, some r ∈ [some item, none] → r = item := by
    simp
  have once := run.bind (.head _) (fun r hr => given r hr ▸ .head _) rfl
  have twice := once.bindBody (.tail _ (.head _)) (fun r hr => given r hr ▸ .tail _ (.head _)) rfl
  obtain ⟨faithful, apart⟩ := twice.binders_fresh
  have differ := List.pairwise_cons.mp apart
  exact ⟨_, _, _, _, _, twice, ⟨rfl, rfl⟩, ⟨rfl, rfl⟩, ⟨rfl, rfl⟩, faithful _ (by simp),
    faithful _ (by simp), differ.1 _ (by simp)⟩

end BindRun

end RecordMapping
