import RecordMapping.Proofs.Calls
import RecordMapping.Proofs.Flatness
import RecordMapping.Proofs.Inlining
import RecordMapping.Proofs.Renumbering

/-!
# A cache that several composers share

A call may find keys in the cache that earlier calls have left there, and the identities that it
gives out depend on how many were given out before. Neither shows in its result: what calls leave in
the cache is what the look-up answers, and the result is that of the same call with an empty cache,
under other numbers for the identities that the call has given out.

## Implementation notes

The two calls are compared step by step. Both workspaces know only answers of the look-up, and the
next identity of the one is the renumbered next identity of the other. Nothing else that a workspace
holds is read by a call.
-/

namespace RecordMapping

namespace KeyCache

variable {keys : FieldId → GuardKey} {cache : KeyCache}

/-- Every key that is known is the answer of the look-up. -/
def Coherent (keys : FieldId → GuardKey) (cache : KeyCache) : Prop :=
  ∀ entry ∈ cache.entries, entry.2 = keys entry.1

theorem coherent_empty : Coherent keys {} := by simp [Coherent]

/-- From a coherent cache the answer of the look-up is fetched. -/
theorem Coherent.key_fetch (h : cache.Coherent keys) (navigation : FieldId) :
    (cache.fetch keys navigation).key = keys navigation := by
  rw [KeyCache.key_fetch]
  cases hk : cache.get? navigation with
  | none => rfl
  | some key =>
      obtain ⟨entry, he, rfl⟩ := Option.map_eq_some_iff.mp hk
      have hn : entry.1 = navigation := by simpa using List.find?_some he
      rw [Option.getD_some, h entry (List.mem_of_find?_eq_some he), hn]

/-- Fetching a key leaves a coherent cache. -/
theorem Coherent.fetch (h : cache.Coherent keys) (navigation : FieldId) :
    (cache.fetch keys navigation).cache.Coherent keys := by
  unfold KeyCache.fetch
  split
  · exact h
  · simpa [Coherent, or_imp, forall_and] using h

end KeyCache

/-- If one run has a result, so has the other one, and the two are related; every other end is the
same for both. -/
inductive Outcome.Related {α β : Type} (S : α → β → Prop) : Outcome α → Outcome β → Prop
  | ok {a b} (h : S a b) : Outcome.Related S (.ok a) (.ok b)
  | fault (f) : Outcome.Related S (.fault f) (.fault f)
  | stuck : Outcome.Related S .stuck .stuck
  | outOfDepth : Outcome.Related S .outOfDepth .outOfDepth

theorem Outcome.Related.of_eq {α : Type} {S : α → α → Prop} {x : Outcome α}
    (h : ∀ a, x = .ok a → S a a) : Outcome.Related S x x := by
  cases x with
  | ok a => exact .ok (h a rfl)
  | fault f => exact .fault f
  | stuck => exact .stuck
  | outOfDepth => exact .outOfDepth

/-- Two workspaces with coherent caches, whose next identities are numbers of the same. -/
structure Workspace.Aligned (keys : FieldId → GuardKey) (start : Nat) (ρ : Nat → Nat)
    (w w' : Workspace) : Prop where
  le : start ≤ w.nextParam
  next : w'.nextParam = ρ w.nextParam
  left : w.cache.Coherent keys
  right : w'.cache.Coherent keys

/-- From aligned workspaces both runs end alike, and leave aligned workspaces. -/
def Stateful.Lockstep (keys : FieldId → GuardKey) (start : Nat) (ρ : Nat → Nat) {α β : Type}
    (S : α → β → Prop) (run : Stateful Workspace α) (run' : Stateful Workspace β) : Prop :=
  ∀ w w', w.Aligned keys start ρ w' →
    (run w).1.Related S (run' w').1 ∧ (run w).2.Aligned keys start ρ (run' w').2

/-- An expression and the same one under other numbers, where the constants were made before the
start. -/
structure Expr.Copy (start : Nat) (ρ : Nat → Nat) (e e' : Expr) : Prop where
  holds : e.HoldsBefore start
  eq : e' = e.rename ρ

/-- The source of an entity under other numbers. -/
def Source.rename (ρ : Nat → Nat) : Source → Source
  | .entity e => .entity (e.rename ρ)
  | .navigation parent selector => .navigation (parent.rename ρ) (selector.rename ρ)

/-- The marker under other numbers. -/
def Marker.rename (ρ : Nat → Nat) (m : Marker) : Marker :=
  ⟨m.kind, m.source.rename ρ, m.mapping.rename ρ, m.ty⟩

namespace Stateful.Lockstep

variable {keys : FieldId → GuardKey} {start : Nat} {ρ : Nat → Nat} {α α' β β' : Type}
  {S : α → α' → Prop} {T : β → β' → Prop}

theorem pure {a : α} {a' : α'} (h : S a a') :
    Lockstep keys start ρ S (Pure.pure a) (Pure.pure a') :=
  fun _ _ aligned => ⟨.ok h, aligned⟩

theorem lift {x : Outcome α} {x' : Outcome α'} (h : x.Related S x') :
    Lockstep keys start ρ S (Stateful.lift x) (Stateful.lift x') :=
  fun _ _ aligned => ⟨h, aligned⟩

theorem bind {run : Stateful Workspace α} {run' : Stateful Workspace α'}
    {next : α → Stateful Workspace β} {next' : α' → Stateful Workspace β'}
    (hr : Lockstep keys start ρ S run run')
    (hn : ∀ a a', S a a' → Lockstep keys start ρ T (next a) (next' a')) :
    Lockstep keys start ρ T (run >>= next) (run' >>= next') := by
  intro w w' aligned
  obtain ⟨related, after⟩ := hr w w' aligned
  rw [Stateful.bind_run, Stateful.bind_run]
  rcases hw : run w with ⟨x, w₁⟩
  rcases hw' : run' w' with ⟨x', w₁'⟩
  rw [hw, hw'] at related after
  cases related with
  | ok h => exact hn _ _ h w₁ w₁' after
  | fault f => exact ⟨.fault f, after⟩
  | stuck => exact ⟨.stuck, after⟩
  | outOfDepth => exact ⟨.outOfDepth, after⟩

/-- Identities are given out in step. -/
theorem withParams {run : Nat → Outcome (α × Nat)} {run' : Nat → Outcome (α' × Nat)}
    (h : ∀ k, start ≤ k →
      (run k).Related (fun a a' => S a.1 a'.1 ∧ k ≤ a.2 ∧ a'.2 = ρ a.2) (run' (ρ k))) :
    Lockstep keys start ρ S (Workspace.withParams run) (Workspace.withParams run') := by
  intro w w' aligned
  have related := h w.nextParam aligned.le
  rw [← aligned.next] at related
  unfold Workspace.withParams
  generalize run w.nextParam = x at related
  generalize run' w'.nextParam = x' at related
  cases related with
  | ok h =>
      obtain ⟨hs, hle, hnext⟩ := h
      exact ⟨.ok hs, Nat.le_trans aligned.le hle, hnext, aligned.left, aligned.right⟩
  | fault f => exact ⟨.fault f, aligned⟩
  | stuck => exact ⟨.stuck, aligned⟩
  | outOfDepth => exact ⟨.outOfDepth, aligned⟩

/-- Both runs fetch what the look-up answers. -/
theorem guardKey (navigation : FieldId) : Lockstep keys start ρ Eq
    (Workspace.guardKey keys navigation) (Workspace.guardKey keys navigation) := by
  intro w w' aligned
  refine ⟨.ok ?_, aligned.le, aligned.next, aligned.left.fetch _, aligned.right.fetch _⟩
  rw [aligned.left.key_fetch, aligned.right.key_fetch]

end Stateful.Lockstep

/-- The base of a field access under other numbers. -/
theorem Expr.asField?_rename (ρ : Nat → Nat) (e : Expr) :
    (e.rename ρ).asField? = e.asField?.map fun read => (read.1.rename ρ, read.2) := by
  cases e with
  | includeVia kind parent selector mapping ty =>
      obtain ⟨params, body⟩ := selector
      rfl
  | map base lambda =>
      obtain ⟨params, body⟩ := lambda
      rfl
  | _ => rfl

namespace Composer

open Stateful (Lockstep)

variable {c : Composer} {start : Nat} {ρ : Nat → Nat}

/-- The null tests read the same, under other numbers. -/
theorem lockstep_guardSubject {entity : Expr} (h : entity.HoldsBefore start) :
    Lockstep c.keys start ρ
      (fun s s' => (∀ e, s = some e → e.HoldsBefore start) ∧ s' = s.map (Expr.rename ρ))
      (c.guardSubject entity) (c.guardSubject (entity.rename ρ)) := by
  simp only [guardSubject, Expr.asField?_rename]
  cases c.policy with
  | disabled => exact .pure ⟨by simp, rfl⟩
  | surrogateKey =>
      cases hread : entity.asField? with
      | none => exact .pure ⟨by simp, rfl⟩
      | some read =>
          obtain rfl := (Expr.asField?_eq_some_iff entity read.1 read.2).mp hread
          refine .bind (.guardKey read.2) ?_
          rintro key _ rfl
          refine .pure ⟨fun e he => ?_, ?_⟩
          · obtain ⟨field, _, rfl⟩ := Option.map_eq_some_iff.mp he
            exact Expr.constants_field.mpr (Expr.constants_field.mp h)
          · cases key.guardField <;> rfl

theorem holdsBefore_guarded {subject : Option Expr} {body : Expr}
    (hs : ∀ e, subject = some e → e.HoldsBefore start) (hb : body.HoldsBefore start) :
    (guarded subject body).HoldsBefore start := by
  cases subject with
  | none => exact hb
  | some e =>
      have test : e.isNotNull.HoldsBefore start := Expr.constants_isNull.mpr (hs e rfl)
      have absent : Expr.null.HoldsBefore start := Expr.constants_const.mpr Value.madeBefore_null
      exact Expr.constants_cond.mpr ⟨test, hb, absent⟩

theorem rename_guarded (subject : Option Expr) (body : Expr) :
    (guarded subject body).rename ρ = guarded (subject.map (Expr.rename ρ)) (body.rename ρ) := by
  cases subject <;> rfl

variable (hρ : Renumbers start ρ)
include hρ

/-- Binding a function to copies of an expression. -/
theorem related_bindBody {f : Func} (hf : f.body.HoldsBefore start) {e : Expr}
    (he : e.HoldsBefore start) {k : Nat} (hk : start ≤ k) :
    (f.bindBody [some e] k).Related
      (fun b b' => Expr.Copy start ρ b.1 b'.1 ∧ k ≤ b.2 ∧ b'.2 = ρ b.2)
      ((f.rename ρ).bindBody [some (e.rename ρ)] (ρ k)) := by
  rw [Func.bindBody_rename hρ f e hk]
  cases hb : f.bindBody [some e] k with
  | ok b =>
      obtain ⟨p, _, hinst⟩ := Func.bindBody_singleton_eq_ok hb
      have holds := hf.instantiate_single he p.id k
      rw [hinst] at holds
      exact .ok ⟨⟨holds, rfl⟩, Func.le_bindBody hb, rfl⟩
  | fault f => exact .fault f
  | stuck => exact .stuck
  | outOfDepth => exact .outOfDepth

theorem lockstep_entity {m : Marker} (h : m.toExpr.HoldsBefore start) :
    Lockstep c.keys start ρ (Expr.Copy start ρ) (Workspace.withParams m.entity)
      (Workspace.withParams (m.rename ρ).entity) := by
  refine .withParams fun k hk => ?_
  obtain ⟨kind, source, mapping, ty⟩ := m
  cases source with
  | entity e =>
      have holds := h.operand (o := ⟨[], e⟩) (by simp [Marker.toExpr])
      exact .ok ⟨⟨holds, rfl⟩, Nat.le_refl k, rfl⟩
  | navigation parent selector =>
      exact related_bindBody hρ
        (h.operand (o := ⟨selector.params, selector.body⟩) (by simp [Marker.toExpr]))
        (h.operand (o := ⟨[], parent⟩) (by simp [Marker.toExpr])) hk

/-- A marker and the same one under other numbers have the same target. -/
theorem related_resolve (depth : Nat) {m : Marker} (h : m.toExpr.HoldsBefore start) :
    (m.resolve depth).Related (fun t t' => t' = t ∧ t.function.MadeBefore start)
      ((m.rename ρ).resolve depth) := by
  have same : (m.rename ρ).resolve depth = m.resolve depth :=
    congrArg (Target.resolve m.kind) (Expr.evalClosed_rename hρ.injective depth m.mapping)
  have mapping := h.operand (Expr.mapping_mem_operands m)
  rw [same]
  exact .of_eq fun t ht => ⟨rfl, Expr.RefersTo.madeBefore ⟨depth, ht⟩ mapping⟩

/-- A marker and the same one under other numbers are replaced alike. -/
theorem lockstep_inlineOnce (depth : Nat) {m : Marker} (h : m.toExpr.HoldsBefore start) :
    Lockstep c.keys start ρ (Expr.Copy start ρ) (c.inlineOnce depth m)
      (c.inlineOnce depth (m.rename ρ)) := by
  refine .bind (lockstep_entity hρ h) ?_
  rintro entity _ ⟨hentity, rfl⟩
  refine .bind (.lift (related_resolve hρ depth h)) ?_
  rintro _ t ⟨rfl, ht⟩
  refine .bind (.lift (.of_eq fun _ _ => trivial)) fun _ _ (_ : True) => ?_
  refine .bind (lockstep_guardSubject hentity) ?_
  rintro subject _ ⟨hsubject, rfl⟩
  have hbody := (Func.madeBefore_iff.mp ht).2.holds
  have bound : Lockstep c.keys start ρ (Expr.Copy start ρ)
      (Workspace.withParams (t.function.bindBody [some entity]))
      (Workspace.withParams (t.function.bindBody [some (entity.rename ρ)])) := by
    refine .withParams fun k hk => ?_
    have related := related_bindBody hρ hbody hentity hk
    rwa [Func.rename_eq_self hρ ht] at related
  refine .bind bound ?_
  rintro body _ ⟨hbody, rfl⟩
  dsimp only
  rw [Expr.infer_rename]
  change Lockstep _ _ _ _ (if m.ty.accepts _ then _ else _) (if m.ty.accepts _ then _ else _)
  split
  · exact .pure ⟨holdsBefore_guarded hsubject hbody, (rename_guarded subject body).symm⟩
  · exact .lift (.fault _)

omit hρ in
theorem lockstep_flattenAllWith {inline inline' : Marker → Stateful Workspace Expr}
    {keys : FieldId → GuardKey} {es : List Expr}
    (each : ∀ e ∈ es, Lockstep keys start ρ (Expr.Copy start ρ) (e.flattenWith inline)
      ((e.rename ρ).flattenWith inline')) :
    Lockstep keys start ρ
      (fun es es' => (∀ e ∈ es, e.HoldsBefore start) ∧ es' = es.map (Expr.rename ρ))
      (Expr.flattenAllWith inline es) (Expr.flattenAllWith inline' (es.map (Expr.rename ρ))) := by
  induction es with
  | nil => exact .pure ⟨by simp, rfl⟩
  | cons e es ih =>
      refine .bind (each e (by simp)) ?_
      rintro e₁ _ ⟨he, rfl⟩
      refine .bind (ih fun a ha => each a (by simp [ha])) ?_
      rintro es₁ _ ⟨hes, rfl⟩
      exact .pure ⟨by simpa using ⟨he, hes⟩, rfl⟩

omit hρ in
/-- If markers are replaced alike, so are the outermost markers of an expression. -/
theorem lockstep_flattenWith {inline inline' : Marker → Stateful Workspace Expr}
    {keys : FieldId → GuardKey}
    (hi : ∀ m : Marker, m.toExpr.HoldsBefore start →
      Lockstep keys start ρ (Expr.Copy start ρ) (inline m) (inline' (m.rename ρ)))
    {e : Expr} (h : e.HoldsBefore start) :
    Lockstep keys start ρ (Expr.Copy start ρ) (e.flattenWith inline)
      ((e.rename ρ).flattenWith inline') := by
  induction e using Expr.operand_induction with
  | step e ih =>
    have operand (bound : List Param) (s : Expr) (hs : ⟨bound, s⟩ ∈ e.operands) :
        Lockstep keys start ρ (Expr.Copy start ρ) (s.flattenWith inline)
          ((s.rename ρ).flattenWith inline') := ih ⟨bound, s⟩ hs (h.operand hs)
    cases e with
    | arg p => exact .pure ⟨h, rfl⟩
    | const v => exact .pure ⟨h, rfl⟩
    | compare op left right =>
        refine .bind (operand [] left (by simp)) ?_
        rintro l _ ⟨hl, rfl⟩
        refine .bind (operand [] right (by simp)) ?_
        rintro r _ ⟨hr, rfl⟩
        exact .pure ⟨Expr.constants_compare.mpr ⟨hl, hr⟩, rfl⟩
    | call callee args =>
        refine .bind (operand [] callee (by simp)) ?_
        rintro f _ ⟨hf, rfl⟩
        rw [Expr.renameAll_eq_map]
        refine .bind (lockstep_flattenAllWith fun a ha => operand [] a (by simp [ha])) ?_
        rintro as _ ⟨has, rfl⟩
        exact .pure ⟨Expr.constants_call.mpr ⟨hf, has⟩, by simp [Expr.rename]⟩
    | cond test yes no =>
        refine .bind (operand [] test (by simp)) ?_
        rintro t _ ⟨ht, rfl⟩
        refine .bind (operand [] yes (by simp)) ?_
        rintro y _ ⟨hy, rfl⟩
        refine .bind (operand [] no (by simp)) ?_
        rintro n _ ⟨hn, rfl⟩
        exact .pure ⟨Expr.constants_cond.mpr ⟨ht, hy, hn⟩, rfl⟩
    | field base id =>
        refine .bind (operand [] base (by simp)) ?_
        rintro b _ ⟨hb, rfl⟩
        exact .pure ⟨Expr.constants_field.mpr hb, rfl⟩
    | includeEntity kind entity mapping ty => exact hi ⟨kind, .entity entity, mapping, ty⟩ h
    | includeVia kind parent selector mapping ty =>
        obtain ⟨params, body⟩ := selector
        exact hi ⟨kind, .navigation parent ⟨params, body⟩, mapping, ty⟩ h
    | isNull negate operand' =>
        refine .bind (operand [] operand' (by simp)) ?_
        rintro b _ ⟨hb, rfl⟩
        exact .pure ⟨Expr.constants_isNull.mpr hb, rfl⟩
    | list items =>
        rw [Expr.rename, Expr.renameAll_eq_map]
        refine .bind (lockstep_flattenAllWith fun a ha => operand [] a (by simp [ha])) ?_
        rintro es _ ⟨hes, rfl⟩
        exact .pure ⟨Expr.constants_list.mpr hes, by simp [Expr.rename]⟩
    | map base lambda =>
        obtain ⟨params, body⟩ := lambda
        refine .bind (operand [] base (by simp)) ?_
        rintro l _ ⟨hl, rfl⟩
        refine .bind (operand params body (by simp)) ?_
        rintro b _ ⟨hb, rfl⟩
        exact .pure ⟨Expr.constants_map.mpr ⟨hl, hb⟩, rfl⟩
    | record model fields =>
        rw [Expr.rename, Expr.renameAll_eq_map]
        refine .bind (lockstep_flattenAllWith fun a ha => operand [] a (by simp [ha])) ?_
        rintro es _ ⟨hes, rfl⟩
        exact .pure ⟨Expr.constants_record.mpr hes, by simp [Expr.rename]⟩

/-- An expression and its copy are flattened alike. -/
theorem lockstep_flatten (depth : Nat) {e : Expr} (h : e.HoldsBefore start) :
    Lockstep c.keys start ρ (Expr.Copy start ρ) (c.flatten depth e)
      (c.flatten depth (e.rename ρ)) := by
  induction depth generalizing e with
  | zero => exact .lift .outOfDepth
  | succ depth ih =>
      refine lockstep_flattenWith (fun m hm => ?_) h
      refine .bind (lockstep_inlineOnce hρ depth hm) ?_
      rintro e₁ _ ⟨he, rfl⟩
      exact ih he

/-- A function that was made before both starts is composed alike from both. -/
theorem lockstep_composeFunc (depth : Nat) {f : Func} (hf : f.MadeBefore start) :
    Lockstep c.keys start ρ (fun g g' => g' = g.rename ρ) (c.composeFunc depth f)
      (c.composeFunc depth f) := by
  have flat := lockstep_flatten (c := c) hρ depth (Func.madeBefore_iff.mp hf).2.holds
  have same := Func.rename_eq_self hρ hf
  have body : f.body.rename ρ = f.body := congrArg Func.body same
  rw [body] at flat
  refine .bind flat ?_
  rintro g _ ⟨_, rfl⟩
  refine .pure ?_
  have params : f.params.map (Param.rename ρ) = f.params := congrArg Func.params same
  rw [Func.rename, params]

/-- A mapping is composed alike from both starts, with the same code. -/
theorem lockstep_compose (depth : Nat) {f : Func} (hf : f.MadeBefore start) :
    Lockstep c.keys start ρ (fun m m' => m'.func = m.func.rename ρ ∧ m'.compiled = m.compiled)
      (c.compose depth f) (c.compose depth f) := by
  refine .bind (lockstep_composeFunc hρ depth hf) ?_
  rintro g _ rfl
  refine .bind (.lift (.of_eq (S := Eq) fun _ _ => rfl)) ?_
  rintro code _ rfl
  refine .bind (S := fun _ _ => True) ?_ fun _ _ _ => .pure ⟨rfl, rfl⟩
  exact fun w w' aligned => ⟨.ok trivial, aligned.le, aligned.next, aligned.left, aligned.right⟩

end Composer

/-- The workspaces of composers with one schema and one look-up: at first no key is known, then
composers of any policy are called in any order, whether or not they succeed, and functions are made
in between. -/
inductive Workspace.Reached (schema : Schema) (keys : FieldId → GuardKey) : Workspace → Prop
  | new (nextParam nextLabel : Nat) : Reached schema keys ⟨nextParam, nextLabel, {}, []⟩
  | made {w : Workspace} (params labels : Nat) (h : Reached schema keys w) :
      Reached schema keys
        { w with nextParam := w.nextParam + params, nextLabel := w.nextLabel + labels }
  | composeFunc {w : Workspace} (policy : GuardPolicy) (depth : Nat) (f : Func)
      (h : Reached schema keys w) :
      Reached schema keys (Composer.composeFunc ⟨schema, keys, policy⟩ depth f w).2
  | compose {w : Workspace} (policy : GuardPolicy) (depth : Nat) (f : Func)
      (h : Reached schema keys w) :
      Reached schema keys (Composer.compose ⟨schema, keys, policy⟩ depth f w).2

/-- A coherent cache is left coherent by every step of a composer. -/
theorem Composer.allows_coherent (c : Composer) :
    c.Allows fun w w' => w.cache.Coherent c.keys → w'.cache.Coherent c.keys where
  refl _ h := h
  trans h h' := h' ∘ h
  params _ _ h := h
  label _ h := h
  key _ navigation _ h := h.fetch navigation

/-- Every entry of a cache is what the look-up answers, whatever calls came before. -/
theorem Workspace.Reached.coherent {schema : Schema} {keys : FieldId → GuardKey} {w : Workspace}
    (h : w.Reached schema keys) : w.cache.Coherent keys := by
  induction h with
  | new => exact KeyCache.coherent_empty
  | made _ _ _ ih => exact ih
  | composeFunc policy depth f _ ih =>
      exact (Composer.allows_coherent ⟨schema, keys, policy⟩).composeFunc depth f _ ih
  | compose policy depth f _ ih =>
      exact (Composer.allows_coherent ⟨schema, keys, policy⟩).compose depth f _ ih

namespace Composer

variable {w w' : Workspace}

theorem map_eq_of_related {α β γ : Type} {S : α → β → Prop} {x : Outcome α} {y : Outcome β}
    (h : x.Related S y) {φ : α → γ} {ψ : β → γ} (hS : ∀ a b, S a b → φ a = ψ b) :
    φ <$> x = ψ <$> y := by
  cases h with
  | ok h => exact congrArg Outcome.ok (hS _ _ h)
  | fault | stuck | outOfDepth => rfl

/-- What a mapping says, with other numbers in its expression. The label is left out. -/
def content (ρ : Nat → Nat) (m : Mapping) : Func × Option Compiled := (m.func.rename ρ, m.compiled)

/-- A workspace with a coherent cache and one whose next identity is greater are aligned. -/
theorem aligned_of_coherent {keys : FieldId → GuardKey} (h : w.cache.Coherent keys)
    (h' : w'.cache.Coherent keys) :
    w.Aligned keys w.nextParam (renumber w.nextParam w'.nextParam) w' where
  le := Nat.le_refl _
  next := (renumber_self _ _).symm
  left := h
  right := h'

/-- From coherent caches the results of a call are the same but for the numbers that it gives
out. -/
theorem results_eq_of_coherent (c : Composer) (depth : Nat) {f : Func} {w : Workspace}
    (w' : Workspace) (h : w.cache.Coherent c.keys) (h' : w'.cache.Coherent c.keys)
    (hw : w.nextParam ≤ w'.nextParam) (hf : f.MadeBefore w.nextParam) :
    let ρ := renumber w.nextParam w'.nextParam
    Func.rename ρ <$> (c.composeFunc depth f w).1 = id <$> (c.composeFunc depth f w').1 ∧
      content ρ <$> (c.compose depth f w).1 =
        (fun m => (m.func, m.compiled)) <$> (c.compose depth f w').1 := by
  intro ρ
  have hρ := renumbers_renumber hw
  have aligned := aligned_of_coherent h h'
  constructor
  · have related := (lockstep_composeFunc hρ depth hf w w' aligned).1
    exact map_eq_of_related related fun g g' h => h.symm
  · have related := (lockstep_compose hρ depth hf w w' aligned).1
    exact map_eq_of_related related fun m m' h => by rw [content, ← h.1, h.2]

/-- Whatever composers that share a cache were called with before, a call ends as it does with an
empty cache: with the same fault, or with the same function once the identities that each of the two
calls gave out are numbered from a common start on. What the calls before left in the cache is what
the look-up answers. -/
theorem results_of_shared_cache {schema : Schema} {keys : FieldId → GuardKey}
    (h : w.Reached schema keys) :
    w.cache.Coherent keys ∧
      ∀ (policy : GuardPolicy) (depth : Nat) (f : Func) (w₀ : Workspace) (start : Nat),
        w₀.cache = {} → f.MadeBefore w.nextParam → f.MadeBefore w₀.nextParam →
        w.nextParam ≤ start → w₀.nextParam ≤ start →
        let c : Composer := ⟨schema, keys, policy⟩
        let ρ := renumber w.nextParam start
        let ρ₀ := renumber w₀.nextParam start
        Func.rename ρ <$> (c.composeFunc depth f w).1 =
            Func.rename ρ₀ <$> (c.composeFunc depth f w₀).1 ∧
          content ρ <$> (c.compose depth f w).1 = content ρ₀ <$> (c.compose depth f w₀).1 := by
  refine ⟨h.coherent, fun policy depth f w₀ start empty hf hf₀ hw hw₀ => ?_⟩
  have empty : w₀.cache.Coherent keys := empty ▸ KeyCache.coherent_empty
  obtain ⟨func, mapping⟩ := results_eq_of_coherent ⟨schema, keys, policy⟩ depth
    { w₀ with nextParam := start } h.coherent empty hw hf
  obtain ⟨func₀, mapping₀⟩ := results_eq_of_coherent ⟨schema, keys, policy⟩ depth
    { w₀ with nextParam := start } empty empty hw₀ hf₀
  exact ⟨func.trans func₀.symm, mapping.trans mapping₀.symm⟩

/-- A related record, mapped by a mapping that goes over its items. -/
def spread : Func :=
  let param (id : Nat) : Param := ⟨id, "p", .unknown⟩
  let item : Func := ⟨[param 2], .list [.arg (param 2)]⟩
  let items : Func := ⟨[param 1], .map (.field (.arg (param 1)) ⟨⟨0⟩, 0⟩) item⟩
  ⟨[param 0], .includeEntity .ast (.field (.arg (param 0)) ⟨⟨0⟩, 1⟩) (.const (.func 0 items))
    .unknown⟩

/-- A related record, mapped to a list where a truth value is declared. -/
def mistyped : Func :=
  let p : Param := ⟨0, "p", .unknown⟩
  let listed : Func := ⟨[⟨1, "p", .unknown⟩], .list []⟩
  ⟨[p], .includeEntity .ast (.field (.arg p) ⟨⟨0⟩, 2⟩) (.const (.func 0 listed)) .bool⟩

theorem spread_madeBefore : spread.MadeBefore 3 := by
  simp [spread, Func.madeBefore_iff]

/-- What is composed from it, with the given number for the binder. -/
def spreadFlat (id : Nat) : Func :=
  let param (id : Nat) : Param := ⟨id, "p", .unknown⟩
  let read (e : Expr) (index : Nat) : Expr := .field e ⟨⟨0⟩, index⟩
  let items : Expr := read (read (.arg (param 0)) 1) 0
  ⟨[param 0], .cond (read (.arg (param 0)) 2).isNotNull
    (.map items ⟨[param id], .list [.arg (param id)]⟩) .null⟩

/-- A function is composed as at first after a call that has succeeded and one that has failed, with
another number for the binder. -/
theorem spread_again : ∃ w fault,
    (keyed.composeFunc 2 spread ⟨3, 1, {}, []⟩).1 = .ok (spreadFlat 3) ∧
    keyed.composeFunc 2 mistyped (keyed.composeFunc 2 spread ⟨3, 1, {}, []⟩).2 =
      (.fault fault, w) ∧
    w.nextParam = 4 ∧ w.cache.size = 2 ∧ w.cache.Coherent keyed.keys ∧
    (keyed.composeFunc 2 spread w).1 = .ok (spreadFlat 4) ∧
    (spreadFlat 4).rename (renumber 4 5) = (spreadFlat 3).rename (renumber 3 5) := by
  have reached : Workspace.Reached keyed.schema keyed.keys
      (keyed.composeFunc 2 mistyped (keyed.composeFunc 2 spread ⟨3, 1, {}, []⟩).2).2 :=
    .composeFunc .surrogateKey 2 mistyped (.composeFunc .surrogateKey 2 spread (.new 3 1))
  obtain ⟨coherent, same⟩ := results_of_shared_cache reached
  have same := (same .surrogateKey 2 spread ⟨3, 1, {}, []⟩ 5 rfl
    (spread_madeBefore.mono (by decide)) spread_madeBefore (by decide) (by decide)).1
  exact ⟨_, _, rfl, rfl, rfl, rfl, coherent, rfl, Outcome.ok.inj same⟩

end Composer

end RecordMapping
