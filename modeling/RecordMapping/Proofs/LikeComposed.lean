import RecordMapping.Proofs.LikeForms
import RecordMapping.Proofs.SettledAhead
import RecordMapping.Proofs.SharedCache

/-!
# Composing expressions that are alike

A composer makes of expressions that are alike expressions that are alike, or it fails on both in
the same way, if the mapping arguments of what it puts in are settled ahead of any record and no
binder captures a parameter that a function mentions without having it. The two runs are compared
step by step: markers that are alike have the same target, the expressions of their entities are
alike, and what replaces them is an instance of the same body.

## Implementation notes

A run may give out identities that the other one does not give out, so the workspaces only have to
agree on the keys that are tested.
-/

namespace RecordMapping

/-- If both runs have results, these are known. -/
theorem Outcome.Related.results {α β : Type} {S : α → β → Prop} {x : Outcome α} {y : Outcome β}
    (h : x.Related S y) : x.Related (fun a b => S a b ∧ x = .ok a ∧ y = .ok b) y := by
  cases h with
  | ok h => exact .ok ⟨h, rfl, rfl⟩
  | fault f => exact .fault f
  | stuck => exact .stuck
  | outOfDepth => exact .outOfDepth

theorem Outcome.Related.imp {α β : Type} {S T : α → β → Prop} {x : Outcome α} {y : Outcome β}
    (h : x.Related S y) (imp : ∀ a b, S a b → T a b) : x.Related T y := by
  cases h with
  | ok h => exact .ok (imp _ _ h)
  | fault f => exact .fault f
  | stuck => exact .stuck
  | outOfDepth => exact .outOfDepth

/-- From states that are related before, the two runs end alike, and results are related together
with the states that the runs leave. -/
def Stateful.Tandem {σ τ α β : Type} (P : σ → τ → Prop) (Q : α → β → σ → τ → Prop)
    (run : Stateful σ α) (run' : Stateful τ β) : Prop :=
  ∀ s s', P s s' → (run s).1.Related (fun a b => Q a b (run s).2 (run' s').2) (run' s').1

namespace Stateful.Tandem

variable {σ τ α α' β β' : Type} {P : σ → τ → Prop} {Q : α → α' → σ → τ → Prop}
  {R : β → β' → σ → τ → Prop}

theorem pure {a : α} {a' : α'} (h : ∀ s s', P s s' → Q a a' s s') :
    Tandem P Q (Pure.pure a) (Pure.pure a') :=
  fun s s' hs => .ok (h s s' hs)

theorem lift {S : α → α' → Prop} {x : Outcome α} {x' : Outcome α'} (h : x.Related S x') :
    Tandem P (fun a a' s s' => S a a' ∧ P s s') (Stateful.lift x) (Stateful.lift x') := by
  intro s s' hs
  simp only [lift_run]
  cases h with
  | ok h => exact .ok ⟨h, hs⟩
  | fault f => exact .fault f
  | stuck => exact .stuck
  | outOfDepth => exact .outOfDepth

theorem bind {run : Stateful σ α} {run' : Stateful τ α'} {next : α → Stateful σ β}
    {next' : α' → Stateful τ β'} (h : Tandem P Q run run')
    (hn : ∀ a a', Tandem (Q a a') R (next a) (next' a')) :
    Tandem P R (run >>= next) (run' >>= next') := by
  intro s s' hs
  have related := h s s' hs
  rw [bind_run, bind_run]
  rcases hr : run s with ⟨x, t⟩
  rcases hr' : run' s' with ⟨x', t'⟩
  rw [hr, hr'] at related
  cases related with
  | ok h => exact hn _ _ t t' h
  | fault f => exact .fault f
  | stuck => exact .stuck
  | outOfDepth => exact .outOfDepth

/-- What is known of both states together may be assumed. -/
theorem assume {φ : Prop} {run : Stateful σ α} {run' : Stateful τ α'}
    (h : φ → Tandem P Q run run') : Tandem (fun s s' => φ ∧ P s s') Q run run' :=
  fun s s' hs => h hs.1 s s' hs.2

/-- What follows from how the runs end may be added to what relates their results. -/
theorem strengthen {run : Stateful σ α} {run' : Stateful τ α'} {Q' : α → α' → σ → τ → Prop}
    (h : Tandem P Q run run')
    (more : ∀ s s' t t' a a', P s s' → run s = (.ok a, t) → run' s' = (.ok a', t') →
      Q a a' t t' → Q' a a' t t') : Tandem P Q' run run' := by
  intro s s' hs
  have related := h s s' hs
  rcases hr : run s with ⟨x, t⟩
  rcases hr' : run' s' with ⟨x', t'⟩
  rw [hr, hr'] at related
  cases related with
  | ok h => exact .ok (more s s' t t' _ _ hs hr hr' h)
  | fault f => exact .fault f
  | stuck => exact .stuck
  | outOfDepth => exact .outOfDepth

theorem withParams {P : Workspace → Workspace → Prop} {Q : α → α' → Workspace → Workspace → Prop}
    {run : Nat → Outcome (α × Nat)} {run' : Nat → Outcome (α' × Nat)}
    (h : ∀ w w', P w w' → (run w.nextParam).Related (fun a a' =>
      Q a.1 a'.1 { w with nextParam := a.2 } { w' with nextParam := a'.2 }) (run' w'.nextParam)) :
    Tandem P Q (Workspace.withParams run) (Workspace.withParams run') := by
  intro w w' hw
  have related := h w w' hw
  unfold Workspace.withParams
  generalize run w.nextParam = x at related
  generalize run' w'.nextParam = x' at related
  cases related with
  | ok h => exact .ok h
  | fault f => exact .fault f
  | stuck => exact .stuck
  | outOfDepth => exact .outOfDepth

end Stateful.Tandem

/-- Below binders on both sides, what they bind stands for itself. -/
theorem Pairing.under_own {t : Tolerance} {P : Param → Prop}
    (refers : ∀ {p b}, P p → P b → p.id = b.id → t.refers p b) {bs : List Param}
    (hbs : ∀ b ∈ bs, P b) {E : Pairing} {p : Param} (hp : P p) (own : ∃ b ∈ bs, b.id = p.id) :
    E.under t bs bs p (.arg p) := by
  induction bs generalizing E with
  | nil => simp at own
  | cons b bs ih =>
      have rest : ∀ d ∈ bs, P d := fun d hd => hbs d (by simp [hd])
      by_cases inner : ∃ d ∈ bs, d.id = p.id
      · exact ih rest inner
      · have same : p.id = b.id := by
          obtain ⟨d, hd, same⟩ := own
          rcases List.mem_cons.mp hd with rfl | hd
          · exact same.symm
          · exact absurd ⟨d, hd, same⟩ inner
        have label := refers hp (hbs b (by simp)) same
        refine under_keep refers rest hp ?_
        rw [push, if_pos same]
        exact ⟨label, p, rfl, same, label⟩

namespace Expr

variable {foreign : Nat → Prop} {E : Pairing} {body body' parent : Expr} {b c : Param} {n : Nat}
  (old : ∀ x, foreign x → x < n)
include old

/-- With an expression in the place of a binder on the right, it stands for the binder's
counterpart. -/
theorem Like.bind_right {shapes : Bool}
    (h : body.Like (.labels foreign) shapes (E.push (.labels foreign) b c) body')
    (renames : E.Renames) {x : Expr} (made : body'.MadeBefore n) (madePiece : x.MadeBefore n) :
    body.Like (.labels foreign) shapes (E.fill b (· = x))
      (body'.instantiate (Replacement.empty.set c.id x) n).1 := by
  have relevant : body.Like (.labels foreign) shapes
      (fun p r => E.push (.labels foreign) b c p r ∧ ∀ y, r.Free y → body'.Free y) body' :=
    h.weaken fun p r hp _ hr => ⟨hp, hr⟩
  refine relevant.instantiate_right (Tolerance.labels_right old) ⟨?_, ?_⟩
  · rintro p r k ⟨hp, -⟩ -
    unfold Pairing.push at hp
    unfold Pairing.fill
    split at hp
    · next same =>
      obtain ⟨_, q, rfl, hq, _⟩ := hp
      simp [same, instantiate, hq]
    · next other =>
      obtain ⟨q, rfl, _⟩ := renames p r hp.1
      have hq : q.id ≠ c.id := by simpa using hp.2
      simpa [other, instantiate, Replacement.set_other _ hq] using hp.1
  · rintro p r q y ⟨-, hr⟩ hq hy
    by_cases same : q.id = c.id
    · rw [same, Replacement.set_same] at hy
      exact madePiece y hy.mentions
    · rw [Replacement.set_other _ same, Replacement.empty_apply, Option.getD_none, free_arg] at hy
      exact hy ▸ made q.id (hr q.id hq).mentions

/-- With an expression in the place of a parameter on the left that no mapping argument refers to,
nothing has to stand for the parameter. -/
theorem Like.bind_left {picked : Expr → Prop}
    (h : body.Like (.labels foreign) true (E.fill b picked) body')
    (hp : ∀ r, picked r → parent.Like (.labels foreign) true E r)
    (resolves : ¬ body.FreeInMapping b.id) (made : body.MadeBefore n)
    (madePiece : parent.MadeBefore n) :
    (body.instantiate (Replacement.empty.set b.id parent) n).1.Like (.labels foreign) true E
      body' := by
  refine h.instantiate_left (Tolerance.labels_left old) ⟨fun {p r} hr _ => ?_,
    fun {p r} hr hm => ?_, fun {p y} hf hy => ?_⟩
  · unfold Pairing.fill at hr
    split at hr
    · next same => simpa [same] using hp r hr
    · next other => simpa [Replacement.set_other _ other] using Like.arg hr
  · unfold Pairing.fill at hr
    split at hr
    · next same => exact absurd (same ▸ hm) resolves
    · next other => simpa [Replacement.set_other _ other] using Like.arg hr
  · by_cases same : p.id = b.id
    · rw [same, Replacement.set_same] at hy
      exact madePiece y hy.mentions
    · rw [Replacement.set_other _ same, Replacement.empty_apply, Option.getD_none, free_arg] at hy
      exact hy ▸ made p.id hf.mentions

end Expr

end RecordMapping
namespace RecordMapping

/-- The second source is like the first one, or is the entity that the first one picks. -/
inductive Source.Like (foreign : Nat → Prop) (E : Pairing) : Source → Source → Prop
  | entity {e e' : Expr} (h : e.Like (.labels foreign) true E e') :
      Source.Like foreign E (.entity e) (.entity e')
  | navigation {parent parent' : Expr} {selector selector' : Func}
      (hp : parent.Like (.labels foreign) true E parent')
      (hs : Operand.Like (.labels foreign) true E ⟨selector.params, selector.body⟩
        ⟨selector'.params, selector'.body⟩) :
      Source.Like foreign E (.navigation parent selector) (.navigation parent' selector')
  | picked {parent : Expr} {selector : Func} {b : Param} {e' : Expr} {picked : Expr → Prop}
      (params : selector.params = [b])
      (hp : ∀ r, picked r → parent.Like (.labels foreign) true E r)
      (he : selector.body.Like (.labels foreign) true (E.fill b picked) e') :
      Source.Like foreign E (.navigation parent selector) (.entity e')

namespace Marker

variable {foreign : Nat → Prop} {E : Pairing} {m m' : Marker}

/-- What is like a marker is a marker of the same kind and type, with a mapping argument and a
source that are like its own. -/
theorem exists_of_like {e' : Expr} (h : m.toExpr.Like (.labels foreign) true E e') :
    ∃ source' mapping', e' = toExpr ⟨m.kind, source', mapping', m.ty⟩ ∧
      m.source.Like foreign E source' ∧ m.mapping.Like (.labels foreign) false E mapping' := by
  obtain ⟨kind, source, mapping, ty⟩ := m
  cases source with
  | entity e =>
      obtain ⟨entity', mapping', rfl, he, hm⟩ := h.exists_includeEntity
      exact ⟨.entity entity', mapping', rfl, .entity he, hm⟩
  | navigation parent selector =>
      rcases h.includeVia_cases with ⟨parent', selector', mapping', rfl, hp, hs, hm⟩ |
        ⟨_, b, entity', mapping', picked, params, rfl, hp, he, hm⟩
      · exact ⟨.navigation parent' selector', mapping', rfl, .navigation hp hs, hm⟩
      · exact ⟨.entity entity', mapping', rfl, .picked params hp he, hm⟩

end Marker

/-- The function is settled ahead, and each identity is that of one parameter. -/
structure Func.Orderly (param : Nat → Param) (f : Func) : Prop extends f.SettledAhead where
  params : ∀ p ∈ f.params, p = param p.id
  body : f.body.EveryParam fun p => p = param p.id

/-- An orderly function that may be put in: what it mentions without having it is foreign, and no
binder has such an identity. -/
structure Func.Insertable (param : Nat → Param) (foreign : Nat → Prop) (f : Func) : Prop
    extends f.Orderly param where
  open_foreign : ∀ x, f.body.Free x → (∀ p ∈ f.params, p.id ≠ x) → foreign x
  binders : f.body.EveryBinder fun b => ¬ foreign b.id

/-- What stands for a parameter is one of the same name and type, and foreign parameters stand for
themselves. -/
structure Pairing.Fixes (param : Nat → Param) (foreign : Nat → Prop) (E : Pairing) : Prop where
  renames : E.Renames
  fixed : ∀ p : Param, p = param p.id → foreign p.id → E p (.arg p)

namespace Pairing.Fixes

variable {param : Nat → Param} {foreign : Nat → Prop} {E : Pairing}

/-- Binders that are not foreign capture nothing foreign. -/
theorem push (h : E.Fixes param foreign) {b c : Param} (hb : b.Matches foreign c) :
    (E.push (.labels foreign) b c).Fixes param foreign where
  renames := h.renames.push hb.toSameLabel
  fixed p hp hf := by
    have left : p.id ≠ b.id := fun same => hb.left (same ▸ hf)
    have right : p.id ≠ c.id := fun same => hb.right (same ▸ hf)
    rw [Pairing.push, if_neg left]
    exact ⟨h.fixed p hp hf, by simpa using right⟩

theorem under (h : E.Fixes param foreign) {bs cs : List Param}
    (binders : List.Forall₂ (Param.Matches foreign) bs cs) :
    (E.under (.labels foreign) bs cs).Fixes param foreign := by
  induction binders generalizing E with
  | nil => exact h
  | cons hb _ ih => exact ih (h.push hb)

end Pairing.Fixes

/-- The expressions are alike, and all that they mention was given out before. The first one is
settled ahead of any record, and what it references may be put in. -/
structure Expr.Twin (param : Nat → Param) (foreign : Nat → Prop) (E : Pairing) (n n' : Nat)
    (e e' : Expr) : Prop where
  like : e.Like (.labels foreign) true E e'
  ahead : e.Ahead (Func.Insertable param foreign)
  left : e.MadeBefore n
  right : e'.MadeBefore n'
  old : ∀ x, foreign x → x < n ∧ x < n'

section Twin

variable {param : Nat → Param} {foreign : Nat → Prop} {E : Pairing} {n n' : Nat} {e e' : Expr}

theorem Expr.Twin.mono (h : e.Twin param foreign E n n' e') {k k' : Nat} (hk : n ≤ k)
    (hk' : n' ≤ k') : e.Twin param foreign E k k' e' where
  like := h.like
  ahead := h.ahead
  left := h.left.mono hk
  right := h.right.mono hk'
  old x hx := ⟨Nat.lt_of_lt_of_le (h.old x hx).1 hk, Nat.lt_of_lt_of_le (h.old x hx).2 hk'⟩

theorem Expr.Twin.operand (h : e.Twin param foreign E n n' e') {D : Pairing} {s s' : Expr}
    (like : s.Like (.labels foreign) true D s') (b c : List Param) (hs : ⟨b, s⟩ ∈ e.live)
    (hs' : ⟨c, s'⟩ ∈ e'.operands) : s.Twin param foreign D n n' s' :=
  ⟨like, h.ahead.operand hs, h.left.operand (Expr.live_subset hs), h.right.operand hs', h.old⟩

end Twin

/-- The two workspaces give out identities from there on, and the same keys are tested. -/
structure Composer.Beside (c : Composer) (n n' : Nat) (w w' : Workspace) : Prop where
  left : n ≤ w.nextParam
  right : n' ≤ w'.nextParam
  guard : c.guard w = c.guard w'

theorem Composer.Beside.trans {c : Composer} {n n' : Nat} {w w' v v' : Workspace}
    (h : c.Beside n n' w w') (after : c.Beside w.nextParam w'.nextParam v v') :
    c.Beside n n' v v' :=
  ⟨Nat.le_trans h.left after.left, Nat.le_trans h.right after.right, after.guard⟩

namespace Func

variable {foreign : Nat → Prop} {E : Pairing} {f f' : Func} {x x' : Expr} {n n' : Nat}

theorem bindBody_singleton {p : Param} (hp : f.params = [p]) (x : Expr) (n : Nat) :
    f.bindBody [some x] n = .ok (f.body.instantiate (Replacement.empty.set p.id x) n) := by
  simp [bindBody, bind, hp, Replacement.ofParams]

/-- A function that may be put in is like itself. -/
theorem Insertable.like {param : Nat → Param} (insertable : f.Insertable param foreign)
    (fixes : E.Fixes param foreign) :
    f.body.Like (.labels foreign) true (E.under (.labels foreign) f.params f.params) f.body := by
  have binders : f.body.EveryBinder fun b => b.Matches foreign b :=
    insertable.binders.imp fun b hb => ⟨.refl b, hb, hb⟩
  have self : f.body.Like (.labels foreign) true
      (.keep fun p => p = param p.id ∧ f.body.Free p.id) f.body :=
    .refl insertable.body binders Param.SameLabel.of_id
  refine self.weaken fun p r hp _ _ => ?_
  obtain ⟨rfl, hp, free⟩ := hp
  by_cases own : ∃ b ∈ f.params, b.id = p.id
  · exact Pairing.under_own Param.SameLabel.of_id insertable.params hp own
  · have others : ∀ b ∈ f.params, b.id ≠ p.id := by simpa using own
    have fixed := fixes.fixed p hp (insertable.open_foreign p.id free others)
    exact Pairing.under_keep Param.SameLabel.of_id insertable.params hp fixed

/-- Binding functions that are alike to expressions that are alike leaves expressions that are
alike, or is refused for both. -/
theorem related_bindBody (old : ∀ y, foreign y → y < n ∧ y < n')
    (binders : List.Forall₂ Param.SameLabel f.params f'.params)
    (like : f.body.Like (.labels foreign) true (E.under (.labels foreign) f.params f'.params)
      f'.body)
    (hx : x.Like (.labels foreign) true E x') (renames : E.Renames) (resolves : f.ResolvesAhead)
    (left : f.MadeBefore n) (right : f'.MadeBefore n') (leftPiece : x.MadeBefore n)
    (rightPiece : x'.MadeBefore n') :
    (f.bindBody [some x] n).Related (fun b b' => b.1.Like (.labels foreign) true E b'.1)
      (f'.bindBody [some x'] n') := by
  obtain ⟨params, body⟩ := f
  obtain ⟨params', body'⟩ := f'
  have leftBody := (madeBefore_iff.mp left).2
  have rightBody := (madeBefore_iff.mp right).2
  cases binders with
  | nil => exact .fault _
  | @cons b c bs cs _ rest =>
      cases rest with
      | nil =>
          rw [bindBody_singleton rfl, bindBody_singleton rfl]
          have bound := like.bind_right (fun y hy => (old y hy).2) renames rightBody rightPiece
          refine .ok (bound.bind_left (fun y hy => (old y hy).1) ?_ (resolves b (.head _)) leftBody
            leftPiece)
          rintro r rfl
          exact hx
      | cons _ rest =>
          have length := rest.length_eq
          simpa [bindBody, bind, length, Outcome.fail] using .fault _

end Func

/-- The outermost marker of a marker is the marker itself. -/
theorem Marker.flattenWith_toExpr (m : Marker) (inline : Marker → Stateful Workspace Expr) :
    m.toExpr.flattenWith inline = inline m := by
  obtain ⟨kind, entity | ⟨parent, selector⟩, mapping, ty⟩ := m <;> rfl

/-- The expressions of the entities of markers that are alike are alike. -/
theorem Marker.related_entity {param : Nat → Param} {foreign : Nat → Prop} {E : Pairing}
    {m m' : Marker} {n n' : Nat} (h : m.toExpr.Twin param foreign E n n' m'.toExpr)
    (renames : E.Renames) :
    (m.entity n).Related (fun x x' => x.1.Like (.labels foreign) true E x'.1) (m'.entity n') := by
  obtain ⟨source', mapping', same, source, -⟩ := Marker.exists_of_like h.like
  obtain rfl := Marker.toExpr_injective same
  obtain ⟨kind, source, mapping, ty⟩ := m
  have ahead := (h.ahead _ .self).picks
  have left := h.left
  have right := h.right
  cases source with
  | entity he => exact .ok he
  | navigation hp hs =>
      obtain ⟨parentLeft, selectorLeft, -⟩ := Expr.madeBefore_includeVia.mp left
      obtain ⟨parentRight, selectorRight, -⟩ := Expr.madeBefore_includeVia.mp right
      have binders := hs.binders.imp fun _ _ hb => hb.toSameLabel
      exact Func.related_bindBody h.old binders hs.expr hp renames ahead selectorLeft selectorRight
        parentLeft parentRight
  | @picked parent selector b e' picked params hp he =>
      obtain ⟨parentLeft, selectorLeft, -⟩ := Expr.madeBefore_includeVia.mp left
      simp only [entity, Func.bindBody_singleton params]
      have bodyLeft := (Func.madeBefore_iff.mp selectorLeft).2
      have old (x : Nat) (hx : foreign x) := (h.old x hx).1
      exact .ok (he.bind_left old hp (ahead b (by simp [params])) bodyLeft parentLeft)

namespace Composer

open Stateful (Tandem)

variable {param : Nat → Param} {foreign : Nat → Prop} {c : Composer} {E : Pairing} {n n' : Nat}

/-- The null tests for entities that are alike are alike. -/
theorem rel_subject {w w' : Workspace} (guard : c.guard w = c.guard w') {x x' : Expr}
    (h : x.Like (.labels foreign) true E x') (renames : E.Renames) :
    Option.Rel (Expr.Like (.labels foreign) true E) (c.subject w x) (c.subject w' x') := by
  cases read : x'.asField? with
  | none =>
      have unread : x.asField? = none := by
        cases left : x.asField? with
        | none => rfl
        | some read' =>
            obtain rfl := (Expr.asField?_eq_some_iff x _ _).mp left
            obtain ⟨base', rfl, _⟩ := Expr.like_field.mp h
            cases read
      simp only [subject, read, unread]
      exact .none
  | some read' =>
      obtain ⟨base', id⟩ := read'
      obtain rfl := (Expr.asField?_eq_some_iff x' _ _).mp read
      have inner : ∀ p, Expr.field base' id ≠ .arg p := fun p hp => by cases hp
      have head := h.head_eq renames inner rfl
      cases x <;> cases head
      simp only [subject, Expr.asField?, Option.bind_some, guard]
      cases c.guard w' id with
      | none => exact .none
      | some key =>
          obtain ⟨_, ⟨⟩, hb⟩ := Expr.like_field.mp h
          exact .some (Expr.like_field.mpr ⟨base', rfl, hb⟩)

theorem like_guarded {s s' : Option Expr} {body body' : Expr}
    (hs : Option.Rel (Expr.Like (.labels foreign) true E) s s')
    (hb : body.Like (.labels foreign) true E body') :
    (guarded s body).Like (.labels foreign) true E (guarded s' body') := by
  cases hs with
  | none => exact hb
  | some h =>
      have absent : Expr.null.Like (.labels foreign) true E .null := Expr.like_const.mpr rfl
      exact Expr.like_cond.mpr ⟨_, _, _, rfl, Expr.like_isNull.mpr ⟨_, rfl, h⟩, hb, absent⟩

/-- The results are alike, and the workspaces are beside each other. -/
abbrev Alike (c : Composer) (foreign : Nat → Prop) (E : Pairing) (n n' : Nat) (r r' : Expr)
    (w w' : Workspace) : Prop :=
  r.Like (.labels foreign) true E r' ∧ c.Beside n n' w w'

/-- The workspaces are where they give out the identities that follow on those in the
expressions. -/
def Between (c : Composer) (param : Nat → Param) (foreign : Nat → Prop) (E : Pairing) (n n' : Nat)
    (e e' : Expr) (w w' : Workspace) : Prop :=
  e.Twin param foreign E w.nextParam w'.nextParam e' ∧ c.Beside n n' w w'

section Steps

variable {m m' : Marker} (h : m.toExpr.Twin param foreign E n n' m'.toExpr) (renames : E.Renames)
include h renames

theorem tandem_entity : Tandem (c.Beside n n') (c.Between param foreign E n n')
    (Workspace.withParams m.entity) (Workspace.withParams m'.entity) := by
  refine .withParams fun w w' beside => ?_
  have h := h.mono beside.left beside.right
  refine (Marker.related_entity h renames).results.imp ?_
  rintro ⟨x, k⟩ ⟨x', k'⟩ ⟨like, entity, entity'⟩
  have le := Marker.le_entity entity
  have le' := Marker.le_entity entity'
  refine ⟨⟨like, Marker.ahead_entity entity h.ahead h.left, ?_, ?_, (h.mono le le').old⟩, ?_⟩
  · exact Marker.madeBefore_entity entity h.left
  · exact Marker.madeBefore_entity entity' h.right
  · exact ⟨Nat.le_trans beside.left le, Nat.le_trans beside.right le', beside.guard⟩

/-- Markers that are alike have the same target. -/
theorem related_resolve_of_like (depth : Nat) : (m.resolve depth).Related
    (fun t t' => t' = t ∧ t.function.Insertable param foreign ∧ t.function.MadeBefore n ∧
      t.function.MadeBefore n') (m'.resolve depth) := by
  obtain ⟨source', mapping', same, -, mapping⟩ := Marker.exists_of_like h.like
  have known : mapping'.evalClosed depth = m.mapping.evalClosed depth :=
    mapping.evalWith_eq renames.reads _
  have resolved : m'.resolve depth = m.resolve depth := by
    rw [Marker.toExpr_injective same]
    exact congrArg (Target.resolve m.kind) known
  rw [resolved]
  have settled (f : Func) (hf : f.Insertable param foreign) := hf.toSettledAhead
  refine .of_eq fun t ht => ⟨rfl, (h.ahead.target settled ⟨depth, ht⟩).1, ?_, ?_⟩
  · exact Marker.madeBefore_target ⟨depth, ht⟩ h.left
  · exact Marker.madeBefore_target ⟨depth, resolved.trans ht⟩ h.right

end Steps

theorem tandem_guardSubject (renames : E.Renames) {x x' : Expr} :
    Tandem (c.Between param foreign E n n' x x')
      (fun s s' w w' => Option.Rel (Expr.Like (.labels foreign) true E) s s' ∧
        c.Between param foreign E n n' x x' w w')
      (c.guardSubject x) (c.guardSubject x') := by
  rintro w w' ⟨twin, beside⟩
  obtain ⟨v, run, next, guard⟩ := c.guardSubject_run w x
  obtain ⟨v', run', next', guard'⟩ := c.guardSubject_run w' x'
  rw [run, run']
  refine .ok ⟨rel_subject beside.guard twin.like renames, ?_, ?_, ?_, ?_⟩
  · rwa [next, next']
  · rw [next]
    exact beside.left
  · rw [next']
    exact beside.right
  · rw [guard, guard', beside.guard]

theorem tandem_bindBody (fixes : E.Fixes param foreign) {f : Func}
    (insertable : f.Insertable param foreign) (left : f.MadeBefore n) (right : f.MadeBefore n')
    {x x' : Expr} :
    Tandem (c.Between param foreign E n n' x x')
      (c.Alike foreign E n n')
      (Workspace.withParams (f.bindBody [some x]))
      (Workspace.withParams (f.bindBody [some x'])) := by
  refine .withParams ?_
  rintro w w' ⟨twin, beside⟩
  have binders : List.Forall₂ Param.SameLabel f.params f.params :=
    List.forall₂_same.mpr fun b _ => .refl b
  refine (Func.related_bindBody twin.old binders (insertable.like fixes) twin.like fixes.renames
    insertable.resolves (left.mono beside.left) (right.mono beside.right) twin.left
    twin.right).results.imp ?_
  rintro ⟨b, k⟩ ⟨b', k'⟩ ⟨like, bound, bound'⟩
  refine ⟨like, ?_, ?_, beside.guard⟩
  · exact Nat.le_trans beside.left (Func.le_bindBody bound)
  · exact Nat.le_trans beside.right (Func.le_bindBody bound')

/-- Markers that are alike are replaced alike. -/
theorem tandem_inlineOnce {m m' : Marker} (h : m.toExpr.Twin param foreign E n n' m'.toExpr)
    (fixes : E.Fixes param foreign) (depth : Nat) :
    Tandem (c.Beside n n') (c.Between param foreign E n n') (c.inlineOnce depth m)
      (c.inlineOnce depth m') := by
  have ty : m'.ty = m.ty := by
    obtain ⟨source', mapping', same, -⟩ := Marker.exists_of_like h.like
    rw [Marker.toExpr_injective same]
  have like : Tandem (c.Beside n n')
      (c.Alike foreign E n n')
      (c.inlineOnce depth m) (c.inlineOnce depth m') := by
    refine (tandem_entity h fixes.renames).bind fun x x' => ?_
    refine (Tandem.lift (related_resolve_of_like h fixes.renames depth)).bind fun t t' => .assume ?_
    rintro ⟨rfl, insertable, left, right⟩
    refine (Tandem.lift (.of_eq fun _ _ => trivial)).bind fun _ _ => .assume fun (_ : True) => ?_
    refine (tandem_guardSubject fixes.renames).bind fun s s' => .assume fun subject => ?_
    refine (tandem_bindBody fixes insertable left right).bind fun b b' => .assume fun body => ?_
    dsimp only
    rw [ty, body.infer_eq fixes.renames c.schema]
    split
    · exact .pure fun w w' beside => ⟨like_guarded subject body, beside⟩
    · exact fun _ _ _ => .fault _
  refine like.strengthen ?_
  rintro w w' v v' e e' beside once once' ⟨like, after⟩
  have old := (h.mono after.left after.right).old
  have h := h.mono beside.left beside.right
  have settled (f : Func) (hf : f.Insertable param foreign) := hf.toSettledAhead
  refine ⟨⟨like, inlineOnce_ahead settled once h.ahead h.left, ?_, ?_, old⟩, after⟩
  · exact inlineOnce_madeBefore once h.left
  · exact inlineOnce_madeBefore once' h.right

section Flatten

variable {inline inline' : Marker → Stateful Workspace Expr}

theorem tandem_flattenAllWith {es es' : List Expr}
    (h : List.Forall₂ (fun e e' => Tandem (c.Beside n n') (c.Alike foreign E n n')
      (e.flattenWith inline) (e'.flattenWith inline')) es es') :
    Tandem (c.Beside n n')
      (fun rs rs' w w' => List.Forall₂ (Expr.Like (.labels foreign) true E) rs rs' ∧
        c.Beside n n' w w')
      (Expr.flattenAllWith inline es) (Expr.flattenAllWith inline' es') := by
  induction h with
  | nil => exact .pure fun w w' beside => ⟨.nil, beside⟩
  | cons he _ ih =>
      refine he.bind fun r r' => .assume fun head => ?_
      refine ih.bind fun rs rs' => .assume fun tail => ?_
      exact .pure fun w w' beside => ⟨.cons head tail, beside⟩

/-- If markers that are alike are replaced alike, so are the outermost markers of expressions that
are alike. -/
theorem tandem_flattenWith (hi : ∀ {E : Pairing} {m m' : Marker}, E.Fixes param foreign →
      m.toExpr.Twin param foreign E n n' m'.toExpr →
      Tandem (c.Beside n n') (c.Alike foreign E n n') (inline m) (inline' m'))
    {e e' : Expr} (fixes : E.Fixes param foreign) (h : e.Twin param foreign E n n' e') :
    Tandem (c.Beside n n') (c.Alike foreign E n n') (e.flattenWith inline)
      (e'.flattenWith inline') := by
  induction e generalizing E e' with
  | arg p =>
      obtain ⟨q, rfl, _⟩ := fixes.renames p e' (Expr.like_arg.mp h.like)
      exact .pure fun w w' beside => ⟨h.like, beside⟩
  | const v =>
      obtain rfl := Expr.like_const.mp h.like
      exact .pure fun w w' beside => ⟨h.like, beside⟩
  | compare op left right ihl ihr =>
      obtain ⟨left', right', rfl, hl, hr⟩ := Expr.like_compare.mp h.like
      refine (ihl fixes (h.operand hl [] [] (by simp) (by simp))).bind fun l l' => ?_
      refine .assume fun hl => ?_
      refine (ihr fixes (h.operand hr [] [] (by simp) (by simp))).bind fun r r' => ?_
      refine .assume fun hr => ?_
      exact .pure fun w w' beside => ⟨Expr.like_compare.mpr ⟨_, _, rfl, hl, hr⟩, beside⟩
  | call callee args ihf iha =>
      obtain ⟨callee', args', rfl, hf, ha⟩ := Expr.like_call.mp h.like
      refine (ihf fixes (h.operand hf [] [] (by simp) (by simp))).bind fun f f' => ?_
      refine .assume fun hf => ?_
      have each := Expr.forall₂_of_like ha fun a ha a' ha' like =>
        iha a ha fixes (h.operand like [] [] (by simp [ha]) (by simp [ha']))
      refine (tandem_flattenAllWith each).bind fun as as' => .assume fun ha => ?_
      exact .pure fun w w' beside => ⟨Expr.like_call.mpr ⟨_, _, rfl, hf, ha⟩, beside⟩
  | cond test yes no iht ihy ihn =>
      obtain ⟨test', yes', no', rfl, ht, hy, hn⟩ := Expr.like_cond.mp h.like
      refine (iht fixes (h.operand ht [] [] (by simp) (by simp))).bind fun t t' => ?_
      refine .assume fun ht => ?_
      refine (ihy fixes (h.operand hy [] [] (by simp) (by simp))).bind fun y y' => ?_
      refine .assume fun hy => ?_
      refine (ihn fixes (h.operand hn [] [] (by simp) (by simp))).bind fun n n' => ?_
      refine .assume fun hn => ?_
      exact .pure fun w w' beside => ⟨Expr.like_cond.mpr ⟨_, _, _, rfl, ht, hy, hn⟩, beside⟩
  | field base id ih =>
      obtain ⟨base', rfl, hb⟩ := Expr.like_field.mp h.like
      refine (ih fixes (h.operand hb [] [] (by simp) (by simp))).bind fun b b' => ?_
      refine .assume fun hb => ?_
      exact .pure fun w w' beside => ⟨Expr.like_field.mpr ⟨_, rfl, hb⟩, beside⟩
  | includeEntity kind entity mapping ty =>
      obtain ⟨source', mapping', rfl, -⟩ :=
        Marker.exists_of_like (m := ⟨kind, .entity entity, mapping, ty⟩) h.like
      rw [Marker.flattenWith_toExpr]
      exact hi fixes h
  | includeVia kind parent params body mapping ty =>
      obtain ⟨source', mapping', rfl, -⟩ := Marker.exists_of_like
        (m := ⟨kind, .navigation parent ⟨params, body⟩, mapping, ty⟩) h.like
      rw [Marker.flattenWith_toExpr]
      exact hi fixes h
  | isNull negate operand ih =>
      obtain ⟨operand', rfl, ho⟩ := Expr.like_isNull.mp h.like
      refine (ih fixes (h.operand ho [] [] (by simp) (by simp))).bind fun o o' => ?_
      refine .assume fun ho => ?_
      exact .pure fun w w' beside => ⟨Expr.like_isNull.mpr ⟨_, rfl, ho⟩, beside⟩
  | list items ih =>
      obtain ⟨items', rfl, hs⟩ := Expr.like_list.mp h.like
      have each := Expr.forall₂_of_like hs fun a ha a' ha' like =>
        ih a ha fixes (h.operand like [] [] (by simp [ha]) (by simp [ha']))
      refine (tandem_flattenAllWith each).bind fun es es' => .assume fun hs => ?_
      exact .pure fun w w' beside => ⟨Expr.like_list.mpr ⟨_, rfl, hs⟩, beside⟩
  | map base params body ihl ihb =>
      obtain ⟨base', ⟨params', body'⟩, rfl, hl, ⟨binders, hb⟩⟩ := Expr.like_map.mp h.like
      refine (ihl fixes (h.operand hl [] [] (by simp) (by simp))).bind fun l l' => ?_
      refine .assume fun hl => ?_
      refine (ihb (fixes.under binders) (h.operand hb params params' (by simp) (by simp))).bind
        fun b b' => .assume fun hb => ?_
      exact .pure fun w w' beside => ⟨Expr.like_map.mpr ⟨_, _, rfl, hl, binders, hb⟩, beside⟩
  | record model fields ih =>
      obtain ⟨fields', rfl, hs⟩ := Expr.like_record.mp h.like
      have each := Expr.forall₂_of_like hs fun a ha a' ha' like =>
        ih a ha fixes (h.operand like [] [] (by simp [ha]) (by simp [ha']))
      refine (tandem_flattenAllWith each).bind fun es es' => .assume fun hs => ?_
      exact .pure fun w w' beside => ⟨Expr.like_record.mpr ⟨_, rfl, hs⟩, beside⟩

end Flatten

/-- A composer makes of expressions that are alike expressions that are alike, or fails on both in
the same way. -/
theorem tandem_flatten {depth : Nat} {e e' : Expr} (fixes : E.Fixes param foreign)
    (h : e.Twin param foreign E n n' e') :
    Tandem (c.Beside n n') (c.Alike foreign E n n') (c.flatten depth e) (c.flatten depth e') := by
  induction depth generalizing n n' E e e' with
  | zero => exact fun _ _ _ => .outOfDepth
  | succ depth ih =>
      refine tandem_flattenWith (fun {E m m'} fixes h => ?_) fixes h
      refine (tandem_inlineOnce h fixes depth).bind fun e e' => ?_
      rintro w w' ⟨twin, beside⟩
      refine (ih fixes twin w w' ⟨Nat.le_refl _, Nat.le_refl _, beside.guard⟩).imp ?_
      exact fun r r' ⟨like, after⟩ => ⟨like, beside.trans after⟩

end Composer

namespace Pairing

theorem renames_keep {P : Param → Prop} : (keep P).Renames := by
  rintro p _ ⟨rfl, _⟩
  exact ⟨p, rfl, .refl p⟩

theorem fixes_keep {param : Nat → Param} {foreign : Nat → Prop} :
    (keep fun p => p = param p.id).Fixes param foreign :=
  ⟨renames_keep, fun _ hp _ => ⟨rfl, hp⟩⟩

/-- What stands for a parameter below binders stands for it if more may refer to what binds it. -/
theorem under_labels {foreign : Nat → Prop} {E D : Pairing} (sub : ∀ p r, E p r → D p r)
    {bs cs : List Param} {p : Param} {r : Expr} (h : E.under (.labels foreign) bs cs p r) :
    D.under .identities bs cs p r := by
  induction bs generalizing cs E D with
  | nil => exact sub p r h
  | cons b bs ih =>
      obtain _ | ⟨c, cs⟩ := cs
      · exact sub p r h
      · refine ih (fun q s hq => ?_) h
        unfold push at hq ⊢
        split at hq
        · next same =>
          obtain ⟨_, q', hs, hq', _⟩ := hq
          rw [if_pos same]
          exact ⟨trivial, q', hs, hq', trivial⟩
        · next other =>
          rw [if_neg other]
          exact ⟨sub q s hq.1, hq.2⟩

end Pairing

namespace Expr

/-- Where there is no marker, shapes do not matter. -/
theorem Like.of_flat {foreign : Nat → Prop} {E : Pairing} {shapes : Bool} {e e' : Expr}
    (h : e.Like (.labels foreign) shapes E e') (flat : e.Flat) :
    e.Like .identities false E e' := by
  induction h with
  | arg h => exact .arg h
  | node inner head binders _ ih =>
      obtain ⟨-, operands⟩ := flat_iff.mp flat
      refine .node inner head (fun ho ho' => ?_) fun ho ho' => ?_
      · exact (binders ho ho').imp fun b c h => ⟨h.name, h.ty⟩
      · refine (ih ho ho' (operands _ (List.mem_of_getElem? ho))).weaken fun p r hp _ _ => ?_
        exact Pairing.under_labels (fun _ _ h => h) hp
  | shape => cases (flat_iff.mp flat).1

end Expr

/-- Functions whose bodies are alike are composed to functions that are the same up to the
identities of binders, or the composer fails on both in the same way. -/
theorem Composer.related_composeFunc (c : Composer) (depth : Nat) {param : Nat → Param}
    {foreign : Nat → Prop} {f f' : Func} (params : f'.params = f.params) {w w' : Workspace}
    (h : f.body.Twin param foreign (.keep fun p => p = param p.id) w.nextParam w'.nextParam f'.body)
    (guard : c.guard w = c.guard w') :
    (c.composeFunc depth f w).1.Related Func.AlphaEq (c.composeFunc depth f' w').1 := by
  let E : Pairing := .keep fun p => p = param p.id
  have run : Stateful.Tandem (c.Beside w.nextParam w'.nextParam)
      (fun g g' _ _ => g'.params = g.params ∧ g.body.Like (.labels foreign) true E g'.body)
      (c.composeFunc depth f) (c.composeFunc depth f') :=
    (tandem_flatten Pairing.fixes_keep h).bind fun r r' =>
      .pure fun _ _ ⟨like, _⟩ => ⟨params, like⟩
  have alpha : Stateful.Tandem (c.Beside w.nextParam w'.nextParam) (fun g g' _ _ => g.AlphaEq g')
      (c.composeFunc depth f) (c.composeFunc depth f') := by
    refine run.strengthen fun _ _ _ _ g g' _ composed _ ⟨params, like⟩ => ⟨params, ?_⟩
    exact (like.of_flat (composeFunc_flat composed).2.1).weaken fun p r hp _ _ => hp.1
  exact alpha w w' ⟨Nat.le_refl _, Nat.le_refl _, guard⟩

end RecordMapping
