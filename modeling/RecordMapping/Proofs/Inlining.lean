import RecordMapping.Composer.Basic
import RecordMapping.Proofs.Copies
import RecordMapping.Proofs.Expansion

/-!
# Replacing one marker

A marker is replaced by the body of the function it refers to, with the entity in the place of its
parameter, behind a null test if a key stands in for the relation. What replaces it follows the
marker wherever the run was allowed to meet it.

## Implementation notes

The key that a composer tests for a relation is the one that is known, or else the one that the
look-up would give. Learning a key leaves all of them as they are, so they can be fixed before a
run.
-/

namespace RecordMapping

namespace KeyCache

/-- The key of a relation, whether it is known or has to be looked up. -/
theorem key_fetch (cache : KeyCache) (lookup : FieldId → GuardKey) (navigation : FieldId) :
    (cache.fetch lookup navigation).key = (cache.get? navigation).getD (lookup navigation) := by
  unfold fetch
  split
  next key h => simp [h]
  next h => simp [h]

/-- Learning the key of one relation changes the key of none. -/
theorem key_fetch_fetch (cache : KeyCache) (lookup : FieldId → GuardKey)
    (navigation other : FieldId) :
    ((cache.fetch lookup navigation).cache.fetch lookup other).key =
      (cache.fetch lookup other).key := by
  by_cases h : other = navigation
  · rw [h, key_fetch _ _ navigation, get?_fetch_self, Option.getD_some]
  · rw [key_fetch, key_fetch, get?_fetch_other cache lookup h]

end KeyCache

/-- Binding the single parameter of a function leaves an instance of its body. -/
theorem Func.bindBody_singleton_eq_ok {f : Func} {e b : Expr} {n n' : Nat}
    (h : f.bindBody [some e] n = .ok (b, n')) :
    ∃ p, f.params = [p] ∧ f.body.instantiate (Replacement.empty.set p.id e) n = (b, n') := by
  obtain ⟨bound, hbound, h⟩ := Outcome.bind_eq_ok_iff.mp h
  cases h
  unfold bind at hbound
  split at hbound
  · next hlen =>
    obtain ⟨p, hp⟩ := List.length_eq_one_iff.mp hlen.symm
    cases hbound
    exact ⟨p, hp, by rw [hp]; rfl⟩
  · cases hbound

/-- Binding only uses identities up. -/
theorem Func.le_bindBody {f : Func} {e b : Expr} {n n' : Nat}
    (h : f.bindBody [some e] n = .ok (b, n')) : n ≤ n' := by
  obtain ⟨p, _, hinst⟩ := bindBody_singleton_eq_ok h
  have le := f.body.le_instantiate (Replacement.empty.set p.id e) n
  rwa [hinst] at le

/-- Finding the expression of an entity only uses identities up. -/
theorem Marker.le_entity {m : Marker} {entity : Expr} {n n' : Nat}
    (h : m.entity n = .ok (entity, n')) : n ≤ n' := by
  obtain ⟨kind, source, mapping, ty⟩ := m
  cases source with
  | entity e =>
      cases h
      exact Nat.le_refl n
  | navigation parent selector => exact Func.le_bindBody h

theorem Workspace.withParams_eq_ok {α : Type} {run : Nat → Outcome (α × Nat)} {w w' : Workspace}
    {a : α} (h : withParams run w = (.ok a, w')) :
    ∃ n, run w.nextParam = .ok (a, n) ∧ w' = { w with nextParam := n } := by
  unfold withParams at h
  split at h
  · next hrun =>
    cases h
    exact ⟨_, hrun, rfl⟩
  all_goals cases h

namespace Composer

variable {c : Composer} {w w' : Workspace}

/-- The key that is tested in the place of a relation. -/
def guard (c : Composer) (w : Workspace) (navigation : FieldId) : Option FieldId :=
  match c.policy with
  | .surrogateKey => (w.cache.fetch c.keys navigation).key.guardField
  | .disabled => none

/-- What a null test for the entity reads. -/
def subject (c : Composer) (w : Workspace) (entity : Expr) : Option Expr :=
  entity.asField?.bind fun read => (c.guard w read.2).map (Expr.field read.1)

theorem subject_eq_some {entity s : Expr} (h : c.subject w entity = some s) :
    ∃ base navigation key, entity = .field base navigation ∧ s = .field base key := by
  obtain ⟨⟨base, navigation⟩, hread, h⟩ := Option.bind_eq_some_iff.mp h
  obtain ⟨key, _, rfl⟩ := Option.map_eq_some_iff.mp h
  exact ⟨base, navigation, key, (Expr.asField?_eq_some_iff _ _ _).mp hread, rfl⟩

/-- Asking for what a null test reads gives out no identities and changes no key. -/
theorem guardSubject_run (c : Composer) (w : Workspace) (entity : Expr) :
    ∃ w', c.guardSubject entity w = (.ok (c.subject w entity), w') ∧
      w'.nextParam = w.nextParam ∧ c.guard w' = c.guard w := by
  obtain ⟨schema, keys, policy⟩ := c
  cases policy with
  | disabled =>
      refine ⟨w, ?_, rfl, rfl⟩
      cases h : entity.asField? <;> simp [guardSubject, subject, guard, h, Stateful.pure_run]
  | surrogateKey =>
      cases h : entity.asField? with
      | none => exact ⟨w, by simp [guardSubject, subject, h, Stateful.pure_run], rfl, rfl⟩
      | some read =>
          refine ⟨(Workspace.guardKey keys read.2 w).2, ?_, rfl, ?_⟩
          · simp only [guardSubject, subject, h]
            rfl
          · funext navigation
            simp [guard, Workspace.guardKey, KeyCache.key_fetch_fetch]

/-- A marker that is replaced resolves to a target, and its replacement is the instance of the
target's body for the entity, behind a null test if there is a key for it. -/
theorem inlineOnce_eq_ok {depth : Nat} {m : Marker} {e : Expr}
    (h : c.inlineOnce depth m w = (.ok e, w')) :
    ∃ entity n t p, m.entity w.nextParam = .ok (entity, n) ∧ m.resolve depth = .ok t ∧
      t.function.params = [p] ∧
      e = guarded (c.subject w entity)
        (t.function.body.instantiate (Replacement.empty.set p.id entity) n).1 ∧
      w'.nextParam = (t.function.body.instantiate (Replacement.empty.set p.id entity) n).2 ∧
      c.guard w' = c.guard w := by
  obtain ⟨entity, w₁, hentity, h⟩ := Stateful.bind_eq_ok_iff.mp h
  obtain ⟨n, hn, rfl⟩ := Workspace.withParams_eq_ok hentity
  obtain ⟨t, w₂, htarget, h⟩ := Stateful.bind_eq_ok_iff.mp h
  obtain ⟨ht, rfl⟩ := Stateful.lift_eq_ok_iff.mp htarget
  obtain ⟨_, w₃, harity, h⟩ := Stateful.bind_eq_ok_iff.mp h
  obtain ⟨_, rfl⟩ := Stateful.lift_eq_ok_iff.mp harity
  obtain ⟨subject, w₄, hsubject, h⟩ := Stateful.bind_eq_ok_iff.mp h
  obtain ⟨w₅, hrun, hnext, hguard⟩ := guardSubject_run c { w with nextParam := n } entity
  cases hrun.symm.trans hsubject
  obtain ⟨body, w₆, hbody, h⟩ := Stateful.bind_eq_ok_iff.mp h
  obtain ⟨n', hbind, rfl⟩ := Workspace.withParams_eq_ok hbody
  obtain ⟨p, hp, hinst⟩ := Func.bindBody_singleton_eq_ok hbind
  rw [hnext] at hinst
  have done : e = guarded (c.subject w entity) body ∧ w' = { w₄ with nextParam := n' } := by
    split at h
    · obtain ⟨rfl, rfl⟩ := Stateful.pure_eq_ok_iff.mp h
      exact ⟨rfl, rfl⟩
    · cases h
  obtain ⟨rfl, rfl⟩ := done
  exact ⟨entity, n, t, p, hn, ht, hp, by rw [hinst], by rw [hinst], hguard⟩

end Composer

namespace Moment

variable {guard : FieldId → Option FieldId}

/-- In the place of the single parameter, an expression that returns what the parameter is bound to
copies it. -/
theorem fits_single {x : Expr} {u : Value} {origin : Option Origin} {D E : Env} (keeps : E.Keeps D)
    (hu : x.Returns E.scope u) (hs : Safe guard ⟨x, E⟩) (ho : x.ReadsFrom E origin) (p : Param) :
    Fits guard (Replacement.empty.set p.id x) E (D.push p u origin) := by
  intro q E' hk
  by_cases hq : q.id = p.id
  · rw [hq, Replacement.set_same, Option.getD_some]
    have copies : Copies guard ⟨x, E'⟩ ⟨x, E⟩ := copies_of_keeps x hk
    constructor
    · intro v hv _
      have hv : (D.push p u origin).scope.find? q.id = some v := Expr.returns_arg.mp hv
      rw [Env.find?_push, if_pos hq] at hv
      cases hv
      exact copies.1 u hu hs
    · intro v hv _ o hread
      change o = (D.push p u origin).origin q.id
      rw [Env.origin_push, if_pos hq]
      exact (copies.2 u hu hs o hread).unique ho
  · rw [Replacement.set_other _ hq, Replacement.empty_apply, Option.getD_none]
    constructor
    · intro v hv _
      have hv : (D.push p u origin).scope.find? q.id = some v := Expr.returns_arg.mp hv
      rw [Env.find?_push, if_neg hq] at hv
      exact ⟨Expr.returns_arg.mpr (hk.trans keeps q.id v hv).1, safe_arg⟩
    · intro v hv _ o hread
      have hv : (D.push p u origin).scope.find? q.id = some v := Expr.returns_arg.mp hv
      rw [Env.find?_push, if_neg hq] at hv
      change o = (D.push p u origin).origin q.id
      rw [Env.origin_push, if_neg hq]
      exact Eq.trans hread (hk.trans keeps q.id v hv).2

/-- The expression of a marker's entity returns the entity that the marker meets, and the marker
makes of it what it returns. -/
theorem entity_copies {m : Marker} {entity : Expr} {n n' : Nat}
    (hentity : m.entity n = .ok (entity, n')) {E : Env} (below : E.Below n) {v : Value}
    (hv : m.toExpr.Returns E.scope v) (hs : Safe guard ⟨m.toExpr, E⟩) :
    ∃ u, entity.Returns E.scope u ∧ Safe guard ⟨entity, E⟩ ∧
      (∀ origin, entity.ReadsFrom E origin → m.Meets E u origin) ∧ m.mapping.Maps m.kind u v := by
  obtain ⟨kind, source, mapping, ty⟩ := m
  cases source with
  | entity e =>
      cases hentity
      obtain ⟨u, hu, hmaps⟩ := Expr.returns_includeEntity.mp hv
      exact ⟨u, hu, hs.needed (by simp [Marker.toExpr]), fun o ho => ⟨hu, ho⟩, hmaps⟩
  | navigation parent selector =>
      obtain ⟨r, hr, hpicked⟩ := Expr.returns_includeVia.mp hv
      obtain ⟨ha, hsp, hss, _⟩ := safe_includeVia.mp hs
      have hn : r ≠ .null := by
        rintro rfl
        exact ha.parent parent selector rfl hr
      obtain ⟨u, ⟨p, hp, hu⟩, hmaps⟩ := (hpicked.resolve_left fun h => hn h.1).2
      obtain ⟨o, ho⟩ := Expr.exists_readsFrom hr
      obtain ⟨p', hp', hinst⟩ := Func.bindBody_singleton_eq_ok hentity
      cases hp.symm.trans hp'
      have copies := copies_instantiate selector.body (fits_single .refl hr hsp ho p) below
      rw [hinst] at copies
      have hsu := hss p r o hp hr hn ho
      obtain ⟨hu', hs'⟩ := copies.1 u hu hsu
      refine ⟨u, hu', hs', fun origin hread => ?_, hmaps⟩
      exact ⟨p, r, o, hp, hr, hn, ho, hu, copies.2 u hu hsu origin hread⟩

/-- Behind a null test on a key, a body is reached exactly when the key is not null. -/
theorem follows_guarded {E : Env} {subject body : Expr} {u k v : Value}
    (hk : subject.Returns E.scope k) (hs : Safe guard ⟨subject, E⟩)
    (key : k = .null ↔ u = .null) (absent : u = .null → v = .null)
    (present : u ≠ .null → body.Returns E.scope v ∧ Safe guard ⟨body, E⟩) :
    (Composer.guarded (some subject) body).Returns E.scope v ∧
      Safe guard ⟨Composer.guarded (some subject) body, E⟩ := by
  have test : subject.isNotNull.Returns E.scope (.bool (k.isNull != true)) :=
    Expr.returns_isNull.mpr ⟨k, hk, rfl⟩
  have safeTest : Safe guard ⟨subject.isNotNull, E⟩ :=
    .of_needed trivial (by simpa [Expr.isNotNull] using hs)
  have branch : (if (k.isNull != true) = true then body else Expr.null).Returns E.scope v ∧
      Safe guard ⟨if (k.isNull != true) = true then body else Expr.null, E⟩ := by
    by_cases hu : u = .null
    · have hnull : k.isNull = true := (Value.isNull_iff k).mpr (key.mpr hu)
      rw [hnull, absent hu]
      exact ⟨Expr.returns_const.mpr rfl, safe_const⟩
    · have hnull : k.isNull = false :=
        Bool.eq_false_iff.mpr fun h => hu (key.mp ((Value.isNull_iff k).mp h))
      rw [hnull]
      exact present hu
  refine ⟨Expr.returns_cond.mpr ⟨_, test, branch.1⟩, safe_cond.mpr ⟨safeTest, fun b hb => ?_⟩⟩
  cases test.unique hb
  exact branch.2

/-- Either there is no key for where the entity is read, or the entity is a field of a record and
its key is what the null test reads. -/
theorem subject_cases (c : Composer) (w : Workspace) {E : Env} (unread : ∀ x, E.origin x = none)
    {entity : Expr} {origin : Option Origin} (h : entity.ReadsFrom E origin) :
    (c.subject w entity = none ∧ (origin.bind fun o => c.guard w o.navigation) = none) ∨
      ∃ base navigation key r, entity = .field base navigation ∧
        c.subject w entity = some (.field base key) ∧ c.guard w navigation = some key ∧
        base.Returns E.scope r ∧ origin = some ⟨r, navigation⟩ := by
  cases entity with
  | field base navigation =>
      obtain ⟨r, hr, rfl⟩ := h
      cases hg : c.guard w navigation with
      | none => exact .inl ⟨by simp [Composer.subject, Expr.asField?, hg], hg⟩
      | some key =>
          refine .inr ⟨base, navigation, key, r, rfl, ?_, hg, hr, rfl⟩
          simp [Composer.subject, Expr.asField?, hg]
  | arg p =>
      have ho : origin = none := Eq.trans h (unread p.id)
      exact .inl ⟨rfl, by simp [ho]⟩
  | _ =>
      cases h
      exact .inl ⟨rfl, rfl⟩

/-- What replaces a marker follows it. -/
theorem follows_inlineOnce {c : Composer} {depth : Nat} {m : Marker} {e : Expr} {w w' : Workspace}
    (h : c.inlineOnce depth m w = (.ok e, w')) {E : Env} (below : E.Below w.nextParam)
    (unread : ∀ x, E.origin x = none) : Follows (c.guard w) ⟨e, E⟩ ⟨m.toExpr, E⟩ := by
  intro v hv hs
  obtain ⟨entity, n, t, p, hentity, ht, hp, rfl, -, -⟩ := Composer.inlineOnce_eq_ok h
  obtain ⟨u, hu, hsu, hmeets, hmaps⟩ := entity_copies hentity below hv hs
  obtain ⟨o, ho⟩ := Expr.exists_readsFrom hu
  have admissible := hs.here m (Marker.asMarker?_toExpr m)
  have absent : u = .null → v = .null := fun hn => (hmaps.resolve_right fun h => h.1 hn).2
  have present : u ≠ .null →
      (t.function.body.instantiate (Replacement.empty.set p.id entity) n).1.Returns E.scope v ∧
      Safe (c.guard w)
        ⟨(t.function.body.instantiate (Replacement.empty.set p.id entity) n).1, E⟩ := by
    intro hn
    obtain ⟨t', ht', htv⟩ := (hmaps.resolve_left fun h => hn h.1).2
    cases ht'.unique ⟨depth, ht⟩
    have safe := hs.step (.target (Marker.asMarker?_toExpr m) (hmeets o ho) hn ht' hp)
    have interpreted := admissible.compiled u o t (hmeets o ho) hn ht' v htv
    obtain ⟨p', hp', hbody⟩ := Func.returns_singleton_iff.mp interpreted
    cases hp.symm.trans hp'
    have fits := fits_single (Env.keeps_closed (E := E)) hu hsu ho p
    have le := Marker.le_entity hentity
    exact (copies_instantiate t.function.body fits (below.mono le)).1 v hbody safe
  rcases subject_cases c w unread ho with
    ⟨hsubject, hguard⟩ | ⟨base, nav, key, r, rfl, hsubject, hguard, hr, rfl⟩
  · rw [hsubject]
    exact present (admissible.unguarded u o (hmeets o ho) hguard)
  · obtain ⟨k, hk, hnull⟩ := admissible.guarded u r nav key (hmeets _ ho) hguard
    have hbase : Safe (c.guard w) ⟨base, E⟩ := hsu.needed (by simp)
    rw [hsubject]
    refine follows_guarded (Expr.returns_field.mpr ⟨r, hr, hk⟩) ?_ hnull absent present
    exact .of_needed trivial (by simpa using hbase)

end Moment

end RecordMapping
