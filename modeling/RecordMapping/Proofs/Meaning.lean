import RecordMapping.Proofs.Flatness
import RecordMapping.Proofs.References

/-!
# Composed functions return the same values

Whatever interpreting a function as written returns, the composed function returns as well, as long
as the run meets its markers where null tests tell an absent entity from a present one. This holds
of markers at any depth, in lambdas, in the entities of other markers and in the referenced mappings
that are reached only after a marker is replaced.
-/

namespace RecordMapping

namespace Composer

variable {c : Composer}

/-- Identities are only used up, and no key changes. -/
def Advances (c : Composer) (w w' : Workspace) : Prop :=
  w.nextParam ≤ w'.nextParam ∧ c.guard w' = c.guard w

namespace Advances

theorem refl (w : Workspace) : c.Advances w w := ⟨Nat.le_refl _, rfl⟩

theorem trans {w w' w'' : Workspace} (h : c.Advances w w') (h' : c.Advances w' w'') :
    c.Advances w w'' :=
  ⟨Nat.le_trans h.1 h'.1, h'.2.trans h.2⟩

end Advances

theorem advances_inlineOnce {depth : Nat} {m : Marker} {e : Expr} {w w' : Workspace}
    (h : c.inlineOnce depth m w = (.ok e, w')) : c.Advances w w' := by
  obtain ⟨entity, n, t, p, hentity, _, _, _, hnext, hguard⟩ := inlineOnce_eq_ok h
  have body := t.function.body.le_instantiate (Replacement.empty.set p.id entity) n
  exact ⟨Nat.le_trans (Marker.le_entity hentity) (hnext ▸ body), hguard⟩

/-- An expansion only uses identities up and changes no key. -/
theorem Expands.advances {e e' : Expr} {w w' : Workspace} (h : c.Expands e w e' w') :
    c.Advances w w' := by
  induction h using Expands.induct with
  | arg p w | const v w => exact .refl w
  | compare op _ _ hl hr => exact hl.trans hr
  | call _ _ hf ha => exact hf.trans (ha.states .refl .trans fun _ _ _ _ h => h.2)
  | cond _ _ _ ht hy hn => exact (ht.trans hy).trans hn
  | field id _ hb => exact hb
  | marker m once _ rest => exact (advances_inlineOnce once).trans rest
  | isNull negate _ he => exact he
  | list _ hs | record _ _ hs => exact hs.states .refl .trans fun _ _ _ _ h => h.2
  | map params _ _ hl hb => exact hl.trans hb

end Composer

/-- The binders in the expression of an entity are those of the marker and new ones. -/
theorem Marker.entity_bindersBelow {m : Marker} {entity : Expr} {n n' : Nat}
    (h : m.entity n = .ok (entity, n')) (hm : m.toExpr.BindersBelow n) :
    entity.BindersBelow n' := by
  refine entity_of_live (P := Expr.BindersBelow) h (fun o ho => hm.operand (Expr.live_subset ho)) ?_
  exact fun _ hx => Expr.bindersBelow_of_single _ hx _

namespace Composer

variable {c : Composer}

/-- The binders in what replaces a marker are those of the marker and new ones. -/
theorem inlineOnce_bindersBelow {depth : Nat} {m : Marker} {e : Expr} {w w' : Workspace}
    (h : c.inlineOnce depth m w = (.ok e, w')) (hm : m.toExpr.BindersBelow w.nextParam) :
    e.BindersBelow w'.nextParam := by
  obtain ⟨entity, n, t, p, hentity, _, _, rfl, hnext, _⟩ := inlineOnce_eq_ok h
  have below := Marker.entity_bindersBelow hentity hm
  have body := t.function.body.bindersBelow_of_single below p.id
  have le := t.function.body.le_instantiate (Replacement.empty.set p.id entity) n
  rw [hnext]
  cases hs : c.subject w entity with
  | none => exact body
  | some s =>
      obtain ⟨base, navigation, key, rfl, rfl⟩ := subject_eq_some hs
      have hbase := (below.mono le).operand (o := ⟨[], base⟩) (by simp)
      have field : (Expr.field base key).BindersBelow _ :=
        Expr.bindersBelow_iff.mpr (by simpa using hbase)
      have test : (Expr.field base key).isNotNull.BindersBelow _ :=
        Expr.bindersBelow_iff.mpr (by simpa [Expr.isNotNull] using field)
      have null : Expr.null.BindersBelow
          (t.function.body.instantiate (Replacement.empty.set p.id (base.field navigation)) n).2 :=
        Expr.bindersBelow_iff.mpr (by simp [Expr.null])
      refine Expr.bindersBelow_iff.mpr ?_
      simpa [guarded] using ⟨test, body, null⟩

/-- What a composer makes of expressions follows them one by one. -/
theorem forall₂_follows {guard : FieldId → Option FieldId} {es es' : List Expr} {w w' : Workspace}
    (h : Threaded (fun e w e' w' => ∃ _ : c.Expands e w e' w', ∀ {E : Env},
      (∀ x, E.origin x = none) → c.guard w = guard → E.Below w.nextParam →
        e.BindersBelow w.nextParam → Moment.Follows guard ⟨e', E⟩ ⟨e, E⟩) es w es' w')
    {E : Env} (unread : ∀ x, E.origin x = none) (hg : c.guard w = guard)
    (below : E.Below w.nextParam) (binders : ∀ e ∈ es, e.BindersBelow w.nextParam) :
    List.Forall₂ (fun e' e => Moment.Follows guard ⟨e', E⟩ ⟨e, E⟩) es' es := by
  induction h with
  | nil => exact .nil
  | cons head _ ih =>
      obtain ⟨expands, follows⟩ := head
      obtain ⟨hn, hg'⟩ := expands.advances
      refine .cons (follows unread hg below (binders _ (by simp))) ?_
      exact ih (hg'.trans hg) (below.mono hn) fun e he => (binders e (by simp [he])).mono hn

/-- What a composer makes of an expression follows it. -/
theorem Expands.follows {guard : FieldId → Option FieldId} {e e' : Expr} {w w' : Workspace}
    (h : c.Expands e w e' w') {E : Env} (unread : ∀ x, E.origin x = none) (hg : c.guard w = guard)
    (below : E.Below w.nextParam) (binders : e.BindersBelow w.nextParam) :
    Moment.Follows guard ⟨e', E⟩ ⟨e, E⟩ := by
  induction h using Expands.induct generalizing E with
  | arg p w => exact .refl _
  | const v w => exact .refl _
  | compare op hl hr ihl ihr =>
      obtain ⟨hn, hg'⟩ := hl.advances
      have left := ihl unread hg below (binders.operand (o := ⟨[], _⟩) (by simp))
      have right := ihr unread (hg'.trans hg) (below.mono hn)
        ((binders.mono hn).operand (o := ⟨[], _⟩) (by simp))
      exact .compare left right
  | call hf ha ihf iha =>
      obtain ⟨hn, hg'⟩ := hf.advances
      have callee := ihf unread hg below (binders.operand (o := ⟨[], _⟩) (by simp))
      refine .call callee (forall₂_follows iha unread (hg'.trans hg) (below.mono hn) fun a ha => ?_)
      exact (binders.mono hn).operand (o := ⟨[], a⟩) (by simp [ha])
  | cond ht hy hn iht ihy ihn =>
      obtain ⟨hn₁, hg₁⟩ := ht.advances
      obtain ⟨hn₂, hg₂⟩ := hy.advances
      have test := iht unread hg below (binders.operand (o := ⟨[], _⟩) (by simp))
      have yes := ihy unread (hg₁.trans hg) (below.mono hn₁)
        ((binders.mono hn₁).operand (o := ⟨[], _⟩) (by simp))
      have hn₂ := Nat.le_trans hn₁ hn₂
      have no := ihn unread (hg₂.trans (hg₁.trans hg)) (below.mono hn₂)
        ((binders.mono hn₂).operand (o := ⟨[], _⟩) (by simp))
      exact .cond test yes no
  | field id hb ih =>
      exact .field (ih unread hg below (binders.operand (o := ⟨[], _⟩) (by simp)))
  | marker m once _ ih =>
      obtain ⟨hn, hg'⟩ := advances_inlineOnce once
      have replaced := Moment.follows_inlineOnce once below unread
      rw [hg] at replaced
      have rest := ih unread (hg'.trans hg) (below.mono hn) (inlineOnce_bindersBelow once binders)
      exact rest.trans replaced
  | isNull negate he ih =>
      exact .isNull (ih unread hg below (binders.operand (o := ⟨[], _⟩) (by simp)))
  | list hs ih =>
      refine .list (forall₂_follows ih unread hg below fun e he => ?_)
      exact binders.operand (o := ⟨[], e⟩) (by simp [he])
  | record model hs ih =>
      refine .record (forall₂_follows ih unread hg below fun e he => ?_)
      exact binders.operand (o := ⟨[], e⟩) (by simp [he])
  | @map params base body l b w₁ w₂ w₃ hl hb ihl ihb =>
      obtain ⟨hn, hg'⟩ := hl.advances
      have items := ihl unread hg below (binders.operand (o := ⟨[], _⟩) (by simp))
      refine .map items ?_
      rintro p rfl
      have bound := (Expr.bindersBelow_iff.mp binders ⟨[p], body⟩ (by simp)).1 p
        (by simp)
      refine ⟨p, rfl, fun item => ihb (fun x => ?_) (hg'.trans hg) ?_ ?_⟩
      · by_cases hx : x = p.id
        · simp [Env.origin_push, hx]
        · simp [Env.origin_push, hx, unread x]
      · exact (below.mono hn).push (Nat.lt_of_lt_of_le bound hn) item none
      · exact (binders.mono hn).operand (o := ⟨[p], body⟩) (by simp)

end Composer

/-- The identities in the function itself were given out before the next unused one. -/
def Func.Below (n : Nat) (f : Func) : Prop := (∀ p ∈ f.params, p.id < n) ∧ f.body.BindersBelow n

/-- The first moment of interpreting a function. -/
def Func.start (f : Func) (args : List Value) : Moment := ⟨f.body, .ofArgs f.params args⟩

theorem Env.below_ofArgs {params : List Param} {n : Nat} (h : ∀ p ∈ params, p.id < n)
    (args : List Value) : (ofArgs params args).Below n := by
  intro x v hv
  by_cases hx : ∀ q ∈ params, q.id ≠ x
  · have none : Layer.position? ⟨params, args⟩ x = none := by simpa [Layer.position?] using hx
    simp [ofArgs, Scope.find?_cons_of_none none] at hv
  · obtain ⟨q, hq, rfl⟩ : ∃ q ∈ params, q.id = x := by simpa using hx
    exact h q hq

/-- A marker over a relation is safe if the key of the relation is null exactly when the related
record is, and the function it refers to is safe on a related record. -/
theorem Moment.safe_include {guard : FieldId → Option FieldId} {E : Env} {label : Nat} {f : Func}
    {p : Param} {base : Expr} {navigation key : FieldId} {ty : Ty} {r v k : Value}
    (hf : f.params = [p]) (hs : Safe guard ⟨base, E⟩) (hr : base.Returns E.scope r)
    (hv : r.readField navigation = .ok v) (hg : guard navigation = some key)
    (hk : r.readField key = .ok k) (hnull : k = .null ↔ v = .null)
    (body : v ≠ .null → Safe guard ⟨f.body, Env.closed.push p v (some ⟨r, navigation⟩)⟩) :
    Safe guard
      ⟨.includeEntity .ast (.field base navigation) (.const (.func label f)) ty, E⟩ := by
  have refers : Expr.RefersTo (.const (.func label f)) .ast (.func label f) := ⟨0, rfl⟩
  have meets : ∀ u origin, Marker.Meets
      ⟨.ast, .entity (.field base navigation), .const (.func label f), ty⟩ E u origin →
        u = v ∧ origin = some ⟨r, navigation⟩ := by
    rintro u origin ⟨hu, r', hr', rfl⟩
    cases hr.unique hr'
    exact ⟨hu.unique (Expr.returns_field.mpr ⟨r, hr, hv⟩), rfl⟩
  refine safe_includeEntity.mpr ⟨⟨nofun, ?_, ?_, ?_⟩, ?_, ?_⟩
  · intro u origin hu hnone
    obtain ⟨rfl, rfl⟩ := meets u origin hu
    simp [hg] at hnone
  · intro u record navigation' key' hu hkey
    obtain ⟨rfl, ho⟩ := meets u _ hu
    cases ho
    cases hg.symm.trans hkey
    exact ⟨k, hk, hnull⟩
  · intro u origin t _ _ ht w hw
    cases refers.unique ht
    exact hw
  · exact .of_needed trivial (by simpa using hs)
  · intro u origin t q hu hn ht hq
    cases refers.unique ht
    cases hf.symm.trans hq
    obtain ⟨rfl, rfl⟩ := meets u origin hu
    exact body hn

namespace Composer

variable {c : Composer}

/-- Composing preserves meaning: what interpreting a function as written returns, the composed
function returns as well, provided that no selector meets a null parent, no unguarded marker meets
a null entity, and the key that guards a marker is null exactly when its entity is. -/
theorem composeFunc_returns {depth : Nat} {f g : Func} {w w' : Workspace}
    (composed : c.composeFunc depth f w = (.ok g, w')) (fresh : f.Below w.nextParam)
    {args : List Value} {v : Value} (returns : f.Returns args v)
    (admissible : ∀ M, (f.start args).Passes M → M.Admissible (c.guard w)) :
    g.Returns args v := by
  obtain ⟨params, expands⟩ := expands_of_composeFunc composed
  obtain ⟨arity, body⟩ := Func.returns_iff.mp returns
  have follows := expands.follows (fun _ => rfl) rfl (Env.below_ofArgs fresh.1 args) fresh.2
  rw [Func.returns_iff, Func.arity, params]
  exact ⟨arity, (follows v body admissible).1⟩

/-- A record with a related one, and a key that is null if there is none. -/
def row (related : Value) : Value :=
  .record [.bool true, related, if related.isNull then .null else .i64 1]

theorem chained_below : chained.Below 4 := by
  have bound (p : Param) (id : FieldId) : (Expr.field (.arg p) id).BindersBelow 4 :=
    Expr.bindersBelow_iff.mpr (by simpa using Expr.bindersBelow_arg p 4)
  have const (v : Value) : (Expr.const v).BindersBelow 4 :=
    Expr.bindersBelow_iff.mpr (by simp)
  have marker (kind : MarkerKind) (p : Param) (id : FieldId) (v : Value) (ty : Ty) :
      (Expr.includeEntity kind (.field (.arg p) id) (.const v) ty).BindersBelow 4 :=
    Expr.bindersBelow_iff.mpr (by simpa using ⟨bound p id, const v⟩)
  refine ⟨by simp [chained], Expr.bindersBelow_iff.mpr ?_⟩
  simpa [chained] using ⟨bound _ _, marker _ _ _ _ _⟩

theorem chained_returns : ∃ g w', keyed.composeFunc 3 chained ⟨4, 2, {}, []⟩ = (.ok g, w') ∧
    g.Returns [.record [.list [row (row (.string "leaf")), row .null, row (row .null)]]]
      (.list [.list [.list [.string "leaf"]], .null, .list [.null]]) := by
  have composed : keyed.composeFunc 3 chained ⟨4, 2, {}, []⟩ = (.ok _, _) := rfl
  have key (v : Value) : (if v.isNull then .null else .i64 1 : Value) = .null ↔ v = .null := by
    cases v <;> simp [Value.isNull]
  refine ⟨_, _, composed, composeFunc_returns composed chained_below ⟨3, rfl⟩ ?_⟩
  refine Moment.safe_map.mpr ⟨.of_needed trivial ?_, fun items hitems item hi p hp => ?_⟩
  · simpa using Moment.safe_arg
  · have known : Expr.Returns (.field (.arg ⟨0, "p", .unknown⟩) ⟨⟨0⟩, 0⟩)
        (Env.ofArgs chained.params [.record [.list
          [row (row (.string "leaf")), row .null, row (row .null)]]]).scope
        (.list [row (row (.string "leaf")), row .null, row (row .null)]) := ⟨0, rfl⟩
    cases known.unique hitems
    cases hp
    obtain ⟨v, rfl, hv⟩ : ∃ v, item = row v ∧ (v = .null ∨ ∃ u, v = row u) := by
      simp only [List.mem_cons, List.not_mem_nil, or_false] at hi
      rcases hi with rfl | rfl | rfl
      · exact ⟨_, rfl, .inr ⟨_, rfl⟩⟩
      · exact ⟨_, rfl, .inl rfl⟩
      · exact ⟨_, rfl, .inr ⟨_, rfl⟩⟩
    refine Moment.safe_include rfl Moment.safe_arg (Expr.returns_arg.mpr rfl) rfl rfl rfl (key v) ?_
    intro hn
    obtain ⟨u, rfl⟩ := hv.resolve_left hn
    refine .of_needed trivial ?_
    simp only [Expr.needed, List.mem_singleton, forall_eq]
    refine Moment.safe_include rfl Moment.safe_arg (Expr.returns_arg.mpr rfl) rfl rfl rfl (key u) ?_
    intro _
    exact .of_needed trivial (by simpa using Moment.safe_arg)

end Composer

end RecordMapping
