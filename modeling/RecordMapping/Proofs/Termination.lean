import RecordMapping.Proofs.Flatness
import RecordMapping.Proofs.Ranks

/-!
# Composing ends

A function whose markers are self-contained, in itself and in every function nested in it, is
composed within some depth: with a result or with a fault, whatever the composer knows and whether
it guards or not. The rank of the body bounds how far replacements are followed into each other.

The markers that a composer comes to are among those within the function, since what a
self-contained marker refers to is nested in its mapping argument. And nothing can come into a
mapping argument that refers to no parameter, so such a function has a rank.
-/

namespace RecordMapping

/-- Every marker in the function and in the functions nested in it is self-contained. -/
def Func.SelfContained (f : Func) : Prop :=
  f.body.Throughout fun s => ∀ m, s.asMarker? = some m → m.SelfContained

/-- Identities are given out in increasing order: every parameter that the function and the
functions nested in it refer to was given out before `n`. -/
def Func.RefersBelow (n : Nat) (f : Func) : Prop :=
  f.body.Throughout fun s => ∀ p, s = .arg p → p.id < n

/-- Where the identities below a bound are given out, the run ends with a result or with a fault and
takes none of them back. -/
def Workspace.Finishes {α : Type} (n : Nat) (run : Stateful Workspace α) : Prop :=
  ∀ w : Workspace, n ≤ w.nextParam →
    (∃ a w', run w = (.ok a, w') ∧ n ≤ w'.nextParam) ∨ ∃ f w', run w = (.fault f, w')

namespace Expr

variable {P : Expr → Prop} {e : Expr}

/-- Where markers are self-contained, everything that is come to stands within the expression. -/
theorem along_of_throughout
    (contained : e.Throughout fun s => ∀ m, s.asMarker? = some m → m.SelfContained)
    (h : e.Throughout P) : e.Along P := by
  induction e using reference_induction with
  | step e operand target =>
      refine along_iff.mpr ⟨h e .self, fun o ho => ?_, fun m t hm ht => ?_⟩
      · exact operand o ho (contained.operand (live_subset ho)) (h.operand (live_subset ho))
      · have nested := (contained e .self m hm).nested t ht
        obtain rfl := (Marker.asMarker?_eq_some_iff e m).mp hm
        have inside := (nested.operand (mapping_mem_operands m)).body_within
        exact target m t rfl ht (contained.within inside) (h.within inside)

theorem foreseen_of_contained
    (contained : e.Throughout fun s => ∀ m, s.asMarker? = some m → m.SelfContained)
    (U : PerParam Prop) : e.Foreseen U := by
  apply foreseen_of_closed
  exact along_of_throughout contained fun s hs m hm =>
    ⟨(contained s hs m hm).ends, (contained s hs m hm).closed⟩

/-- What is free in an expression stands within it. -/
theorem Free.exists_within {x : Nat} (h : e.Free x) :
    ∃ p : Param, p.id = x ∧ (Expr.arg p).Within e := by
  induction h with
  | arg h => exact ⟨_, h, .self⟩
  | operand ho _ _ ih =>
      obtain ⟨p, hp, within⟩ := ih
      exact ⟨p, hp, .operand ho within⟩

end Expr

namespace Workspace

variable {α β : Type} {n : Nat}

theorem Finishes.pure (a : α) : Finishes n (pure a) :=
  fun w hw => .inl ⟨a, w, rfl, hw⟩

theorem Finishes.lift {outcome : Outcome α} (h : outcome.Ended) :
    Finishes n (Stateful.lift outcome) := by
  intro w hw
  rcases h with ⟨a, rfl⟩ | ⟨f, rfl⟩
  · exact .inl ⟨a, w, rfl, hw⟩
  · exact .inr ⟨f, w, rfl⟩

theorem Finishes.bind {run : Stateful Workspace α} {next : α → Stateful Workspace β}
    (h : Finishes n run) (hn : ∀ a, Finishes n (next a)) : Finishes n (run >>= next) := by
  intro w hw
  rcases h w hw with ⟨a, w', ha, hw'⟩ | ⟨f, w', hf⟩
  · rw [Stateful.bind_run_ok ha]
    exact hn a w' hw'
  · exact .inr ⟨f, w', by simp [Stateful.bind_run, hf]⟩

/-- Giving out identities takes none of them back. -/
theorem finishes_withParams {run : Nat → Outcome (α × Nat)} (ended : ∀ k, (run k).Ended)
    (le : ∀ k a k', run k = .ok (a, k') → k ≤ k') : Finishes n (withParams run) := by
  intro w hw
  rcases ended w.nextParam with ⟨⟨a, k⟩, h⟩ | ⟨f, h⟩
  · refine .inl ⟨a, { w with nextParam := k }, by simp [withParams, h], ?_⟩
    exact Nat.le_trans hw (le _ _ _ h)
  · exact .inr ⟨f, w, by simp [withParams, h]⟩

end Workspace

theorem Func.ended_bindBody (f : Func) (replacements : List (Option Expr)) (k : Nat) :
    (f.bindBody replacements k).Ended := by
  apply Outcome.Ended.bind
  · unfold bind
    split
    · exact .inl ⟨_, rfl⟩
    · exact .inr ⟨_, rfl⟩
  · exact fun _ _ => .inl ⟨_, rfl⟩

theorem Marker.ended_entity (m : Marker) (k : Nat) : (m.entity k).Ended := by
  obtain ⟨kind, source, mapping, ty⟩ := m
  cases source with
  | entity e => exact .inl ⟨_, rfl⟩
  | navigation parent selector => exact selector.ended_bindBody _ k

namespace Expr

open Workspace

variable {n rank : Nat} {inline : Marker → Stateful Workspace Expr}

theorem flattenAllWith_finishes {es : List Expr}
    (h : ∀ e ∈ es, Finishes n (e.flattenWith inline)) : Finishes n (flattenAllWith inline es) := by
  induction es with
  | nil => exact .pure _
  | cons e es ih =>
      apply (h e (by simp)).bind
      intro e'
      apply (ih fun e he => h e (by simp [he])).bind
      exact fun es' => .pure _

/-- Where no parameter is replaced any more, operands have the rank of the expression. -/
theorem Ranked.inner {e : Expr} (h : e.Ranked n rank .zero) (unmarked : e.asMarker? = none) :
    ∀ o ∈ e.operands, o.expr.Ranked n rank .zero :=
  fun o ho => by simpa using h.operand unmarked ho

/-- If the run that replaces a marker of a rank ends, so does the one that replaces the outermost
markers of an expression of that rank. -/
theorem flattenWith_finishes
    (replaced : ∀ m : Marker, m.toExpr.Ranked n rank .zero → Finishes n (inline m)) (e : Expr)
    (h : e.Ranked n rank .zero) : Finishes n (e.flattenWith inline) := by
  induction e with
  | arg | const => exact .pure _
  | compare op left right ihl ihr =>
      have inner := h.inner rfl
      apply (ihl (inner ⟨[], left⟩ (by simp))).bind
      intro l
      apply (ihr (inner ⟨[], right⟩ (by simp))).bind
      exact fun r => .pure _
  | call callee args ihf iha =>
      have inner := h.inner rfl
      apply (ihf (inner ⟨[], callee⟩ (by simp))).bind
      intro f
      apply Finishes.bind
      · apply flattenAllWith_finishes
        exact fun a ha => iha a ha (inner ⟨[], a⟩ (by simp [ha]))
      · exact fun as => .pure _
  | cond test yes no iht ihy ihn =>
      have inner := h.inner rfl
      apply (iht (inner ⟨[], test⟩ (by simp))).bind
      intro t
      apply (ihy (inner ⟨[], yes⟩ (by simp))).bind
      intro y
      apply (ihn (inner ⟨[], no⟩ (by simp))).bind
      exact fun n => .pure _
  | field base id ih =>
      apply (ih (h.inner rfl ⟨[], base⟩ (by simp))).bind
      exact fun b => .pure _
  | includeEntity kind entity mapping ty => exact replaced ⟨kind, .entity entity, mapping, ty⟩ h
  | includeVia kind parent params body mapping ty =>
      exact replaced ⟨kind, .navigation parent ⟨params, body⟩, mapping, ty⟩ h
  | isNull negate operand ih =>
      apply (ih (h.inner rfl ⟨[], operand⟩ (by simp))).bind
      exact fun e => .pure _
  | list items ih =>
      apply Finishes.bind
      · apply flattenAllWith_finishes
        exact fun e he => ih e he (h.inner rfl ⟨[], e⟩ (by simp [he]))
      · exact fun es => .pure _
  | map base params body ihl ihb =>
      have inner := h.inner rfl
      apply (ihl (inner ⟨[], base⟩ (by simp))).bind
      intro l
      apply (ihb (inner ⟨params, body⟩ (by simp))).bind
      exact fun b => .pure _
  | record model fields ih =>
      apply Finishes.bind
      · apply flattenAllWith_finishes
        exact fun e he => ih e he (h.inner rfl ⟨[], e⟩ (by simp [he]))
      · exact fun es => .pure _

end Expr

namespace Composer

open Workspace

variable {c : Composer} {n rank : Nat}

/-- Replacing a marker ends if finding what it refers to does. -/
theorem inlineOnce_finishes {depth : Nat} {m : Marker} (h : (m.resolve depth).Ended) :
    Finishes n (c.inlineOnce depth m) := by
  apply (finishes_withParams m.ended_entity fun _ _ _ => Marker.le_entity).bind
  intro entity
  apply (Finishes.lift h).bind
  intro t
  apply (Finishes.lift (ended_checkArity 1 _)).bind
  intro _
  apply Finishes.bind
  · intro w hw
    obtain ⟨w', hrun, hnext, _⟩ := guardSubject_run c w entity
    exact .inl ⟨_, w', hrun, hnext ▸ hw⟩
  intro subject
  apply (finishes_withParams (t.function.ended_bindBody _) fun _ _ _ => Func.le_bindBody).bind
  intro body
  dsimp only
  split
  · exact .pure _
  · exact .lift (.inr ⟨_, rfl⟩)

theorem ranked_guarded {subject body : Expr} (hs : subject.Ranked n rank .zero)
    (hb : body.Ranked n rank .zero) : (guarded (some subject) body).Ranked n rank .zero := by
  have test : (Expr.isNull true subject).Ranked n rank .zero :=
    .node nofun rfl (by simpa using hs)
  have null : (Expr.const .null).Ranked n rank .zero :=
    .node nofun rfl (by simp)
  apply Expr.Ranked.node
  · simp [guarded]
  · rfl
  · simpa [guarded, Expr.isNotNull, Expr.null] using ⟨test, hb, null⟩

/-- What replaces a marker has a smaller rank than the marker. -/
theorem inlineOnce_ranked {depth : Nat} {m : Marker} {e : Expr} {w w' : Workspace}
    (once : c.inlineOnce depth m w = (.ok e, w')) (h : m.toExpr.Ranked n (rank + 1) .zero)
    (hn : n ≤ w.nextParam) : e.Ranked w'.nextParam rank .zero := by
  obtain ⟨rank', g, hrank, hg, _, graded, target⟩ := h.marker_cases
  cases hrank
  obtain ⟨entity, k, t, p, hentity, ht, hp, rfl, hnext, _⟩ := inlineOnce_eq_ok once
  have entity_graded := graded hn hentity
  have target_ranked := target t ⟨depth, ht⟩
  rw [hp] at target_ranked
  have hk := Nat.le_trans hn (Marker.le_entity hentity)
  have body := target_ranked.instantiate hk (.single target_ranked hk entity_graded)
  rw [hnext]
  cases hs : c.subject w entity with
  | none => exact body
  | some s =>
      obtain ⟨base, navigation, key, rfl, rfl⟩ := subject_eq_some hs
      have le := t.function.body.le_instantiate
        (Replacement.empty.set p.id (base.field navigation)) k
      have entity_ranked := entity_graded.ranked.mono le hg fun _ _ => Grade.le_refl _
      have base_ranked := entity_ranked.inner rfl ⟨[], base⟩ (by simp)
      apply ranked_guarded _ body
      exact .node nofun rfl (by simpa using base_ranked)

/-- An expression is flattened within any depth above its rank. -/
theorem flatten_finishes {depth : Nat} (hd : rank < depth) {e : Expr}
    (h : e.Ranked n rank .zero) : Finishes n (c.flatten depth e) := by
  induction depth generalizing n rank e with
  | zero => omega
  | succ depth ih =>
      refine Expr.flattenWith_finishes (fun m hm => ?_) e h
      obtain ⟨rank', _, rfl, _, settles, _⟩ := hm.marker_cases
      have settled := settles.mono (Nat.le_refl n) (Nat.le_of_succ_le (Nat.le_of_lt_succ hd))
        fun _ _ => Grade.le_refl _
      intro w hw
      rcases inlineOnce_finishes (c := c) settled.ends w hw with ⟨e', w', once, hw'⟩ | ⟨f, w', hf⟩
      · rw [Stateful.bind_run_ok once]
        have ranked := inlineOnce_ranked once hm hw
        rcases ih (Nat.lt_of_succ_lt_succ hd) ranked w' (Nat.le_refl _) with ⟨a, w'', ha, hw''⟩ | hf
        · exact .inl ⟨a, w'', ha, Nat.le_trans hw' hw''⟩
        · exact .inr hf
      · exact .inr ⟨f, w', by simp [Stateful.bind_run, hf]⟩

/-- A function is composed within any depth above the rank of its body. -/
theorem composeFunc_finishes {f : Func} (h : f.body.Ranked n rank .zero) {depth : Nat}
    (hd : rank < depth) : Finishes n (c.composeFunc depth f) :=
  (flatten_finishes hd h).bind fun _ => .pure _

/-- Composing ends: if every marker in a function and in the functions nested in it is
self-contained, there is a depth within which every composer, whatever it knows, ends with a result
or with a fault. -/
theorem composeFunc_ends {f : Func} (contained : f.SelfContained) {n : Nat}
    (fresh : f.RefersBelow n) : ∃ depth, ∀ (c : Composer) (w : Workspace) (d : Nat),
      n ≤ w.nextParam → depth ≤ d → (c.composeFunc d f w).1.Ended := by
  have below : f.body.Along fun s => ∀ x, s.Free x → x < n := by
    refine Expr.along_of_throughout contained fun s hs x hx => ?_
    obtain ⟨p, rfl, within⟩ := hx.exists_within
    exact fresh _ (within.trans hs) p rfl
  have foreseen := Expr.foreseen_of_contained contained fun _ => True
  obtain ⟨rank, h⟩ := foreseen.exists_rank (κ := .zero) below fun _ _ _ => trivial
  refine ⟨rank + 1, fun c w d hw hd => ?_⟩
  rcases composeFunc_finishes (c := c) h hd w hw with ⟨g, w', hg, _⟩ | ⟨f, w', hf⟩
  · exact .inl ⟨g, by rw [hg]⟩
  · exact .inr ⟨f, by rw [hf]⟩

/-- What holds of every parameter that is given out and of every node whose marker, if it is one,
refers to a constant holds throughout the sample function. -/
theorem chained_throughout {P : Expr → Prop} (arg : ∀ p : Param, p.id < 4 → P (.arg p))
    (inner : ∀ e : Expr, (∀ p, e ≠ .arg p) →
      (∀ m, e.asMarker? = some m → ∃ v, m.mapping = .const v) → P e) :
    chained.body.Throughout P := by
  have param (p : Param) (hp : p.id < 4) : (Expr.arg p).Throughout P :=
    Expr.throughout_iff.mpr ⟨arg p hp, by simp, nofun⟩
  have field (p : Param) (hp : p.id < 4) (id : FieldId) : (Expr.field (.arg p) id).Throughout P :=
    Expr.throughout_iff.mpr
      ⟨inner _ nofun nofun, by simpa using param p hp, nofun⟩
  have list (e : Expr) (he : e.Throughout P) : (Expr.list [e]).Throughout P :=
    Expr.throughout_iff.mpr ⟨inner _ nofun nofun, by simpa using he, nofun⟩
  have constant (label : Nat) (f : Func) (hf : f.body.Throughout P) :
      (Expr.const (.func label f)).Throughout P := by
    refine Expr.throughout_iff.mpr ⟨inner _ nofun nofun, by simp, ?_⟩
    intro v F hv hF
    cases hv
    cases hF
    exact hf
  have marker (p : Param) (hp : p.id < 4) (id : FieldId) (label : Nat) (f : Func) (ty : Ty)
      (hf : f.body.Throughout P) :
      (Expr.includeEntity .ast (.field (.arg p) id) (.const (.func label f)) ty).Throughout P := by
    refine Expr.throughout_iff.mpr ⟨inner _ nofun ?_, ?_, nofun⟩
    · intro m hm
      cases hm
      exact ⟨_, rfl⟩
    · simpa using ⟨field p hp id, constant label f hf⟩
  refine Expr.throughout_iff.mpr ⟨inner _ nofun nofun, ?_, nofun⟩
  have leaf := list _ (param ⟨3, "p", .unknown⟩ (by decide))
  have middle := list _ (marker ⟨2, "p", .unknown⟩ (by decide) ⟨⟨0⟩, 1⟩ 0 ⟨[⟨3, "p", .unknown⟩], _⟩
    .unknown leaf)
  have lambda := marker ⟨1, "p", .unknown⟩ (by decide) ⟨⟨0⟩, 1⟩ 1 ⟨[⟨2, "p", .unknown⟩], _⟩ .unknown
    middle
  simpa [chained] using ⟨field ⟨0, "p", .unknown⟩ (by decide) ⟨⟨0⟩, 0⟩, lambda⟩

theorem chained_ends : chained.SelfContained ∧ chained.RefersBelow 4 ∧
    ∃ depth, ∀ (c : Composer) (w : Workspace) (d : Nat), 4 ≤ w.nextParam → depth ≤ d →
      (c.composeFunc d chained w).1.Ended := by
  have contained : chained.SelfContained := by
    apply chained_throughout
    · exact fun p _ m hm => by cases hm
    · intro e _ constant m hm
      obtain ⟨v, hv⟩ := constant m hm
      exact Marker.selfContained_of_const hv
  have fresh : chained.RefersBelow 4 := by
    apply chained_throughout
    · rintro p hp _ ⟨⟩
      exact hp
    · exact fun e inner _ p hp => absurd hp (inner p)
  exact ⟨contained, fresh, composeFunc_ends contained fresh⟩

end Composer

end RecordMapping
