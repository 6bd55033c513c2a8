import RecordMapping.Composer.Flatten
import RecordMapping.Proofs.Operands

/-!
# Expansion of markers

What a composer makes of an expression when it succeeds, as a relation: every operand is expanded
in turn, and a marker is replaced once and its replacement is expanded.

## Implementation notes

The relation does not bound how far replacements are followed into each other, and its derivations
are finite. Everything that a successful composition keeps is proved by induction on them, so that
the traversal itself is taken apart in one place.
-/

namespace RecordMapping

namespace Stateful

variable {σ α β : Type}

/-- A sequence of two runs has a result exactly when both have one. -/
theorem bind_eq_ok_iff {run : Stateful σ α} {next : α → Stateful σ β} {s s' : σ} {b : β} :
    (run >>= next) s = (.ok b, s') ↔
      ∃ a s₁, run s = (.ok a, s₁) ∧ next a s₁ = (.ok b, s') := by
  rw [bind_run]
  rcases run s with ⟨_ | _ | _ | _, s₁⟩ <;> simp [and_assoc]

theorem pure_eq_ok_iff {s s' : σ} {a b : α} :
    (pure a : Stateful σ α) s = (.ok b, s') ↔ a = b ∧ s = s' := by
  simp [pure_run]

theorem lift_eq_ok_iff {outcome : Outcome α} {s s' : σ} {a : α} :
    (lift outcome : Stateful σ α) s = (.ok a, s') ↔ outcome = .ok a ∧ s = s' := by
  simp [lift_run]

end Stateful

/-- The expression that a composer makes of another one, with the workspace before and after. -/
inductive Composer.Expands (c : Composer) : Expr → Workspace → Expr → Workspace → Prop
  | arg {p w} : Expands c (.arg p) w (.arg p) w
  | compare {op left right l r w₁ w₂ w₃} (hl : Expands c left w₁ l w₂)
      (hr : Expands c right w₂ r w₃) :
      Expands c (.compare op left right) w₁ (.compare op l r) w₃
  | call {callee args f as w₁ w₂ w₃} (hf : Expands c callee w₁ f w₂)
      (ha : Threaded (Expands c) args w₂ as w₃) : Expands c (.call callee args) w₁ (.call f as) w₃
  | cond {test yes no t y n w₁ w₂ w₃ w₄} (ht : Expands c test w₁ t w₂)
      (hy : Expands c yes w₂ y w₃) (hn : Expands c no w₃ n w₄) :
      Expands c (.cond test yes no) w₁ (.cond t y n) w₄
  | field {base id b w₁ w₂} (hb : Expands c base w₁ b w₂) :
      Expands c (.field base id) w₁ (.field b id) w₂
  | marker {m : Marker} {depth e₁ e' w₁ w₂ w₃} (once : c.inlineOnce depth m w₁ = (.ok e₁, w₂))
      (rest : Expands c e₁ w₂ e' w₃) : Expands c m.toExpr w₁ e' w₃
  | isNull {negate operand e w₁ w₂} (he : Expands c operand w₁ e w₂) :
      Expands c (.isNull negate operand) w₁ (.isNull negate e) w₂
  | list {items es w₁ w₂} (hs : Threaded (Expands c) items w₁ es w₂) :
      Expands c (.list items) w₁ (.list es) w₂
  | map {base params body l b w₁ w₂ w₃} (hl : Expands c base w₁ l w₂)
      (hb : Expands c body w₂ b w₃) :
      Expands c (.map base ⟨params, body⟩) w₁ (.map l ⟨params, b⟩) w₃
  | record {model fields es w₁ w₂} (hs : Threaded (Expands c) fields w₁ es w₂) :
      Expands c (.record model fields) w₁ (.record model es) w₂
  | const {v w} : Expands c (.const v) w (.const v) w

namespace Composer

variable {c : Composer}

/-- Induction on an expansion. A list of operands comes with one expansion and one hypothesis for
each of its items. -/
@[elab_as_elim]
theorem Expands.induct {P : ∀ e w e' w', c.Expands e w e' w' → Prop}
    (arg : ∀ p w, P (.arg p) w (.arg p) w .arg)
    (compare : ∀ op {left right l r w₁ w₂ w₃} (hl : c.Expands left w₁ l w₂)
      (hr : c.Expands right w₂ r w₃), P _ _ _ _ hl → P _ _ _ _ hr →
      P (.compare op left right) w₁ (.compare op l r) w₃ (.compare hl hr))
    (call : ∀ {callee args f as w₁ w₂ w₃} (hf : c.Expands callee w₁ f w₂)
      (ha : Threaded c.Expands args w₂ as w₃), P _ _ _ _ hf →
      Threaded (fun e w e' w' => ∃ h, P e w e' w' h) args w₂ as w₃ →
      P (.call callee args) w₁ (.call f as) w₃ (.call hf ha))
    (cond : ∀ {test yes no t y n w₁ w₂ w₃ w₄} (ht : c.Expands test w₁ t w₂)
      (hy : c.Expands yes w₂ y w₃) (hn : c.Expands no w₃ n w₄), P _ _ _ _ ht → P _ _ _ _ hy →
      P _ _ _ _ hn → P (.cond test yes no) w₁ (.cond t y n) w₄ (.cond ht hy hn))
    (field : ∀ id {base b w₁ w₂} (hb : c.Expands base w₁ b w₂), P _ _ _ _ hb →
      P (.field base id) w₁ (.field b id) w₂ (.field hb))
    (marker : ∀ (m : Marker) {depth e₁ e' w₁ w₂ w₃}
      (once : c.inlineOnce depth m w₁ = (.ok e₁, w₂)) (rest : c.Expands e₁ w₂ e' w₃),
      P _ _ _ _ rest → P m.toExpr w₁ e' w₃ (.marker once rest))
    (isNull : ∀ negate {operand e w₁ w₂} (he : c.Expands operand w₁ e w₂), P _ _ _ _ he →
      P (.isNull negate operand) w₁ (.isNull negate e) w₂ (.isNull he))
    (list : ∀ {items es w₁ w₂} (hs : Threaded c.Expands items w₁ es w₂),
      Threaded (fun e w e' w' => ∃ h, P e w e' w' h) items w₁ es w₂ →
      P (.list items) w₁ (.list es) w₂ (.list hs))
    (map : ∀ params {base body l b w₁ w₂ w₃} (hl : c.Expands base w₁ l w₂)
      (hb : c.Expands body w₂ b w₃), P _ _ _ _ hl → P _ _ _ _ hb →
      P (.map base ⟨params, body⟩) w₁ (.map l ⟨params, b⟩) w₃ (.map hl hb))
    (record : ∀ model {fields es w₁ w₂} (hs : Threaded c.Expands fields w₁ es w₂),
      Threaded (fun e w e' w' => ∃ h, P e w e' w' h) fields w₁ es w₂ →
      P (.record model fields) w₁ (.record model es) w₂ (.record hs))
    (const : ∀ v w, P (.const v) w (.const v) w .const)
    {e w e' w'} (h : c.Expands e w e' w') : P e w e' w' h := by
  refine @Expands.rec c P
    (fun es w es' w' _ => Threaded (fun e w e' w' => ∃ h, P e w e' w' h) es w es' w')
    ?arg ?compare ?call ?cond ?field ?marker ?isNull ?list ?map ?record ?const ?nil ?cons
    e w e' w' h
  case arg => exact arg _ _
  case compare => exact fun hl hr => compare _ hl hr
  case call => exact fun hf ha => call hf ha
  case cond => exact fun ht hy hn => cond ht hy hn
  case field => exact fun hb => field _ hb
  case marker => exact fun once rest => marker _ once rest
  case isNull => exact fun he => isNull _ he
  case list => exact fun hs => list hs
  case map => exact fun hl hb => map _ hl hb
  case record => exact fun hs => record _ hs
  case const => exact const _ _
  case nil => exact .nil
  case cons => exact fun head _ hd tl => .cons ⟨head, hd⟩ tl

/-- Replacing outermost markers in turn. -/
theorem threaded_of_flattenAllWith {inline : Marker → Stateful Workspace Expr}
    {R : Expr → Workspace → Expr → Workspace → Prop} {es es' : List Expr} {w w' : Workspace}
    (each : ∀ e ∈ es, ∀ {w e' w'}, e.flattenWith inline w = (.ok e', w') → R e w e' w')
    (h : Expr.flattenAllWith inline es w = (.ok es', w')) : Threaded R es w es' w' := by
  induction es generalizing w es' with
  | nil =>
      obtain ⟨rfl, rfl⟩ := Stateful.pure_eq_ok_iff.mp h
      exact .nil
  | cons e es ih =>
      obtain ⟨e₁, w₁, he, h⟩ := Stateful.bind_eq_ok_iff.mp h
      obtain ⟨es₁, w₂, hes, h⟩ := Stateful.bind_eq_ok_iff.mp h
      obtain ⟨rfl, rfl⟩ := Stateful.pure_eq_ok_iff.mp h
      exact .cons (each e (by simp) he) (ih (fun a ha => each a (by simp [ha])) hes)

/-- If every replacement is expanded, so is the expression that holds the markers. -/
theorem expands_of_flattenWith {inline : Marker → Stateful Workspace Expr}
    (replaced : ∀ {m w e' w'}, inline m w = (.ok e', w') → c.Expands m.toExpr w e' w')
    {e e' : Expr} {w w' : Workspace} (h : e.flattenWith inline w = (.ok e', w')) :
    c.Expands e w e' w' := by
  induction e generalizing w e' w' with
  | arg p =>
      obtain ⟨rfl, rfl⟩ := Stateful.pure_eq_ok_iff.mp h
      exact .arg
  | compare op left right ihl ihr =>
      obtain ⟨l, w₁, hl, h⟩ := Stateful.bind_eq_ok_iff.mp h
      obtain ⟨r, w₂, hr, h⟩ := Stateful.bind_eq_ok_iff.mp h
      obtain ⟨rfl, rfl⟩ := Stateful.pure_eq_ok_iff.mp h
      exact .compare (ihl hl) (ihr hr)
  | call callee args ihf iha =>
      obtain ⟨f, w₁, hf, h⟩ := Stateful.bind_eq_ok_iff.mp h
      obtain ⟨as, w₂, ha, h⟩ := Stateful.bind_eq_ok_iff.mp h
      obtain ⟨rfl, rfl⟩ := Stateful.pure_eq_ok_iff.mp h
      exact .call (ihf hf) (threaded_of_flattenAllWith (fun a hm _ _ _ => iha a hm) ha)
  | cond test yes no iht ihy ihn =>
      obtain ⟨t, w₁, ht, h⟩ := Stateful.bind_eq_ok_iff.mp h
      obtain ⟨y, w₂, hy, h⟩ := Stateful.bind_eq_ok_iff.mp h
      obtain ⟨n, w₃, hn, h⟩ := Stateful.bind_eq_ok_iff.mp h
      obtain ⟨rfl, rfl⟩ := Stateful.pure_eq_ok_iff.mp h
      exact .cond (iht ht) (ihy hy) (ihn hn)
  | field base id ih =>
      obtain ⟨b, w₁, hb, h⟩ := Stateful.bind_eq_ok_iff.mp h
      obtain ⟨rfl, rfl⟩ := Stateful.pure_eq_ok_iff.mp h
      exact .field (ih hb)
  | includeEntity kind entity mapping ty => exact replaced h
  | includeVia kind parent params body mapping ty => exact replaced h
  | isNull negate operand ih =>
      obtain ⟨e, w₁, he, h⟩ := Stateful.bind_eq_ok_iff.mp h
      obtain ⟨rfl, rfl⟩ := Stateful.pure_eq_ok_iff.mp h
      exact .isNull (ih he)
  | list items ih =>
      obtain ⟨es, w₁, hs, h⟩ := Stateful.bind_eq_ok_iff.mp h
      obtain ⟨rfl, rfl⟩ := Stateful.pure_eq_ok_iff.mp h
      exact .list (threaded_of_flattenAllWith (fun e hm _ _ _ => ih e hm) hs)
  | map base params body ihl ihb =>
      obtain ⟨l, w₁, hl, h⟩ := Stateful.bind_eq_ok_iff.mp h
      obtain ⟨b, w₂, hb, h⟩ := Stateful.bind_eq_ok_iff.mp h
      obtain ⟨rfl, rfl⟩ := Stateful.pure_eq_ok_iff.mp h
      exact .map (ihl hl) (ihb hb)
  | record model fields ih =>
      obtain ⟨es, w₁, hs, h⟩ := Stateful.bind_eq_ok_iff.mp h
      obtain ⟨rfl, rfl⟩ := Stateful.pure_eq_ok_iff.mp h
      exact .record (threaded_of_flattenAllWith (fun e hm _ _ _ => ih e hm) hs)
  | const v =>
      obtain ⟨rfl, rfl⟩ := Stateful.pure_eq_ok_iff.mp h
      exact .const

/-- A successful flattening is an expansion, whatever depth it was given. -/
theorem expands_of_flatten {depth : Nat} {e e' : Expr} {w w' : Workspace}
    (h : c.flatten depth e w = (.ok e', w')) : c.Expands e w e' w' := by
  induction depth generalizing e w e' w' with
  | zero => simp [flatten, Stateful.lift_run] at h
  | succ depth ih =>
      refine expands_of_flattenWith (fun {m w e' w'} hm => ?_) h
      obtain ⟨e₁, w₁, once, rest⟩ := Stateful.bind_eq_ok_iff.mp hm
      exact .marker once (ih rest)

/-- Composing a function expands its body and keeps its parameters. -/
theorem expands_of_composeFunc {depth : Nat} {f g : Func} {w w' : Workspace}
    (h : c.composeFunc depth f w = (.ok g, w')) :
    g.params = f.params ∧ c.Expands f.body w g.body w' := by
  obtain ⟨body, w₁, hbody, h⟩ := Stateful.bind_eq_ok_iff.mp h
  obtain ⟨rfl, rfl⟩ := Stateful.pure_eq_ok_iff.mp h
  exact ⟨rfl, expands_of_flatten hbody⟩

end Composer

end RecordMapping
