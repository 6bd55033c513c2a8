import RecordMapping.Proofs.Flatness
import RecordMapping.Proofs.Inlining

/-!
# Types of composed functions

A marker is replaced only by a body whose inferred type its declared type accepts. The body may hold
markers itself, so its type may become another one when they are replaced in turn. The type that was
inferred for a function still accepts the one that is inferred for what a composer makes of it,
unless acceptance is handed on through an unknown type or a condition changes the branch that it is
typed by.

## Implementation notes

Only some parts of an expression have a say in its type. They are found along the run of the
composer: a replaced marker is typed by what was put in its place, and the second branch of a
condition counts only if the first one has become null.
-/

namespace RecordMapping

namespace Ty

/-- Whether the second type is known wherever the first one is. -/
def knownFor : Ty → Ty → Bool
  | .unknown, _ => true
  | _, .unknown => false
  | .list declared, .list found => declared.knownFor found
  | _, _ => true

theorem accepts_refl (ty : Ty) : ty.accepts ty = true := by
  induction ty with
  | list item ih => rw [accepts_list, ih]
  | _ => simp [accepts]

/-- Only null and an unknown type may stand for null. -/
theorem null_accepts_iff (found : Ty) :
    Ty.accepts .null found = true ↔ found = .null ∨ found = .unknown := by
  cases found <;> simp [accepts]

/-- Acceptance is handed on through a type that is known. -/
theorem accepts_trans {declared found final : Ty} (h : declared.accepts found = true)
    (known : declared.knownFor found = true) (h' : found.accepts final = true) :
    declared.accepts final = true := by
  induction found generalizing declared final with
  | unknown =>
      have unknown : declared = .unknown := by cases declared <;> simp_all [knownFor]
      rw [unknown, accepts_unknown_left]
  | null =>
      rcases (null_accepts_iff final).mp h' with rfl | rfl
      · exact accepts_null declared
      · exact accepts_unknown_right declared
  | list found ih =>
      cases declared with
      | unknown => exact accepts_unknown_left final
      | list declared =>
          cases final with
          | unknown | null => simp
          | list final =>
              rw [accepts_list] at h h' ⊢
              exact ih h known h'
          | _ => simp [accepts] at h'
      | _ => simp [accepts] at h
  | _ => cases declared <;> simp_all [accepts]

/-- A type that was found where another one is declared may be refined into a final one: it is known
wherever the declared one is, or it stays as it is. -/
def Settles (declared found final : Ty) : Prop :=
  declared.knownFor found = true ∨ final = found

theorem Settles.accepts {declared found final : Ty} (h : declared.Settles found final)
    (first : declared.accepts found = true) (second : found.accepts final = true) :
    declared.accepts final = true := by
  rcases h with known | rfl
  · exact accepts_trans first known second
  · exact first

end Ty

namespace Expr

variable {schema : Schema}

theorem infer_toExpr (m : Marker) : m.toExpr.infer schema = m.ty := by
  obtain ⟨kind, source, mapping, ty⟩ := m
  cases source <;> rfl

/-- A condition is typed by its first branch, unless that is null. -/
theorem infer_cond_of_ne_null {test yes no : Expr} (h : yes.infer schema ≠ .null) :
    (Expr.cond test yes no).infer schema = yes.infer schema := by
  rw [infer]
  split
  · next null => exact absurd null h
  · rfl

/-- A condition is typed by its second branch if the first one is null. -/
theorem infer_cond_of_null {test yes no : Expr} (h : yes.infer schema = .null) :
    (Expr.cond test yes no).infer schema = no.infer schema := by
  simp [infer, h]

/-- The type of a call does not depend on its arguments, and is not known unless the callee is a
constant. -/
theorem infer_call (callee : Expr) (args args' : List Expr) :
    (Expr.call callee args).infer schema = (Expr.call callee args').infer schema ∧
      ((∀ v, callee ≠ .const v) → (Expr.call callee args).infer schema = .unknown) := by
  cases callee with
  | const v =>
      refine ⟨?_, fun h => absurd rfl (h v)⟩
      cases v with
      | func label f =>
          obtain ⟨params, body⟩ := f
          rfl
      | mapping m =>
          obtain ⟨label, ⟨params, body⟩, compiled⟩ := m
          rfl
      | _ => rfl
  | _ => exact ⟨rfl, fun _ => rfl⟩

end Expr

namespace Composer

variable {c : Composer}

/-- A null test leaves the inferred type of what it guards. -/
theorem infer_guarded (schema : Schema) (subject : Option Expr) (body : Expr) :
    (guarded subject body).infer schema = body.infer schema := by
  cases subject with
  | none => rfl
  | some s =>
      by_cases null : body.infer schema = .null
      · rw [guarded, Expr.infer_cond_of_null null, null]
        rfl
      · exact Expr.infer_cond_of_ne_null null

/-- What is put in the place of a marker has a type that the declared one accepts. -/
theorem inlineOnce_accepts {depth : Nat} {m : Marker} {e : Expr} {w w' : Workspace}
    (h : c.inlineOnce depth m w = (.ok e, w')) : m.ty.accepts (e.infer c.schema) = true := by
  obtain ⟨entity, w₁, _, h⟩ := Stateful.bind_eq_ok_iff.mp h
  obtain ⟨target, w₂, _, h⟩ := Stateful.bind_eq_ok_iff.mp h
  obtain ⟨_, w₃, _, h⟩ := Stateful.bind_eq_ok_iff.mp h
  obtain ⟨subject, w₄, _, h⟩ := Stateful.bind_eq_ok_iff.mp h
  obtain ⟨body, w₅, _, h⟩ := Stateful.bind_eq_ok_iff.mp h
  split at h
  · next accepted =>
    obtain ⟨rfl, _⟩ := Stateful.pure_eq_ok_iff.mp h
    rwa [infer_guarded]
  · cases h

/-- A composer leaves a constant as it is. -/
theorem Expands.eq_of_const {v : Value} {e' : Expr} {w w' : Workspace}
    (h : c.Expands (.const v) w e' w') : e' = .const v := by
  generalize he : Expr.const v = e at h
  cases h with
  | const => rfl
  | @marker m =>
      have marked := congrArg Expr.asMarker? he
      rw [Marker.asMarker?_toExpr] at marked
      cases marked
  | _ => cases he

/-- When the composer comes to the first expression, it is typed by the second one, to which the
composer comes later on. -/
inductive TypedBy (c : Composer) : Expr × Workspace → Expr × Workspace → Prop
  | marker {e m depth e₁ w w₁} (hm : e.asMarker? = some m)
      (once : c.inlineOnce depth m w = (.ok e₁, w₁)) : TypedBy c (e, w) (e₁, w₁)
  | yes {test yes no t w w₁} (ht : c.Expands test w t w₁) :
      TypedBy c (.cond test yes no, w) (yes, w₁)
  | no {test yes no t y w w₁ w₂} (ht : c.Expands test w t w₁) (hy : c.Expands yes w₁ y w₂)
      (null : y.infer c.schema = .null) : TypedBy c (.cond test yes no, w) (no, w₂)
  | item {item items w} : TypedBy c (.list (item :: items), w) (item, w)
  | lambda {base l lambda w w₁} (hl : c.Expands base w l w₁) :
      TypedBy c (.map base lambda, w) (lambda.body, w₁)

/-- The type of the expression stands when the composer has replaced what is in it. -/
structure SettledAt (c : Composer) (e : Expr) (w : Workspace) : Prop where
  /-- The type of what replaces a marker is known wherever the declared one is, or is final. -/
  marker : ∀ {m depth e₁ e' w₁ w'}, e.asMarker? = some m →
    c.inlineOnce depth m w = (.ok e₁, w₁) → c.Expands e₁ w₁ e' w' →
      m.ty.Settles (e₁.infer c.schema) (e'.infer c.schema)
  /-- If the first branch of a condition has become null and was not null before, its type accepted
  that of the second branch. -/
  branch : ∀ {test yes no t y n w₁ w₂ w₃}, e = .cond test yes no → c.Expands test w t w₁ →
    c.Expands yes w₁ y w₂ → c.Expands no w₂ n w₃ → y.infer c.schema = .null →
      yes.infer c.schema ≠ .null → (yes.infer c.schema).accepts (no.infer c.schema) = true ∧
        (yes.infer c.schema).Settles (no.infer c.schema) (n.infer c.schema)

/-- The types of all expressions by which an expression is typed stand. -/
def Settled (c : Composer) (e : Expr) (w : Workspace) : Prop :=
  ∀ V, Relation.ReflTransGen c.TypedBy (e, w) V → c.SettledAt V.1 V.2

namespace Settled

variable {e s : Expr} {w v : Workspace}

theorem here (h : c.Settled e w) : c.SettledAt e w := (forall_reached_iff.mp h).1

theorem step (h : c.Settled e w) (ht : c.TypedBy (e, w) (s, v)) : c.Settled s v :=
  (forall_reached_iff.mp h).2 (s, v) ht

theorem intro (here : c.SettledAt e w)
    (step : ∀ s v, c.TypedBy (e, w) (s, v) → c.Settled s v) : c.Settled e w :=
  forall_reached_iff.mpr ⟨here, fun V => step V.1 V.2⟩

/-- A marker whose declared type is met by known types stands with what replaces it. -/
theorem of_marker {m : Marker} (hm : e.asMarker? = some m)
    (replaced : ∀ {depth e₁ w₁}, c.inlineOnce depth m w = (.ok e₁, w₁) →
      m.ty.knownFor (e₁.infer c.schema) = true ∧ c.Settled e₁ w₁) : c.Settled e w := by
  refine .intro ⟨fun hm' once _ => ?_, ?_⟩ fun s v ht => ?_
  · cases hm.symm.trans hm'
    exact .inl (replaced once).1
  · rintro test yes no t y n w₁ w₂ w₃ rfl
    cases hm
  · cases ht with
    | marker hm' once =>
        cases hm.symm.trans hm'
        exact (replaced once).2
    | _ => cases hm

theorem const {v : Value} : c.Settled (.const v) w := by
  refine .intro ⟨nofun, nofun⟩ fun s v' ht => ?_
  cases ht with
  | marker hm => cases hm

theorem isNull {negate : Bool} {operand : Expr} : c.Settled (.isNull negate operand) w := by
  refine .intro ⟨nofun, nofun⟩ fun s v ht => ?_
  cases ht with
  | marker hm => cases hm

theorem list {item : Expr} {items : List Expr} (h : c.Settled item w) :
    c.Settled (.list (item :: items)) w := by
  refine .intro ⟨nofun, nofun⟩ fun s v ht => ?_
  cases ht with
  | marker hm => cases hm
  | item => exact h

/-- An expression stands behind a null test if it stands on its own. -/
theorem guarded {body : Expr} (h : ∀ w, c.Settled body w) (subject : Option Expr) (w : Workspace) :
    c.Settled (guarded subject body) w := by
  cases subject with
  | none => exact h w
  | some s =>
      refine .intro ⟨nofun, ?_⟩ fun s v ht => ?_
      · rintro _ _ _ t y n w₁ w₂ w₃ ⟨⟩ _ _ hn _ _
        exact ⟨Ty.accepts_null _, .inr (by rw [hn.eq_of_const]; rfl)⟩
      · cases ht with
        | marker hm => cases hm
        | yes => exact h _
        | no => exact const

end Settled

/-- The type that was inferred for an expression accepts the one that is inferred for what a
composer makes of it. -/
theorem Expands.accepts {e e' : Expr} {w w' : Workspace} (h : c.Expands e w e' w')
    (settled : c.Settled e w) : (e.infer c.schema).accepts (e'.infer c.schema) = true := by
  induction h using Expands.induct with
  | arg | const | compare | field | isNull | record => exact Ty.accepts_refl _
  | @call callee args f as w₁ w₂ w₃ hf ha _ _ =>
      by_cases known : ∃ v, callee = .const v
      · obtain ⟨v, rfl⟩ := known
        rw [hf.eq_of_const, (Expr.infer_call (.const v) args as).1]
        exact Ty.accepts_refl _
      · rw [(Expr.infer_call callee args []).2 fun v hv => known ⟨v, hv⟩]
        exact Ty.accepts_unknown_left _
  | @cond test yes no t y n w₁ w₂ w₃ w₄ ht hy hn _ ihy ihn =>
      -- Both conditions are typed by their first branch, or by the second one if that is null.
      have first := ihy (settled.step (.yes ht))
      by_cases null : y.infer c.schema = .null
      · have second := ihn (settled.step (.no ht hy null))
        rw [Expr.infer_cond_of_null null]
        by_cases before : yes.infer c.schema = .null
        · rwa [Expr.infer_cond_of_null before]
        · obtain ⟨accepted, settles⟩ := settled.here.branch rfl ht hy hn null before
          rw [Expr.infer_cond_of_ne_null before]
          exact settles.accepts accepted second
      · rw [Expr.infer_cond_of_ne_null null]
        by_cases before : yes.infer c.schema = .null
        · rw [before, Ty.null_accepts_iff] at first
          rw [first.resolve_left null]
          exact Ty.accepts_unknown_right _
        · rwa [Expr.infer_cond_of_ne_null before]
  | marker m once rest ih =>
      rw [Expr.infer_toExpr]
      have hm := Marker.asMarker?_toExpr m
      have settles := settled.here.marker hm once rest
      exact settles.accepts (inlineOnce_accepts once) (ih (settled.step (.marker hm once)))
  | list hs ih =>
      cases ih with
      | nil => exact Ty.accepts_refl _
      | cons head _ =>
          obtain ⟨_, item⟩ := head
          exact (Ty.accepts_list _ _).trans (item (settled.step .item))
  | map params hl _ _ ihb =>
      exact (Ty.accepts_list _ _).trans (ihb (settled.step (.lambda hl)))

/-- The type inferred for the result of a function as written accepts the one inferred for the
composed function, provided that the types on which it depends stand. -/
theorem composeFunc_accepts {depth : Nat} {f g : Func} {w w' : Workspace}
    (composed : c.composeFunc depth f w = (.ok g, w')) (settled : c.Settled f.body w) :
    (f.inferResult c.schema).accepts (g.inferResult c.schema) = true :=
  (expands_of_composeFunc composed).2.accepts settled

/-- Whether the record related to a related one is absent, in a list. -/
def absences : Func :=
  let param (id : Nat) : Param := ⟨id, "p", .unknown⟩
  let related (id : Nat) : Expr := .field (.arg (param id)) ⟨⟨0⟩, 1⟩
  let leaf : Func := ⟨[param 2], .isNull false (.arg (param 2))⟩
  let middle : Func :=
    ⟨[param 1], .list [.includeEntity .ast (related 1) (.const (.func 0 leaf)) .bool]⟩
  ⟨[param 0], .includeEntity .ast (related 0) (.const (.func 1 middle)) (.list .bool)⟩

theorem absences_accepts : ∃ g w', keyed.composeFunc 3 absences ⟨3, 2, {}, []⟩ = (.ok g, w') ∧
    (absences.inferResult keyed.schema).accepts (g.inferResult keyed.schema) = true := by
  have composed : keyed.composeFunc 3 absences ⟨3, 2, {}, []⟩ = (.ok _, _) := rfl
  refine ⟨_, _, composed, composeFunc_accepts composed (.of_marker rfl fun once => ?_)⟩
  obtain ⟨entity, n, t, p, hentity, ht, hp, rfl, -⟩ := inlineOnce_eq_ok once
  cases hentity
  cases ht
  cases hp
  rw [infer_guarded]
  refine ⟨rfl, .guarded (fun w => .list (.of_marker rfl fun once => ?_)) _ _⟩
  obtain ⟨entity, n, t, p, hentity, ht, hp, rfl, -⟩ := inlineOnce_eq_ok once
  cases hentity
  cases ht
  cases hp
  rw [infer_guarded]
  exact ⟨rfl, .guarded (fun w => .isNull) _ _⟩

/-- Composing the function leads to one whose result may not stand where that of the function as
written may. -/
def Retypes (c : Composer) (w : Workspace) (f : Func) : Prop :=
  ∃ depth g w', c.composeFunc depth f w = (.ok g, w') ∧
    (f.inferResult c.schema).accepts (g.inferResult c.schema) = false

/-- A marker for a truth value over one of an unknown type, which is replaced by a text. -/
def mediated : Func :=
  let param (id : Nat) : Param := ⟨id, "p", .unknown⟩
  let leaf : Func := ⟨[param 2], .const (.string "text")⟩
  let middle : Func :=
    ⟨[param 1], .includeEntity .ast (.arg (param 1)) (.const (.func 0 leaf)) .unknown⟩
  ⟨[param 0], .includeEntity .ast (.arg (param 0)) (.const (.func 1 middle)) .bool⟩

/-- A condition with a text in the second branch; the first one is a marker for a truth value, which
is replaced by null. -/
def switching : Func :=
  let param (id : Nat) : Param := ⟨id, "p", .unknown⟩
  let leaf : Func := ⟨[param 1], .const .null⟩
  ⟨[param 0], .cond (.isNull false (.arg (param 0)))
    (.includeEntity .ast (.arg (param 0)) (.const (.func 0 leaf)) .bool) (.const (.string "text"))⟩

/-- Composing does not protect the inferred type throughout: it is lost through an unknown type in
between, and when a condition comes to be typed by its other branch. -/
theorem composeFunc_retypes :
    keyed.Retypes ⟨3, 2, {}, []⟩ mediated ∧ keyed.Retypes ⟨2, 1, {}, []⟩ switching :=
  ⟨⟨3, _, _, rfl, rfl⟩, ⟨2, _, _, rfl, rfl⟩⟩

end Composer

end RecordMapping
