import RecordMapping.Proofs.Calls
import RecordMapping.Proofs.Denotation
import RecordMapping.Proofs.Identities

/-!
# Composing functions one by one

It makes no difference to a composed function whether the functions that it references were composed
before. The null tests are not the same: a function that is composed on its own reads its parameter
without a test, and a test is made for what is put in its place. But that test stands in front of
all of the function, so the tests inside that are missing could not have failed.

## Implementation notes

The functions that are referenced must read no parameter but their own, and their markers must have
targets where they are written. A mapping argument is evaluated as it stands, so markers in one are
not composed, and there it can make a difference what they refer to.
-/

namespace RecordMapping

/-- The second marker refers to the function that the first one refers to, or to `g'` where the
first one refers to `g`. -/
def Marker.Redirects (g g' : Func) (m m' : Marker) : Prop :=
  ∀ t, m.mapping.RefersTo m.kind t → ∃ t', m'.mapping.RefersTo m'.kind t' ∧
    (t'.function = t.function ∨ t.function = g ∧ t'.function = g')

/-- The second expression is the first one, but that markers outside of mapping arguments may refer
to `g'` where they referred to `g`. -/
inductive Expr.Redirects (g g' : Func) : Expr → Expr → Prop
  | arg (p : Param) : Redirects g g' (.arg p) (.arg p)
  | const (v : Value) : Redirects g g' (.const v) (.const v)
  | compare {op : Comparison} {left left' right right' : Expr} (hl : Redirects g g' left left')
      (hr : Redirects g g' right right') :
      Redirects g g' (.compare op left right) (.compare op left' right')
  | call {callee callee' : Expr} {args args' : List Expr} (hf : Redirects g g' callee callee')
      (length : args.length = args'.length)
      (ha : ∀ a ∈ args.zip args', Redirects g g' a.1 a.2) :
      Redirects g g' (.call callee args) (.call callee' args')
  | cond {test test' yes yes' no no' : Expr} (ht : Redirects g g' test test')
      (hy : Redirects g g' yes yes') (hn : Redirects g g' no no') :
      Redirects g g' (.cond test yes no) (.cond test' yes' no')
  | field {base base' : Expr} {id : FieldId} (hb : Redirects g g' base base') :
      Redirects g g' (.field base id) (.field base' id)
  | includeEntity {kind kind' : MarkerKind} {entity entity' mapping mapping' : Expr} {ty ty' : Ty}
      (he : Redirects g g' entity entity')
      (hm : Marker.Redirects g g' ⟨kind, .entity entity, mapping, ty⟩
        ⟨kind', .entity entity', mapping', ty'⟩) :
      Redirects g g' (.includeEntity kind entity mapping ty)
        (.includeEntity kind' entity' mapping' ty')
  | includeVia {kind kind' : MarkerKind} {parent parent' body body' mapping mapping' : Expr}
      {params : List Param} {ty ty' : Ty} (hp : Redirects g g' parent parent')
      (hb : Redirects g g' body body')
      (hm : Marker.Redirects g g' ⟨kind, .navigation parent ⟨params, body⟩, mapping, ty⟩
        ⟨kind', .navigation parent' ⟨params, body'⟩, mapping', ty'⟩) :
      Redirects g g' (.includeVia kind parent ⟨params, body⟩ mapping ty)
        (.includeVia kind' parent' ⟨params, body'⟩ mapping' ty')
  | isNull {negate : Bool} {operand operand' : Expr} (ho : Redirects g g' operand operand') :
      Redirects g g' (.isNull negate operand) (.isNull negate operand')
  | list {items items' : List Expr} (length : items.length = items'.length)
      (hi : ∀ e ∈ items.zip items', Redirects g g' e.1 e.2) :
      Redirects g g' (.list items) (.list items')
  | map {base base' body body' : Expr} {params : List Param} (hl : Redirects g g' base base')
      (hb : Redirects g g' body body') :
      Redirects g g' (.map base ⟨params, body⟩) (.map base' ⟨params, body'⟩)
  | record {model : ModelId} {fields fields' : List Expr} (length : fields.length = fields'.length)
      (hf : ∀ e ∈ fields.zip fields', Redirects g g' e.1 e.2) :
      Redirects g g' (.record model fields) (.record model fields')

/-- An expression has such references only, if the marker that it may be has and its live operands
do. -/
theorem Expr.refersOnlyTo_step {P : Func → Prop} {e : Expr} : e.RefersOnlyTo P ↔
    (∀ m, e.asMarker? = some m →
      ∃ t, m.mapping.RefersTo m.kind t ∧ P t.function ∧ t.function.body.RefersOnlyTo P) ∧
      ∀ o ∈ e.live, o.expr.RefersOnlyTo P := by
  constructor
  · intro h
    refine ⟨fun m hm => ?_, fun o ho => h.operand ho⟩
    exact refersOnlyTo_iff.mp h m (marks_iff.mpr (.inl hm))
  · rintro ⟨marker, operands⟩
    refine refersOnlyTo_iff.mpr fun m hm => ?_
    rcases marks_iff.mp hm with hm | ⟨o, ho, hm⟩
    · exact marker m hm
    · exact refersOnlyTo_iff.mp (operands o ho) m hm

theorem Expr.RefersOnlyTo.of_flat {P : Func → Prop} {e : Expr} (flat : e.Flat) :
    e.RefersOnlyTo P :=
  refersOnlyTo_iff.mpr fun m hm => absurd hm (flat.not_marks m)

/-- A marker with a function for its mapping argument refers to that function. -/
theorem Expr.RefersOnlyTo.of_func {P : Func → Prop} {entity : Expr} {label : Nat} {f : Func}
    {ty : Ty} (he : entity.RefersOnlyTo P) (holds : P f) (inner : f.body.RefersOnlyTo P) :
    (includeEntity .ast entity (.const (.func label f)) ty).RefersOnlyTo P := by
  refine refersOnlyTo_step.mpr ⟨?_, by simpa using he⟩
  rintro m ⟨⟩
  exact ⟨.func label f, ⟨0, rfl⟩, holds, inner⟩

namespace Expr.Redirects

variable {g g' : Func} {e e' : Expr}

/-- A marker comes from a marker, and a live operand from a live operand. -/
theorem exists_left (h : e.Redirects g g' e') :
    (∀ m', e'.asMarker? = some m' → ∃ m, e.asMarker? = some m ∧ m.Redirects g g' m') ∧
      ∀ o' ∈ e'.live, ∃ o ∈ e.live, o.expr.Redirects g g' o'.expr := by
  have among {es es' : List Expr} (length : es.length = es'.length)
      (each : ∀ a ∈ es.zip es', a.1.Redirects g g' a.2) (x' : Expr) (hx : x' ∈ es') :
      ∃ x ∈ es, x.Redirects g g' x' := by
    obtain ⟨i, hi, rfl⟩ := List.mem_iff_getElem.mp hx
    refine ⟨es[i], List.getElem_mem _, each (es[i], es'[i]) ?_⟩
    exact List.mem_iff_getElem.mpr ⟨i, by simp; omega, by simp⟩
  cases h with
  | arg | const => simp [asMarker?]
  | compare hl hr => simpa [asMarker?] using ⟨.inl hl, .inr hr⟩
  | call hf length ha =>
      have args := among length ha
      refine ⟨by simp [asMarker?], fun o' ho' => ?_⟩
      simp only [live, operands, List.mem_cons, List.mem_map] at ho'
      rcases ho' with rfl | ⟨x', hx', rfl⟩
      · exact ⟨⟨[], _⟩, by simp, hf⟩
      · obtain ⟨x, hx, h⟩ := args x' hx'
        exact ⟨⟨[], x⟩, by simp [hx], h⟩
  | cond ht hy hn => simpa [asMarker?] using ⟨.inl ht, .inr (.inl hy), .inr (.inr hn)⟩
  | field hb => simpa [asMarker?] using hb
  | includeEntity he hm => simpa [asMarker?] using ⟨hm, he⟩
  | includeVia hp hb hm => simpa [asMarker?] using ⟨hm, .inl hp, .inr hb⟩
  | isNull ho => simpa [asMarker?] using ho
  | list length hi => simpa [asMarker?] using among length hi
  | map hl hb => simpa [asMarker?] using ⟨.inl hl, .inr hb⟩
  | record length hf => simpa [asMarker?] using among length hf

/-- If all references of the first function and of the expression have a property, so have those of
the second expression. -/
theorem refersOnlyTo {P : Func → Prop} (h : e.Redirects g g' e') (refers : e.RefersOnlyTo P)
    (new : P g → g.body.RefersOnlyTo P → P g' ∧ g'.body.RefersOnlyTo P) : e'.RefersOnlyTo P := by
  induction e' using operand_induction generalizing e with
  | step e' ih =>
    obtain ⟨marker, operands⟩ := h.exists_left
    refine refersOnlyTo_step.mpr ⟨fun m' hm' => ?_, fun o' ho' => ?_⟩
    · obtain ⟨m, hm, redirects⟩ := marker m' hm'
      obtain ⟨t, ht, holds, inner⟩ := (refersOnlyTo_step.mp refers).1 m hm
      obtain ⟨t', ht', same | ⟨rfl, rfl⟩⟩ := redirects t ht
      · exact ⟨t', ht', same ▸ holds, same ▸ inner⟩
      · exact ⟨t', ht', new holds inner⟩
    · obtain ⟨o, ho, h⟩ := operands o' ho'
      exact ih o' (live_subset ho') h (refers.operand ho)

/-- The two expressions count for the same, if the two functions do whenever an entity lets its null
test pass. -/
theorem reading_eq {guard : FieldId → Option FieldId} {call : Caller} (h : e.Redirects g g' e')
    (refers : e.RefersOnlyTo Func.Closed)
    (same : g.Closed → g.body.RefersOnlyTo Func.Closed → ∀ entity : Reading, entity.Present →
      (g'.reading guard call entity).value = (g.reading guard call entity).value)
    (env : Readings) : e'.reading guard call env = e.reading guard call env := by
  have marker {m m' : Marker} (hm : m.Redirects g g' m')
      (refers : m.toExpr.RefersOnlyTo Func.Closed) {env : Readings}
      (source : m'.source.reading guard call env = m.source.reading guard call env) :
      m'.toExpr.reading guard call env = m.toExpr.reading guard call env := by
    obtain ⟨t, ht, closed, inner⟩ := refersOnlyTo_iff.mp refers m .self
    obtain ⟨t', ht', function⟩ := hm t ht
    rw [Marker.reading_toExpr ht, Marker.reading_toExpr ht', source]
    refine congrArg Reading.plain (Reading.protect_congr fun present => ?_)
    rcases function with function | ⟨rfl, rfl⟩
    · rw [function]
    · exact same closed inner _ present
  have all {es es' : List Expr} (length : es.length = es'.length) {env : Readings}
      (each : ∀ a ∈ es.zip es', a.2.reading guard call env = a.1.reading guard call env) :
      Expr.readingAll guard call es' env = Expr.readingAll guard call es env := by
    refine (readingAll_congr (List.forall₂_iff_zip.mpr ⟨length, fun {a b} hab => ?_⟩)).symm
    exact congrArg Reading.value (each (a, b) hab).symm
  induction h generalizing env with
  | arg p => rfl
  | const v => rfl
  | @compare op left left' right right' hl hr ihl ihr =>
      have left := ihl (refers.operand (o := ⟨[], left⟩) (by simp)) env
      have right := ihr (refers.operand (o := ⟨[], right⟩) (by simp)) env
      simp only [reading, left, right]
  | @call callee callee' args args' hf length ha ihf iha =>
      have callee := ihf (refers.operand (o := ⟨[], callee⟩) (by simp)) env
      have args := all length fun a h => iha a h
        (refers.operand (o := ⟨[], a.1⟩) (by simp [(List.of_mem_zip h).1])) env
      simp only [reading, callee, args]
  | @cond test test' yes yes' no no' ht hy hn iht ihy ihn =>
      have test := iht (refers.operand (o := ⟨[], test⟩) (by simp)) env
      have yes := ihy (refers.operand (o := ⟨[], yes⟩) (by simp)) env
      have no := ihn (refers.operand (o := ⟨[], no⟩) (by simp)) env
      simp only [reading, test, yes, no]
  | @field base base' id hb ih =>
      have base := ih (refers.operand (o := ⟨[], base⟩) (by simp)) env
      simp only [reading, base]
  | @includeEntity kind kind' entity entity' mapping mapping' ty ty' he hm ih =>
      exact marker hm refers (ih (refers.operand (o := ⟨[], entity⟩) (by simp)) env)
  | @includeVia kind _ parent _ body _ mapping _ params ty _ hp hb hm ihp ihb =>
      refine marker hm refers ?_
      have parent := ihp (refers.operand (o := ⟨[], parent⟩) (by simp)) env
      have body := ihb (refers.operand (o := ⟨params, body⟩) (by simp))
      simp only [Source.reading, parent, funext body]
  | @isNull negate operand operand' ho ih =>
      have operand := ih (refers.operand (o := ⟨[], operand⟩) (by simp)) env
      simp only [reading, operand]
  | @list items items' length hi ih =>
      have items := all length fun a h => ih a h
        (refers.operand (o := ⟨[], a.1⟩) (by simp [(List.of_mem_zip h).1])) env
      simp only [reading, items]
  | @map base base' body body' params hl hb ihl ihb =>
      have base := ihl (refers.operand (o := ⟨[], base⟩) (by simp)) env
      have body := ihb (refers.operand (o := ⟨params, body⟩) (by simp))
      simp only [reading, base, body]
  | @record model fields fields' length hf ih =>
      have fields := all length fun a h => ih a h
        (refers.operand (o := ⟨[], a.1⟩) (by simp [(List.of_mem_zip h).1])) env
      simp only [reading, fields]

end Expr.Redirects

/-- What was made before the identity was given out is bounded by it. -/
theorem Expr.MadeBefore.bounded {n : Nat} {e : Expr} (h : e.MadeBefore n) : e.Bounded n := by
  refine ⟨fun x hx => h x hx.free.mentions, ?_⟩
  induction e using operand_induction with
  | step e ih =>
    exact bindersBelow_iff.mpr fun o ho => ⟨fun p hp => h.binder ho hp, ih o ho (h.operand ho)⟩

namespace Composer

variable {c : Composer}

/-- The second function is what the composer makes of the first one, on its own or in a mapping. -/
inductive Makes (c : Composer) (w : Workspace) (g g' : Func) : Prop
  | func {depth : Nat} {w' : Workspace} (h : c.composeFunc depth g w = (.ok g', w'))
  | mapping {depth : Nat} {m : Mapping} {w' : Workspace} (h : c.compose depth g w = (.ok m, w'))
      (hm : m.func = g')

theorem Makes.expands {w : Workspace} {g g' : Func} (h : c.Makes w g g') :
    g'.params = g.params ∧ ∃ w', c.Expands g.body w g'.body w' := by
  cases h with
  | func h =>
      obtain ⟨params, expands⟩ := expands_of_composeFunc h
      exact ⟨params, _, expands⟩
  | mapping h hm =>
      obtain ⟨code, w₁, h, _⟩ := compose_eq_ok h
      obtain ⟨params, expands⟩ := expands_of_composeFunc h
      subst hm
      exact ⟨params, _, expands⟩

/-- However a call ends, the composer tests the same keys as before. -/
theorem allows_guard (c : Composer) : c.Allows fun w w' => c.guard w' = c.guard w where
  refl _ := rfl
  trans h h' := h'.trans h
  params _ _ := rfl
  label _ := rfl
  key policy navigation w := by
    funext other
    simp [guard, Workspace.guardKey, KeyCache.key_fetch_fetch]

/-- A composed function counts for what the function as written does, wherever an entity lets its
null test pass. -/
theorem Makes.reading {w : Workspace} {g g' : Func} (h : c.Makes w g g') (call : Caller)
    (bounded : g.body.Bounded w.nextParam) (refers : g.body.RefersOnlyTo Func.Closed)
    {entity : Reading} (present : entity.Present) :
    (g'.reading (c.guard w) call entity).value = (g.reading (c.guard w) call entity).value := by
  obtain ⟨params, w', expands⟩ := h.expands
  unfold Func.reading
  rw [params]
  have unbound (q : Param) : (Readings.empty.read q).Present := Reading.present_plain _
  refine Readings.value_bind_congr fun p _ => ?_
  exact expands.value_reading rfl refers bounded (Readings.present_set unbound p present)

/-- Composing is modular: it makes no difference to the results of a composed function whether the
functions that it references were composed before. This holds of markers outside of mapping
arguments, if every marker has a target where it is written and the functions that are referenced
read no parameter but their own. The composer tests the same keys throughout, as its calls leave
them. -/
theorem composeFunc_modular {w w₁ w₁' w₂ w₂' : Workspace} {g g' f f' h h' : Func} {d₁ d₂ : Nat}
    (makes : c.Makes w g g') (composed : c.composeFunc d₁ f w₁ = (.ok h, w₁'))
    (composed' : c.composeFunc d₂ f' w₂ = (.ok h', w₂')) (params : f'.params = f.params)
    (redirects : f.body.Redirects g g' f'.body) (refers : f.body.RefersOnlyTo Func.Closed)
    (keys₁ : c.guard w₁ = c.guard w) (keys₂ : c.guard w₂ = c.guard w)
    (made : g.MadeBefore w.nextParam) (made₁ : f.MadeBefore w₁.nextParam)
    (made₂ : f'.MadeBefore w₂.nextParam) (depth : Nat) (args : List Value) :
    h'.call depth args = h.call depth args := by
  obtain ⟨samePar, w', expands⟩ := makes.expands
  have bounded {f : Func} {n : Nat} (h : f.MadeBefore n) : f.body.Bounded n :=
    (Func.madeBefore_iff.mp h).2.bounded
  have refers' : f'.body.RefersOnlyTo Func.Closed := by
    refine redirects.refersOnlyTo refers fun closed refers => ⟨?_, .of_flat expands.flat⟩
    intro x hx
    rw [samePar]
    exact closed x (expands.reads refers hx)
  have same := redirects.reading_eq refers
    (fun _ inner entity present => makes.reading (Callable.call depth) (bounded made) inner present)
    (.ofArgs f.params args)
  rw [call_of_composeFunc composed refers (bounded made₁),
    call_of_composeFunc composed' refers' (bounded made₂), keys₁, keys₂, Func.arity, Func.arity,
    params, same]

/-- A function that hands its parameter on to a function of lists. -/
def handing : Func :=
  let leaf : Func := ⟨[⟨2, "q", .unknown⟩], .list [.arg ⟨2, "q", .unknown⟩]⟩
  let p : Param := ⟨1, "p", .unknown⟩
  ⟨[p], .includeEntity .ast (.arg p) (.const (.func 0 leaf)) .unknown⟩

/-- For each item of a list, what a function makes of a related record. -/
def gathering (g : Func) : Func :=
  let item : Param := ⟨3, "y", .unknown⟩
  ⟨[⟨0, "x", .unknown⟩], .map (.field (.arg ⟨0, "x", .unknown⟩) ⟨⟨0⟩, 0⟩)
    ⟨[item], .includeEntity .ast (.field (.arg item) ⟨⟨0⟩, 1⟩) (.const (.func 1 g)) .unknown⟩⟩

/-- Written with the function itself, the composed function tests the key twice. -/
theorem gathering_modular : ∃ g' h h' w₁ w₂ w₃,
    keyed.composeFunc 4 handing ⟨4, 2, {}, []⟩ = (.ok g', w₁) ∧
      keyed.composeFunc 4 (gathering handing) w₁ = (.ok h, w₂) ∧
      keyed.composeFunc 4 (gathering g') w₂ = (.ok h', w₃) ∧
      ∀ depth args, h'.call depth args = h.call depth args := by
  let related : Expr := .field (.arg ⟨3, "y", .unknown⟩) ⟨⟨0⟩, 1⟩
  let tested (e : Expr) : Expr :=
    .cond (.isNull true (.field (.arg ⟨3, "y", .unknown⟩) ⟨⟨0⟩, 2⟩)) e .null
  let mapped (e : Expr) : Func :=
    ⟨[⟨0, "x", .unknown⟩], .map (.field (.arg ⟨0, "x", .unknown⟩) ⟨⟨0⟩, 0⟩)
      ⟨[⟨3, "y", .unknown⟩], e⟩⟩
  let listed : Func := ⟨[⟨1, "p", .unknown⟩], .list [.arg ⟨1, "p", .unknown⟩]⟩
  have made : keyed.composeFunc 4 handing ⟨4, 2, {}, []⟩ = (.ok listed, ⟨4, 2, {}, []⟩) := rfl
  have written : keyed.composeFunc 4 (gathering handing) ⟨4, 2, {}, []⟩ =
      (.ok (mapped (tested (tested (.list [related])))), _) := rfl
  have composed : keyed.composeFunc 4 (gathering listed)
      ⟨4, 2, ⟨[(⟨⟨0⟩, 1⟩, ⟨some ⟨⟨0⟩, 2⟩, true⟩)]⟩, [⟨⟨0⟩, 1⟩]⟩ =
      (.ok (mapped (tested (.list [related]))), _) := rfl
  refine ⟨_, _, _, _, _, _, made, written, composed, fun depth args => ?_⟩
  refine composeFunc_modular (.func made) written composed rfl ?redirects ?refers rfl ?keys ?made
    ?made₁ ?made₂ depth args
  case redirects =>
      refine .map (.field (.arg _)) (.includeEntity (.field (.arg _)) fun t ht => ?_)
      have here : Expr.RefersTo (.const (.func 1 handing)) .ast (.func 1 handing) := ⟨0, rfl⟩
      cases ht.unique here
      exact ⟨.func 1 listed, ⟨0, rfl⟩, .inr ⟨rfl, rfl⟩⟩
  case refers =>
      have flat {e : Expr} (h : e.hasMarker = false) : e.RefersOnlyTo Func.Closed :=
        .of_flat ((Expr.hasMarker_eq_false_iff_flat e).mp h)
      have closed : handing.Closed := fun x hx => by simpa [handing] using hx
      have leaf : handing.body.RefersOnlyTo Func.Closed :=
        .of_func (flat rfl) (fun x hx => by simpa using hx) (flat rfl)
      refine Expr.refersOnlyTo_step.mpr ⟨nofun, fun o ho => ?_⟩
      simp only [gathering, Expr.live, Expr.operands, List.mem_cons, List.not_mem_nil,
        or_false] at ho
      rcases ho with rfl | rfl
      · exact flat rfl
      · exact .of_func (flat rfl) closed leaf
  case keys => exact (allows_guard keyed).composeFunc 4 (gathering handing) ⟨4, 2, {}, []⟩
  case made => simp [handing, Func.madeBefore_iff]
  case made₁ => simp [gathering, handing, Func.madeBefore_iff]
  case made₂ => simp [gathering, listed, Func.madeBefore_iff]

/-- Composing the first function before it is referenced in the given way leads to a function that
does something else on the arguments. -/
def TellsApart (c : Composer) (w : Workspace) (g : Func) (referencing : Func → Func)
    (args : List Value) : Prop :=
  ∃ depth g' h h' w₁ w₂ w₃, c.composeFunc depth g w = (.ok g', w₁) ∧
    c.composeFunc depth (referencing g) w₁ = (.ok h, w₂) ∧
    c.composeFunc depth (referencing g') w₂ = (.ok h', w₃) ∧
    h'.call depth args ≠ h.call depth args

/-- A function that maps a related record to a list. -/
def linked : Func :=
  let leaf : Func := ⟨[⟨2, "q", .unknown⟩], .list [.arg ⟨2, "q", .unknown⟩]⟩
  ⟨[⟨1, "p", .unknown⟩], .includeEntity .ast (.field (.arg ⟨1, "p", .unknown⟩) ⟨⟨0⟩, 1⟩)
    (.const (.func 0 leaf)) .unknown⟩

/-- The function on a record whose relation has no key, although there is a related record. -/
def unkeyed (g : Func) : Expr :=
  .includeEntity .ast (.const (.record [.null, .bool true, .null])) (.const (.func 1 g)) .unknown

/-- A marker that refers to one function or another, depending on whether the subject is null. -/
def branching (subject : Expr) : Expr :=
  let constant (b : Bool) : Value := .func 2 ⟨[⟨3, "q", .unknown⟩], .const (.bool b)⟩
  .includeEntity .ast (.const (.bool true))
    (.cond (.isNull false subject) (.const (constant true)) (.const (constant false))) .unknown

/-- A function that references another one in a mapping argument. -/
def choosing (g : Func) : Func := ⟨[⟨0, "x", .unknown⟩], branching (unkeyed g)⟩

/-- A function that hands what another one gives to a function with a mapping argument that depends
on the record. -/
def depending (g : Func) : Func :=
  let dependent : Func := ⟨[⟨4, "r", .unknown⟩], branching (.arg ⟨4, "r", .unknown⟩)⟩
  ⟨[⟨0, "x", .unknown⟩], .includeEntity .ast (unkeyed g) (.const (.func 5 dependent)) .unknown⟩

/-- A function that references another one. -/
def referring (g : Func) : Func :=
  let x : Param := ⟨0, "x", .unknown⟩
  ⟨[x], .includeEntity .ast (.arg x) (.const (.func 1 g)) .unknown⟩

/-- For each item of a list, a function that reads the item although it is not its parameter. -/
def capturing : Func :=
  let item : Param := ⟨2, "y", .unknown⟩
  let reading : Func := ⟨[⟨3, "q", .unknown⟩], .arg item⟩
  ⟨[⟨1, "p", .unknown⟩], .map (.field (.arg ⟨1, "p", .unknown⟩) ⟨⟨0⟩, 0⟩)
    ⟨[item], .includeEntity .ast (.arg item) (.const (.func 6 reading)) .unknown⟩⟩

/-- Composing is not modular throughout: it makes a difference in mapping arguments, next to mapping
arguments that depend on the record, and for functions that read parameters of others. -/
theorem composeFunc_not_modular :
    keyed.TellsApart ⟨7, 7, {}, []⟩ linked choosing [.null] ∧
      keyed.TellsApart ⟨7, 7, {}, []⟩ linked depending [.null] ∧
      keyed.TellsApart ⟨7, 7, {}, []⟩ capturing referring [.record [.list [.null]]] := by
  let param (id : Nat) (name : String) : Param := ⟨id, name, .unknown⟩
  let items (id : Nat) : Expr := .field (.arg (param id (if id = 0 then "x" else "p"))) ⟨⟨0⟩, 0⟩
  let constant (b : Bool) : Func := ⟨[param 0 "x"], .const (.bool b)⟩
  let learned : Workspace :=
    ⟨7, 7, ⟨[(⟨⟨0⟩, 1⟩, ⟨some ⟨⟨0⟩, 2⟩, true⟩)]⟩, [⟨⟨0⟩, 1⟩]⟩
  let tested : Func := ⟨[param 1 "p"], .cond (.isNull true (.field (.arg (param 1 "p")) ⟨⟨0⟩, 2⟩))
    (.list [.field (.arg (param 1 "p")) ⟨⟨0⟩, 1⟩]) (.const .null)⟩
  let captured : Func :=
    ⟨[param 1 "p"], .map (items 1) ⟨[param 2 "y"], .arg (param 2 "y")⟩⟩
  refine ⟨⟨4, tested, constant false, constant true, learned, learned, learned, rfl, rfl, rfl, ?_⟩,
    ⟨4, tested, constant false, constant true, learned, learned, learned, rfl, rfl, rfl, ?_⟩,
    ⟨4, captured, ⟨[param 0 "x"], .map (items 0) ⟨[param 7 "y"], .arg (param 2 "y")⟩⟩,
      ⟨[param 0 "x"], .map (items 0) ⟨[param 8 "y"], .arg (param 8 "y")⟩⟩,
      ⟨7, 7, {}, []⟩, ⟨8, 7, {}, []⟩, ⟨9, 7, {}, []⟩, rfl, rfl, rfl, ?_⟩⟩
  · exact show (.ok (.bool true) : Outcome Value) ≠ .ok (.bool false) from nofun
  · exact show (.ok (.bool true) : Outcome Value) ≠ .ok (.bool false) from nofun
  · exact show (.ok (.list [.null]) : Outcome Value) ≠ .fail (.unbound "y") from nofun

end Composer

end RecordMapping
