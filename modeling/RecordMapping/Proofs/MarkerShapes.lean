import RecordMapping.Proofs.LikeComposed
import RecordMapping.Proofs.MappingArguments
import RecordMapping.Proofs.Substitution

/-!
# Markers over selectors and markers over entities

A marker over a selector says the same as the marker over the entity that the selector picks from
the parent, in every scope where there is a parent. A composer does not tell them apart either,
wherever they stand: it makes the same function of both, up to the identities of binders, or fails
with the same fault.

That a composer does not tell them apart is so for functions in which all is settled ahead of any
record and captures nothing. A mapping argument that refers to what a function is bound to is
evaluated with the entity in its place, and then it matters how the entity is written. A function
that mentions the parameter of a lambda around it is put in where this parameter may be bound.

## Implementation notes

Where one marker was put in the place of the other, it may be copied into other functions, and the
copies are renamed in different ways. So the two functions are compared as expressions that are
alike.
-/

namespace RecordMapping

/-- The second expression is the first one with the second marker in the place of the first one
somewhere, outside of constants and mapping arguments. -/
inductive Expr.Reshapes (m m' : Marker) : Expr → Expr → Prop
  | here : Expr.Reshapes m m' m.toExpr m'.toExpr
  | same (e : Expr) : Expr.Reshapes m m' e e
  | node {e e' : Expr} (head : e'.head = e.head)
      (bound : ∀ {i : Nat} {o o' : Operand}, e.operands[i]? = some o → e'.operands[i]? = some o' →
        o'.bound = o.bound)
      (mapping : ∀ {i : Nat} {o o' : Operand}, e.mappingPosition? = some i →
        e.operands[i]? = some o → e'.operands[i]? = some o' → o'.expr = o.expr)
      (operands : ∀ {i : Nat} {o o' : Operand}, e.mappingPosition? ≠ some i →
        e.operands[i]? = some o → e'.operands[i]? = some o' →
        Expr.Reshapes m m' o.expr o'.expr) : Expr.Reshapes m m' e e'

/-- What markers refer to was made before if the expression was. -/
theorem Expr.MadeBefore.target {n : Nat} {e : Expr} {t : Target} (h : e.MadeBefore n)
    (ht : e.References t) : t.function.MadeBefore n := by
  have part {s e : Expr} (h : e.MadeBefore n) (hs : s.LivePart e) : s.MadeBefore n := by
    induction hs with
    | self => exact h
    | operand ho _ ih => exact ih (h.operand (live_subset ho))
  induction ht with
  | here hm ht => exact Marker.madeBefore_target ht (part h hm)
  | there hm ht _ ih =>
      exact ih (Func.madeBefore_iff.mp (Marker.madeBefore_target ht (part h hm))).2

/-- The identity of a parameter that a function mentions without having it, where the expression
references the function. -/
def Expr.Foreign (e : Expr) (x : Nat) : Prop :=
  ∃ t, e.References t ∧ t.function.body.Free x ∧ ∀ p ∈ t.function.params, p.id ≠ x

theorem Expr.Foreign.lt {n : Nat} {e : Expr} {x : Nat} (h : e.Foreign x) (made : e.MadeBefore n) :
    x < n := by
  obtain ⟨t, ht, free, -⟩ := h
  exact (Func.madeBefore_iff.mp (made.target ht)).2 x free.mentions

/-- Mapping arguments are settled ahead, and no binder captures a foreign parameter, neither in the
expression nor in the functions that it references. Each identity is that of one parameter. -/
structure Expr.Hygienic (param : Nat → Param) (e : Expr) : Prop where
  params : e.EveryParam fun p => p = param p.id
  selects : e.SelectsAhead
  binders : e.EveryBinder fun b => ¬ e.Foreign b.id
  references : ∀ t, e.References t → t.function.Orderly param ∧
    t.function.body.EveryBinder fun b => ¬ e.Foreign b.id

theorem Expr.Hygienic.ahead {param : Nat → Param} {e : Expr} (h : e.Hygienic param) :
    e.Ahead (Func.Insertable param e.Foreign) := by
  refine ahead_of_references h.selects fun t ht => ?_
  obtain ⟨orderly, binders⟩ := h.references t ht
  exact ⟨orderly, fun x free others => ⟨t, ht, free, others⟩, binders⟩

namespace Expr

/-- The marker may stand in the entity of another marker. -/
theorem Reshapes.includeEntity {m m' : Marker} {entity entity' : Expr}
    (h : entity.Reshapes m m' entity') (kind : MarkerKind) (mapping : Expr) (ty : Ty) :
    (Expr.includeEntity kind entity mapping ty).Reshapes m m'
      (.includeEntity kind entity' mapping ty) := by
  refine .node rfl (fun {i o o'} ho ho' => ?_) (fun {i o o'} hi ho ho' => ?_)
    fun {i o o'} hi ho ho' => ?_
  · match i with
    | 0 | 1 =>
        cases ho
        cases ho'
        rfl
  · cases hi
    cases ho
    cases ho'
    rfl
  · match i with
    | 0 =>
        cases ho
        cases ho'
        exact h
    | 1 => exact absurd rfl hi

/-- An expression with the marker in the place of the other one mentions what the two mention. -/
theorem Reshapes.madeBefore {m m' : Marker} {e e' : Expr} (h : e.Reshapes m m' e') {n : Nat}
    (made : e.MadeBefore n) (other : m'.toExpr.MadeBefore n) : e'.MadeBefore n := by
  induction h with
  | here => exact other
  | same e => exact made
  | @node e e' head bound mapping _ ih =>
    refine madeBefore_iff.mpr ⟨?_, ?_, fun o' ho' => ?_⟩
    · rintro p rfl
      obtain rfl := head_eq_arg_iff.mp head.symm
      exact madeBefore_arg.mp made
    · rintro v rfl
      obtain rfl : e = .const v := by
        cases e <;> cases head
        rfl
      exact madeBefore_const.mp made
    · obtain ⟨i, hi⟩ := List.mem_iff_getElem?.mp ho'
      obtain ⟨o, ho⟩ : ∃ o, e.operands[i]? = some o := by
        have inside := (List.getElem?_eq_some_iff.mp hi).1
        rw [← length_operands_head, head, length_operands_head] at inside
        exact ⟨_, List.getElem?_eq_getElem inside⟩
      have hm := List.mem_of_getElem? ho
      rw [bound ho hi]
      refine ⟨fun p hp => made.binder hm hp, ?_⟩
      by_cases position : e.mappingPosition? = some i
      · rw [mapping position ho hi]
        exact made.operand hm
      · exact ih position ho hi (made.operand hm)

variable {param : Nat → Param} {foreign : Nat → Prop}

/-- Where each identity is that of one parameter, an expression is like itself. -/
theorem like_keep {e : Expr} (params : e.EveryParam fun p => p = param p.id)
    (binders : e.EveryBinder fun b => ¬ foreign b.id) (shapes : Bool) :
    e.Like (.labels foreign) shapes (.keep fun p => p = param p.id) e := by
  have matching : e.EveryBinder fun b => b.Matches foreign b :=
    binders.imp fun b hb => ⟨.refl b, hb, hb⟩
  have self : e.Like (.labels foreign) shapes (.keep fun p => p = param p.id ∧ e.Free p.id) e :=
    .refl params matching Param.SameLabel.of_id
  exact self.weaken fun p r ⟨hr, hp, _⟩ _ _ => ⟨hr, hp⟩

/-- With a marker that is like another one in its place, an expression is like itself. -/
theorem Reshapes.like {m m' : Marker} {e e' : Expr} (h : e.Reshapes m m' e')
    (params : e.EveryParam fun p => p = param p.id)
    (binders : e.EveryBinder fun b => ¬ foreign b.id)
    (here : m.toExpr.EveryParam (fun p => p = param p.id) →
      m.toExpr.EveryBinder (fun b => ¬ foreign b.id) →
      m.toExpr.Like (.labels foreign) true (.keep fun p => p = param p.id) m'.toExpr) :
    e.Like (.labels foreign) true (.keep fun p => p = param p.id) e' := by
  induction h with
  | here => exact here params binders
  | same e => exact like_keep params binders true
  | @node e e' head bound mapping _ ih =>
    by_cases arg : ∃ p, e = .arg p
    · obtain ⟨p, rfl⟩ := arg
      obtain rfl := head_eq_arg_iff.mp head
      exact like_keep params binders true
    · obtain ⟨-, below⟩ := everyParam_iff.mp params
      refine .node (fun p hp => arg ⟨p, hp⟩) head (fun {i o o'} ho ho' => ?_)
        fun {i o o'} ho ho' => ?_
      · rw [bound ho ho']
        exact List.forall₂_same.mpr fun b hb =>
          ⟨.refl b, (binders.operand (List.mem_of_getElem? ho)).1 b hb,
            (binders.operand (List.mem_of_getElem? ho)).1 b hb⟩
      · obtain ⟨known, inner⟩ := below o (List.mem_of_getElem? ho)
        obtain ⟨-, innerBinders⟩ := binders.operand (List.mem_of_getElem? ho)
        have under {shapes : Bool}
            (like : o.expr.Like (.labels foreign) shapes (.keep fun p => p = param p.id) o'.expr) :
            o.expr.Like (.labels foreign) shapes
              (Pairing.under (.labels foreign) (.keep fun p => p = param p.id) o.bound o'.bound)
              o'.expr := by
          rw [bound ho ho']
          refine like.weaken fun p r ⟨hr, hp⟩ _ _ => ?_
          rw [hr]
          exact Pairing.under_keep Param.SameLabel.of_id known hp ⟨rfl, hp⟩
        by_cases position : e.mappingPosition? = some i
        · rw [mapping position ho ho'] at under ⊢
          exact under (like_keep inner innerBinders _)
        · have outside : (true && e.mappingPosition? != some i) = true := by simpa using position
          rw [outside]
          exact under (ih position ho ho' inner innerBinders)

end Expr

namespace Marker

variable {param : Nat → Param} {foreign : Nat → Prop} {m : Marker} {parent body : Expr} {b : Param}
  {n : Nat}
  (source : m.source = .navigation parent ⟨[b], body⟩)
  (made : m.toExpr.MadeBefore n)

/-- The marker over an entity in the place of the source. -/
def withEntity (m : Marker) (entity : Expr) : Marker := { m with source := .entity entity }

include source

theorem toExpr_of_navigation :
    m.toExpr = .includeVia m.kind parent ⟨[b], body⟩ m.mapping m.ty := by
  rw [toExpr, source]

theorem entity_of_navigation (n : Nat) :
    m.entity n = .ok (body.instantiate (Replacement.empty.set b.id parent) n) := by
  rw [entity, source]
  exact Func.bindBody_singleton rfl parent n

include made

/-- A marker over a selector is like the one over the entity that it picks, but for its shape. -/
theorem like_withEntity (old : ∀ x, foreign x → x < n)
    (params : m.toExpr.EveryParam fun p => p = param p.id)
    (binders : m.toExpr.EveryBinder fun b => ¬ foreign b.id) :
    m.toExpr.Like (.labels foreign) true (.keep fun p => p = param p.id)
      (m.withEntity (body.instantiate (Replacement.empty.set b.id parent) n).1).toExpr := by
  rw [toExpr_of_navigation source] at params binders made ⊢
  obtain ⟨parentMade, selectorMade, -⟩ := Expr.madeBefore_includeVia.mp made
  obtain ⟨-, below⟩ := Expr.everyParam_iff.mp params
  have self (bound : List Param) (e : Expr) (shapes : Bool) (he : ⟨bound, e⟩ ∈
      (Expr.includeVia m.kind parent ⟨[b], body⟩ m.mapping m.ty).operands) :
      e.Like (.labels foreign) shapes (.keep fun p => p = param p.id) e :=
    Expr.like_keep (below _ he).2 (binders.operand he).2 shapes
  have picked (r : Expr) (hr : r = parent) :
      parent.Like (.labels foreign) true (.keep fun p => p = param p.id) r := by
    rw [hr]
    exact self [] parent true (by simp)
  have bound : body.Like (.labels foreign) true
      (Pairing.push (.keep fun p => p = param p.id) (.labels foreign) b b) body := by
    refine (self [b] body true (by simp)).weaken fun p r ⟨hr, hp⟩ _ _ => ?_
    rw [hr]
    change Pairing.under (.labels foreign) _ [b] [b] p (.arg p)
    exact Pairing.under_keep Param.SameLabel.of_id (below ⟨[b], body⟩ (by simp)).1 hp ⟨rfl, hp⟩
  refine .shape picked ?_ (self [] m.mapping false (by simp))
  exact bound.bind_right old Pairing.renames_keep (Func.madeBefore_iff.mp selectorMade).2 parentMade

/-- A composer does not tell a marker over a selector from the one over the entity that it picks,
wherever the one stands in the place of the other. -/
theorem composeFunc_withEntity {entity : Expr} {n' : Nat} (found : m.entity n = .ok (entity, n'))
    {f f' : Func} (same : f'.params = f.params)
    (reshapes : f.body.Reshapes m (m.withEntity entity) f'.body) (hygienic : f.body.Hygienic param)
    (older : f.MadeBefore n) (c : Composer) (depth : Nat) {w w' : Workspace}
    (hw : n' ≤ w.nextParam) (hw' : n' ≤ w'.nextParam) (guard : c.guard w = c.guard w') :
    (c.composeFunc depth f w).1.Related Func.AlphaEq (c.composeFunc depth f' w').1 := by
  have le : n ≤ n' := Marker.le_entity found
  have bodyOlder := (Func.madeBefore_iff.mp older).2
  have old (x : Nat) (hx : f.body.Foreign x) : x < n := hx.lt bodyOlder
  have entityMade : (m.withEntity entity).toExpr.MadeBefore n' := by
    have mapping := (made.operand (Expr.mapping_mem_operands m)).mono le
    exact Expr.madeBefore_includeEntity.mpr ⟨madeBefore_entity found made, mapping⟩
  have twin : f.body.Twin param f.body.Foreign (.keep fun p => p = param p.id) w.nextParam
      w'.nextParam f'.body := by
    refine ⟨?_, hygienic.ahead, bodyOlder.mono (Nat.le_trans le hw), ?_, fun x hx => ?_⟩
    · obtain rfl : _ = entity :=
        congrArg Prod.fst (Outcome.ok.inj ((entity_of_navigation source n).symm.trans found))
      exact reshapes.like hygienic.params hygienic.binders (like_withEntity source made old)
    · exact (reshapes.madeBefore (bodyOlder.mono le) entityMade).mono hw'
    · have := old x hx
      omega
  exact c.related_composeFunc depth same twin guard

/-- Where there is a parent, a marker over a selector ends as the one over the entity that it picks
does. -/
theorem ends_withEntity (resolves : ¬ body.FreeInMapping b.id)
    (params : m.toExpr.EveryParam fun p => p = param p.id) {scope : Scope} {v : Value}
    (hv : parent.Returns scope v) (present : v ≠ .null) (r : Outcome Value) :
    Ends (fun d => m.toExpr.eval d scope) r ↔
      Ends (fun d => (m.withEntity
        (body.instantiate (Replacement.empty.set b.id parent) n).1).toExpr.eval d scope) r := by
  obtain ⟨depth, hv⟩ := hv
  refine ends_iff_of_eventually (Expr.steady_eval _ _) (Expr.steady_eval _ _)
    (fun d (hd : depth ≤ d) => ?_) r
  have kept := Agreement.eq_of_deeper (parent.steady_eval scope hd) (by simp [hv])
  have parentValue : parent.eval d scope = .ok v := kept.trans hv
  rw [toExpr_of_navigation source] at params made ⊢
  obtain ⟨parentMade, selectorMade, -⟩ := Expr.madeBefore_includeVia.mp made
  obtain ⟨-, below⟩ := Expr.everyParam_iff.mp params
  obtain ⟨-, bodyParams⟩ := below ⟨[b], body⟩ (by simp)
  let names (id : Nat) : String := (param id).name
  have named : body.EveryParam fun p => p.name = names p.id :=
    bodyParams.imp fun p hp => congrArg Param.name hp
  have values : List.Forall₂ (fun r v => Expr.eval d r scope = .ok v) [parent] [v] :=
    .cons parentValue .nil
  have same : (body.instantiate (Replacement.empty.set b.id parent) n).1.eval d scope =
      body.eval d (⟨[b], [v]⟩ :: scope) :=
    Func.eval_instantiate_eq (f := ⟨[b], body⟩) rfl (by simpa using resolves) named
      (fun x hx => (Func.madeBefore_iff.mp selectorMade).2 x hx.mentions)
      (by simpa using fun x (hx : parent.Free x) => parentMade x hx.mentions) values
  have isNull : v.isNull = false := Bool.eq_false_iff.mpr fun h => present ((v.isNull_iff).mp h)
  simp only [Expr.eval] at parentValue same ⊢
  simp [withEntity, toExpr, Expr.evalWith, parentValue, isNull, same]

end Marker

/-- A marker over a selector of one parameter has an entity, and it says the same as the marker over
that entity. In every scope where there is a parent both have the same value, the same fault or no
end at all. And wherever the one stands in the place of the other, outside of constants and mapping
arguments, composing gives the same function up to the identities of binders, or the same fault, if
the function is hygienic and was there when the entity was asked for. -/
theorem Marker.shapes_agree {param : Nat → Param} {m : Marker} {parent body : Expr} {b : Param}
    {n : Nat} (source : m.source = .navigation parent ⟨[b], body⟩)
    (resolves : ¬ body.FreeInMapping b.id)
    (params : m.toExpr.EveryParam fun p => p = param p.id) (made : m.toExpr.MadeBefore n) :
    ∃ entity n', m.entity n = .ok (entity, n') ∧
      (∀ scope v, parent.Returns scope v → v ≠ .null → ∀ r,
        Ends (fun d => m.toExpr.eval d scope) r ↔
          Ends (fun d => (m.withEntity entity).toExpr.eval d scope) r) ∧
      ∀ {f f' : Func}, f'.params = f.params → f.body.Reshapes m (m.withEntity entity) f'.body →
        f.body.Hygienic param → f.MadeBefore n →
        ∀ (c : Composer) (depth : Nat) {w w' : Workspace}, n' ≤ w.nextParam → n' ≤ w'.nextParam →
          c.guard w = c.guard w' →
          (c.composeFunc depth f w).1.Related Func.AlphaEq (c.composeFunc depth f' w').1 := by
  have found := entity_of_navigation source n
  refine ⟨_, _, found, fun scope v hv present r => ?_, ?_⟩
  · exact ends_withEntity source made resolves params hv present r
  · exact fun same reshapes hygienic older c depth _ _ hw hw' guard =>
      composeFunc_withEntity source made found same reshapes hygienic older c depth hw hw' guard

/-- The parameter of an identity in the samples. -/
def numbered (id : Nat) : Param := ⟨id, "p", .unknown⟩

@[simp] theorem numbered_id (id : Nat) : (numbered id).id = id := rfl

/-- The parts of a related record, each next to the record. -/
def Expr.parts (related : Expr) (id : Nat) : Expr :=
  .map (.field related ⟨⟨0⟩, 0⟩) ⟨[numbered id], .list [.arg (numbered id), .arg (numbered 0)]⟩

/-- A function that lists its argument twice. -/
def Func.twice : Func := ⟨[numbered 3], .list [.arg (numbered 3), .arg (numbered 3)]⟩

/-- A marker that lists the parts of a related record twice. -/
def Marker.paired : Marker where
  kind := .ast
  source := .navigation (.field (.arg (numbered 0)) ⟨⟨0⟩, 1⟩)
    ⟨[numbered 1], .parts (.arg (numbered 1)) 2⟩
  mapping := .const (.func 0 .twice)
  ty := .unknown

theorem Func.twice_orderly : twice.Orderly numbered where
  params := by simp [twice]
  body := by
    have every (e : Expr) := Expr.everyParam_iff (P := fun p => p = numbered p.id) (e := e)
    simp [twice, every (.list _), every (.arg _)]
  resolves := by
    simp [ResolvesAhead, twice, Expr.freeInMapping_iff (e := .list _), Expr.asMarker?,
      Expr.not_freeInMapping_arg]
  selects := by
    have every (e : Expr) := Expr.everyLive_iff (P := Expr.PicksAhead) (e := e)
    simp [twice, Expr.SelectsAhead, Expr.PicksAhead, Expr.live, every (.list _), every (.arg _)]

theorem Marker.paired_resolves : ¬ (Expr.parts (.arg (numbered 1)) 2).FreeInMapping 1 := by
  have free (e : Expr) := Expr.freeInMapping_iff (e := e) (x := 1)
  simp [Expr.parts, Expr.asMarker?, free (.map _ _), free (.field _ _), free (.list _),
    Expr.not_freeInMapping_arg]

theorem Marker.paired_references {t : Target} (h : paired.toExpr.References t) :
    t.function = .twice := by
  have flat {e : Expr} (h : e.hasMarker = false) (m : Marker) : ¬ e.Marks m :=
    ((Expr.hasMarker_eq_false_iff_flat e).mp h).not_marks m
  have here {m : Marker} (hm : paired.toExpr.Marks m) : m = paired := by
    rcases Expr.marks_iff.mp hm with hm | ⟨o, ho, hm⟩
    · cases hm
      rfl
    · simp only [paired, toExpr, Expr.live, List.mem_cons, List.not_mem_nil, or_false] at ho
      rcases ho with rfl | rfl
      · exact absurd hm (flat rfl m)
      · exact absurd hm (flat rfl m)
  have target {t : Target} (ht : paired.mapping.RefersTo paired.kind t) : t.function = .twice := by
    cases ht.unique ⟨0, rfl⟩
    rfl
  cases h with
  | here hm ht =>
      cases here hm
      exact target ht
  | there hm ht h =>
      cases here hm
      rw [target ht] at h
      cases h with
      | here hm _ | there hm _ _ => exact absurd hm (flat rfl _)

theorem Marker.paired_hygienic : paired.toExpr.Hygienic numbered := by
  have every (e : Expr) := Expr.everyParam_iff (P := fun p => p = numbered p.id) (e := e)
  have everyLive (e : Expr) := Expr.everyLive_iff (P := Expr.PicksAhead) (e := e)
  have closed (x : Nat) : ¬ paired.toExpr.Foreign x := by
    rintro ⟨t, ht, free, others⟩
    rw [paired_references ht] at free others
    simp [Func.twice] at free others
    exact others free
  constructor
  case params =>
    simp [paired, toExpr, Expr.parts, every (.map _ _), every (.field _ _), every (.list _),
      every (.arg _), every (.includeVia _ _ _ _ _), every (.const _)]
  case selects =>
    have picks : Func.ResolvesAhead ⟨[numbered 1], .parts (.arg (numbered 1)) 2⟩ := by
      simpa [Func.ResolvesAhead] using paired_resolves
    refine (everyLive _).mpr ⟨picks, ?_⟩
    simp [paired, toExpr, Expr.PicksAhead, Expr.live, everyLive (.field _ _), everyLive (.arg _),
      Expr.parts, everyLive (.map _ _), everyLive (.list _)]
  case binders => exact fun _ _ _ _ b _ => closed b.id
  case references =>
    intro t ht
    rw [paired_references ht]
    exact ⟨Func.twice_orderly, fun _ _ _ _ b _ => closed b.id⟩

theorem Marker.paired_agrees :
    let related : Expr := .field (.arg (numbered 0)) ⟨⟨0⟩, 1⟩
    let entity := related.parts 5
    let f : Func := ⟨[numbered 0], paired.toExpr⟩
    let f' : Func := ⟨[numbered 0], (paired.withEntity entity).toExpr⟩
    let g : Func := ⟨[numbered 0], .list [related.parts 6, related.parts 6]⟩
    let g' : Func := ⟨[numbered 0], .list [entity, entity]⟩
    let record : Value := .record [.null, .record [.list [.bool true]]]
    let listed : Value := .list [.list [.bool true, record]]
    let w : Workspace := ⟨6, 1, {}, []⟩
    paired.entity 5 = .ok (entity, 6) ∧
      Ends (fun d => f'.body.eval d [⟨f'.params, [record]⟩]) (.ok (.list [listed, listed])) ∧
      (Composer.keyed.composeFunc 2 f w).1 = .ok g ∧
      (Composer.keyed.composeFunc 2 f' w).1 = .ok g' ∧ g.AlphaEq g' := by
  intro related entity f f' g g' record listed w
  have made : paired.toExpr.MadeBefore 5 := by
    simp [paired, toExpr, Expr.parts, Func.madeBefore_iff, Func.twice]
  have older : f.MadeBefore 5 := by
    simp [f, Func.madeBefore_iff, made]
  have found : paired.entity 5 = .ok (entity, 6) := rfl
  obtain ⟨_, _, found', ends, compose⟩ :=
    shapes_agree rfl paired_resolves paired_hygienic.params made
  cases found.symm.trans found'
  have same : f'.params = f.params := rfl
  have reshapes : f.body.Reshapes paired (paired.withEntity entity) f'.body := .here
  have composed : (Composer.keyed.composeFunc 2 f w).1 = .ok g := rfl
  have composed' : (Composer.keyed.composeFunc 2 f' w).1 = .ok g' := rfl
  have agree := compose same reshapes paired_hygienic older Composer.keyed 2 (Nat.le_refl 6)
    (Nat.le_refl 6) (rfl : Composer.keyed.guard w = Composer.keyed.guard w)
  rw [composed, composed'] at agree
  cases agree with
  | ok alpha =>
      refine ⟨found, ?_, composed, composed', alpha⟩
      exact (ends _ _ ⟨0, rfl⟩ (by simp) _).mp ⟨by simp, 2, rfl⟩

/-- The shapes can be told apart in two ways. A mapping argument that is what a function is bound to
does so where there is no parent: a composer evaluates the marker in its place, which is null over
the selector and a fault over the entity. And so does a function that mentions the parameter of a
lambda, where the lambda stands in what a selector is bound to. Over the inner selector it is
renamed once more, and the function is put in where nothing captures the parameter. Over the entity
it keeps its identity and captures it. -/
theorem Composer.shapes_differ :
    (let m : Marker := ⟨.ast, .navigation .null ⟨[numbered 2], .field (.arg (numbered 2)) ⟨⟨0⟩, 0⟩⟩,
      .const (.func 1 .twice), .unknown⟩
    let entity : Expr := .field .null ⟨⟨0⟩, 0⟩
    let f := applyingTo m.toExpr
    let f' := applyingTo (m.withEntity entity).toExpr
    let w : Workspace := ⟨4, 2, {}, []⟩
    m.entity 4 = .ok (entity, 4) ∧ f'.params = f.params ∧
      f.body.Reshapes m (m.withEntity entity) f'.body ∧
      (keyed.composeFunc 3 f w).1 = .fault ⟨.marker (.wrongArgument .ast .null), []⟩ ∧
      (keyed.composeFunc 3 f' w).1 =
        .fault ⟨.marker .dependsOnRecord, [.evaluation (.nullDereference ⟨⟨0⟩, 0⟩)]⟩ ∧
      ¬ (keyed.composeFunc 3 f w).1.Related Func.AlphaEq (keyed.composeFunc 3 f' w).1) ∧
    let item : Expr := .arg (numbered 4)
    let copying : Expr := .const (.func 0 ⟨[numbered 3], .arg (numbered 3)⟩)
    let mentioning : Func := ⟨[numbered 5], .list [.arg (numbered 5), item]⟩
    let items : Expr := .map (.const (.list [.bool true]))
      ⟨[numbered 4], .includeEntity .ast item (.const (.func 1 mentioning)) .unknown⟩
    let m : Marker := ⟨.ast, .navigation (.arg (numbered 0))
      ⟨[numbered 2], .list [.arg (numbered 2), .arg (numbered 1)]⟩, copying, .unknown⟩
    let entity : Expr := .list [.arg (numbered 0), .arg (numbered 1)]
    let above (e : Expr) : Func :=
      ⟨[numbered 0], .includeVia .ast items ⟨[numbered 1], e⟩ copying .unknown⟩
    let pairs (k : Nat) : Expr := .list [.arg (numbered 0), .map (.const (.list [.bool true]))
      ⟨[numbered k], .list [.arg (numbered k), item]⟩]
    let w : Workspace := ⟨6, 2, {}, []⟩
    m.entity 6 = .ok (entity, 6) ∧
      (keyed.composeFunc 4 (above m.toExpr) w).1 = .ok ⟨[numbered 0], pairs 7⟩ ∧
      (keyed.composeFunc 4 (above (m.withEntity entity).toExpr) w).1 = .ok ⟨[numbered 0], pairs 4⟩ ∧
      (pairs 7).Free 4 ∧ ¬ (pairs 4).Free 4 := by
  constructor
  · intro m entity f f' w
    have left : (keyed.composeFunc 3 f w).1 =
      .fault ⟨.marker (.wrongArgument .ast .null), []⟩ := rfl
    have right : (keyed.composeFunc 3 f' w).1 =
      .fault ⟨.marker .dependsOnRecord, [.evaluation (.nullDereference ⟨⟨0⟩, 0⟩)]⟩ := rfl
    refine ⟨rfl, rfl, .includeEntity .here _ _ _, left, right, fun related => ?_⟩
    rw [left, right] at related
    cases related
  · intro item copying mentioning items m entity above pairs w
    refine ⟨rfl, rfl, rfl, ?_, ?_⟩
    · simp [pairs, item]
    · simp [pairs, item]

end RecordMapping
