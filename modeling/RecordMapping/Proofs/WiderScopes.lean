import RecordMapping.Proofs.Substitution

/-!
# Evaluation in wider scopes

An expression has the same result in a scope that gives further parameters a value, unless its
evaluation comes to a reference to one that has no value in the narrower scope and ends there. So
what is evaluated outside of every scope, such as the arguments of a call that are read ahead of any
record, has the same value in all of them.

## Implementation notes

The fault for a parameter without a value tells only its name. Another parameter may have the same
name, and functions and mapping arguments, which are evaluated in scopes of their own, end with such
faults as well. So where an evaluation ends is followed through the evaluation itself: it is a
reference in the expression, reached after everything that is evaluated before it has a value.
-/

namespace RecordMapping

/-- Every parameter that has a value in the narrower scope has the same one in the wider scope. -/
def Scope.Extends (wider narrower : Scope) : Prop :=
  ∀ x v, narrower.find? x = some v → wider.find? x = some v

namespace Scope.Extends

theorem nil (scope : Scope) : scope.Extends [] := by
  intro x v h
  simp at h

/-- Scopes stay in this relation below the same layer. -/
theorem cons {σ τ : Scope} (h : τ.Extends σ) (layer : Layer) :
    Scope.Extends (layer :: τ) (layer :: σ) := by
  intro x v hv
  cases hx : layer.position? x with
  | some i => rwa [Scope.find?_cons_of_some hx] at hv ⊢
  | none =>
      rw [Scope.find?_cons_of_none hx] at hv ⊢
      exact h x v hv

end Scope.Extends

namespace Outcome

variable {α β : Type}

/-- Runs in sequence are the same as others if each is the same as the other one, or something else
is the case. -/
theorem bind_eq_or {x x' : Outcome α} {next next' : α → Outcome β} {Q : Prop} (h : x' = x ∨ Q)
    (hn : ∀ a, x = .ok a → next' a = next a ∨ Q) : (x' >>= next') = (x >>= next) ∨ Q := by
  rcases h with rfl | hq
  · cases x' with
    | ok a => exact hn a rfl
    | fault | stuck | outOfDepth => exact .inl rfl
  · exact .inr hq

/-- A run for each item is only compared with the other one for items that it comes to. -/
theorem mapM_eq_or {f f' : α → Outcome β} {Q : Prop} {items : List α}
    (h : ∀ before a after, items = before ++ a :: after → (∀ b ∈ before, ∃ v, f b = .ok v) →
      f' a = f a ∨ Q) : items.mapM f' = items.mapM f ∨ Q := by
  induction items with
  | nil => exact .inl rfl
  | cons a as ih =>
      simp only [List.mapM_cons]
      refine bind_eq_or (h [] a as rfl (by simp)) fun v hv => ?_
      refine bind_eq_or (ih fun before b after split earlier => ?_) fun _ _ => .inl rfl
      refine h (a :: before) b after (by rw [split, List.cons_append]) fun c hc => ?_
      rcases List.mem_cons.mp hc with rfl | hc
      · exact ⟨v, hv⟩
      · exact earlier c hc

/-- The first fault of runs for items is that of all of them. -/
theorem mapM_eq_fault {f : α → Outcome β} {before : List α} {a : α} {fault : Fault}
    (earlier : ∀ b ∈ before, ∃ v, f b = .ok v) (h : f a = .fault fault) (after : List α) :
    (before ++ a :: after).mapM f = .fault fault := by
  induction before with
  | nil => simp [h]
  | cons b before ih =>
      obtain ⟨v, hv⟩ := earlier b (by simp)
      simp [hv, ih fun c hc => earlier c (by simp [hc])]

/-- What follows a test for a single parameter is only compared where there is one. -/
theorem checkArity_bind_eq_or {params : List Param} {x x' : Outcome α} {Q : Prop}
    (h : ∀ p, params = [p] → x' = x ∨ Q) : (checkArity params.length 1 >>= fun _ => x') =
      (checkArity params.length 1 >>= fun _ => x) ∨ Q := by
  by_cases single : ∃ p, params = [p]
  · obtain ⟨p, rfl⟩ := single
    exact h p rfl
  · have arity : params.length ≠ 1 := fun one => single (List.length_eq_one_iff.mp one)
    exact .inl (by simp [checkArity, Ne.symm arity, Outcome.fail])

end Outcome

namespace Expr

/-- Evaluating the first expression in the first scope comes to evaluating the second one in the
second scope: all that is evaluated before has a value. Functions that are called and mapping
arguments, which have scopes of their own, are left out. -/
inductive Comes (call : Caller) (σ : Scope) : Expr → Expr → Scope → Prop
  | left {op left right} : Comes call σ (.compare op left right) left σ
  | right {op left right v} (hl : left.evalWith call σ = .ok v) :
      Comes call σ (.compare op left right) right σ
  | callee {callee args} : Comes call σ (.call callee args) callee σ
  | argument {callee before a after f} (hf : callee.evalWith call σ = .ok f)
      (earlier : ∀ b ∈ before, ∃ v, b.evalWith call σ = .ok v) :
      Comes call σ (.call callee (before ++ a :: after)) a σ
  | test {test yes no} : Comes call σ (.cond test yes no) test σ
  | branch {test yes no b} (ht : test.evalWith call σ = .ok (.bool b)) :
      Comes call σ (.cond test yes no) (if b then yes else no) σ
  | base {base id} : Comes call σ (.field base id) base σ
  | entity {kind entity mapping ty} :
      Comes call σ (.includeEntity kind entity mapping ty) entity σ
  | parent {kind parent selector mapping ty} :
      Comes call σ (.includeVia kind parent selector mapping ty) parent σ
  | selector {kind parent p body mapping ty v} (hp : parent.evalWith call σ = .ok v)
      (present : v.isNull = false) :
      Comes call σ (.includeVia kind parent ⟨[p], body⟩ mapping ty) body (⟨[p], [v]⟩ :: σ)
  | operand {negate operand} : Comes call σ (.isNull negate operand) operand σ
  | item {before a after} (earlier : ∀ b ∈ before, ∃ v, b.evalWith call σ = .ok v) :
      Comes call σ (.list (before ++ a :: after)) a σ
  | mapped {base lambda} : Comes call σ (.map base lambda) base σ
  | lambda {base p body before v after}
      (hb : base.evalWith call σ = .ok (.list (before ++ v :: after)))
      (earlier : ∀ u ∈ before, ∃ w, body.evalWith call (⟨[p], [u]⟩ :: σ) = .ok w) :
      Comes call σ (.map base ⟨[p], body⟩) body (⟨[p], [v]⟩ :: σ)
  | recordField {model before a after}
      (earlier : ∀ b ∈ before, ∃ v, b.evalWith call σ = .ok v) :
      Comes call σ (.record model (before ++ a :: after)) a σ

/-- Evaluating the expression in the scope comes to a reference to the parameter, which has no value
there. -/
inductive Misses (call : Caller) (p : Param) : Expr → Scope → Prop
  | here {σ} (h : σ.find? p.id = none) : Misses call p (.arg p) σ
  | comes {e s σ τ} (step : e.Comes call σ s τ) (h : Misses call p s τ) : Misses call p e σ

namespace Comes

variable {call : Caller} {e s : Expr} {σ τ : Scope}

/-- A fault where an evaluation comes to is the fault of the evaluation. -/
theorem fault (h : e.Comes call σ s τ) {f : Fault} (hs : s.evalWith call τ = .fault f) :
    e.evalWith call σ = .fault f := by
  cases h with
  | left | callee | test | base | entity | operand => simp [evalWith, hs]
  | @parent _ _ func | @mapped _ func =>
      obtain ⟨params, body⟩ := func
      simp [evalWith, hs]
  | right hl => simp [evalWith, hl, hs]
  | argument hf earlier =>
      simp [evalWith, hf, evalAllWith_eq_mapM, Outcome.mapM_eq_fault earlier hs]
  | @branch test yes no b ht => cases b <;> simpa [evalWith, ht, Value.asBool] using hs
  | selector hp present => simp [evalWith, hp, present, hs]
  | item earlier | recordField earlier =>
      simp [evalWith, evalAllWith_eq_mapM, Outcome.mapM_eq_fault earlier hs]
  | @lambda _ p _ _ _ after hb earlier =>
      have first := Outcome.mapM_eq_fault
        (f := fun v => s.evalWith call (⟨[p], [v]⟩ :: σ)) earlier hs after
      simp [evalWith, hb, first]

/-- What has no value where an evaluation comes to has none where it starts. -/
theorem find?_eq_none (h : e.Comes call σ s τ) {x : Nat} (hx : τ.find? x = none) :
    σ.find? x = none := by
  cases h with
  | selector | lambda =>
      rw [Scope.find?_push] at hx
      split at hx
      · cases hx
      · exact hx
  | _ => exact hx

end Comes

variable {call : Caller} {e : Expr} {p : Param} {σ τ : Scope}

/-- An evaluation that comes to a reference to a parameter without a value ends there. -/
theorem Misses.evalWith_eq (h : e.Misses call p σ) :
    σ.find? p.id = none ∧ e.evalWith call σ = .fail (.unbound p.name) := by
  induction h with
  | here h => exact ⟨h, by simp [evalWith, Scope.read, h]⟩
  | comes step _ ih => exact ⟨step.find?_eq_none ih.1, step.fault ih.2⟩

theorem evalAllWith_eq_or {es : List Expr} {Q : Prop}
    (h : ∀ before a after, es = before ++ a :: after →
      (∀ b ∈ before, ∃ v, b.evalWith call σ = .ok v) →
        a.evalWith call τ = a.evalWith call σ ∨ Q) :
    evalAllWith call es τ = evalAllWith call es σ ∨ Q := by
  simpa only [evalAllWith_eq_mapM] using Outcome.mapM_eq_or h

/-- Evaluations in a wider scope are the same as in the narrower one up to where a parameter has no
value in the narrower one. -/
theorem evalWith_eq_or_misses (call : Caller) (e : Expr) (h : τ.Extends σ) :
    e.evalWith call τ = e.evalWith call σ ∨ ∃ p, e.Misses call p σ := by
  have follow {e s : Expr} {σ σ' : Scope} {τ' : Scope} (step : e.Comes call σ s σ')
      (hs : s.evalWith call τ' = s.evalWith call σ' ∨ ∃ p, s.Misses call p σ') :
      s.evalWith call τ' = s.evalWith call σ' ∨ ∃ p, e.Misses call p σ :=
    hs.imp_right fun ⟨p, hp⟩ => ⟨p, .comes step hp⟩
  induction e generalizing σ τ with
  | arg p =>
      cases hp : σ.find? p.id with
      | none => exact .inr ⟨p, .here hp⟩
      | some v => exact .inl (by simp [evalWith, Scope.read, hp, h p.id v hp])
  | const v => exact .inl rfl
  | compare op left right ihl ihr =>
      refine Outcome.bind_eq_or (follow .left (ihl h)) fun v hv => ?_
      exact Outcome.bind_eq_or (follow (.right hv) (ihr h)) fun _ _ => .inl rfl
  | call callee args ihf iha =>
      refine Outcome.bind_eq_or (follow .callee (ihf h)) fun f hf => ?_
      refine Outcome.bind_eq_or (evalAllWith_eq_or ?_) fun _ _ => .inl rfl
      rintro before a after rfl earlier
      exact follow (.argument hf earlier) (iha a (by simp) h)
  | cond test yes no iht ihy ihn =>
      refine Outcome.bind_eq_or (follow .test (iht h)) fun v hv => ?_
      refine Outcome.bind_eq_or (.inl rfl) fun b hb => ?_
      obtain rfl := Value.asBool_eq_ok_iff.mp hb
      have step : Comes call σ (.cond test yes no) (if b then yes else no) σ := .branch hv
      cases b with
      | true => exact follow step (ihy h)
      | false => exact follow step (ihn h)
  | field base id ih =>
      exact Outcome.bind_eq_or (follow .base (ih h)) fun _ _ => .inl rfl
  | includeEntity kind entity mapping ty ihe ihm =>
      exact Outcome.bind_eq_or (follow .entity (ihe h)) fun _ _ => .inl rfl
  | includeVia kind parent params body mapping ty ihp ihb ihm =>
      refine Outcome.bind_eq_or (follow .parent (ihp h)) fun v hv => ?_
      split
      · exact .inl rfl
      · next present =>
        refine Outcome.checkArity_bind_eq_or ?_
        rintro p rfl
        refine Outcome.bind_eq_or (follow (.selector hv (by simpa using present)) ?_)
          fun _ _ => .inl rfl
        exact ihb (h.cons _)
  | isNull negate operand ih =>
      exact Outcome.bind_eq_or (follow .operand (ih h)) fun _ _ => .inl rfl
  | list items ih =>
      refine Outcome.bind_eq_or (evalAllWith_eq_or ?_) fun _ _ => .inl rfl
      rintro before a after rfl earlier
      exact follow (.item earlier) (ih a (by simp) h)
  | map base params body ihl ihb =>
      refine Outcome.bind_eq_or (follow .mapped (ihl h)) fun v hv => ?_
      refine Outcome.bind_eq_or (.inl rfl) fun items hi => ?_
      obtain rfl := Value.asList_eq_ok_iff.mp hi
      refine Outcome.bind_eq_or (Outcome.mapM_eq_or ?_) fun _ _ => .inl rfl
      rintro before item after rfl earlier
      refine Outcome.checkArity_bind_eq_or ?_
      rintro p rfl
      exact follow (.lambda hv (by simpa using earlier)) (ihb (h.cons _))
  | record model fields ih =>
      refine Outcome.bind_eq_or (evalAllWith_eq_or ?_) fun _ _ => .inl rfl
      rintro before a after rfl earlier
      exact follow (.recordField earlier) (ih a (by simp) h)

/-- What evaluates to a value outside of every scope does so in every scope. -/
theorem evalWith_of_closed {v : Value} (closed : e.evalWith call [] = .ok v) (σ : Scope) :
    e.evalWith call σ = .ok v := by
  rcases e.evalWith_eq_or_misses call (.nil σ) with same | ⟨p, missed⟩
  · exact same.trans closed
  · cases closed.symm.trans missed.evalWith_eq.2

theorem evalAllWith_of_closed {es : List Expr} {vs : List Value}
    (closed : evalAllWith call es [] = .ok vs) (σ : Scope) : evalAllWith call es σ = .ok vs := by
  rw [evalAllWith_eq_ok_iff] at closed ⊢
  exact closed.imp fun _ _ h => evalWith_of_closed h σ

/-- Evaluation is monotone in its scope. In a wider scope an expression has the same result, unless
in the narrower one its evaluation ends with the fault of a reference to a parameter that has no
value there. In scopes that agree on its free parameters it has the same result. So an expression
that has a value outside of every scope has it in all of them, and a call whose arguments have
values outside of every scope is applied to these values in all of them. -/
theorem eval_wider (e : Expr) (depth : Nat) :
    (∀ σ τ : Scope, τ.Extends σ → e.eval depth τ = e.eval depth σ ∨
      ∃ p, e.Misses (Callable.call depth) p σ ∧ σ.find? p.id = none ∧
        e.eval depth σ = .fail (.unbound p.name)) ∧
    (∀ σ τ : Scope, (∀ x, e.Free x → σ.find? x = τ.find? x) →
      e.eval depth σ = e.eval depth τ) ∧
    (∀ v, e.evalClosed depth = .ok v → ∀ d, depth ≤ d → ∀ σ, e.eval d σ = .ok v) ∧
    ∀ callee args vs, e = .call callee args → closedArguments depth args = .ok vs →
      ∀ d, depth ≤ d → ∀ σ, e.eval d σ = (do
        let f ← callee.eval d σ
        f.apply d vs) := by
  refine ⟨fun σ τ wider => ?_, fun σ τ agree => e.evalWith_congr agree, ?closed, ?arguments⟩
  · rcases e.evalWith_eq_or_misses (Callable.call depth) wider with same | ⟨p, missed⟩
    · exact .inl same
    · exact .inr ⟨p, missed, missed.evalWith_eq⟩
  case closed =>
    intro v closed d hd σ
    have ends : e.eval depth [] = .ok v := closed
    have kept := Agreement.eq_of_deeper (e.steady_eval [] hd) (by simp [ends])
    exact evalWith_of_closed (kept.trans ends) σ
  case arguments =>
    rintro callee args vs rfl closed d hd σ
    have ends : evalAllWith (Callable.call depth) args [] = .ok vs := closed
    have kept := Agreement.eq_of_deeper (steady_evalAll args [] hd) (by simp [ends])
    have values := evalAllWith_of_closed (kept.trans ends) σ
    simp [eval, evalWith, values, Value.apply]

/-- The items of a list, each replaced by a fallback unless it holds. -/
def heldItems : Expr :=
  let item : Param := ⟨0, "item", .bool⟩
  .map (.const (.list [.bool true])) ⟨[item],
    .cond (.arg item) (.arg item) (.arg ⟨1, "fallback", .bool⟩)⟩

/-- A function that gives its argument back. -/
def giveBack : Expr :=
  let items : Param := ⟨2, "items", .list .bool⟩
  .const (.func 0 ⟨[items], .arg items⟩)

/-- The fallback is never reached, so a value for it changes nothing and the items are read
ahead. -/
theorem heldItems_wider :
    let record : Layer := ⟨[⟨3, "record", .unknown⟩], [.null]⟩
    let fallback : Layer := ⟨[⟨1, "fallback", .bool⟩], [.bool false]⟩
    let e : Expr := .call giveBack [heldItems]
    e.eval 1 [record, fallback] = e.eval 1 [record] ∧ e.eval 1 [record] = e.eval 1 [] ∧
    (∀ d, 1 ≤ d → ∀ σ, e.eval d σ = .ok (.list [.bool true])) ∧
    ∀ d, 1 ≤ d → ∀ σ, e.eval d σ = (do
      let f ← giveBack.eval d σ
      f.apply d [.list [.bool true]]) := by
  intro record fallback e
  obtain ⟨wider, agree, closed, arguments⟩ := e.eval_wider 1
  have value : e.eval 1 [record] = .ok (.list [.bool true]) := rfl
  refine ⟨?_, agree _ _ ?_, closed _ rfl, arguments _ _ _ rfl rfl⟩
  · refine (wider _ _ ((Scope.Extends.nil [fallback]).cons record)).resolve_right ?_
    rintro ⟨p, -, -, missed⟩
    cases value.symm.trans missed
  · intro x hx
    have unread : ¬ x = 3 := by
      rintro rfl
      simp [e, giveBack, heldItems] at hx
    simp [record, Scope.find?_push, unread]

end Expr

end RecordMapping
