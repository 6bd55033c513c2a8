import RecordMapping.Proofs.FirstOrder
import RecordMapping.Proofs.Frames

/-!
# Frames in a run

A run of code comes to its operands one after the other, each on the frame that the one before it
left. Since each hands its frame back, an operand runs on the frame of the code itself, with one
more value on top if it is the body of a lambda or a selector. And a run can only be stuck where it
comes to a slot outside of the frame there, or to a call that is stuck.

## Implementation notes

What a run comes to is said with the frames as they are left behind, so that the invariant is not
assumed. Operands are found by their positions and pieces of code by the positions that lead to
them.
-/

namespace RecordMapping

namespace Outcome

variable {α β : Type}

theorem bind_eq_stuck_iff {x : Outcome α} {next : α → Outcome β} :
    (x >>= next) = .stuck ↔ x = .stuck ∨ ∃ a, x = .ok a ∧ next a = .stuck := by
  cases x <;> simp

theorem bind_ne_stuck {x : Outcome α} {next : α → Outcome β} (h : x ≠ .stuck)
    (hn : ∀ a, x = .ok a → next a ≠ .stuck) : (x >>= next) ≠ .stuck := by
  intro stuck
  rcases bind_eq_stuck_iff.mp stuck with hx | ⟨a, ha, hna⟩
  · exact h hx
  · exact hn a ha hna

theorem Ended.ne_stuck {x : Outcome α} (h : x.Ended) : x ≠ .stuck := by
  rcases h with ⟨a, rfl⟩ | ⟨f, rfl⟩ <;> simp

/-- If a run over items is stuck, it is stuck on one of them, after results for those before. -/
theorem exists_stuck_of_mapM {f : α → Outcome β} {items : List α}
    (h : items.mapM f = .stuck) :
    ∃ before item after results, items = before ++ item :: after ∧
      before.mapM f = .ok results ∧ f item = .stuck := by
  induction items with
  | nil => cases h
  | cons a as ih =>
      rw [List.mapM_cons] at h
      rcases bind_eq_stuck_iff.mp h with h | ⟨b, hb, h⟩
      · exact ⟨[], a, as, [], rfl, rfl, h⟩
      · rcases bind_eq_stuck_iff.mp h with h | ⟨bs, _, h⟩
        · obtain ⟨before, item, after, results, rfl, hr, hi⟩ := ih h
          refine ⟨a :: before, item, after, b :: results, rfl, ?_, hi⟩
          rw [List.mapM_cons, hb, hr]
          rfl
        · cases h

end Outcome

/-- If an application is stuck, the call that it makes is. -/
theorem Value.exists_stuck_of_applyWith {call : Caller} {v : Value} {args : List Value}
    (h : v.applyWith call args = .stuck) : ∃ callee args, call callee args = .stuck := by
  cases v with
  | func label f => exact ⟨_, _, h⟩
  | mapping m =>
      rcases args with _ | ⟨row, _ | ⟨_, _⟩⟩
      · cases h
      · exact ⟨_, _, h⟩
      · cases h
  | _ => cases h

namespace Code

/-- The operands that run one after the other, whatever they give. -/
def eager : Code → List Code
  | .cond test _ _ => [test]
  | .map base _ => [base]
  | .select parent _ => [parent]
  | code => code.operands

/-- The number of values on top of the frame of the code while the operand at the position runs. -/
def pushes : Code → Nat → Nat
  | .map _ _, 1 => 1
  | .select _ _, 1 => 1
  | _, _ => 0

/-- A run of the code on the frame comes to the operand at the position, which runs on the second
frame: the operands before it have given results, and each ran on the frame that the one before it
left. -/
inductive Comes (call : Caller) (frame : Frame) : Code → Nat → Code → Frame → Prop
  | eager {code o : Code} {before after : List Code} {vs : List Value} {frame' : Frame}
      (h : code.eager = before ++ o :: after)
      (hb : runAllWith call before frame = (.ok vs, frame')) :
      Comes call frame code before.length o frame'
  | yes {test yes no : Code} {frame' : Frame}
      (h : test.runWith call frame = (.ok (.bool true), frame')) :
      Comes call frame (.cond test yes no) 1 yes frame'
  | no {test yes no : Code} {frame' : Frame}
      (h : test.runWith call frame = (.ok (.bool false), frame')) :
      Comes call frame (.cond test yes no) 2 no frame'
  | lambda {base body : Code} {before after : List Value} {item : Value} {vs : List Value}
      {frame₁ frame₂ : Frame}
      (h : base.runWith call frame = (.ok (.list (before ++ item :: after)), frame₁))
      (hb : (before.mapM fun v => Frame.withTop v (body.runWith call)) frame₁ = (.ok vs, frame₂)) :
      Comes call frame (.map base body) 1 body (frame₂.push item)
  | selector {parent selector : Code} {v : Value} {frame' : Frame}
      (h : parent.runWith call frame = (.ok v, frame')) (present : v.isNull = false) :
      Comes call frame (.select parent selector) 1 selector (frame'.push v)

/-- A run of the code on the frame comes to the piece of code at the place, which runs on the second
frame. -/
inductive Reaches (call : Caller) : Code → Frame → List Nat → Code → Frame → Prop
  | here {code : Code} {frame : Frame} : Reaches call code frame [] code frame
  | comes {code o node : Code} {frame frame' frame'' : Frame} {i : Nat} {place : List Nat}
      (step : Comes call frame code i o frame') (h : Reaches call o frame' place node frame'') :
      Reaches call code frame (i :: place) node frame''

/-- The code cannot go on by itself: it is a slot outside of the frame, or the call that it makes is
stuck. -/
inductive Sticks (call : Caller) (frame : Frame) : Code → Prop
  | slot {i : Nat} (h : frame.size ≤ i) : Sticks call frame (.slot i)
  | call {callee : Code} {args : List Code} {f : Value} {vs : List Value}
      (hf : callee.valueWith call frame = .ok f) (hvs : valuesWith call args frame = .ok vs)
      (h : f.applyWith call vs = .stuck) : Sticks call frame (.call callee args)
  | apply {entity : Code} {target : Compiled} {v : Value}
      (hv : entity.valueWith call frame = .ok v) (h : call (.compiled target) [v] = .stuck) :
      Sticks call frame (.apply entity target)

variable {call : Caller} {frame frame' : Frame} {code o node : Code} {i : Nat}

theorem runWith_eq (call : Caller) (code : Code) (frame : Frame) :
    code.runWith call frame = (code.valueWith call frame, frame) :=
  Prod.ext rfl (runWith_restores call code frame)

theorem runAllWith_eq (call : Caller) (codes : List Code) (frame : Frame) :
    runAllWith call codes frame = (valuesWith call codes frame, frame) :=
  Prod.ext rfl (runAllWith_restores (fun code _ => runWith_restores call code) frame)

/-- Operands that run one after the other run on the frame of the code itself. -/
theorem operand_of_eager (h : code.eager[i]? = some o) :
    code.operands[i]? = some o ∧ code.pushes i = 0 := by
  cases code with
  | cond | map | select =>
      rcases i with _ | i
      · exact ⟨h, rfl⟩
      · cases h
  | _ => exact ⟨h, rfl⟩

namespace Comes

/-- An operand runs on the frame of the code itself, or with a value on top that the first operand
gave or that is an item of it. -/
theorem cases_frame (h : Comes call frame code i o frame') : code.operands[i]? = some o ∧
    ((code.pushes i = 0 ∧ frame' = frame) ∨
      ∃ base v u, code.operands[0]? = some base ∧ base.valueWith call frame = .ok v ∧
        (u = v ∨ ∃ items, v = .list items ∧ u ∈ items) ∧ code.pushes i = 1 ∧
        frame' = frame.push u) := by
  cases h with
  | @eager _ _ before after _ _ h hb =>
      rw [runAllWith_eq] at hb
      have ho : code.eager[before.length]? = some o := by simp [h]
      obtain ⟨ho, pushes⟩ := operand_of_eager ho
      exact ⟨ho, .inl ⟨pushes, (Prod.mk.inj hb).2.symm⟩⟩
  | yes h | no h =>
      rw [runWith_eq] at h
      exact ⟨rfl, .inl ⟨rfl, (Prod.mk.inj h).2.symm⟩⟩
  | @lambda base _ before after item vs frame₁ frame₂ h hb =>
      have restores : Stateful.Restores (before.mapM fun v => Frame.withTop v (o.runWith call)) :=
        .mapM fun v => Frame.restores_withTop v (runWith_restores call o)
      rw [runWith_eq] at h
      obtain ⟨value, rfl⟩ := Prod.mk.inj h
      obtain rfl : frame₂ = frame := by rw [← restores frame, hb]
      exact ⟨rfl, .inr ⟨base, _, item, rfl, value, .inr ⟨_, rfl, by simp⟩, rfl, rfl⟩⟩
  | @selector parent _ v _ h present =>
      rw [runWith_eq] at h
      obtain ⟨value, rfl⟩ := Prod.mk.inj h
      exact ⟨rfl, .inr ⟨parent, v, v, rfl, value, .inl rfl, rfl, rfl⟩⟩

theorem operand (h : Comes call frame code i o frame') : code.operands[i]? = some o :=
  h.cases_frame.1

theorem size (h : Comes call frame code i o frame') :
    frame'.size = frame.size + code.pushes i := by
  rcases h.cases_frame.2 with ⟨pushes, rfl⟩ | ⟨_, _, u, _, _, _, pushes, rfl⟩
  · rw [pushes, Nat.add_zero]
  · rw [pushes, Array.size_push]

/-- The first operand runs on the frame of the code itself. -/
theorem first {after : List Code} (h : code.eager = o :: after) :
    Comes call frame code 0 o frame :=
  .eager (show code.eager = [] ++ o :: after from h) rfl

end Comes

/-- If the values of pieces of code are stuck, one of them is, after values for those before. -/
theorem exists_stuck_of_values {codes : List Code} (h : valuesWith call codes frame = .stuck) :
    ∃ before o after vs, codes = before ++ o :: after ∧ valuesWith call before frame = .ok vs ∧
      o.valueWith call frame = .stuck := by
  induction codes with
  | nil => cases h
  | cons c codes ih =>
      rw [valuesWith_cons] at h
      rcases Outcome.bind_eq_stuck_iff.mp h with h | ⟨v, hv, h⟩
      · exact ⟨[], c, codes, [], rfl, rfl, h⟩
      · rcases Outcome.bind_eq_stuck_iff.mp h with h | ⟨vs, _, h⟩
        · obtain ⟨before, o, after, vs, rfl, hb, ho⟩ := ih h
          exact ⟨c :: before, o, after, v :: vs, rfl, by simp [valuesWith_cons, hv, hb], ho⟩
        · cases h

/-- If the operands that run one after the other are stuck, the run comes to one that is. -/
theorem comes_of_eager_stuck (h : valuesWith call code.eager frame = .stuck) :
    ∃ i o frame', Comes call frame code i o frame' ∧ o.valueWith call frame' = .stuck := by
  obtain ⟨before, o, after, vs, heager, hb, ho⟩ := exists_stuck_of_values h
  exact ⟨_, o, frame, .eager heager (by rw [runAllWith_eq, hb]), ho⟩

/-- If the run of code is stuck, the code cannot go on by itself, or the run comes to an operand on
which it is stuck. -/
theorem sticks_or_comes (h : code.valueWith call frame = .stuck) : code.Sticks call frame ∨
    ∃ i o frame', Comes call frame code i o frame' ∧ o.valueWith call frame' = .stuck := by
  cases code with
  | slot index =>
      rw [valueWith_slot] at h
      split at h
      · cases h
      · next absent => exact .inl (.slot (Array.getElem?_eq_none_iff.mp absent))
  | frame | const | fail => cases h
  | compare op left right =>
      rw [valueWith_compare] at h
      rcases Outcome.bind_eq_stuck_iff.mp h with h | ⟨v, hv, h⟩
      · exact .inr ⟨0, left, frame, .first rfl, h⟩
      · rcases Outcome.bind_eq_stuck_iff.mp h with h | ⟨w, _, h⟩
        · exact .inr (comes_of_eager_stuck (by simp [eager, valuesWith_cons, hv, h]))
        · exact absurd h (op.ended_apply v w).ne_stuck
  | call callee args =>
      rw [valueWith_call] at h
      rcases Outcome.bind_eq_stuck_iff.mp h with h | ⟨f, hf, h⟩
      · exact .inr ⟨0, callee, frame, .first rfl, h⟩
      · rcases Outcome.bind_eq_stuck_iff.mp h with h | ⟨vs, hvs, h⟩
        · exact .inr (comes_of_eager_stuck (by simp [eager, valuesWith_cons, hf, h]))
        · exact .inl (.call hf hvs h)
  | cond test yes no =>
      rw [valueWith_cond] at h
      rcases Outcome.bind_eq_stuck_iff.mp h with h | ⟨v, hv, h⟩
      · exact .inr ⟨0, test, frame, .first rfl, h⟩
      · rcases Outcome.bind_eq_stuck_iff.mp h with h | ⟨b, hb, h⟩
        · exact absurd h v.ended_asBool.ne_stuck
        · obtain rfl : v = .bool b := by
            cases v <;> cases hb
            rfl
          cases b with
          | true => exact .inr ⟨1, yes, frame, .yes (by rw [runWith_eq, hv]), h⟩
          | false => exact .inr ⟨2, no, frame, .no (by rw [runWith_eq, hv]), h⟩
  | field base id =>
      rw [valueWith_field] at h
      rcases Outcome.bind_eq_stuck_iff.mp h with h | ⟨v, hv, h⟩
      · exact .inr ⟨0, base, frame, .first rfl, h⟩
      · exact absurd h (v.ended_readField id).ne_stuck
  | isNull negate operand =>
      rw [valueWith_isNull] at h
      rcases Outcome.bind_eq_stuck_iff.mp h with h | ⟨v, hv, h⟩
      · exact .inr ⟨0, operand, frame, .first rfl, h⟩
      · cases h
  | list items =>
      rw [valueWith_list] at h
      rcases Outcome.bind_eq_stuck_iff.mp h with h | ⟨vs, _, h⟩
      · exact .inr (comes_of_eager_stuck h)
      · cases h
  | record fields =>
      rw [valueWith_record] at h
      rcases Outcome.bind_eq_stuck_iff.mp h with h | ⟨vs, _, h⟩
      · exact .inr (comes_of_eager_stuck h)
      · cases h
  | map base body =>
      rw [valueWith_map] at h
      rcases Outcome.bind_eq_stuck_iff.mp h with h | ⟨v, hv, h⟩
      · exact .inr ⟨0, base, frame, .first rfl, h⟩
      · rcases Outcome.bind_eq_stuck_iff.mp h with h | ⟨items, hi, h⟩
        · exact absurd h v.ended_asList.ne_stuck
        · rcases Outcome.bind_eq_stuck_iff.mp h with h | ⟨vs, _, h⟩
          · obtain ⟨before, item, after, vs, rfl, hb, hitem⟩ := Outcome.exists_stuck_of_mapM h
            -- The items before this one have given results and left the frame as it was.
            have restores (u : Value) : (Frame.withTop u (body.runWith call)).Restores :=
              Frame.restores_withTop u (runWith_restores call body)
            have mapped : (before.mapM fun u => Frame.withTop u (body.runWith call)) frame =
                (.ok vs, frame) := by
              refine Prod.ext ?_ (Stateful.Restores.mapM restores frame)
              rw [Stateful.mapM_fst restores]
              exact hb
            obtain rfl : v = .list (before ++ item :: after) := by
              cases v <;> cases hi
              rfl
            exact .inr ⟨1, body, _, .lambda (by rw [runWith_eq, hv]) mapped, hitem⟩
          · cases h
  | select parent selector =>
      rw [valueWith_select] at h
      rcases Outcome.bind_eq_stuck_iff.mp h with h | ⟨v, hv, h⟩
      · exact .inr ⟨0, parent, frame, .first rfl, h⟩
      · split at h
        · cases h
        · next present =>
          exact .inr ⟨1, selector, _, .selector (by rw [runWith_eq, hv]) (by simpa using present),
            h⟩
  | apply entity target =>
      rw [valueWith_apply] at h
      rcases Outcome.bind_eq_stuck_iff.mp h with h | ⟨v, hv, h⟩
      · exact .inr ⟨0, entity, frame, .first rfl, h⟩
      · split at h
        · cases h
        · exact .inl (.apply hv h)

/-- A run that is stuck has reached a piece of code that cannot go on by itself. -/
theorem reaches_sticks (h : code.valueWith call frame = .stuck) :
    ∃ place node frame', code.Reaches call frame place node frame' ∧ node.Sticks call frame' := by
  induction code using operand_induction generalizing frame with
  | step code ih =>
    rcases sticks_or_comes h with sticks | ⟨i, o, frame', step, ho⟩
    · exact ⟨[], code, frame, .here, sticks⟩
    · obtain ⟨place, node, frame'', reaches, sticks⟩ := ih o (List.mem_of_getElem? step.operand) ho
      exact ⟨i :: place, node, frame'', .comes step reaches, sticks⟩

/-- Where no call is stuck, only a slot outside of the frame cannot go on. -/
theorem Sticks.exists_slot (h : node.Sticks call frame)
    (calls : ∀ callee args, call callee args ≠ .stuck) : ∃ i, node = .slot i ∧ frame.size ≤ i := by
  cases h with
  | slot outside => exact ⟨_, rfl, outside⟩
  | call _ _ stuck =>
      obtain ⟨callee, args, stuck⟩ := Value.exists_stuck_of_applyWith stuck
      exact absurd stuck (calls callee args)
  | apply _ stuck => exact absurd stuck (calls _ _)

end Code

end RecordMapping
