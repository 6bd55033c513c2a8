import RecordMapping.Mapping
import RecordMapping.Value.Order
import RecordMapping.Expr.Eval

/-!
# Running code

Code runs on a frame of values. A lambda or a selector runs with one more value on top of the
frame, which is taken off again whether the run ends with a result or not.

## Implementation notes

The frame is returned however a run ends, so what is left on it can be stated. A slot outside the
frame is stuck rather than a fault. Native code runs in the same way, as it is written as `Code`;
procedures that cannot be written so, such as ones with a state of their own, are not covered.
-/

namespace RecordMapping

/-- The values that code reads by position. -/
abbrev Frame := Array Value

namespace Frame

/-- The value in a slot. -/
def read (index : Nat) : Stateful Frame Value := fun frame =>
  match frame[index]? with
  | some v => (.ok v, frame)
  | none => (.stuck, frame)

/-- The values of the frame, from the bottom. -/
def values : Stateful Frame (List Value) := fun frame => (.ok frame.toList, frame)

/-- Run with a value on top of the frame, and take the top off afterwards. -/
def withTop {α : Type} (v : Value) (run : Stateful Frame α) : Stateful Frame α := fun frame =>
  let ended := run (frame.push v)
  (ended.1, ended.2.pop)

/-- A run that gives its frame back does so with a value on top as well. -/
theorem withTop_frame {α : Type} (v : Value) (run : Stateful Frame α) (frame : Frame)
    (h : (run (frame.push v)).2 = frame.push v) : (withTop v run frame).2 = frame := by
  simp [withTop, h]

end Frame

mutual

/-- The value of code on a frame. -/
def Code.runWith (call : Caller) : Code → Stateful Frame Value
  | .slot index => Frame.read index
  | .frame => do
      let vs ← Frame.values
      return .list vs
  | .const v => pure v
  | .compare op left right => do
      let v ← left.runWith call
      let w ← right.runWith call
      Stateful.lift (op.apply v w)
  | .call callee args => do
      let f ← callee.runWith call
      let vs ← Code.runAllWith call args
      Stateful.lift (f.applyWith call vs)
  | .cond test yes no => do
      let v ← test.runWith call
      let b ← Stateful.lift v.asBool
      if b then yes.runWith call else no.runWith call
  | .field base id => do
      let v ← base.runWith call
      Stateful.lift (v.readField id)
  | .isNull negate operand => do
      let v ← operand.runWith call
      return .bool (v.isNull != negate)
  | .list items => do
      let vs ← Code.runAllWith call items
      return .list vs
  | .map base body => do
      let v ← base.runWith call
      let items ← Stateful.lift v.asList
      let vs ← items.mapM fun item => Frame.withTop item (body.runWith call)
      return .list vs
  | .record fields => do
      let vs ← Code.runAllWith call fields
      return .record vs
  | .select parent selector => do
      let p ← parent.runWith call
      if p.isNull then return .null else Frame.withTop p (selector.runWith call)
  | .apply entity target => do
      let v ← entity.runWith call
      if v.isNull then return .null else Stateful.lift (call (.compiled target) [v])
  | .fail text => Stateful.lift (.fail (.adhoc text))
termination_by structural code => code

/-- The values of pieces of code, from left to right. -/
def Code.runAllWith (call : Caller) : List Code → Stateful Frame (List Value)
  | [] => pure []
  | code :: rest => do
      let v ← code.runWith call
      let vs ← Code.runAllWith call rest
      return v :: vs
termination_by structural codes => codes

end

namespace Compiled

/-- Run the code on a frame that holds the arguments alone. -/
def callWith (call : Caller) (c : Compiled) (args : List Value) : Outcome Value := do
  checkArity c.arity args.length
  (c.body.runWith call args.toArray).1

/-- Code that gives one value whatever the arguments are. -/
def constant (arity : Nat) (v : Value) : Compiled := ⟨arity, .const v⟩

/-- Code that gives the list of its arguments. -/
def arguments (arity : Nat) : Compiled := ⟨arity, .frame⟩

/-- Code that fails with the given text. -/
def failing (arity : Nat) (text : String) : Compiled := ⟨arity, .fail text⟩

/-- The shape of compiled code for a reader; the code itself is left out. -/
def outline (c : Compiled) : Text.Outline :=
  .record "Compiled" [.named "arity" (.word (toString c.arity))] true

end Compiled

end RecordMapping
