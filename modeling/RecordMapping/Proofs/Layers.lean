import RecordMapping.Compiled.OfFunc
import RecordMapping.Proofs.Agreement

/-!
# Layers that list a parameter more than once

Of several arguments for one parameter a layer gives the first, and the list of slots finds the
last. With its order reversed a layer gives the last one as well, and if no parameter is listed
twice, its order does not matter.
-/

namespace RecordMapping

/-- When no identity is listed twice, the first and the last position of a parameter are the
same. -/
theorem lastSlot?_eq_findIdx? {params : List Param} (distinct : (params.map Param.id).Nodup)
    (id : Nat) :
    lastSlot? (params.map Param.id) id = params.findIdx? fun p => decide (p.id = id) := by
  induction params with
  | nil => rfl
  | cons p ps ih =>
      obtain ⟨hp, hps⟩ := List.nodup_cons.mp distinct
      rw [List.map_cons, lastSlot?, ih hps, List.findIdx?_cons]
      by_cases h : p.id = id
      · have hn : ps.findIdx? (fun q => decide (q.id = id)) = none := by
          rw [← ih hps, lastSlot?_eq_none_iff, ← h]
          exact hp
        simp [hn, h]
      · cases ps.findIdx? (fun q => decide (q.id = id)) <;> simp [h]

namespace Layer

/-- The layer with its parameters and arguments in reverse order. -/
def reverse (layer : Layer) : Layer := ⟨layer.params.reverse, layer.args.reverse⟩

/-- The first position in the reverse order is the last position. -/
theorem position?_reverse (layer : Layer) (x : Nat) : layer.reverse.position? x =
    (lastSlot? (layer.params.map Param.id) x).map fun i => layer.params.length - 1 - i := by
  obtain ⟨params, args⟩ := layer
  simp only [position?, reverse]
  induction params with
  | nil => rfl
  | cons p ps ih =>
      rw [List.reverse_cons, List.findIdx?_append, ih, List.map_cons, lastSlot?]
      cases lastSlot? (ps.map Param.id) x with
      | some i => simp; omega
      | none => by_cases hx : p.id = x <;> simp [hx]

end Layer

namespace Scope

variable {params : List Param} {args : List Value}

/-- A layer in reverse order gives a parameter the last of its arguments. -/
theorem find?_reverse (length : args.length = params.length) (outer : Scope) (x : Nat) :
    find? (Layer.reverse ⟨params, args⟩ :: outer) x =
      match lastSlot? (params.map Param.id) x with
      | some i => args[i]?
      | none => outer.find? x := by
  rw [find?, Layer.position?_reverse]
  cases hx : lastSlot? (params.map Param.id) x with
  | none => rfl
  | some i =>
      have hi := (List.getElem?_eq_some_iff.mp (getElem?_of_lastSlot? hx)).1
      rw [List.length_map, ← length] at hi
      simp only [Option.map_some, Layer.reverse]
      rw [List.getElem?_reverse (by omega), ← length]
      congr 1
      omega

/-- The order of a layer does not matter if no parameter is listed twice. -/
theorem find?_reverse_of_distinct (length : args.length = params.length)
    (distinct : (params.map Param.id).Nodup) (outer : Scope) (x : Nat) :
    find? (Layer.reverse ⟨params, args⟩ :: outer) x = find? (⟨params, args⟩ :: outer) x := by
  refine (find?_reverse length outer x).trans ?_
  rw [lastSlot?_eq_findIdx? distinct]
  rfl

end Scope

namespace Func

variable {f : Func}

/-- The function with its parameters in reverse order. -/
def reversed (f : Func) : Func := ⟨f.params.reverse, f.body⟩

@[simp] theorem arity_reversed (f : Func) : f.reversed.arity = f.arity := List.length_reverse

theorem reversed_of_arity (h : f.arity = 1) : f.reversed = f := by
  obtain ⟨params, body⟩ := f
  obtain ⟨p, rfl⟩ := List.length_eq_one_iff.mp h
  rfl

/-- Reversing parameters and arguments makes a difference only to the parameters that are given
another value by it. -/
theorem callWith_reversed {call : Caller} {args : List Value}
    (h : args.length = f.arity → ∀ x, f.body.Free x →
      Scope.find? [Layer.reverse ⟨f.params, args⟩] x = Scope.find? [⟨f.params, args⟩] x) :
    f.reversed.callWith call args.reverse = f.callWith call args := by
  by_cases length : args.length = f.arity
  · simp only [callWith, arity_reversed, List.length_reverse, length, checkArity_self,
      Outcome.ok_bind]
    exact f.body.evalWith_congr (h length)
  · rw [callWith_of_length_ne length, callWith_of_length_ne (by simpa using length)]
    simp

/-- Reversing parameters and arguments makes no difference if no parameter is listed twice. -/
theorem callWith_reversed_of_distinct (distinct : (f.params.map Param.id).Nodup) (call : Caller)
    (args : List Value) : f.reversed.callWith call args.reverse = f.callWith call args :=
  callWith_reversed fun length x _ => Scope.find?_reverse_of_distinct length distinct [] x

end Func

end RecordMapping
