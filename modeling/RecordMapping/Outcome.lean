import RecordMapping.Fault.Basic

/-!
# Outcomes of runs

A run ends with a result or with a fault, or it does not end within the depth of calls it was
given. Code that reads outside its frame is stuck, which is kept apart from a fault: no message
describes it.

## Implementation notes

`Stateful` pairs an outcome with the state it leaves behind. The state is returned in every case,
so what a failed run has done to it stays visible.
-/

namespace RecordMapping

/-- How a run ends. -/
inductive Outcome (α : Type) where
  /-- It ends with a result. -/
  | ok (result : α)
  /-- It ends with a fault. -/
  | fault (f : Fault)
  /-- It reads a slot outside its frame. -/
  | stuck
  /-- It needs more nested calls than it was given. -/
  | outOfDepth

namespace Outcome

/-- Continue with the result; every other end is passed on. -/
protected def bind {α β : Type} : Outcome α → (α → Outcome β) → Outcome β
  | .ok a, next => next a
  | .fault f, _ => .fault f
  | .stuck, _ => .stuck
  | .outOfDepth, _ => .outOfDepth

instance : Monad Outcome where
  pure := .ok
  bind := Outcome.bind

@[simp] theorem pure_eq {α : Type} (a : α) : (pure a : Outcome α) = .ok a := rfl

@[simp] theorem ok_bind {α β : Type} (a : α) (next : α → Outcome β) :
    (Outcome.ok a >>= next) = next a := rfl

@[simp] theorem fault_bind {α β : Type} (f : Fault) (next : α → Outcome β) :
    (Outcome.fault f >>= next) = .fault f := rfl

@[simp] theorem stuck_bind {α β : Type} (next : α → Outcome β) :
    ((Outcome.stuck : Outcome α) >>= next) = .stuck := rfl

@[simp] theorem outOfDepth_bind {α β : Type} (next : α → Outcome β) :
    ((Outcome.outOfDepth : Outcome α) >>= next) = .outOfDepth := rfl

instance : LawfulMonad Outcome :=
  LawfulMonad.mk' Outcome (fun x => by cases x <;> rfl) (fun _ _ => rfl)
    (fun x _ _ => by cases x <;> rfl)

/-- End with a fault that has no cause. -/
def fail {α : Type} (kind : FaultKind) : Outcome α := .fault (.root kind)

/-- Put a fault, if there is one, under a new one. -/
def context {α : Type} (kind : FaultKind) : Outcome α → Outcome α
  | .fault f => .fault (f.under kind)
  | other => other

@[simp] theorem context_ok {α : Type} (kind : FaultKind) (a : α) :
    (Outcome.ok a).context kind = .ok a := rfl

@[simp] theorem context_fault {α : Type} (kind : FaultKind) (f : Fault) :
    (Outcome.fault f : Outcome α).context kind = .fault (f.under kind) := rfl

end Outcome

/-- A run that reads and changes a state; the state it leaves is known however it ends. -/
def Stateful (σ α : Type) := σ → Outcome α × σ

namespace Stateful

variable {σ α β : Type}

/-- Continue with the result on the state left behind; every other end keeps that state. -/
protected def bind (run : Stateful σ α) (next : α → Stateful σ β) : Stateful σ β := fun s =>
  match run s with
  | (.ok a, s') => next a s'
  | (.fault f, s') => (.fault f, s')
  | (.stuck, s') => (.stuck, s')
  | (.outOfDepth, s') => (.outOfDepth, s')

instance : Monad (Stateful σ) where
  pure a := fun s => (.ok a, s)
  bind := Stateful.bind

/-- Run an outcome that does not touch the state. -/
def lift (outcome : Outcome α) : Stateful σ α := fun s => (outcome, s)

theorem pure_run (a : α) (s : σ) : (pure a : Stateful σ α) s = (.ok a, s) := rfl

theorem lift_run (outcome : Outcome α) (s : σ) : (lift outcome : Stateful σ α) s = (outcome, s) :=
  rfl

theorem bind_run (run : Stateful σ α) (next : α → Stateful σ β) (s : σ) :
    (run >>= next) s =
      match run s with
      | (.ok a, s') => next a s'
      | (.fault f, s') => (.fault f, s')
      | (.stuck, s') => (.stuck, s')
      | (.outOfDepth, s') => (.outOfDepth, s') := rfl

instance : LawfulMonad (Stateful σ) :=
  LawfulMonad.mk' (Stateful σ)
    (fun run => by
      funext s
      change ((run >>= pure : Stateful σ _) s) = run s
      rw [bind_run]
      rcases run s with ⟨_ | _ | _ | _, _⟩ <;> rfl)
    (fun _ _ => rfl)
    (fun run _ _ => by
      funext s
      simp only [bind_run]
      rcases run s with ⟨_ | _ | _ | _, _⟩ <;> rfl)

/-- A run that ends with a result hands its state to what follows. -/
theorem bind_run_ok {run : Stateful σ α} {s s' : σ} {a : α} (h : run s = (.ok a, s'))
    (next : α → Stateful σ β) : (run >>= next) s = next a s' := by
  simp [bind_run, h]

end Stateful

end RecordMapping
