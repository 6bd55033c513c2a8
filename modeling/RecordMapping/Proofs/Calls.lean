import RecordMapping.Composer.Flatten
import RecordMapping.Proofs.Operands

/-!
# What a call leaves behind

However a call of a composer ends, it has only given out identities and labels and fetched the keys
of relations. A relation between workspaces that each of these steps keeps up is kept up by every
call, so what calls do to a workspace is read off its single steps.
-/

namespace RecordMapping

/-- However the run ends, the state before and the state after are related. -/
def Stateful.Leaves {σ α : Type} (R : σ → σ → Prop) (run : Stateful σ α) : Prop :=
  ∀ s, R s (run s).2

namespace Composer

variable {c : Composer} {R : Workspace → Workspace → Prop}

/-- The relation holds across each step that the composer takes on a workspace. -/
structure Allows (c : Composer) (R : Workspace → Workspace → Prop) : Prop where
  refl : ∀ w, R w w
  trans : ∀ {w w' w''}, R w w' → R w' w'' → R w w''
  params : ∀ w n, R w { w with nextParam := n }
  label : ∀ w, R w { w with nextLabel := w.nextLabel + 1 }
  key : c.policy = .surrogateKey → ∀ navigation,
    (Workspace.guardKey c.keys navigation).Leaves R

namespace Allows

variable (h : c.Allows R) {α β : Type}
include h

theorem pure (a : α) : (pure a : Stateful Workspace α).Leaves R := h.refl

theorem lift (outcome : Outcome α) : (Stateful.lift outcome : Stateful Workspace α).Leaves R :=
  h.refl

theorem bind {run : Stateful Workspace α} {next : α → Stateful Workspace β}
    (hr : run.Leaves R) (hn : ∀ a, (next a).Leaves R) : (run >>= next).Leaves R := by
  intro w
  have first := hr w
  rw [Stateful.bind_run]
  rcases hw : run w with ⟨a | _ | _ | _, w'⟩ <;> rw [hw] at first
  · exact h.trans first (hn a w')
  all_goals exact first

theorem withParams (run : Nat → Outcome (α × Nat)) : (Workspace.withParams run).Leaves R := by
  intro w
  unfold Workspace.withParams
  split
  · exact h.params w _
  all_goals exact h.refl w

theorem guardSubject (entity : Expr) : (c.guardSubject entity).Leaves R := by
  unfold Composer.guardSubject
  split
  · next hp _ => exact h.bind (h.key hp _) fun _ => h.pure _
  · exact h.pure _

theorem inlineOnce (depth : Nat) (m : Marker) : (c.inlineOnce depth m).Leaves R := by
  refine h.bind (h.withParams _) fun entity => h.bind (h.lift _) fun target => ?_
  refine h.bind (h.lift _) fun _ => h.bind (h.guardSubject entity) fun subject => ?_
  refine h.bind (h.withParams _) fun body => ?_
  dsimp only
  split
  · exact h.pure _
  · exact h.lift _

theorem flattenAllWith {inline : Marker → Stateful Workspace Expr} {es : List Expr}
    (each : ∀ e ∈ es, (e.flattenWith inline).Leaves R) :
    (Expr.flattenAllWith inline es).Leaves R := by
  induction es with
  | nil => exact h.pure _
  | cons e es ih =>
      refine h.bind (each e (by simp)) fun _ => ?_
      exact h.bind (ih fun a ha => each a (by simp [ha])) fun _ => h.pure _

theorem flattenWith {inline : Marker → Stateful Workspace Expr} (hi : ∀ m, (inline m).Leaves R)
    (e : Expr) : (e.flattenWith inline).Leaves R := by
  induction e with
  | arg | const => exact h.pure _
  | compare op left right ihl ihr => exact h.bind ihl fun _ => h.bind ihr fun _ => h.pure _
  | call callee args ihf iha =>
      exact h.bind ihf fun _ => h.bind (h.flattenAllWith iha) fun _ => h.pure _
  | cond test yes no iht ihy ihn =>
      exact h.bind iht fun _ => h.bind ihy fun _ => h.bind ihn fun _ => h.pure _
  | field base id ih => exact h.bind ih fun _ => h.pure _
  | includeEntity | includeVia => exact hi _
  | isNull negate operand ih => exact h.bind ih fun _ => h.pure _
  | list items ih | record model items ih => exact h.bind (h.flattenAllWith ih) fun _ => h.pure _
  | map base params body ihl ihb => exact h.bind ihl fun _ => h.bind ihb fun _ => h.pure _

theorem flatten (depth : Nat) (e : Expr) : (c.flatten depth e).Leaves R := by
  induction depth generalizing e with
  | zero => exact h.lift _
  | succ depth ih =>
      exact h.flattenWith (fun m => h.bind (h.inlineOnce depth m) fun e => ih e) e

/-- Composing a function keeps the relation up, however it ends. -/
theorem composeFunc (depth : Nat) (f : Func) : (c.composeFunc depth f).Leaves R :=
  h.bind (h.flatten depth f.body) fun _ => h.pure _

/-- Composing a mapping keeps the relation up, however it ends. -/
theorem compose (depth : Nat) (f : Func) : (c.compose depth f).Leaves R := by
  refine h.bind (h.composeFunc depth f) fun _ => h.bind (h.lift _) fun _ => ?_
  exact h.bind h.label fun _ => h.pure _

end Allows

end Composer

end RecordMapping
