import RecordMapping.Proofs.Agreement

/-!
# Code leaves its frame

Code hands its frame back as it found it, however it ends. So what a piece of code gives is a
function of the frame alone, with one rule for each kind of code, and runs of the same code agree
when their calls do.
-/

namespace RecordMapping

/-- A run that hands its state back as it found it, however it ends. -/
def Stateful.Restores {σ α : Type} (run : Stateful σ α) : Prop := ∀ s, (run s).2 = s

namespace Stateful

variable {σ α β : Type}

theorem Restores.pure (a : α) : Restores (pure a : Stateful σ α) := fun _ => rfl

theorem Restores.lift (outcome : Outcome α) : Restores (lift outcome : Stateful σ α) :=
  fun _ => rfl

theorem Restores.bind {run : Stateful σ α} {next : α → Stateful σ β} (h : Restores run)
    (hn : ∀ a, Restores (next a)) : Restores (run >>= next) := by
  intro s
  have hs := h s
  rw [bind_run]
  rcases hr : run s with ⟨_ | _ | _ | _, s₁⟩ <;> simp only [hr] at hs ⊢
  · exact (hn _ _).trans hs
  all_goals exact hs

theorem Restores.mapM {f : α → Stateful σ β} {items : List α} (h : ∀ a, Restores (f a)) :
    Restores (items.mapM f) := by
  induction items with
  | nil => simpa using Restores.pure _
  | cons a as ih =>
      simp only [List.mapM_cons]
      exact (h a).bind fun _ => ih.bind fun _ => .pure _

/-- On a run that restores its state, what follows starts from the same state. -/
theorem bind_fst {run : Stateful σ α} (h : Restores run) (next : α → Stateful σ β) (s : σ) :
    ((run >>= next) s).1 = (run s).1 >>= fun a => (next a s).1 := by
  have hs := h s
  rw [bind_run]
  rcases hr : run s with ⟨_ | _ | _ | _, s₁⟩ <;> simp only [hr] at hs ⊢
  · subst hs; rfl
  all_goals rfl

theorem ite_fst (p : Prop) [Decidable p] (run run' : Stateful σ α) (s : σ) :
    ((if p then run else run') s).1 = if p then (run s).1 else (run' s).1 := by
  split <;> rfl

theorem mapM_fst {f : α → Stateful σ β} (h : ∀ a, Restores (f a)) (items : List α) (s : σ) :
    ((items.mapM f) s).1 = items.mapM fun a => (f a s).1 := by
  induction items with
  | nil => rfl
  | cons a as ih =>
      simp only [List.mapM_cons, bind_fst (h a), bind_fst (Restores.mapM h), ih]
      rfl

end Stateful

theorem Frame.restores_withTop {α : Type} (v : Value) {run : Stateful Frame α}
    (h : run.Restores) : (Frame.withTop v run).Restores :=
  fun frame => Frame.withTop_frame v run frame (h _)

namespace Code

/-- The pieces of code right below a piece of code, from left to right. -/
@[simp] def operands : Code → List Code
  | .slot _ | .frame | .const _ | .fail _ => []
  | .compare _ left right => [left, right]
  | .call callee args => callee :: args
  | .cond test yes no => [test, yes, no]
  | .field base _ | .isNull _ base | .apply base _ => [base]
  | .list items | .record items => items
  | .map base body => [base, body]
  | .select parent selector => [parent, selector]

theorem sizeOf_operand_lt {code o : Code} (h : o ∈ code.operands) : sizeOf o < sizeOf code := by
  cases code with
  | call callee args =>
      rcases List.mem_cons.mp h with rfl | ha
      · simp; omega
      · have := List.sizeOf_lt_of_mem ha
        simp; omega
  | list items | record items =>
      have := List.sizeOf_lt_of_mem (show o ∈ items from h)
      simp; omega
  | slot | frame | const | fail => simp at h
  | _ =>
      simp only [operands, List.mem_cons, List.not_mem_nil, or_false] at h
      rcases h with rfl | rfl | rfl <;> simp <;> omega

/-- What follows for a piece of code from all of its operands holds of all code. -/
theorem operand_induction {P : Code → Prop}
    (step : ∀ code : Code, (∀ o ∈ code.operands, P o) → P code) (code : Code) : P code :=
  step code fun o _ => operand_induction step o
termination_by sizeOf code
decreasing_by exact sizeOf_operand_lt ‹_›

theorem runAllWith_restores {call : Caller} {codes : List Code}
    (h : ∀ code ∈ codes, (code.runWith call).Restores) : (runAllWith call codes).Restores := by
  induction codes with
  | nil => exact .pure _
  | cons code codes ih =>
      exact (h code (by simp)).bind fun _ =>
        (ih fun c hc => h c (by simp [hc])).bind fun _ => .pure _

/-- Code hands its frame back as it found it, also after a fault. -/
theorem runWith_restores (call : Caller) (code : Code) : (code.runWith call).Restores := by
  induction code using operand_induction with
  | step code h =>
    cases code with
    | slot index =>
        intro frame
        change (Frame.read index frame).2 = frame
        unfold Frame.read
        split <;> rfl
    | frame => exact .bind (fun _ => rfl) fun _ => .pure _
    | const v => exact .pure v
    | compare op left right =>
        apply (h left (by simp)).bind
        intro _
        exact (h right (by simp)).bind fun _ => .lift _
    | call callee args =>
        apply (h callee (by simp)).bind
        intro _
        exact (runAllWith_restores fun a ha => h a (by simp [ha])).bind fun _ => .lift _
    | cond test yes no =>
        apply (h test (by simp)).bind
        intro _
        apply (Stateful.Restores.lift _).bind
        intro b
        cases b with
        | true => exact h yes (by simp)
        | false => exact h no (by simp)
    | field base id => exact (h base (by simp)).bind fun _ => .lift _
    | isNull negate operand => exact (h operand (by simp)).bind fun _ => .pure _
    | list items | record items =>
        exact (runAllWith_restores fun a ha => h a (by simp [ha])).bind fun _ => .pure _
    | map base body =>
        apply (h base (by simp)).bind
        intro _
        apply (Stateful.Restores.lift _).bind
        intro _
        refine Stateful.Restores.bind (.mapM fun item => ?_) fun _ => .pure _
        exact Frame.restores_withTop item (h body (by simp))
    | select parent selector =>
        apply (h parent (by simp)).bind
        intro v
        split
        · exact .pure _
        · exact Frame.restores_withTop v (h selector (by simp))
    | apply entity target =>
        apply (h entity (by simp)).bind
        intro _
        split
        · exact .pure _
        · exact .lift _
    | fail text => exact .lift _

/-- What code gives on a frame. -/
def valueWith (call : Caller) (code : Code) (frame : Frame) : Outcome Value :=
  (code.runWith call frame).1

/-- What pieces of code give on a frame, from left to right. -/
def valuesWith (call : Caller) (codes : List Code) (frame : Frame) : Outcome (List Value) :=
  (runAllWith call codes frame).1

section Rules

variable (call : Caller) (frame : Frame)

/-- What follows a piece of code starts from the frame that the code found. -/
theorem bind_valueWith {α : Type} (code : Code) (next : Value → Stateful Frame α) :
    ((code.runWith call >>= next) frame).1 = code.valueWith call frame >>= fun v =>
      (next v frame).1 :=
  Stateful.bind_fst (runWith_restores call code) next frame

theorem bind_valuesWith {α : Type} (codes : List Code) (next : List Value → Stateful Frame α) :
    ((runAllWith call codes >>= next) frame).1 = valuesWith call codes frame >>= fun vs =>
      (next vs frame).1 :=
  Stateful.bind_fst (runAllWith_restores fun code _ => runWith_restores call code) next frame

theorem valuesWith_cons (code : Code) (codes : List Code) :
    valuesWith call (code :: codes) frame = (do
      let v ← code.valueWith call frame
      let vs ← valuesWith call codes frame
      return v :: vs) := by
  apply (bind_valueWith call frame code _).trans
  apply bind_congr
  exact fun v => bind_valuesWith call frame codes _

theorem valueWith_slot (index : Nat) :
    (slot index).valueWith call frame =
      match frame[index]? with
      | some v => .ok v
      | none => .stuck := by
  change (Frame.read index frame).1 = _
  cases h : frame[index]? <;> simp [Frame.read, h]

theorem valueWith_compare (op : Comparison) (left right : Code) :
    (compare op left right).valueWith call frame = (do
      let v ← left.valueWith call frame
      let w ← right.valueWith call frame
      op.apply v w) := by
  apply (bind_valueWith call frame left _).trans
  apply bind_congr
  exact fun v => bind_valueWith call frame right _

theorem valueWith_call (callee : Code) (args : List Code) :
    (Code.call callee args).valueWith call frame = (do
      let f ← callee.valueWith call frame
      let vs ← valuesWith call args frame
      f.applyWith call vs) := by
  apply (bind_valueWith call frame callee _).trans
  apply bind_congr
  exact fun f => bind_valuesWith call frame args _

theorem valueWith_cond (test yes no : Code) :
    (cond test yes no).valueWith call frame = (do
      let v ← test.valueWith call frame
      let b ← v.asBool
      if b then yes.valueWith call frame else no.valueWith call frame) := by
  apply (bind_valueWith call frame test _).trans
  apply bind_congr
  intro v
  apply (Stateful.bind_fst (.lift v.asBool) _ frame).trans
  apply bind_congr
  exact fun b => Stateful.ite_fst _ _ _ frame

theorem valueWith_field (base : Code) (id : FieldId) :
    (field base id).valueWith call frame = (do
      let v ← base.valueWith call frame
      v.readField id) :=
  bind_valueWith call frame base _

theorem valueWith_isNull (negate : Bool) (operand : Code) :
    (isNull negate operand).valueWith call frame = (do
      let v ← operand.valueWith call frame
      return .bool (v.isNull != negate)) :=
  bind_valueWith call frame operand _

theorem valueWith_list (items : List Code) :
    (list items).valueWith call frame = (do
      let vs ← valuesWith call items frame
      return .list vs) :=
  bind_valuesWith call frame items _

theorem valueWith_record (fields : List Code) :
    (record fields).valueWith call frame = (do
      let vs ← valuesWith call fields frame
      return .record vs) :=
  bind_valuesWith call frame fields _

theorem valueWith_map (base body : Code) :
    (map base body).valueWith call frame = (do
      let v ← base.valueWith call frame
      let items ← v.asList
      let vs ← items.mapM fun item => body.valueWith call (frame.push item)
      return .list vs) := by
  have hb : ∀ item, (Frame.withTop item (body.runWith call)).Restores := fun item =>
    Frame.restores_withTop item (runWith_restores call body)
  apply (bind_valueWith call frame base _).trans
  apply bind_congr
  intro v
  apply (Stateful.bind_fst (.lift v.asList) _ frame).trans
  apply bind_congr
  intro items
  apply (Stateful.bind_fst (.mapM hb) _ frame).trans
  rw [Stateful.mapM_fst hb]
  rfl

theorem valueWith_select (parent selector : Code) :
    (select parent selector).valueWith call frame = (do
      let v ← parent.valueWith call frame
      if v.isNull then return .null else selector.valueWith call (frame.push v)) := by
  apply (bind_valueWith call frame parent _).trans
  apply bind_congr
  exact fun v => Stateful.ite_fst _ _ _ frame

theorem valueWith_apply (entity : Code) (target : Compiled) :
    (apply entity target).valueWith call frame = (do
      let v ← entity.valueWith call frame
      if v.isNull then return .null else call (.compiled target) [v]) := by
  apply (bind_valueWith call frame entity _).trans
  apply bind_congr
  exact fun v => Stateful.ite_fst _ _ _ frame

end Rules

variable (R : Agreement) {call call' : Caller} {frame : Frame}

theorem valuesWith_rel {codes : List Code}
    (h : ∀ c ∈ codes, R.rel (c.valueWith call frame) (c.valueWith call' frame)) :
    R.rel (valuesWith call codes frame) (valuesWith call' codes frame) := by
  induction codes with
  | nil => exact R.refl _
  | cons c codes ih =>
      rw [valuesWith_cons, valuesWith_cons]
      apply R.bind (h c (by simp))
      intro v
      exact R.bind (ih fun a ha => h a (by simp [ha])) fun vs => R.refl _

/-- Runs of the same code on the same frame agree when the calls do. -/
theorem valueWith_rel (hcall : ∀ callee args, R.rel (call callee args) (call' callee args))
    (code : Code) (frame : Frame) :
    R.rel (code.valueWith call frame) (code.valueWith call' frame) := by
  induction code using operand_induction generalizing frame with
  | step code h =>
    cases code with
    | slot | frame | const | fail => exact R.refl _
    | compare op left right =>
        rw [valueWith_compare, valueWith_compare]
        apply R.bind (h left (by simp) frame)
        intro v
        exact R.bind (h right (by simp) frame) fun w => R.refl _
    | call callee args =>
        rw [valueWith_call, valueWith_call]
        apply R.bind (h callee (by simp) frame)
        intro f
        apply R.bind
        · apply valuesWith_rel R
          intro a ha
          exact h a (by simp [ha]) frame
        · exact fun vs => R.applyWith hcall f vs
    | cond test yes no =>
        rw [valueWith_cond, valueWith_cond]
        apply R.bind (h test (by simp) frame)
        intro v
        apply R.bind (R.refl _)
        intro b
        cases b with
        | true => exact h yes (by simp) frame
        | false => exact h no (by simp) frame
    | field base id =>
        rw [valueWith_field, valueWith_field]
        exact R.bind (h base (by simp) frame) fun v => R.refl _
    | isNull negate operand =>
        rw [valueWith_isNull, valueWith_isNull]
        exact R.bind (h operand (by simp) frame) fun v => R.refl _
    | list items =>
        rw [valueWith_list, valueWith_list]
        apply R.bind
        · apply valuesWith_rel R
          intro a ha
          exact h a (by simp [ha]) frame
        · exact fun vs => R.refl _
    | map base body =>
        rw [valueWith_map, valueWith_map]
        apply R.bind (h base (by simp) frame)
        intro v
        apply R.bind (R.refl _)
        intro items
        exact R.bind (R.mapM fun item _ => h body (by simp) _) fun vs => R.refl _
    | record fields =>
        rw [valueWith_record, valueWith_record]
        apply R.bind
        · apply valuesWith_rel R
          intro a ha
          exact h a (by simp [ha]) frame
        · exact fun vs => R.refl _
    | select parent selector =>
        rw [valueWith_select, valueWith_select]
        apply R.bind (h parent (by simp) frame)
        intro v
        split
        · exact R.refl _
        · exact h selector (by simp) _
    | apply entity target =>
        rw [valueWith_apply, valueWith_apply]
        apply R.bind (h entity (by simp) frame)
        intro v
        split
        · exact R.refl _
        · exact hcall _ _

end Code

end RecordMapping
