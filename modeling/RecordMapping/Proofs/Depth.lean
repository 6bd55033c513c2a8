import RecordMapping.Proofs.Frames

/-!
# More depth never changes an end

A call that ends within some depth ends in the same way within every greater depth. So the end of a
run does not depend on the depth it was given, and a run either has exactly one end or none.
-/

namespace RecordMapping

/-- What each item of a list has from some number on, all of them have from some number on. -/
theorem exists_forall_mem_of_mono {α : Type} {P : Nat → α → Prop}
    (mono : ∀ {a k n}, k ≤ n → P k a → P n a) {items : List α}
    (each : ∀ a ∈ items, ∃ n, P n a) : ∃ n, ∀ a ∈ items, P n a := by
  induction items with
  | nil => exact ⟨0, by simp⟩
  | cons a as ih =>
      obtain ⟨k, hk⟩ := each a (by simp)
      obtain ⟨n, hn⟩ := ih fun a ha => each a (by simp [ha])
      refine ⟨max k n, fun b hb => ?_⟩
      rcases List.mem_cons.mp hb with rfl | hb
      · exact mono (Nat.le_max_left k n) hk
      · exact mono (Nat.le_max_right k n) (hn b hb)

namespace Agreement

theorem deeper_trans {α : Type} {x y z : Outcome α} (hxy : deeper.rel x y)
    (hyz : deeper.rel y z) : deeper.rel x z := by
  rcases hxy with rfl | rfl
  · exact .inl rfl
  · exact hyz

/-- A run that ends keeps its end when it is given more depth. -/
theorem eq_of_deeper {α : Type} {x y : Outcome α} (h : deeper.rel x y) (hx : x ≠ .outOfDepth) :
    y = x :=
  (h.resolve_left hx).symm

theorem callWith (R : Agreement) {call call' : Caller}
    (hcall : ∀ callee args, R.rel (call callee args) (call' callee args)) (callee : Callable)
    (args : List Value) : R.rel (callee.callWith call args) (callee.callWith call' args) := by
  cases callee with
  | interpreted f =>
      exact R.bind (R.refl _) fun _ => Expr.evalWith_rel R hcall f.body fun p _ => R.refl _
  | compiled c => exact R.bind (R.refl _) fun _ => Code.valueWith_rel R hcall c.body _

end Agreement

/-- A call keeps its end within a greater depth. -/
theorem Callable.call_deeper {d d' : Nat} (hd : d ≤ d') (callee : Callable) (args : List Value) :
    Agreement.deeper.rel (Callable.call d callee args) (Callable.call d' callee args) := by
  induction d generalizing d' callee args with
  | zero => exact .inl rfl
  | succ d ih =>
      obtain ⟨k, rfl⟩ : ∃ k, d' = k + 1 := ⟨d' - 1, by omega⟩
      rw [call_succ, call_succ]
      exact Agreement.deeper.callWith (fun callee args => ih (by omega) callee args) callee args

/-- An expression keeps its end within a greater depth. -/
theorem Expr.eval_deeper {d d' : Nat} (hd : d ≤ d') (e : Expr) (scope : Scope) :
    Agreement.deeper.rel (e.eval d scope) (e.eval d' scope) :=
  evalWith_rel _ (Callable.call_deeper hd) e fun _ _ => Agreement.deeper.refl _

/-- A run that keeps its end within a greater depth. -/
def Steady {α : Type} (run : Nat → Outcome α) : Prop :=
  ∀ ⦃d d'⦄, d ≤ d' → Agreement.deeper.rel (run d) (run d')

/-- The run has ended with a result or with a fault. -/
def Outcome.Ended {α : Type} (x : Outcome α) : Prop := (∃ a, x = .ok a) ∨ ∃ f, x = .fault f

namespace Outcome.Ended

variable {α β : Type} {x y : Outcome α}

theorem bind {next : α → Outcome β} (h : x.Ended) (hn : ∀ a, x = .ok a → (next a).Ended) :
    (x >>= next).Ended := by
  rcases h with ⟨a, rfl⟩ | ⟨f, rfl⟩
  · exact hn a rfl
  · exact .inr ⟨f, rfl⟩

theorem context (h : x.Ended) (kind : FaultKind) : (x.context kind).Ended := by
  rcases h with ⟨a, rfl⟩ | ⟨f, rfl⟩
  · exact .inl ⟨a, rfl⟩
  · exact .inr ⟨_, rfl⟩

theorem alike (h : x.Ended) (hxy : Agreement.alike.rel x y) : y.Ended := by
  rcases hxy with rfl | ⟨f, g, rfl, rfl⟩
  · exact h
  · exact .inr ⟨g, rfl⟩

/-- A run that has ended stays so within a greater depth. -/
theorem deeper (h : x.Ended) (hxy : Agreement.deeper.rel x y) : y.Ended := by
  rcases hxy with rfl | rfl
  · rcases h with ⟨_, h⟩ | ⟨_, h⟩ <;> cases h
  · exact h

end Outcome.Ended

theorem ended_checkArity (expected found : Nat) : (checkArity expected found).Ended := by
  unfold checkArity
  split
  · exact .inl ⟨_, rfl⟩
  · exact .inr ⟨_, rfl⟩

/-- A run that is given a depth has the given end. -/
def Ends {α : Type} (run : Nat → Outcome α) (r : Outcome α) : Prop :=
  r ≠ .outOfDepth ∧ ∃ depth, run depth = r

/-- A run that keeps its end within a greater depth has at most one. -/
theorem Ends.unique {α : Type} {run : Nat → Outcome α} (steady : Steady run) {r r' : Outcome α}
    (h : Ends run r) (h' : Ends run r') : r = r' := by
  obtain ⟨hr, d, rfl⟩ := h
  obtain ⟨hr', d', rfl⟩ := h'
  rcases Nat.le_total d d' with hd | hd
  · exact (Agreement.eq_of_deeper (steady hd) hr).symm
  · exact Agreement.eq_of_deeper (steady hd) hr'

/-- Two runs have the same ends if each ends as the other one does, given more depth. -/
theorem ends_iff_of_deeper {α : Type} {run run' : Nat → Outcome α} {k : Nat}
    (h : ∀ d, Agreement.deeper.rel (run d) (run' d))
    (h' : ∀ d, Agreement.deeper.rel (run' d) (run (d + k))) (r : Outcome α) :
    Ends run r ↔ Ends run' r := by
  constructor
  · rintro ⟨hr, d, rfl⟩
    exact ⟨hr, d, Agreement.eq_of_deeper (h d) hr⟩
  · rintro ⟨hr, d, rfl⟩
    exact ⟨hr, d + k, Agreement.eq_of_deeper (h' d) hr⟩

/-- Runs that keep their ends have the same ones if they are the same from some depth on. -/
theorem ends_iff_of_eventually {α : Type} {run run' : Nat → Outcome α} (steady : Steady run)
    (steady' : Steady run') {depth : Nat} (h : ∀ d, depth ≤ d → run d = run' d) (r : Outcome α) :
    Ends run r ↔ Ends run' r := by
  have later {run₁ run₂ : Nat → Outcome α} (steady : Steady run₁)
      (h : ∀ d, depth ≤ d → run₁ d = run₂ d) (hr : Ends run₁ r) : Ends run₂ r := by
    obtain ⟨hr, d, rfl⟩ := hr
    have kept := Agreement.eq_of_deeper (steady (Nat.le_max_left d depth)) hr
    exact ⟨hr, max d depth, (h _ (Nat.le_max_right d depth)).symm.trans kept⟩
  exact ⟨later steady h, later steady' fun d hd => (h d hd).symm⟩

end RecordMapping
