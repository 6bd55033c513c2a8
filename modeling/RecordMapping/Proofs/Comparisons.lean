import RecordMapping.Value.Order

/-!
# Comparisons of ordered values

Whole numbers of either width and texts are ordered, and the comparisons other than equality follow
this order. Equality asks for the same width as well, so for equal amounts of different widths none
of `<`, `=` and `>` holds, while `≤` and `≥` both do. For all other ordered values exactly one of
the three holds.
-/

namespace RecordMapping

namespace Value

/-- The value is a whole number, of either width. -/
inductive Amount : Value → Int → Prop
  | i32 (n : Int32) : Amount (.i32 n) n.toInt
  | i64 (n : Int64) : Amount (.i64 n) n.toInt

/-- The values are ordered: both are whole numbers, or both are texts. -/
inductive Comparable : Value → Value → Prop
  | numbers {a b : Value} {m n : Int} (left : a.Amount m) (right : b.Amount n) : Comparable a b
  | texts (s t : String) : Comparable (.string s) (.string t)

variable {a b c : Value} {o : Ordering}

theorem Amount.order {m n : Int} (left : a.Amount m) (right : b.Amount n) :
    a.order b = .ok (compare m n) := by
  cases left <;> cases right <;> rfl

theorem Amount.unique {m n : Int} (h : a.Amount m) (h' : a.Amount n) : m = n := by
  cases h <;> cases h' <;> rfl

theorem order_string (s t : String) : (string s).order (.string t) = .ok (compare s t) := rfl

theorem Comparable.exists_order (h : a.Comparable b) : ∃ o, a.order b = .ok o := by
  cases h with
  | numbers left right => exact ⟨_, left.order right⟩
  | texts s t => exact ⟨_, order_string s t⟩

/-- Exchanging the values turns their order around. -/
theorem Comparable.order_swap (h : a.Comparable b) (ho : a.order b = .ok o) :
    b.order a = .ok o.swap := by
  cases h with
  | numbers left right =>
      rw [left.order right] at ho
      cases ho
      rw [right.order left, Std.OrientedOrd.eq_swap]
  | texts s t =>
      cases ho
      rw [order_string, Std.OrientedOrd.eq_swap]

theorem Comparable.order_lt_trans (ab : a.Comparable b) (bc : b.Comparable c)
    (hab : a.order b = .ok .lt) (hbc : b.order c = .ok .lt) : a.order c = .ok .lt := by
  cases ab with
  | numbers left middle =>
      cases bc with
      | numbers middle' right =>
          cases middle.unique middle'
          rw [left.order middle, Outcome.ok.injEq] at hab
          rw [middle.order right, Outcome.ok.injEq] at hbc
          rw [left.order right, Std.TransCmp.lt_trans hab hbc]
      | texts s t => cases middle
  | texts s t =>
      cases bc with
      | numbers middle _ => cases middle
      | texts _ u =>
          rw [order_string, Outcome.ok.injEq] at hab hbc
          rw [order_string, Std.TransCmp.lt_trans hab hbc]

theorem Comparable.same_iff (h : a.Comparable b) (ho : a.order b = .ok o) :
    a.same b = true ↔ o = .eq ∧ a.kind = b.kind := by
  cases h with
  | numbers left right =>
      rw [left.order right] at ho
      cases ho
      rw [Std.LawfulEqOrd.compare_eq_iff_eq]
      cases left <;> cases right <;> simp [same, kind, Int32.toInt_inj, Int64.toInt_inj]
  | texts s t =>
      cases ho
      simp [same, kind]

end Value

namespace Comparison

variable {a b c : Value} {o : Ordering}

/-- The comparison of the two values evaluates to true. -/
def Holds (op : Comparison) (a b : Value) : Prop := op.apply a b = .ok (.bool true)

theorem holds_eq_iff : Holds .eq a b ↔ a.same b = true := by
  simp [Holds, apply, holds]

theorem holds_ne_iff : Holds .ne a b ↔ ¬ Holds .eq a b := by
  simp [Holds, apply, holds]

theorem holds_lt_iff (h : a.order b = .ok o) : Holds .lt a b ↔ o = .lt := by
  simp [Holds, apply, holds, h]

theorem holds_gt_iff (h : a.order b = .ok o) : Holds .gt a b ↔ o = .gt := by
  simp [Holds, apply, holds, h]

theorem holds_le_iff (h : a.order b = .ok o) : Holds .le a b ↔ o ≠ .gt := by
  simp [Holds, apply, holds, h]

theorem holds_ge_iff (h : a.order b = .ok o) : Holds .ge a b ↔ o ≠ .lt := by
  simp [Holds, apply, holds, h]

theorem exists_truth (h : a.order b = .ok o) (op : Comparison) :
    ∃ truth, apply op a b = .ok (.bool truth) := by
  cases op <;> simp [apply, holds, h]

/-- Exactly one of `<`, `=` and `>` holds of the values, and `≤` and `≥` hold accordingly. -/
structure Trichotomy (a b : Value) : Prop where
  one : Holds .lt a b ∧ ¬ Holds .eq a b ∧ ¬ Holds .gt a b ∨
    ¬ Holds .lt a b ∧ Holds .eq a b ∧ ¬ Holds .gt a b ∨
      ¬ Holds .lt a b ∧ ¬ Holds .eq a b ∧ Holds .gt a b
  le : Holds .le a b ↔ Holds .lt a b ∨ Holds .eq a b
  ge : Holds .ge a b ↔ Holds .gt a b ∨ Holds .eq a b

theorem trichotomy_iff_order (h : a.Comparable b) (ho : a.order b = .ok o) :
    Trichotomy a b ↔ (o = .eq → a.kind = b.kind) := by
  have eq : Holds .eq a b ↔ o = .eq ∧ a.kind = b.kind := holds_eq_iff.trans (h.same_iff ho)
  constructor
  · rintro ⟨one, -, -⟩ rfl
    simpa [holds_lt_iff ho, holds_gt_iff ho, eq] using one
  · intro same
    constructor <;> rw [eq]
    · rw [holds_lt_iff ho, holds_gt_iff ho]
      cases o <;> simp_all
    · rw [holds_le_iff ho, holds_lt_iff ho]
      cases o <;> simp_all
    · rw [holds_ge_iff ho, holds_gt_iff ho]
      cases o <;> simp_all

/-- Of two ordered values whose order is `o`, only the same amount in different widths breaks the
trichotomy. -/
theorem same_kind_iff (h : a.Comparable b) (ho : a.order b = .ok o) :
    (o = .eq → a.kind = b.kind) ↔ ∀ n, a.Amount n → b.Amount n → a.kind = b.kind := by
  cases h with
  | numbers left right =>
      rw [left.order right] at ho
      cases ho
      rw [Std.LawfulEqOrd.compare_eq_iff_eq]
      constructor
      · exact fun same n hl hr => same ((left.unique hl).trans (hr.unique right))
      · rintro same rfl
        exact same _ left right
  | texts s t => simp [Value.kind]

/-- Comparing ordered values always gives a truth value. Exactly one of `<`, `=` and `>` holds, and
`≤` and `≥` accordingly, unless the values are the same amount in different widths. Throughout, `≠`
is the negation of `=`, `<` is `>` with the values exchanged, and `<` is transitive. -/
theorem comparisons_consistent {a b c : Value} (ab : a.Comparable b) (bc : b.Comparable c) :
    (∀ op, ∃ truth, apply op a b = .ok (.bool truth)) ∧
    (Trichotomy a b ↔ ∀ n, a.Amount n → b.Amount n → a.kind = b.kind) ∧
    (Holds .ne a b ↔ ¬ Holds .eq a b) ∧ (Holds .lt a b ↔ Holds .gt b a) ∧
    (Holds .lt a b → Holds .lt b c → Holds .lt a c) := by
  obtain ⟨o, ho⟩ := ab.exists_order
  obtain ⟨o', ho'⟩ := bc.exists_order
  refine ⟨exists_truth ho, (trichotomy_iff_order ab ho).trans (same_kind_iff ab ho), holds_ne_iff,
    ?swap, ?trans⟩
  case swap =>
      rw [holds_lt_iff ho, holds_gt_iff (ab.order_swap ho)]
      cases o <;> simp
  case trans =>
      intro hab hbc
      obtain rfl := (holds_lt_iff ho).mp hab
      obtain rfl := (holds_lt_iff ho').mp hbc
      exact (holds_lt_iff (ab.order_lt_trans bc ho ho')).mpr rfl

theorem narrow_lt_wide : (Value.i32 3).Comparable (.i64 5) ∧ (Value.i64 5).Comparable (.i32 8) ∧
    Trichotomy (.i32 3) (.i64 5) ∧ Holds .lt (.i32 3) (.i32 8) := by
  have ab : (Value.i32 3).Comparable (.i64 5) := .numbers (.i32 3) (.i64 5)
  have bc : (Value.i64 5).Comparable (.i32 8) := .numbers (.i64 5) (.i32 8)
  obtain ⟨-, one, -, -, trans⟩ := comparisons_consistent ab bc
  refine ⟨ab, bc, one.mpr fun n hl hr => ?_, trans rfl rfl⟩
  exact absurd (((Value.Amount.i32 3).unique hl).trans (hr.unique (.i64 5))) (by decide)

/-- None of `<`, `=` and `>` holds of the same amount in different widths, and `≤`, `≥` and `≠`
do. -/
theorem same_amount_incomparable : (Value.i32 5).Comparable (.i64 5) ∧
    ¬ Holds .lt (.i32 5) (.i64 5) ∧ ¬ Holds .eq (.i32 5) (.i64 5) ∧ ¬ Holds .gt (.i32 5) (.i64 5) ∧
      Holds .le (.i32 5) (.i64 5) ∧ Holds .ge (.i32 5) (.i64 5) ∧ Holds .ne (.i32 5) (.i64 5) := by
  have order : (Value.i32 5).order (.i64 5) = .ok .eq := rfl
  refine ⟨.numbers (.i32 5) (.i64 5), ?_, ?_, ?_, ?_, ?_, rfl⟩
  · simp [holds_lt_iff order]
  · simp [holds_eq_iff, Value.same]
  · simp [holds_gt_iff order]
  · simp [holds_le_iff order]
  · simp [holds_ge_iff order]

end Comparison

end RecordMapping
