import RecordMapping.Compiled.OfFunc
import RecordMapping.Proofs.Identities

/-!
# Binders that binding renames

An instance of an expression has a binder wherever the expression has one, under a new identity. No
two of them get the same one, and each binds exactly the references that it did before. All other
binders of the instance stand in what was put in the place of a parameter.

## Implementation notes

A binder is found by the place of the operand that it is bound in, and its position there. Of the
binders of one operand with the same identity, the last one is what a reference means when binders
are renamed.

That two new identities differ comes from the order in which they are given out: an operand uses up
identities for its own binders first, and then for each operand below it in turn.
-/

namespace RecordMapping

/-- A renamed binder keeps its position, its name and its type, and gets the next identity. -/
theorem getElem?_freshen (params : List Param) (replacement : Replacement) (n i : Nat) :
    (freshen params replacement n).params[i]? =
      params[i]?.map fun p => { p with id := n + i } := by
  induction params generalizing replacement n i with
  | nil => rfl
  | cons p ps ih =>
      cases i with
      | zero => rfl
      | succ i =>
          simp only [freshen, List.getElem?_cons_succ, ih]
          rw [show n + 1 + i = n + (i + 1) by omega]

/-- Below renamed binders, the last one of an identity stands for the parameters that have it. -/
theorem freshen_replacement (params : List Param) (replacement : Replacement) (n x : Nat) :
    (freshen params replacement n).replacement x =
      match lastSlot? (params.map Param.id) x with
      | some i => (freshen params replacement n).params[i]?.map .arg
      | none => replacement x := by
  induction params generalizing replacement n with
  | nil => rfl
  | cons p ps ih =>
      simp only [freshen, ih, List.map_cons, lastSlot?]
      cases lastSlot? (ps.map Param.id) x with
      | some i => rfl
      | none =>
          by_cases hx : p.id = x
          · simp [hx, Replacement.set]
          · simp [hx, Replacement.set_other _ (Ne.symm hx)]

theorem freshen_replacement_of_slot {params : List Param} {x i : Nat}
    (h : lastSlot? (params.map Param.id) x = some i) (replacement : Replacement) (n : Nat) :
    ∃ p, params[i]? = some p ∧
      (freshen params replacement n).replacement x = some (.arg { p with id := n + i }) := by
  obtain ⟨lt, -⟩ := List.getElem?_eq_some_iff.mp (getElem?_of_lastSlot? h)
  rw [List.length_map] at lt
  refine ⟨params[i], List.getElem?_eq_getElem lt, ?_⟩
  rw [freshen_replacement, h]
  simp only [getElem?_freshen, List.getElem?_eq_getElem lt, Option.map_some]

theorem freshen_replacement_of_no_slot {params : List Param} {x : Nat}
    (h : lastSlot? (params.map Param.id) x = none) (replacement : Replacement) (n : Nat) :
    (freshen params replacement n).replacement x = replacement x := by
  rw [freshen_replacement, h]

/-- The last position of a renamed binder is its only one. -/
theorem lastSlot?_freshen {params : List Param} {replacement : Replacement} {n x i : Nat} :
    lastSlot? ((freshen params replacement n).params.map Param.id) x = some i ↔
      i < params.length ∧ x = n + i := by
  rw [freshen_params_ids]
  constructor
  · intro h
    obtain ⟨hi, hx⟩ := List.getElem?_eq_some_iff.mp (getElem?_of_lastSlot? h)
    rw [List.length_range'] at hi
    rw [List.getElem_range', Nat.one_mul] at hx
    exact ⟨hi, hx.symm⟩
  · rintro ⟨hi, rfl⟩
    cases h : lastSlot? (List.range' n params.length) (n + i) with
    | none =>
        rw [lastSlot?_eq_none_iff, List.mem_range'_1] at h
        omega
    | some j =>
        have hj := (List.getElem?_eq_some_iff.mp (getElem?_of_lastSlot? h)).2
        rw [List.getElem_range', Nat.one_mul] at hj
        rw [Nat.add_left_cancel hj]

/-- What stands for parameters only refers to identities that were given out before. -/
def Replacement.Older (replacement : Replacement) (n : Nat) : Prop :=
  ∀ x r, replacement x = some r → ∀ y, r.Free y → y < n

theorem Replacement.Older.freshen {replacement : Replacement} {n : Nat} (h : replacement.Older n)
    (params : List Param) :
    (freshen params replacement n).replacement.Older (freshen params replacement n).next := by
  refine Expr.forall_freshen_replacement (fun q hq y hy => ?_) fun x r hr y hy => ?_
  · exact Expr.free_arg.mp hy ▸ (Expr.freshen_bound hq).2
  · exact Nat.lt_of_lt_of_le (h x r hr y hy) (Expr.le_freshen params replacement n)

/-- What stands for an older parameter, be it itself, refers to older identities only. -/
theorem Replacement.Older.lt {replacement : Replacement} {n : Nat} (h : replacement.Older n)
    {p : Param} (hp : p.id < n) {y : Nat} (hy : ((replacement p.id).getD (.arg p)).Free y) :
    y < n := by
  cases hr : replacement p.id with
  | some r =>
      rw [hr, Option.getD_some] at hy
      exact h p.id r hr y hy
  | none =>
      rw [hr, Option.getD_none, Expr.free_arg] at hy
      exact hy ▸ hp

theorem Replacement.Older.mono {replacement : Replacement} {n k : Nat} (h : replacement.Older n)
    (hk : n ≤ k) : replacement.Older k :=
  fun x r hr y hy => Nat.lt_of_lt_of_le (h x r hr y hy) hk

namespace Operand

/-- The operand below another one at a place, the list of the positions of the operands to take. -/
def below? : Operand → List Nat → Option Operand
  | o, [] => some o
  | o, i :: place => o.expr.operands[i]?.bind fun inner => inner.below? place

/-- The binder at a position of the operand at a place. -/
def binder? (o : Operand) (place : List Nat) (i : Nat) : Option Param :=
  (o.below? place).bind fun inner => inner.bound[i]?

/-- The binder at a position of the operand at `outer` binds the reference at a place: it is the
last one there with the identity of the reference, and no binder between them has it. -/
def Binds (o : Operand) (outer : List Nat) (i : Nat) (place : List Nat) : Prop :=
  ∃ inner x rest, o.below? outer = some inner ∧
    lastSlot? (inner.bound.map Param.id) x = some i ∧ inner.expr.FreeAt x rest ∧
    place = outer ++ rest

variable {o s s' : Operand} {replacement : Replacement} {n i : Nat} {place : List Nat} {p : Param}

theorem below?_cons_eq_some_iff : o.below? (i :: place) = some s ↔
    ∃ inner, o.expr.operands[i]? = some inner ∧ inner.below? place = some s :=
  Option.bind_eq_some_iff

theorem ne_arg_of_operand {e : Expr} (h : e.operands[i]? = some o) (p : Param) : e ≠ .arg p := by
  rintro rfl
  simp at h

theorem madeBefore_of_below? (h : o.below? place = some s) (made : o.expr.MadeBefore n) :
    s.expr.MadeBefore n := by
  induction place generalizing o with
  | nil =>
      cases h
      exact made
  | cons i place ih =>
      obtain ⟨inner, hi, h⟩ := below?_cons_eq_some_iff.mp h
      exact ih h (made.operand (List.mem_of_getElem? hi))

/-- An instance has an instance of each operand at its place. -/
theorem below?_instantiate (h : o.below? place = some s) (replacement : Replacement) (n : Nat) :
    ∃ (inside : Replacement) (k : Nat), n ≤ k ∧
      (o.instantiate replacement n).1.below? place = some (s.instantiate inside k).1 ∧
      (s.instantiate inside k).2 ≤ (o.instantiate replacement n).2 ∧
      (replacement.Older n → inside.Older k) := by
  induction place generalizing o replacement n with
  | nil =>
      cases h
      exact ⟨replacement, n, Nat.le_refl n, rfl, Nat.le_refl _, id⟩
  | cons i place ih =>
      obtain ⟨inner, hi, h⟩ := below?_cons_eq_some_iff.mp h
      let binders := freshen o.bound replacement n
      obtain ⟨counter, start, within, mono, steps⟩ :=
        Expr.exists_counters (ne_arg_of_operand hi) binders.replacement binders.next
      obtain ⟨at_i, next⟩ := steps i inner hi
      obtain ⟨inside, k, hk, below, le, older⟩ := ih h binders.replacement (counter i)
      have first : n ≤ binders.next := Expr.le_freshen o.bound replacement n
      have upTo := mono 0 i (Nat.zero_le i)
      have after := within (i + 1)
      have whole : (o.instantiate replacement n).2 =
        (o.expr.instantiate binders.replacement binders.next).2 := rfl
      refine ⟨inside, k, by omega, below?_cons_eq_some_iff.mpr ⟨_, at_i, below⟩, by omega,
        fun old => older ((old.freshen o.bound).mono ?_)⟩
      exact start ▸ upTo

/-- A renamed binder keeps its place, its position, its name and its type. -/
theorem binder?_instantiate (h : o.binder? place i = some p) (replacement : Replacement)
    (n : Nat) : ∃ x, (o.instantiate replacement n).1.binder? place i = some { p with id := x } ∧
      n ≤ x ∧ x < (o.instantiate replacement n).2 := by
  obtain ⟨inner, hb, hp⟩ := Option.bind_eq_some_iff.mp h
  obtain ⟨inside, k, hk, below, le, -⟩ := below?_instantiate hb replacement n
  have renamed : (freshen inner.bound inside k).params[i]? = some { p with id := k + i } := by
    rw [getElem?_freshen, hp]
    rfl
  have new := (Expr.freshen_bound (List.mem_of_getElem? renamed)).2
  have body := inner.expr.le_instantiate (freshen inner.bound inside k).replacement
    (freshen inner.bound inside k).next
  refine ⟨k + i, Option.bind_eq_some_iff.mpr ⟨_, below, renamed⟩, by omega, ?_⟩
  exact Nat.lt_of_lt_of_le new (Nat.le_trans body le)

theorem binder?_cons_eq_some_iff {j : Nat} : o.binder? (j :: place) i = some p ↔
    ∃ inner, o.expr.operands[j]? = some inner ∧ inner.binder? place i = some p := by
  simp [binder?, below?, Option.bind_assoc, Option.bind_eq_some_iff]

theorem id_of_binder?_nil {q : Param}
    (h : (o.instantiate replacement n).1.binder? [] i = some q) :
    q.id = n + i ∧ q.id < (freshen o.bound replacement n).next := by
  have bound : (freshen o.bound replacement n).params[i]? = some q := h
  refine ⟨?_, (Expr.freshen_bound (List.mem_of_getElem? bound)).2⟩
  rw [getElem?_freshen, Option.map_eq_some_iff] at bound
  obtain ⟨r, -, rfl⟩ := bound
  rfl

/-- Identities are used up by the binders of an operand first, and then by one operand below it
after the other. -/
theorem exists_counters (o : Operand) (replacement : Replacement) (n : Nat) :
    ∃ (inside : Replacement) (counter : Nat → Nat),
      counter 0 = (freshen o.bound replacement n).next ∧
      (∀ i j, i ≤ j → counter i ≤ counter j) ∧
      ∀ {j place i p q}, o.binder? (j :: place) i = some p →
        (o.instantiate replacement n).1.binder? (j :: place) i = some q →
        counter j ≤ q.id ∧ q.id < counter (j + 1) ∧
          ∃ inner : Operand, o.expr.operands[j]? = some inner ∧ inner.binder? place i = some p ∧
            (inner.instantiate inside (counter j)).1.binder? place i = some q := by
  let binders := freshen o.bound replacement n
  by_cases atom : ∃ p, o.expr = .arg p
  · obtain ⟨x, hx⟩ := atom
    refine ⟨replacement, fun _ => binders.next, rfl, fun _ _ _ => Nat.le_refl _, fun h => ?_⟩
    simp [binder?_cons_eq_some_iff, hx] at h
  · obtain ⟨counter, start, -, mono, steps⟩ := Expr.exists_counters
      (fun x hx => atom ⟨x, hx⟩) binders.replacement binders.next
    refine ⟨binders.replacement, counter, start, mono, fun {j place i p q} h hq => ?_⟩
    obtain ⟨inner, hj, hp⟩ := binder?_cons_eq_some_iff.mp h
    obtain ⟨inst, hj', hq⟩ := binder?_cons_eq_some_iff.mp hq
    obtain ⟨at_j, next⟩ := steps j inner hj
    cases at_j.symm.trans hj'
    obtain ⟨x, renamed, le, lt⟩ := binder?_instantiate hp binders.replacement (counter j)
    cases renamed.symm.trans hq
    exact ⟨le, next ▸ lt, inner, hj, hp, hq⟩

/-- Binders at different places or positions get different identities. -/
theorem binder?_instantiate_injective {place' : List Nat} {i' : Nat} {p' q q' : Param}
    (h : o.binder? place i = some p) (h' : o.binder? place' i' = some p')
    (hq : (o.instantiate replacement n).1.binder? place i = some q)
    (hq' : (o.instantiate replacement n).1.binder? place' i' = some q') (same : q.id = q'.id) :
    place = place' ∧ i = i' := by
  induction place generalizing o replacement n place' with
  | nil =>
      have own := id_of_binder?_nil hq
      cases place' with
      | nil =>
          have own' := id_of_binder?_nil hq'
          exact ⟨rfl, by omega⟩
      | cons j' place' =>
          obtain ⟨inside, counter, start, mono, below⟩ := exists_counters o replacement n
          have later := (below h' hq').1
          have := mono 0 j' (Nat.zero_le j')
          omega
  | cons j place ih =>
      obtain ⟨inside, counter, start, mono, below⟩ := exists_counters o replacement n
      obtain ⟨le, lt, inner, hj, hp, hq⟩ := below h hq
      cases place' with
      | nil =>
          have own := id_of_binder?_nil hq'
          have := mono 0 j (Nat.zero_le j)
          omega
      | cons j' place' =>
          obtain ⟨le', lt', inner', hj', hp', hq'⟩ := below h' hq'
          rcases Nat.lt_trichotomy j j' with before | rfl | after
          · have := mono (j + 1) j' before
            omega
          · cases hj.symm.trans hj'
            obtain ⟨rfl, rfl⟩ := ih hp hp' hq hq'
            exact ⟨rfl, rfl⟩
          · have := mono (j' + 1) j after
            omega

/-- Every other operand of an instance stands in what was put in the place of a parameter. -/
theorem below?_of_instantiate (h : (o.instantiate replacement n).1.below? place = some s) :
    (∃ own, o.below? place = some own ∧ s.bound.length = own.bound.length) ∨
      ∃ x r outer rest, place = outer ++ rest ∧ rest ≠ [] ∧ o.expr.FreeAt x outer ∧
        (freshen o.bound replacement n).replacement x = some r ∧
        below? ⟨[], r⟩ rest = some s := by
  induction place generalizing o replacement n with
  | nil =>
      cases h
      exact .inl ⟨o, rfl, Expr.length_freshen o.bound replacement n⟩
  | cons i place ih =>
      obtain ⟨inst, hi, h⟩ := below?_cons_eq_some_iff.mp h
      by_cases atom : ∃ p, o.expr = .arg p
      · obtain ⟨p, hp⟩ := atom
        have expr : (o.instantiate replacement n).1.expr =
            ((freshen o.bound replacement n).replacement p.id).getD (.arg p) := by
          simp [Operand.instantiate, hp, Expr.instantiate]
        rw [expr] at hi
        cases hr : (freshen o.bound replacement n).replacement p.id with
        | none => simp [hr] at hi
        | some r =>
            rw [hr, Option.getD_some] at hi
            exact .inr ⟨p.id, r, [], i :: place, rfl, by simp, hp ▸ .arg rfl, hr,
              below?_cons_eq_some_iff.mpr ⟨inst, hi, h⟩⟩
      · let binders := freshen o.bound replacement n
        rcases Expr.operand_instantiate_at (fun p hp => atom ⟨p, hp⟩) binders.replacement
          binders.next i with ⟨-, none⟩ | ⟨inner, k, inner_i, -, at_i⟩
        · cases none.symm.trans hi
        · cases at_i.symm.trans hi
          rcases ih h with ⟨own, below, length⟩ | ⟨x, r, outer, rest, rfl, deep, free, hr, below⟩
          · exact .inl ⟨own, below?_cons_eq_some_iff.mpr ⟨inner, inner_i, below⟩, length⟩
          · by_cases bound : ∃ p ∈ inner.bound, p.id = x
            · -- A renamed binder has nothing below it.
              obtain ⟨q, -, hq⟩ := Expr.freshen_replacement_bound bound binders.replacement k
              cases hq.symm.trans hr
              cases rest with
              | nil => exact absurd rfl deep
              | cons j rest => simp [below?] at below
            · rw [Expr.freshen_replacement_other (by simpa using bound)] at hr
              exact .inr ⟨x, r, i :: outer, rest, rfl, deep,
                .operand inner_i (by simpa using bound) free, hr, below⟩

/-- A renamed binder of an operand is referred to exactly where it was before. -/
theorem freeAt_instantiate_iff (made : ∀ x, s.expr.Free x → x < n) (older : replacement.Older n)
    (i : Nat) (rest : List Nat) :
    (∃ x, lastSlot? ((s.instantiate replacement n).1.bound.map Param.id) x = some i ∧
        (s.instantiate replacement n).1.expr.FreeAt x rest) ↔
      ∃ x, lastSlot? (s.bound.map Param.id) x = some i ∧ s.expr.FreeAt x rest := by
  constructor
  · rintro ⟨x, hi, hx⟩
    obtain ⟨lt, rfl⟩ := lastSlot?_freshen.mp hi
    obtain ⟨p, outer, rest, rfl, free, hr⟩ := Expr.exists_freeAt_of_instantiate _ hx
    cases hj : lastSlot? (s.bound.map Param.id) p.id with
    | some j =>
        obtain ⟨q, -, put⟩ := freshen_replacement_of_slot hj replacement n
        rw [put, Option.getD_some, Expr.freeAt_arg] at hr
        obtain ⟨same, rfl⟩ := hr
        obtain rfl : j = i := Nat.add_left_cancel same
        exact ⟨p.id, hj, by simpa using free⟩
    | none =>
        -- Nothing that was there before refers to a new identity.
        rw [freshen_replacement_of_no_slot hj] at hr
        have old := older.lt (made p.id free.free) hr.free
        omega
  · rintro ⟨x, hi, hx⟩
    obtain ⟨q, hq, put⟩ := freshen_replacement_of_slot hi replacement n
    have lt := (List.getElem?_eq_some_iff.mp hq).1
    have stands : (((freshen s.bound replacement n).replacement x).getD
        (.arg ⟨x, q.name, q.ty⟩)).FreeAt (n + i) [] := by
      rw [put]
      exact .arg rfl
    have new : n + i < (freshen s.bound replacement n).next := by
      rw [freshen_next]
      omega
    have there := Expr.freeAt_instantiate (p := ⟨x, q.name, q.ty⟩) hx stands new
    rw [List.append_nil] at there
    exact ⟨n + i, lastSlot?_freshen.mpr ⟨lt, rfl⟩, there⟩

/-- A renamed binder binds exactly the references that it did before. -/
theorem binds_instantiate_iff {outer : List Nat} (h : o.below? outer = some s)
    (made : o.expr.MadeBefore n) (older : replacement.Older n) (i : Nat) (place : List Nat) :
    (o.instantiate replacement n).1.Binds outer i place ↔ o.Binds outer i place := by
  obtain ⟨inside, k, hk, below, -, olderInside⟩ := below?_instantiate h replacement n
  have madeInside : ∀ x, s.expr.Free x → x < k := fun x hx =>
    Nat.lt_of_lt_of_le (madeBefore_of_below? h made x hx.mentions) hk
  have same := freeAt_instantiate_iff madeInside (olderInside older) i
  constructor
  · rintro ⟨inner, x, rest, at_, hi, hx, rfl⟩
    cases below.symm.trans at_
    obtain ⟨x', hi', hx'⟩ := (same rest).mp ⟨x, hi, hx⟩
    exact ⟨s, x', rest, h, hi', hx', rfl⟩
  · rintro ⟨inner, x, rest, at_, hi, hx, rfl⟩
    cases h.symm.trans at_
    obtain ⟨x', hi', hx'⟩ := (same rest).mpr ⟨x, hi, hx⟩
    exact ⟨_, x', rest, below, hi', hx', rfl⟩

end Operand

end RecordMapping
