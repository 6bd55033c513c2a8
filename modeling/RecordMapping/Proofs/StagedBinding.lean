import RecordMapping.Proofs.FreeParams
import RecordMapping.Proofs.LikeInstances

/-!
# Binding in stages

Binding some parameters of a function and then the ones left open is binding all of them at once, up
to the identities of the binders in the body. The second stage also goes through what the first one
has put in, and it renames binders again; neither shows in the result.

## Implementation notes

An expression that is put in at first may refer to parameters of the same identity as a binder of
the body, since binders are renamed. It may not refer to a parameter that stays open, which the
second stage would replace.
-/

namespace RecordMapping

namespace Expr

/-- Replacing some parameters and then others is replacing all of them at once, if nothing that was
put in at first is replaced later. -/
theorem alphaEq_staged {e : Expr} {first second merged : Replacement} {n k m : Nat}
    (early : ∀ x r, first x = some r → merged x = some r)
    (late : ∀ x, first x = none → merged x = second x)
    (closed : ∀ x r, first x = some r → ∀ y, r.Free y → second y = none)
    (hn : ∀ p : Param, e.Free p.id → ∀ x, ((first p.id).getD (.arg p)).Free x → x < n)
    (hk : ∀ p : Param, (e.instantiate first n).1.Free p.id →
      ∀ x, ((second p.id).getD (.arg p)).Free x → x < k)
    (hm : ∀ p : Param, e.Free p.id → ∀ x, ((merged p.id).getD (.arg p)).Free x → x < m) :
    ((e.instantiate first n).1.instantiate second k).1.AlphaEq (e.instantiate merged m).1 := by
  let all : Pairing := fun p r => r = (merged p.id).getD (.arg p)
  let rest : Pairing := fun p r => r = (second p.id).getD (.arg p)
  have once : e.Like .identities false all (e.instantiate merged m).1 := by
    refine (e.like_self false).instantiate_right (Tolerance.identities_right m) ⟨?_, ?_⟩
    · rintro p r k ⟨rfl, _⟩ _
      rfl
    · rintro p r q x ⟨rfl, hp⟩ hq hx
      exact hm q (free_arg.mp hq ▸ hp) x hx
  have staged :
      (e.instantiate first n).1.Like .identities false rest (e.instantiate merged m).1 := by
    have stands {p : Param} {r : Expr} (hr : all p r) :
        ((first p.id).getD (.arg p)).Like .identities false rest r := by
      cases hp : first p.id with
      | none =>
          refine .arg (hr.trans ?_)
          rw [late p.id hp]
      | some x =>
          obtain rfl : r = x := hr.trans (by rw [early p.id x hp, Option.getD_some])
          refine (r.like_self false).weaken fun q s hs _ _ => ?_
          obtain ⟨rfl, hq⟩ := hs
          simp [rest, closed p.id r hp q.id hq]
    refine once.instantiate_left (Tolerance.identities_left n) ⟨?_, ?_, ?_⟩
    · exact fun hr _ => stands hr
    · exact fun hr _ => stands hr
    · exact fun {p x} hp hx => hn p hp x hx
  refine staged.instantiate_left (Tolerance.identities_left k) ⟨?_, ?_, ?_⟩
  · rintro p _ rfl _
    exact AlphaEq.refl _
  · rintro p _ rfl _
    exact AlphaEq.refl _
  · exact fun {p x} hp hx => hk p hp x hx

end Expr

namespace Func

/-- The replacements with those for the open parameters filled in. -/
def merged : List (Option Expr) → List (Option Expr) → List (Option Expr)
  | some r :: rs, qs => some r :: merged rs qs
  | none :: rs, q :: qs => q :: merged rs qs
  | rs, _ => rs

section Merged

variable {params : List Param} {rs qs : List (Option Expr)}

@[simp] theorem length_merged (rs qs : List (Option Expr)) : (merged rs qs).length = rs.length := by
  fun_induction merged rs qs with
  | case1 r rs qs ih => simp [ih]
  | case2 rs q qs ih => simp [ih]
  | case3 => rfl

theorem openParams_sublist (params : List Param) (rs : List (Option Expr)) :
    (openParams params rs).Sublist params := by
  fun_induction openParams params rs with
  | case1 p ps r rs ih => exact ih.cons p
  | case2 p ps rs ih => exact ih.cons_cons p
  | case3 => exact List.nil_sublist _

/-- The parameters that are open after both bindings are those that the merged replacements leave
open. -/
theorem openParams_merged (length : rs.length = params.length)
    (openLength : qs.length = (openParams params rs).length) :
    openParams params (merged rs qs) = openParams (openParams params rs) qs := by
  induction params generalizing rs qs with
  | nil => simp [openParams]
  | cons p ps ih =>
      obtain _ | ⟨_ | r, rs⟩ := rs
      · cases length
      · obtain _ | ⟨_ | q, qs⟩ := qs
        · cases openLength
        · simp only [merged, openParams, ih (Nat.succ.inj length) (Nat.succ.inj openLength)]
        · simp only [merged, openParams, ih (Nat.succ.inj length) (Nat.succ.inj openLength)]
      · simp only [merged, openParams, ih (Nat.succ.inj length) openLength]

theorem mem_zip_merged (length : rs.length = params.length)
    (openLength : qs.length = (openParams params rs).length) {p : Param} {r : Expr} :
    (p, some r) ∈ params.zip (merged rs qs) ↔
      (p, some r) ∈ params.zip rs ∨ (p, some r) ∈ (openParams params rs).zip qs := by
  induction params generalizing rs qs with
  | nil => simp [openParams]
  | cons a ps ih =>
      obtain _ | ⟨_ | x, rs⟩ := rs
      · cases length
      · obtain _ | ⟨q, qs⟩ := qs
        · cases openLength
        · have ih := ih (Nat.succ.inj length) (Nat.succ.inj openLength)
          simp [merged, openParams, ih, or_left_comm]
      · simp [merged, openParams, ih (Nat.succ.inj length) openLength, or_assoc]

/-- What the merged replacements put in the place of a parameter is what one of the two bindings
puts there. -/
theorem ofParams_merged (distinct : (params.map Param.id).Nodup)
    (length : rs.length = params.length) (openLength : qs.length = (openParams params rs).length)
    {x : Nat} {r : Expr} :
    Replacement.ofParams .empty params (merged rs qs) x = some r ↔
      Replacement.ofParams .empty params rs x = some r ∨
        Replacement.ofParams .empty (openParams params rs) qs x = some r := by
  have distinctOpen : ((openParams params rs).map Param.id).Nodup :=
    distinct.sublist ((openParams_sublist params rs).map _)
  simp only [Replacement.ofParams_eq_some_iff _ distinct,
    Replacement.ofParams_eq_some_iff _ distinctOpen, mem_zip_merged length openLength, or_and_right,
    exists_or]

end Merged

/-- The identities from a number on are used neither in the function nor in the replacements. -/
def Unused (n : Nat) (f : Func) (rs : List (Option Expr)) : Prop :=
  (∀ x, f.body.Free x → x < n) ∧ ∀ r, some r ∈ rs → ∀ x, r.Free x → x < n

/-- What is put in the place of distinct parameters is one of the replacements. -/
theorem mem_of_ofParams {params : List Param} {rs : List (Option Expr)} {x : Nat} {r : Expr}
    (distinct : (params.map Param.id).Nodup)
    (hr : Replacement.ofParams .empty params rs x = some r) :
    (∃ p ∈ params, p.id = x) ∧ some r ∈ rs := by
  obtain ⟨p, hp, hx⟩ := (Replacement.ofParams_eq_some_iff rs distinct).mp hr
  obtain ⟨hp, hr⟩ := List.of_mem_zip hp
  exact ⟨⟨p, hp, hx⟩, hr⟩

theorem Unused.lt {f : Func} {rs : List (Option Expr)} {n : Nat} (h : Unused n f rs)
    (distinct : (f.params.map Param.id).Nodup) {p : Param} (hp : f.body.Free p.id) {x : Nat}
    (hx : ((Replacement.ofParams .empty f.params rs p.id).getD (.arg p)).Free x) : x < n := by
  cases hr : Replacement.ofParams .empty f.params rs p.id with
  | some r =>
      rw [hr, Option.getD_some] at hx
      exact h.2 r (mem_of_ofParams distinct hr).2 x hx
  | none =>
      rw [hr, Option.getD_none, Expr.free_arg] at hx
      exact h.1 x (hx ▸ hp)

theorem bind_eq_ok {f : Func} {rs : List (Option Expr)} (length : rs.length = f.params.length)
    (n : Nat) : f.bind rs n =
      .ok (⟨openParams f.params rs, (f.body.instantiate (.ofParams .empty f.params rs) n).1⟩,
        (f.body.instantiate (.ofParams .empty f.params rs) n).2) := by
  simp [bind, length]

/-- Binding nothing renames binders. -/
theorem bind_none (f : Func) {n : Nat} (unused : ∀ x, f.body.Free x → x < n) :
    ∃ g n', f.bind (f.params.map fun _ => none) n = .ok (g, n') ∧ f.AlphaEq g := by
  have replacement (ps : List Param) (σ : Replacement) :
      Replacement.ofParams σ ps (ps.map fun _ => none) = σ := by
    induction ps with
    | nil => rfl
    | cons p ps ih => simpa [Replacement.ofParams] using ih
  have params (ps : List Param) : openParams ps (ps.map fun _ => none) = ps := by
    induction ps with
    | nil => rfl
    | cons p ps ih => simpa [openParams] using ih
  refine ⟨_, _, bind_eq_ok (by simp) n, params f.params, ?_⟩
  rw [replacement]
  refine (f.body.like_self false).instantiate_right (Tolerance.identities_right n) ⟨?_, ?_⟩
  · rintro p r k ⟨rfl, _⟩ _
    rfl
  · rintro p r q x ⟨rfl, hp⟩ hq hx
    have same : p.id = q.id := by simpa using hq
    have hx : q.id = x := by simpa using hx
    exact unused x (hx ▸ same ▸ hp)

section Stages

variable {f : Func} {rs qs : List (Option Expr)}
  (distinct : (f.params.map Param.id).Nodup) (length : rs.length = f.params.length)
  (openLength : qs.length = (openParams f.params rs).length)
  (closed : ∀ p ∈ openParams f.params rs, ∀ r, some r ∈ rs → ¬ r.Free p.id)
include distinct length openLength closed

/-- The body that is left after both stages is the one that is left after binding at once. -/
theorem body_staged {n k m : Nat} (unused : Unused n f rs)
    (unusedAtOnce : Unused m f (merged rs qs))
    (hk : (f.body.instantiate (.ofParams .empty f.params rs) n).2 ≤ k)
    (made : ∀ q, some q ∈ qs → ∀ x, q.Free x → x < k) :
    ((f.body.instantiate (.ofParams .empty f.params rs) n).1.instantiate
        (.ofParams .empty (openParams f.params rs) qs) k).1.AlphaEq
      (f.body.instantiate (.ofParams .empty f.params (merged rs qs)) m).1 := by
  have merge {x : Nat} {r : Expr} := ofParams_merged distinct length openLength (x := x) (r := r)
  have distinctOpen : ((openParams f.params rs).map Param.id).Nodup :=
    distinct.sublist ((openParams_sublist f.params rs).map _)
  refine Expr.alphaEq_staged (fun x r hr => merge.mpr (.inl hr)) ?late ?closed
    (fun p hp x => unused.lt distinct hp) ?below fun p hp x => unusedAtOnce.lt distinct hp
  case late =>
    intro x hx
    ext r
    simp [merge, hx]
  case closed =>
    intro x r hr y hy
    by_contra replaced
    obtain ⟨q, hq⟩ := Option.ne_none_iff_exists'.mp replaced
    obtain ⟨⟨p, hp, rfl⟩, _⟩ := mem_of_ofParams distinctOpen hq
    exact closed p hp r (mem_of_ofParams distinct hr).2 hy
  case below =>
    intro p hp x hx
    cases hr : Replacement.ofParams .empty (openParams f.params rs) qs p.id with
    | some q =>
        rw [hr, Option.getD_some] at hx
        exact made q (mem_of_ofParams distinctOpen hr).2 x hx
    | none =>
        rw [hr, Option.getD_none, Expr.free_arg] at hx
        obtain ⟨p', hp', hx'⟩ := Expr.exists_free_of_instantiate _ hp
        calc x = p.id := hx.symm
          _ < n := unused.lt distinct hp' hx'
          _ ≤ _ := f.body.le_instantiate _ n
          _ ≤ k := hk

end Stages

/-- Binding a function with distinct parameters in two stages is binding it at once to the merged
replacements, if no replacement refers to a parameter that the first stage leaves open: the same
parameters stay open and the bodies are the same up to the identities of binders. Binding none of
them leaves the function as it is in this sense. All that is referred to was given out before. -/
theorem bind_staged {f : Func} (distinct : (f.params.map Param.id).Nodup) :
    (∀ {rs qs : List (Option Expr)} {n m : Nat}, rs.length = f.params.length →
      qs.length = (openParams f.params rs).length →
      (∀ p ∈ openParams f.params rs, ∀ r, some r ∈ rs → ¬ r.Free p.id) →
      Unused n f rs → Unused m f (merged rs qs) →
      ∃ g n', f.bind rs n = .ok (g, n') ∧
        ∀ k, n' ≤ k → (∀ q, some q ∈ qs → ∀ x, q.Free x → x < k) →
          ∃ staged k' once m', g.bind qs k = .ok (staged, k') ∧
            f.bind (merged rs qs) m = .ok (once, m') ∧ staged.AlphaEq once) ∧
      ∀ n, (∀ x, f.body.Free x → x < n) →
        ∃ g n', f.bind (f.params.map fun _ => none) n = .ok (g, n') ∧ f.AlphaEq g := by
  refine ⟨fun {rs qs n m} length openLength closed unused unusedAtOnce => ?_, fun n => f.bind_none⟩
  refine ⟨_, _, bind_eq_ok length n, fun k hk made => ?_⟩
  refine ⟨_, _, _, _, bind_eq_ok openLength k, bind_eq_ok (by simpa using length) m,
    openParams_merged length openLength, ?_⟩
  exact body_staged distinct length openLength closed unused unusedAtOnce hk made

theorem gathered_staged :
    ∃ g n', gathered.bind [some (.arg ⟨2, "item", .unknown⟩), none] 3 = .ok (g, n') ∧
      g.params = [⟨1, "items", .unknown⟩] ∧
      ∃ staged k' once m', g.bind [some (.arg ⟨0, "record", .unknown⟩)] n' = .ok (staged, k') ∧
        gathered.bind [some (.arg ⟨2, "item", .unknown⟩), some (.arg ⟨0, "record", .unknown⟩)] 3 =
          .ok (once, m') ∧ staged.AlphaEq once := by
  have distinct : (gathered.params.map Param.id).Nodup := by decide
  have made : ∀ x, gathered.body.Free x → x < 3 := by
    simp [gathered]
    omega
  have unused : Unused 3 gathered [some (.arg ⟨2, "item", .unknown⟩), none] := ⟨made, by simp⟩
  have unusedAtOnce : Unused 3 gathered (merged [some (.arg ⟨2, "item", .unknown⟩), none]
      [some (.arg ⟨0, "record", .unknown⟩)]) := ⟨made, by simp [merged]⟩
  obtain ⟨g, n', first, stages⟩ :=
    (bind_staged distinct).1 rfl rfl (by simp [gathered, openParams]) unused unusedAtOnce
  have run := first
  cases run
  refine ⟨_, _, first, rfl, stages _ (Nat.le_refl _) ?_⟩
  simp
  decide

end Func

end RecordMapping
