import RecordMapping.Proofs.InferredTypes
import Mathlib.Order.Defs.Unbundled

/-!
# What acceptance of types means

Inference may leave a part of a type open. One type accepts another one exactly if the open parts of
both can be filled in so that the second one becomes a subtype of the first. Types without open
parts are partially ordered in this way, with the type of null below all others.

## Implementation notes

A type has at most one open part, since a list has a single type of items. So a filling is one type,
and the two sides are filled in independently of each other.
-/

namespace RecordMapping

namespace Ty

/-- The first type is a subtype of the second one: null is one of every type, every type is one of
itself, and lists are as their items are. -/
inductive Below : Ty → Ty → Prop
  | null {ty : Ty} : Below .null ty
  | refl {ty : Ty} : Below ty ty
  | list {found declared : Ty} (item : Below found declared) : Below (.list found) (.list declared)

/-- Whether no part of the type is open. -/
def isKnown : Ty → Bool
  | .unknown => false
  | .list item => item.isKnown
  | _ => true

/-- The type with another one in the place of what is open. -/
def fill : Ty → Ty → Ty
  | .unknown, part => part
  | .list item, part => .list (item.fill part)
  | ty, _ => ty

end Ty

/-- A type without open parts. -/
abbrev KnownTy := { ty : Ty // ty.isKnown = true }

instance : Inhabited KnownTy := ⟨⟨.null, rfl⟩⟩

namespace Ty

/-- A type that is filled in with a known one is known. -/
theorem isKnown_fill (ty : Ty) (part : KnownTy) : (ty.fill part).isKnown = true := by
  induction ty with
  | unknown => exact part.2
  | list item ih => exact ih
  | _ => rfl

/-- What holds of an open type on either side, of null, of equal types and, with its items, of
lists, holds wherever one type accepts another one. -/
theorem accepts_induct {P : ∀ declared found : Ty, declared.accepts found = true → Prop}
    (left : ∀ found, P .unknown found (accepts_unknown_left found))
    (right : ∀ declared, P declared .unknown (accepts_unknown_right declared))
    (null : ∀ declared, P declared .null (accepts_null declared))
    (same : ∀ ty, P ty ty (accepts_refl ty))
    (list : ∀ {declared found} (h : declared.accepts found = true), P declared found h →
      P (.list declared) (.list found) (by rwa [accepts_list])) {declared found : Ty}
    (h : declared.accepts found = true) : P declared found h := by
  induction declared generalizing found with
  | unknown => exact left found
  | list declared ih =>
      cases found with
      | unknown => exact right _
      | null => exact null _
      | list found =>
          have item : declared.accepts found = true := by rwa [accepts_list] at h
          exact list item (ih item)
      | _ => cases of_decide_eq_true h
  | _ =>
      cases found with
      | unknown => exact right _
      | null => exact null _
      | _ =>
          have eq := of_decide_eq_true h
          cases eq <;> exact same _

/-- A type accepts its subtypes. -/
theorem Below.accepts {found declared : Ty} (h : found.Below declared) :
    declared.accepts found = true := by
  induction h with
  | null => exact accepts_null _
  | refl => exact accepts_refl _
  | list _ ih => rwa [accepts_list]

/-- Of the known types a known type accepts only its subtypes. -/
theorem below_of_accepts {declared found : Ty} (h : declared.accepts found = true) :
    declared.isKnown = true → found.isKnown = true → found.Below declared := by
  induction h using accepts_induct with
  | left => exact nofun
  | right => exact nofun
  | null => exact fun _ _ => .null
  | same => exact fun _ _ => .refl
  | list _ ih => exact fun known known' => .list (ih known known')

/-- What is accepted can be filled in so that it is a subtype. -/
theorem exists_fill_below {declared found : Ty} (h : declared.accepts found = true) :
    ∃ part part' : KnownTy, (found.fill part).Below (declared.fill part') := by
  induction h using accepts_induct with
  | left found => exact ⟨default, ⟨_, found.isKnown_fill default⟩, .refl⟩
  | right declared => exact ⟨⟨_, declared.isKnown_fill default⟩, default, .refl⟩
  | null => exact ⟨default, default, .null⟩
  | same => exact ⟨default, default, .refl⟩
  | list _ ih =>
      obtain ⟨part, part', item⟩ := ih
      exact ⟨part, part', .list item⟩

/-- What is accepted after filling in was accepted before. -/
theorem accepts_of_fill {declared found part part' : Ty}
    (h : (declared.fill part).accepts (found.fill part') = true) :
    declared.accepts found = true := by
  induction declared generalizing found with
  | unknown => exact accepts_unknown_left found
  | list declared ih =>
      cases found with
      | unknown => exact accepts_unknown_right _
      | list found =>
          rw [accepts_list]
          exact ih (by rwa [fill, fill, accepts_list] at h)
      | _ => exact h
  | _ =>
      cases found with
      | unknown => exact accepts_unknown_right _
      | list => cases of_decide_eq_true h
      | _ => exact h

/-- Types that are subtypes of each other are the same. -/
theorem Below.antisymm {s t : Ty} (h : s.Below t) (h' : t.Below s) : s = t := by
  induction h with
  | null => cases h' <;> rfl
  | refl => rfl
  | list _ ih =>
      cases h' with
      | refl => rfl
      | list item => rw [ih item]

/-- A known type is known wherever another one is. -/
theorem knownFor_of_isKnown (declared : Ty) {found : Ty} (known : found.isKnown = true) :
    declared.knownFor found = true := by
  induction declared generalizing found with
  | unknown => rfl
  | list declared ih =>
      cases found with
      | unknown => cases known
      | list found => exact ih known
      | _ => rfl
  | _ =>
      cases found with
      | unknown => cases known
      | _ => rfl

/-- One type accepts another one exactly if the open parts of both can be filled in with known types
so that the second one is a subtype of the first one. On known types acceptance is a partial order,
and null is below all others. -/
theorem accepts_iff_fill_below :
    (∀ declared found : Ty, declared.accepts found = true ↔
      ∃ part part' : KnownTy, (found.fill part).Below (declared.fill part')) ∧
    IsPartialOrder KnownTy (fun found declared => declared.1.accepts found.1 = true) ∧
    ∀ declared : KnownTy, declared.1.accepts .null = true := by
  refine ⟨fun declared found => ⟨exists_fill_below, ?_⟩, ?order, fun declared => accepts_null _⟩
  · rintro ⟨part, part', below⟩
    exact accepts_of_fill below.accepts
  case order =>
    refine { refl := fun ty => accepts_refl _, trans := ?_, antisymm := ?_ }
    · intro found middle declared h h'
      exact accepts_trans h' (knownFor_of_isKnown _ middle.2) h
    · intro s t h h'
      have below := below_of_accepts h t.2 s.2
      exact Subtype.ext (below.antisymm (below_of_accepts h' s.2 t.2))

end Ty

end RecordMapping
