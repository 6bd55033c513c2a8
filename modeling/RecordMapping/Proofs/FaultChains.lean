import Mathlib.Data.List.Basic
import Mathlib.Data.List.Nodup
import RecordMapping.Fault.Store

/-!
# Chains of faults

Putting a fault under another one loses nothing. The result has the text of both and the causes of
the first, and whatever else is in use is as before, also if it shares faults with the two.

## Implementation notes

Following causes has to end, and within the bound that the store puts on it. Both come from chains
that are given position by position. In the store of a program no chain comes back to where it
started: a fault that is changed in place is in no chain that is in use, so not in that of its new
cause. Faults that nobody uses any more stay in the store, and their chains may change.
-/

namespace RecordMapping

/-- The text of a fault under another one. -/
theorem Fault.text_under (cause : Fault) (kind : FaultKind) :
    (cause.under kind).text = kind.text ++ ": " ++ cause.text := by
  simp [text, under, chain, String.intercalate_cons_cons]

/-- Texts that end with a joined one are joined with its parts. -/
theorem intercalate_append_intercalate {sep : String} (texts : List String) {last : List String}
    (h : last ≠ []) :
    sep.intercalate (texts ++ [sep.intercalate last]) = sep.intercalate (texts ++ last) := by
  cases texts with
  | nil => simp
  | cons text texts =>
      simp only [String.intercalate_append_of_ne_nil (List.cons_ne_nil _ _) h,
        String.intercalate_append_of_ne_nil (List.cons_ne_nil _ _) (List.cons_ne_nil _ _),
        String.intercalate_singleton]

namespace FaultStore

/-- Following the causes of a fault ends after these positions, of which its own is the first. -/
inductive Ends (store : FaultStore) : Nat → List Nat → Prop
  | root {p kind} (h : store.nodes[p]? = some ⟨kind, none⟩) : Ends store p [p]
  | caused {p kind cause ps} (h : store.nodes[p]? = some ⟨kind, some cause⟩)
      (rest : Ends store cause ps) : Ends store p (p :: ps)

variable {store store' : FaultStore} {p cause consequent : Nat} {ps others : List Nat}
  {kind : FaultKind}

namespace Ends

theorem lt (h : store.Ends p ps) : p < store.nodes.size := by
  cases h with
  | root h | caused h => exact (Array.getElem?_eq_some_iff.mp h).1

theorem unique {qs : List Nat} (h : store.Ends p ps) (h' : store.Ends p qs) : ps = qs := by
  induction h generalizing qs with
  | root h =>
      cases h' with
      | root => rfl
      | caused h' => cases h.symm.trans h'
  | caused h _ ih =>
      cases h' with
      | root h' => cases h.symm.trans h'
      | caused h' rest =>
          cases h.symm.trans h'
          rw [ih rest]

/-- From every position that is met, the rest of the positions follows. -/
theorem of_mem (h : store.Ends p ps) {q : Nat} (hq : q ∈ ps) :
    ∃ qs, store.Ends q qs ∧ qs <:+ ps := by
  induction h with
  | root h =>
      obtain rfl := List.mem_singleton.mp hq
      exact ⟨_, .root h, List.suffix_refl _⟩
  | @caused p _ _ _ h rest ih =>
      rcases List.mem_cons.mp hq with rfl | hq
      · exact ⟨_, .caused h rest, List.suffix_refl _⟩
      · obtain ⟨qs, ends, suffix⟩ := ih hq
        exact ⟨qs, ends, suffix.trans (List.suffix_cons p _)⟩

/-- No position is met twice. -/
theorem nodup (h : store.Ends p ps) : ps.Nodup := by
  induction h with
  | root => exact List.nodup_singleton _
  | @caused p _ _ ps h rest ih =>
      refine List.nodup_cons.mpr ⟨fun again => ?_, ih⟩
      obtain ⟨qs, ends, suffix⟩ := rest.of_mem again
      have whole : p :: ps = qs := unique (.caused h rest) ends
      have short := suffix.length_le
      rw [← whole, List.length_cons] at short
      omega

theorem length_le (h : store.Ends p ps) : ps.length ≤ store.nodes.size := by
  have inside : ps ⊆ List.range store.nodes.size := fun q hq => by
    obtain ⟨_, ends, -⟩ := h.of_mem hq
    exact List.mem_range.mpr ends.lt
  simpa using h.nodup.length_le_of_subset inside

theorem follow_eq (h : store.Ends p ps) {bound : Nat} (enough : ps.length ≤ bound) :
    store.follow bound p = ps := by
  induction h generalizing bound with
  | root h =>
      cases bound with
      | zero => simp at enough
      | succ bound => simp [follow, h]
  | caused h _ ih =>
      cases bound with
      | zero => simp at enough
      | succ bound => simp [follow, h, ih (Nat.le_of_succ_le_succ enough)]

/-- The bound on following causes is never reached. -/
theorem chain_eq (h : store.Ends p ps) : store.chain p = ps := h.follow_eq h.length_le

/-- A chain only depends on the faults in it. -/
theorem congr (h : store.Ends p ps) (same : ∀ q ∈ ps, store'.nodes[q]? = store.nodes[q]?) :
    store'.Ends p ps := by
  induction h with
  | root h => exact .root ((same _ (by simp)).trans h)
  | caused h _ ih =>
      exact .caused ((same _ (by simp)).trans h) (ih fun q hq => same q (by simp [hq]))

theorem read?_root (h : store.nodes[p]? = some ⟨kind, none⟩) :
    store.read? p = some (.root kind) := by
  simp [read?, kinds, (Ends.root h).chain_eq, h, Fault.root]

/-- What a handle refers to, once it is known what its cause is. -/
theorem read?_caused (h : store.nodes[p]? = some ⟨kind, some cause⟩) (rest : store.Ends cause ps) :
    ∃ e, store.read? cause = some e ∧ store.read? p = some (e.under kind) := by
  have head : ∃ node, store.nodes[cause]? = some node :=
    ⟨_, Array.getElem?_eq_getElem rest.lt⟩
  obtain ⟨node, hn⟩ := head
  have kinds_cause : ∃ causes, store.kinds cause = node.kind :: causes := by
    rw [kinds, rest.chain_eq]
    cases rest <;> simp [hn]
  obtain ⟨causes, hk⟩ := kinds_cause
  refine ⟨⟨node.kind, causes⟩, by simp [read?, hk], ?_⟩
  have whole : store.kinds p = kind :: store.kinds cause := by
    simp [kinds, (Ends.caused h rest).chain_eq, rest.chain_eq, h]
  simp [read?, whole, hk, Fault.under, Fault.chain]

/-- What a handle refers to only depends on the faults in its chain. -/
theorem read?_congr (h : store.Ends p ps) (same : ∀ q ∈ ps, store'.nodes[q]? = store.nodes[q]?) :
    store'.read? p = store.read? p := by
  have kinds_eq : store'.kinds p = store.kinds p := by
    rw [kinds, kinds, (h.congr same).chain_eq, h.chain_eq]
    exact List.filterMap_congr fun q hq => by rw [same q hq]
  rw [read?, read?, kinds_eq]

theorem source?_congr (h : store.Ends p ps) (same : ∀ q ∈ ps, store'.nodes[q]? = store.nodes[q]?) :
    store'.source? p = store.source? p := by
  cases h with
  | root h =>
      have h' := (same p (by simp)).trans h
      simp [source?, h, h']
  | caused h rest =>
      have h' := (same p (by simp)).trans h
      simpa [source?, h, h'] using rest.read?_congr fun q hq => same q (by simp [hq])

end Ends

/-- Only a fault without a cause is given one. -/
theorem root_of_attach {made : FaultStore × Nat}
    (attached : store.attach others cause consequent = some made) :
    ∃ kind, store.nodes[consequent]? = some ⟨kind, none⟩ := by
  cases h : store.nodes[consequent]? with
  | none => simp [attach, h] at attached
  | some node =>
      rcases node with ⟨kind, _ | _⟩
      · exact ⟨kind, rfl⟩
      · cases (attach_eq_none_of_cause h rfl others cause).symm.trans attached

/-- From every fault of the store the chain of causes ends. -/
def Sound (store : FaultStore) : Prop := ∀ p < store.nodes.size, ∃ ps, store.Ends p ps

namespace Sound

theorem empty : Sound {} := by
  intro p hp
  simp at hp

/-- A new fault leaves the chains of all others as they are. -/
theorem push (sound : store.Sound) {node : FaultNode}
    (below : ∀ q, node.cause = some q → q < store.nodes.size) :
    Sound ⟨store.nodes.push node⟩ := by
  have kept {p ps} (h : store.Ends p ps) : Ends ⟨store.nodes.push node⟩ p ps :=
    h.congr fun q hq => by
      obtain ⟨_, ends, -⟩ := h.of_mem hq
      simp [Array.getElem?_push, Nat.ne_of_lt ends.lt]
  intro p hp
  rcases Nat.lt_succ_iff_lt_or_eq.mp (by simpa using hp) with old | rfl
  · obtain ⟨ps, ends⟩ := sound p old
    exact ⟨ps, kept ends⟩
  · rcases node with ⟨kind, _ | cause⟩
    · have new : (store.nodes.push ⟨kind, none⟩)[store.nodes.size]? = some ⟨kind, none⟩ := by simp
      exact ⟨_, .root new⟩
    · obtain ⟨ps, ends⟩ := sound cause (below cause rfl)
      have new : (store.nodes.push ⟨kind, some cause⟩)[store.nodes.size]? =
          some ⟨kind, some cause⟩ := by simp
      exact ⟨_, .caused new (kept ends)⟩

/-- A fault without a cause that is not in the chain of another one can get this as its cause. -/
theorem set (sound : store.Sound) (free : store.nodes[consequent]? = some ⟨kind, none⟩)
    (rest : store.Ends cause ps) (apart : consequent ∉ ps) :
    Sound ⟨store.nodes.setIfInBounds consequent ⟨kind, some cause⟩⟩ := by
  have here := (Array.getElem?_eq_some_iff.mp free).1
  have now : (store.nodes.setIfInBounds consequent ⟨kind, some cause⟩)[consequent]? =
      some ⟨kind, some cause⟩ := by simp [here]
  have kept {q} (other : q ≠ consequent) :
      (store.nodes.setIfInBounds consequent ⟨kind, some cause⟩)[q]? = store.nodes[q]? := by
    simp [Ne.symm other]
  have changed : Ends ⟨store.nodes.setIfInBounds consequent ⟨kind, some cause⟩⟩ consequent
      (consequent :: ps) :=
    .caused now (rest.congr fun q hq => kept fun same => apart (same ▸ hq))
  -- A chain that comes to the changed fault ended there.
  have ends {p qs} (h : store.Ends p qs) :
      ∃ qs', Ends ⟨store.nodes.setIfInBounds consequent ⟨kind, some cause⟩⟩ p qs' := by
    induction h with
    | @root p _ h =>
        by_cases same : p = consequent
        · subst same
          exact ⟨_, changed⟩
        · exact ⟨_, .root ((kept same).trans h)⟩
    | @caused p _ _ _ h _ ih =>
        by_cases same : p = consequent
        · subst same
          exact ⟨_, changed⟩
        · obtain ⟨qs', ends⟩ := ih
          exact ⟨_, .caused ((kept same).trans h) ends⟩
  intro p hp
  obtain ⟨qs, h⟩ := sound p (by simpa using hp)
  exact ends h

theorem cause_lt (sound : store.Sound) (h : store.nodes[p]? = some ⟨kind, some cause⟩) :
    cause < store.nodes.size := by
  obtain ⟨ps, ends⟩ := sound p (Array.getElem?_eq_some_iff.mp h).1
  cases ends with
  | root h' => cases h.symm.trans h'
  | caused h' rest =>
      cases h.symm.trans h'
      exact rest.lt

theorem exists_read? (sound : store.Sound) (hp : p < store.nodes.size) :
    ∃ e, store.read? p = some e := by
  obtain ⟨ps, ends⟩ := sound p hp
  cases ends with
  | root h => exact ⟨_, Ends.read?_root h⟩
  | caused h rest =>
      obtain ⟨e, -, he⟩ := Ends.read?_caused h rest
      exact ⟨_, he⟩

/-- A handle to a fault that reads as one without a cause. -/
theorem node_of_read? (sound : store.Sound) (hp : p < store.nodes.size)
    (h : store.read? p = some (.root kind)) : store.nodes[p]? = some ⟨kind, none⟩ := by
  obtain ⟨ps, ends⟩ := sound p hp
  cases ends with
  | root hn =>
      cases (Ends.read?_root hn).symm.trans h
      exact hn
  | caused hn rest =>
      obtain ⟨e, -, he⟩ := Ends.read?_caused hn rest
      cases he.symm.trans h

/-- Whether a fault is held, by the chains of the handles. -/
theorem isHeld_iff (sound : store.Sound) {handles : List Nat}
    (inside : ∀ a ∈ handles, a < store.nodes.size) :
    store.isHeld handles p = true ↔ ∃ a ∈ handles, ∃ ps, store.Ends a ps ∧ p ∈ ps := by
  simp only [isHeld, List.any_eq_true, List.contains_iff_mem]
  refine exists_congr fun a => and_congr_right fun ha => ?_
  obtain ⟨ps, ends⟩ := sound a (inside a ha)
  rw [ends.chain_eq]
  refine ⟨fun hp => ⟨ps, ends, hp⟩, ?_⟩
  rintro ⟨qs, ends', hp⟩
  rwa [ends.unique ends']

/-- Putting a fault under one without a cause succeeds, and the chains of all other handles are as
before. -/
theorem attach (sound : store.Sound) (inside : ∀ a ∈ cause :: others, a < store.nodes.size)
    (free : store.nodes[consequent]? = some ⟨kind, none⟩) :
    ∃ store' result, store.attach others cause consequent = some (store', result) ∧
      store'.Sound ∧ store.nodes.size ≤ store'.nodes.size ∧
      store'.nodes[result]? = some
        ⟨if store.isHeld (cause :: others) consequent then .adhoc kind.text else kind,
          some cause⟩ ∧
      ∀ a ∈ cause :: others, ∀ ps, store.Ends a ps →
        ∀ q ∈ ps, store'.nodes[q]? = store.nodes[q]? := by
  have below : cause < store.nodes.size := inside cause (by simp)
  by_cases held : store.isHeld (cause :: others) consequent
  · refine ⟨⟨store.nodes.push ⟨.adhoc kind.text, some cause⟩⟩, store.nodes.size,
      by simp [FaultStore.attach, free, held], sound.push ?_, by simp, by simp [held],
      fun a ha ps ends q hq => ?_⟩
    · rintro q ⟨⟩
      exact below
    · obtain ⟨_, ends', -⟩ := ends.of_mem hq
      simp [Array.getElem?_push, Nat.ne_of_lt ends'.lt]
  · have apart {a ps} (ha : a ∈ cause :: others) (ends : store.Ends a ps) : consequent ∉ ps :=
      fun hp => held ((sound.isHeld_iff inside).mpr ⟨a, ha, ps, ends, hp⟩)
    obtain ⟨ps, ends⟩ := sound cause below
    have here := (Array.getElem?_eq_some_iff.mp free).1
    refine ⟨⟨store.nodes.setIfInBounds consequent ⟨kind, some cause⟩⟩, consequent,
      by simp [FaultStore.attach, free, held], sound.set free ends (apart (by simp) ends), by simp,
      by simp [held, here], fun a ha qs ends q hq => ?_⟩
    have other : consequent ≠ q := fun same => apart ha ends (same ▸ hq)
    simp [other]

end Sound

/-- The stores and the handles in use that a program comes to. -/
inductive Reached : FaultStore → List Nat → Prop
  | empty : Reached {} []
  | add {store handles} (h : Reached store handles) (kind : FaultKind) :
      Reached (store.add kind).1 ((store.add kind).2 :: handles)
  | copy {store handles} (h : Reached store handles) {a : Nat} (ha : a ∈ handles) :
      Reached store (a :: handles)
  /-- A handle to the cause of a fault that is in use. -/
  | cause {store handles} (h : Reached store handles) {a cause : Nat} {kind : FaultKind}
      (ha : a ∈ handles) (hc : store.nodes[a]? = some ⟨kind, some cause⟩) :
      Reached store (cause :: handles)
  | release {store a handles} (h : Reached store (a :: handles)) : Reached store handles
  | reorder {store handles handles'} (h : Reached store handles) (perm : handles.Perm handles') :
      Reached store handles'
  | attach {store store' cause consequent others result}
      (h : Reached store (cause :: consequent :: others))
      (attached : store.attach others cause consequent = some (store', result)) :
      Reached store' (result :: others)

/-- Put a fault under each of the consequents in turn. -/
def attachAll (others : List Nat) : FaultStore → Nat → List Nat → Option (FaultStore × Nat)
  | store, fault, [] => some (store, fault)
  | store, fault, consequent :: rest => do
      let (store', result) ← store.attach (rest ++ others) fault consequent
      attachAll others store' result rest

namespace Reached

variable {handles : List Nat} {e : Fault}

/-- In what a program comes to, every chain ends and every handle refers to a fault. -/
theorem sound (h : Reached store handles) :
    store.Sound ∧ ∀ a ∈ handles, a < store.nodes.size := by
  induction h with
  | empty => exact ⟨.empty, by simp⟩
  | add _ kind ih =>
      obtain ⟨sound, inside⟩ := ih
      refine ⟨sound.push (by simp), List.forall_mem_cons.mpr ⟨by simp [FaultStore.add], ?_⟩⟩
      exact fun a ha => by simpa [FaultStore.add] using Nat.lt_succ_of_lt (inside a ha)
  | copy _ ha ih => exact ⟨ih.1, List.forall_mem_cons.mpr ⟨ih.2 _ ha, ih.2⟩⟩
  | cause _ _ hc ih => exact ⟨ih.1, List.forall_mem_cons.mpr ⟨ih.1.cause_lt hc, ih.2⟩⟩
  | release _ ih => exact ⟨ih.1, (List.forall_mem_cons.mp ih.2).2⟩
  | reorder _ perm ih => exact ⟨ih.1, fun a ha => ih.2 a (perm.mem_iff.mpr ha)⟩
  | attach _ attached ih =>
      obtain ⟨sound, inside⟩ := ih
      simp only [List.forall_mem_cons] at inside
      obtain ⟨below, -, othersBelow⟩ := inside
      obtain ⟨kind, free⟩ := root_of_attach attached
      obtain ⟨store', result, attached', sound', grows, node, -⟩ :=
        sound.attach (List.forall_mem_cons.mpr ⟨below, othersBelow⟩) free
      cases attached'.symm.trans attached
      have resultBelow := (Array.getElem?_eq_some_iff.mp node).1
      refine ⟨sound', List.forall_mem_cons.mpr ⟨resultBelow, fun a ha => ?_⟩⟩
      exact Nat.lt_of_lt_of_le (othersBelow a ha) grows

/-- A fault is put under one without a cause, and all other handles in use read as before. -/
theorem attach_keeps (reached : Reached store (cause :: consequent :: others))
    (he : store.read? cause = some e) (hc : store.read? consequent = some (.root kind)) :
    ∃ store' result, store.attach others cause consequent = some (store', result) ∧
      Reached store' (result :: others) ∧
      store'.read? result = some (e.under
        (if store.isHeld (cause :: others) consequent then .adhoc kind.text else kind)) ∧
      store'.source? result = some e ∧
      ∀ a ∈ cause :: others,
        store'.read? a = store.read? a ∧ store'.source? a = store.source? a := by
  obtain ⟨sound, inside⟩ := reached.sound
  simp only [List.forall_mem_cons] at inside
  obtain ⟨below, consequentBelow, othersBelow⟩ := inside
  have inUse : ∀ a ∈ cause :: others, a < store.nodes.size :=
    List.forall_mem_cons.mpr ⟨below, othersBelow⟩
  obtain ⟨store', result, attached, sound', -, node, same⟩ :=
    sound.attach inUse (sound.node_of_read? consequentBelow hc)
  have reads : ∀ a ∈ cause :: others,
      store'.read? a = store.read? a ∧ store'.source? a = store.source? a := by
    intro a ha
    obtain ⟨ps, ends⟩ := sound a (inUse a ha)
    exact ⟨ends.read?_congr (same a ha ps ends), ends.source?_congr (same a ha ps ends)⟩
  have readCause : store'.read? cause = some e := (reads cause (by simp)).1.trans he
  refine ⟨store', result, attached, reached.attach attached, ?_, by simp [source?, node, readCause],
    reads⟩
  obtain ⟨ps, ends⟩ := sound' cause (sound'.cause_lt node)
  obtain ⟨e', readCause', readResult⟩ := Ends.read?_caused node ends
  cases readCause'.symm.trans readCause
  exact readResult

/-- Putting a fault under each of several faults without a cause. -/
theorem attachAll_keeps {consequents : List Nat} {kinds : List FaultKind}
    (reached : Reached store (cause :: (consequents ++ others)))
    (he : store.read? cause = some e)
    (free : List.Forall₂ (fun c kind => store.read? c = some (.root kind)) consequents kinds) :
    ∃ store' result fault,
      store.attachAll others cause consequents = some (store', result) ∧
      Reached store' (result :: others) ∧ store'.read? result = some fault ∧
      fault.chain.map FaultKind.text =
        (kinds.map FaultKind.text).reverse ++ e.chain.map FaultKind.text ∧
      ∀ a ∈ others, store'.read? a = store.read? a ∧ store'.source? a = store.source? a := by
  induction consequents generalizing store cause e kinds with
  | nil =>
      cases free
      exact ⟨store, cause, e, rfl, reached, he, rfl, fun _ _ => ⟨rfl, rfl⟩⟩
  | cons c cs ih =>
      cases free with
      | @cons _ kind _ kinds hc rest =>
        rw [List.cons_append] at reached
        obtain ⟨store₁, first, attached, reached₁, readFirst, -, reads⟩ :=
          reached.attach_keeps he hc
        have kept : ∀ a ∈ cs ++ others,
            store₁.read? a = store.read? a ∧ store₁.source? a = store.source? a :=
          fun a ha => reads a (List.mem_cons_of_mem _ ha)
        have free : List.Forall₂ (fun c kind => store₁.read? c = some (.root kind)) cs kinds :=
          List.forall₂_iff_zip.mpr ⟨rest.length_eq, fun {a k} ha => by
            rw [(kept a (by simp [(List.of_mem_zip ha).1])).1]
            exact (List.forall₂_iff_zip.mp rest).2 ha⟩
        obtain ⟨store₂, result, fault, all, reached₂, read, texts, reads₂⟩ :=
          ih reached₁ readFirst free
        have firstText : (if store.isHeld (cause :: (cs ++ others)) c then
            FaultKind.adhoc kind.text else kind).text = kind.text := by
          split <;> rfl
        refine ⟨store₂, result, fault, by simp [attachAll, attached, all], reached₂, read, ?_, ?_⟩
        · simp [texts, firstText]
        · intro a ha
          have now := kept a (by simp [ha])
          have later := reads₂ a ha
          exact ⟨later.1.trans now.1, later.2.trans now.2⟩

/-- Putting a fault under one without a cause loses nothing, whoever else holds one of the two. The
text is that of both, the causes are the first fault and all of its causes, and every other handle
in use has the kind, the text and the causes that it had. So the text of a fault that is put under
several faults in turn has the texts of all of them, the latest one first. -/
theorem attach_loses_nothing (reached : Reached store handles) :
    (∀ a ∈ handles, ∃ e, store.read? a = some e) ∧
    (∀ cause consequent others e kind, handles.Perm (cause :: consequent :: others) →
      store.read? cause = some e → store.read? consequent = some (.root kind) →
      ∃ store' result fault, store.attach others cause consequent = some (store', result) ∧
        Reached store' (result :: others) ∧ store'.read? result = some fault ∧
        fault.text = (Fault.root kind).text ++ ": " ++ e.text ∧ fault.causes = e.chain ∧
        fault.kind =
          (if store.isHeld (cause :: others) consequent then .adhoc kind.text else kind) ∧
        store'.source? result = some e ∧
        ∀ a ∈ cause :: others,
          store'.read? a = store.read? a ∧ store'.source? a = store.source? a) ∧
    ∀ cause consequents others e kinds, handles.Perm (cause :: (consequents ++ others)) →
      store.read? cause = some e →
      List.Forall₂ (fun a kind => store.read? a = some (.root kind)) consequents kinds →
      ∃ store' result fault, store.attachAll others cause consequents = some (store', result) ∧
        Reached store' (result :: others) ∧ store'.read? result = some fault ∧
        fault.text = String.intercalate ": "
          ((kinds.map fun kind => (Fault.root kind).text).reverse ++ [e.text]) ∧
        ∀ a ∈ others, store'.read? a = store.read? a ∧ store'.source? a = store.source? a := by
  refine ⟨fun a ha => reached.sound.1.exists_read? (reached.sound.2 a ha), ?one, ?several⟩
  case one =>
    intro cause consequent others e kind perm he free
    obtain ⟨store', result, attached, reached', read, source, reads⟩ :=
      (reached.reorder perm).attach_keeps he free
    refine ⟨store', result, _, attached, reached', read, ?_, rfl, rfl, source, reads⟩
    rw [Fault.text_under, Fault.text_root]
    split <;> rfl
  case several =>
    intro cause consequents others e kinds perm he free
    obtain ⟨store', result, fault, all, reached', read, texts, reads⟩ :=
      (reached.reorder perm).attachAll_keeps he free
    refine ⟨store', result, fault, all, reached', read, ?_, reads⟩
    have some_text : e.chain.map FaultKind.text ≠ [] := by simp [Fault.chain]
    simp only [Fault.text_root]
    rw [Fault.text, texts, Fault.text, intercalate_append_intercalate _ some_text]

/-- Two faults without a cause. -/
def twoFaults : FaultStore := ⟨#[⟨.adhoc "root", none⟩, ⟨.adhoc "while composing", none⟩]⟩

/-- The first fault is put under both handles of the second one, of which the first handle is shared
and the second one no longer, while it has another handle itself. -/
theorem twoFaults_lose_nothing :
    Reached twoFaults [0, 1, 1, 0] ∧
    (∃ store' result fault, twoFaults.attach [1, 0] 0 1 = some (store', result) ∧
      store'.read? result = some fault ∧ fault.text = "while composing: root" ∧
      store'.read? 1 = some (.root (.adhoc "while composing"))) ∧
    ∃ store' result fault, twoFaults.attachAll [0] 0 [1, 1] = some (store', result) ∧
      store'.read? result = some fault ∧
      fault.text = "while composing: while composing: root" ∧
      store'.read? 0 = some (.root (.adhoc "root")) := by
  have reached : Reached twoFaults [0, 1, 1, 0] :=
    (((Reached.empty.add (.adhoc "root")).add (.adhoc "while composing")).copy (.head _)).copy
      (by simp [FaultStore.add])
  obtain ⟨-, one, several⟩ := reached.attach_loses_nothing
  have root : twoFaults.read? 0 = some (.root (.adhoc "root")) := rfl
  have composing : twoFaults.read? 1 = some (.root (.adhoc "while composing")) := rfl
  refine ⟨reached, ?_, ?_⟩
  · obtain ⟨store', result, fault, attached, -, read, text, -, -, -, reads⟩ :=
      one 0 1 [1, 0] _ _ (.refl _) root composing
    refine ⟨store', result, fault, attached, read, text.trans ?_,
      (reads 1 (by simp)).1.trans composing⟩
    simp only [Fault.text_root]
    rfl
  · obtain ⟨store', result, fault, all, -, read, text, reads⟩ :=
      several 0 [1, 1] [0] _ _ (.refl _) root (.cons composing (.cons composing .nil))
    refine ⟨store', result, fault, all, read, text.trans ?_, (reads 0 (by simp)).1.trans root⟩
    simp only [Fault.text_root]
    rfl

end Reached

end FaultStore

end RecordMapping
