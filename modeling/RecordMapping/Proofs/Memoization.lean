import RecordMapping.Proofs.SharedCache

/-!
# Every key is looked up once

Composers and direct questions may share a cache and be served in any order, whether or not they
succeed. Over the whole run a key is looked up only while it is not known, so each one is looked up
at most once, and what is known stays. The cache holds exactly the keys that were looked up.

## Implementation notes

What a run learns is one list, which is added to the known keys and, without the answers, to the
questions. So a position in that list is a moment of the run, also within a call that fails later
on.
-/

namespace RecordMapping

namespace KeyCache

variable {cache : KeyCache} {navigation : FieldId}

/-- The relations whose key is known. -/
def relations (cache : KeyCache) : List FieldId := cache.entries.map Prod.fst

theorem get?_eq_none_iff : cache.get? navigation = none ↔ navigation ∉ cache.relations := by
  rw [get?, Option.map_eq_none_iff, List.find?_eq_none]
  simp only [relations, List.mem_map, not_exists, not_and, decide_eq_true_eq]

/-- Of a known key the first entry counts, whatever comes after it. -/
theorem get?_append_of_some {key : GuardKey} (h : cache.get? navigation = some key)
    (learned : List (FieldId × GuardKey)) :
    get? ⟨cache.entries ++ learned⟩ navigation = some key := by
  obtain ⟨entry, found, rfl⟩ := Option.map_eq_some_iff.mp h
  simp [get?, List.find?_append, found]

/-- A known key is not looked up. -/
theorem fetch_of_some {key : GuardKey} (h : cache.get? navigation = some key)
    (lookup : FieldId → GuardKey) : cache.fetch lookup navigation = ⟨key, cache, false⟩ := by
  simp [fetch, h]

/-- A key that is not known is looked up, and known from then on. -/
theorem fetch_of_none (h : cache.get? navigation = none) (lookup : FieldId → GuardKey) :
    cache.fetch lookup navigation =
      ⟨lookup navigation, ⟨cache.entries ++ [(navigation, lookup navigation)]⟩, true⟩ := by
  simp [fetch, h]

end KeyCache

namespace Workspace

/-- From the first workspace to the second one the listed keys were learned: they were added to the
cache, each for a question that was asked then, and none of them was known before. -/
structure LearnsList (w w' : Workspace) (learned : List (FieldId × GuardKey)) : Prop where
  entries : w'.cache.entries = w.cache.entries ++ learned
  asked : w'.asked = w.asked ++ learned.map Prod.fst
  once : (learned.map Prod.fst).Nodup
  unknown : ∀ navigation ∈ learned.map Prod.fst, navigation ∉ w.cache.relations

/-- From the first workspace to the second one some keys were learned. -/
def Learns (w w' : Workspace) : Prop := ∃ learned, w.LearnsList w' learned

variable {w w' w'' : Workspace}

theorem LearnsList.relations {learned : List (FieldId × GuardKey)} (h : w.LearnsList w' learned) :
    w'.cache.relations = w.cache.relations ++ learned.map Prod.fst := by
  simp [KeyCache.relations, h.entries]

/-- When a key was looked up, it was known neither from before nor from what had been learned until
then. -/
theorem LearnsList.unknown_when_asked {before after : List (FieldId × GuardKey)}
    {entry : FieldId × GuardKey} (h : w.LearnsList w' (before ++ entry :: after)) :
    KeyCache.get? ⟨w.cache.entries ++ before⟩ entry.1 = none := by
  have earlier : entry.1 ∉ before.map Prod.fst := by
    have once := h.once
    rw [List.map_append, List.map_cons, List.nodup_append] at once
    exact fun hm => once.2.2 entry.1 hm entry.1 (by simp) rfl
  have start : entry.1 ∉ w.cache.relations := h.unknown entry.1 (by simp)
  rw [KeyCache.get?_eq_none_iff, KeyCache.relations, List.map_append, List.mem_append]
  exact not_or.mpr ⟨start, earlier⟩

theorem learns_of_same (cache : w'.cache = w.cache) (asked : w'.asked = w.asked) : w.Learns w' :=
  ⟨[], by simp [cache], by simp [asked], by simp, by simp⟩

theorem Learns.trans (h : w.Learns w') (h' : w'.Learns w'') : w.Learns w'' := by
  obtain ⟨first, h⟩ := h
  obtain ⟨second, h'⟩ := h'
  have later : ∀ navigation ∈ second.map Prod.fst,
      navigation ∉ w.cache.relations ∧ navigation ∉ first.map Prod.fst := by
    intro navigation hn
    have unknown := h'.unknown navigation hn
    rwa [h.relations, List.mem_append, not_or] at unknown
  refine ⟨first ++ second, ?_, ?_, ?_, ?_⟩
  · rw [h'.entries, h.entries, List.append_assoc]
  · rw [h'.asked, h.asked, List.map_append, List.append_assoc]
  · rw [List.map_append, List.nodup_append]
    exact ⟨h.once, h'.once, fun a ha b hb hab => (later b hb).2 (hab ▸ ha)⟩
  · intro navigation hn
    rcases List.mem_append.mp (List.map_append ▸ hn) with hn | hn
    · exact h.unknown navigation hn
    · exact (later navigation hn).1

/-- A known key is handed out as it is, whatever the look-up would answer, and nothing is asked. -/
theorem guardKey_of_known {navigation : FieldId} {key : GuardKey}
    (known : w.cache.get? navigation = some key) (keys : FieldId → GuardKey) :
    guardKey keys navigation w = (.ok key, w) := by
  simp [guardKey, KeyCache.fetch_of_some known keys]

/-- A single question asks only for a key that is not known. -/
theorem learns_guardKey (keys : FieldId → GuardKey) (navigation : FieldId) :
    (guardKey keys navigation).Leaves Learns := by
  intro w
  cases h : w.cache.get? navigation with
  | some key =>
      rw [guardKey_of_known h keys]
      exact learns_of_same rfl rfl
  | none =>
      have looked := KeyCache.fetch_of_none h keys
      refine ⟨[(navigation, keys navigation)], ?_, ?_, ?_, ?_⟩
      · simp [guardKey, looked]
      · simp [guardKey, looked]
      · simp
      · simpa using KeyCache.get?_eq_none_iff.mp h

end Workspace

/-- What is asked of composers and of the cache that they share. -/
inductive Request where
  | composeFunc (c : Composer) (depth : Nat) (f : Func)
  | compose (c : Composer) (depth : Nat) (f : Func)
  /-- The key of a relation, with an answer for the case that it is not known. -/
  | key (answer : FieldId → GuardKey) (navigation : FieldId)
  /-- Functions made in between use up identities and labels. -/
  | make (params labels : Nat)

/-- The workspace that a request leaves behind, however it ends. -/
def Request.serve : Request → Workspace → Workspace
  | .composeFunc c depth f, w => (c.composeFunc depth f w).2
  | .compose c depth f, w => (c.compose depth f w).2
  | .key answer navigation, w => (Workspace.guardKey answer navigation w).2
  | .make params labels, w =>
      { w with nextParam := w.nextParam + params, nextLabel := w.nextLabel + labels }

/-- The workspace after the requests, one after the other. -/
def Workspace.serve (w : Workspace) (requests : List Request) : Workspace :=
  requests.foldl (fun w request => request.serve w) w

namespace Composer

/-- Each step of a composer learns keys, if it changes anything about them. -/
theorem allows_learns (c : Composer) : c.Allows Workspace.Learns where
  refl _ := Workspace.learns_of_same rfl rfl
  trans h h' := h.trans h'
  params _ _ := Workspace.learns_of_same rfl rfl
  label _ := Workspace.learns_of_same rfl rfl
  key _ navigation := Workspace.learns_guardKey c.keys navigation

/-- A composer without guards neither asks for a key nor learns one. -/
theorem allows_same_keys {c : Composer} (h : c.policy = .disabled) :
    c.Allows fun w w' => w'.cache = w.cache ∧ w'.asked = w.asked where
  refl _ := ⟨rfl, rfl⟩
  trans h h' := ⟨h'.1.trans h.1, h'.2.trans h.2⟩
  params _ _ := ⟨rfl, rfl⟩
  label _ := ⟨rfl, rfl⟩
  key policy := by
    rw [h] at policy
    cases policy

end Composer

namespace Workspace

/-- However a request ends, it has only learned keys. -/
theorem learns_request (request : Request) (w : Workspace) : w.Learns (request.serve w) := by
  cases request with
  | composeFunc c depth f => exact c.allows_learns.composeFunc depth f w
  | compose c depth f => exact c.allows_learns.compose depth f w
  | key answer navigation => exact learns_guardKey answer navigation w
  | make params labels => exact learns_of_same rfl rfl

theorem learns_serve (w : Workspace) (requests : List Request) : w.Learns (w.serve requests) := by
  induction requests generalizing w with
  | nil => exact learns_of_same rfl rfl
  | cons request requests ih => exact (learns_request request w).trans (ih (request.serve w))

/-- A known key stays as it is. -/
theorem get?_serve {w : Workspace} {navigation : FieldId} {key : GuardKey}
    (known : w.cache.get? navigation = some key) (requests : List Request) :
    (w.serve requests).cache.get? navigation = some key := by
  obtain ⟨learned, h⟩ := learns_serve w requests
  have kept := KeyCache.get?_append_of_some known learned
  rwa [← h.entries] at kept

/-- After any requests, whoever asks for a known key is given that key, whatever look-up comes with
the question, and the look-up is not applied. -/
theorem guardKey_serve {w : Workspace} {navigation : FieldId} {key : GuardKey}
    (known : w.cache.get? navigation = some key) (requests : List Request)
    (keys : FieldId → GuardKey) :
    guardKey keys navigation (w.serve requests) = (.ok key, w.serve requests) :=
  guardKey_of_known (get?_serve known requests) keys

/-- Over a whole run keys are only added to the cache, each one when it was looked up. It was not
known at that moment, so none is looked up twice, and what is known stays as it is. From an empty
cache on, the known keys are exactly those that were looked up. Composers without guards look
nothing up and leave the cache alone. -/
theorem serve_memoized (w : Workspace) (requests : List Request) :
    (∃ learned : List (FieldId × GuardKey),
      (w.serve requests).cache.entries = w.cache.entries ++ learned ∧
      (w.serve requests).asked = w.asked ++ learned.map Prod.fst ∧
      (learned.map Prod.fst).Nodup ∧
      ∀ before entry after, learned = before ++ entry :: after →
        KeyCache.get? ⟨w.cache.entries ++ before⟩ entry.1 = none) ∧
    (∀ navigation key, w.cache.get? navigation = some key →
      (w.serve requests).cache.get? navigation = some key) ∧
    (w.cache = {} → w.asked = [] →
      (∀ navigation, (w.serve requests).cache.get? navigation ≠ none ↔
        navigation ∈ (w.serve requests).asked) ∧
      (w.serve requests).asked.Nodup ∧
      (w.serve requests).cache.size = (w.serve requests).asked.length) ∧
    ∀ (schema : Schema) (keys : FieldId → GuardKey) (depth : Nat) (f : Func),
      let c : Composer := ⟨schema, keys, .disabled⟩
      ((c.composeFunc depth f w).2.cache = w.cache ∧ (c.composeFunc depth f w).2.asked = w.asked) ∧
        (c.compose depth f w).2.cache = w.cache ∧ (c.compose depth f w).2.asked = w.asked := by
  obtain ⟨learned, h⟩ := learns_serve w requests
  refine ⟨⟨learned, h.entries, h.asked, h.once, ?_⟩, ?_, ?_, ?_⟩
  · rintro before entry after rfl
    exact h.unknown_when_asked
  · exact fun navigation key known => get?_serve known requests
  · intro empty silent
    have same : (w.serve requests).cache.relations = (w.serve requests).asked := by
      rw [h.relations, h.asked, empty, silent]
      rfl
    refine ⟨fun navigation => ?_, ?_, ?_⟩
    · rw [ne_eq, KeyCache.get?_eq_none_iff, not_not, same]
    · rw [h.asked, silent]
      exact h.once
    · rw [← same, KeyCache.relations, List.length_map, KeyCache.size]
  · intro schema keys depth f c
    have quiet := Composer.allows_same_keys (c := c) rfl
    exact ⟨quiet.composeFunc depth f w, quiet.compose depth f w⟩

/-- A call that fails after it has learned a key, a direct question for a key that is known by then,
a composer without guards and a call that needs both keys: each of the two was looked up once. -/
theorem serve_memoized_spread :
    let w := Workspace.serve ⟨3, 1, {}, []⟩ [.composeFunc Composer.keyed 2 Composer.spread]
    let w' := w.serve [.composeFunc Composer.keyed 2 Composer.mistyped,
      .key (fun _ => .absent) ⟨⟨0⟩, 1⟩,
      .compose { Composer.keyed with policy := .disabled } 2 Composer.mistyped,
      .compose Composer.keyed 2 Composer.spread]
    w'.asked = [⟨⟨0⟩, 1⟩, ⟨⟨0⟩, 2⟩] ∧ w'.asked.Nodup ∧ w'.cache.size = w'.asked.length ∧
      w.cache.get? ⟨⟨0⟩, 1⟩ = some ⟨some ⟨⟨0⟩, 2⟩, true⟩ ∧
      w'.cache.get? ⟨⟨0⟩, 1⟩ = some ⟨some ⟨⟨0⟩, 2⟩, true⟩ := by
  intro w w'
  obtain ⟨_, _, fromEmpty, _⟩ := serve_memoized ⟨3, 1, {}, []⟩
    [.composeFunc Composer.keyed 2 Composer.spread,
      .composeFunc Composer.keyed 2 Composer.mistyped, .key (fun _ => .absent) ⟨⟨0⟩, 1⟩,
      .compose { Composer.keyed with policy := .disabled } 2 Composer.mistyped,
      .compose Composer.keyed 2 Composer.spread]
  have known : w.cache.get? ⟨⟨0⟩, 1⟩ = some ⟨some ⟨⟨0⟩, 2⟩, true⟩ := rfl
  exact ⟨rfl, (fromEmpty rfl rfl).2.1, (fromEmpty rfl rfl).2.2, known,
    (serve_memoized w _).2.1 _ _ known⟩

end Workspace

end RecordMapping
