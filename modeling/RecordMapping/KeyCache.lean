import RecordMapping.Schema.GuardKey

/-!
# A cache of guard keys

The cache remembers the guard key of each relation that was looked up. An entry is made once and
is never changed or removed.

## Implementation notes

Entries stand in the order in which they were made. Fetching says whether the look-up was asked,
so that the questions of a whole run can be counted.
-/

namespace RecordMapping

/-- The guard keys known so far. -/
structure KeyCache where
  entries : List (FieldId × GuardKey) := []

namespace KeyCache

/-- The key that is known for a relation. -/
def get? (cache : KeyCache) (navigation : FieldId) : Option GuardKey :=
  (cache.entries.find? fun entry => entry.1 = navigation).map Prod.snd

/-- The number of relations whose key is known. -/
def size (cache : KeyCache) : Nat := cache.entries.length

/-- Whether no key is known. -/
def isEmpty (cache : KeyCache) : Bool := cache.entries.isEmpty

/-- What fetching a key gives. -/
structure Fetched where
  key : GuardKey
  cache : KeyCache
  /-- Whether the look-up had to be asked. -/
  asked : Bool

/-- The known key of a relation, or else the answer of the look-up, which is then known. -/
def fetch (cache : KeyCache) (lookup : FieldId → GuardKey) (navigation : FieldId) : Fetched :=
  match cache.get? navigation with
  | some key => ⟨key, cache, false⟩
  | none =>
      let key := lookup navigation
      ⟨key, ⟨cache.entries ++ [(navigation, key)]⟩, true⟩

/-- The shape of the cache for a reader. -/
def outline (cache : KeyCache) : Text.Outline :=
  .record "NullableKeyCache"
    [.named "entries" (.table (cache.entries.map fun entry => .named entry.1.text entry.2.outline))]
    false

/-- A fetched key is known afterwards. -/
theorem get?_fetch_self (cache : KeyCache) (lookup : FieldId → GuardKey) (navigation : FieldId) :
    (cache.fetch lookup navigation).cache.get? navigation =
      some (cache.fetch lookup navigation).key := by
  unfold fetch
  split
  next key h => exact h
  next h =>
    have hn : cache.entries.find? (fun entry => entry.1 = navigation) = none := by
      simpa [get?] using h
    simp [get?, List.find?_append, hn]

/-- Fetching one key leaves every other as it was. -/
theorem get?_fetch_other (cache : KeyCache) (lookup : FieldId → GuardKey)
    {navigation other : FieldId} (h : other ≠ navigation) :
    (cache.fetch lookup navigation).cache.get? other = cache.get? other := by
  unfold fetch
  split
  · rfl
  · simp [get?, List.find?_append, Ne.symm h]

end KeyCache

end RecordMapping
