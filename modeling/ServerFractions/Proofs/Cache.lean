import Mathlib.Data.List.Perm.Subperm
import ServerFractions.Cache

/-!
# What a fetch does to a cache

A fetch gives the stored value, or else the computed one, and afterwards that
value is stored (`get?_fetch_self`). Entries under other keys stay as they are
(`get?_fetch_of_ne`), and no entry disappears (`mem_keys_fetch`).
-/

namespace ServerFractions.Cache

variable {α β : Type} {c c' : Cache} {kind : CacheKind α} {kind' : CacheKind β}
  {key key' : CacheKey} {v : Cached} {compute : Logged α}

def keys (c : Cache) : List CacheKey :=
  c.entries.map (·.1)

/-- No two entries have the same key. -/
def Distinct (c : Cache) : Prop :=
  c.keys.Nodup

theorem distinct_empty : Distinct empty := by
  simp [Distinct, keys, empty]

-- ---------------------------------------------------------------------------
-- Storing
-- ---------------------------------------------------------------------------

theorem get?_put_self {a : α} : (c.put key (kind.store a)).get? kind key = some a := by
  simp [put, get?, kind.view?_store]

theorem lookup_filter_ne {κ ν : Type} [BEq κ] [LawfulBEq κ] {k k' : κ} (h : k' ≠ k)
    (entries : List (κ × ν)) : (entries.filter (·.1 != k)).lookup k' = entries.lookup k' := by
  induction entries with
  | nil => rfl
  | cons entry entries ih =>
    obtain ⟨l, v⟩ := entry
    by_cases hl : l = k
    · have hne : (k' == k) = false := by simpa using h
      simp [hl, List.lookup_cons, hne, ih]
    · simp [hl, List.lookup_cons, ih]

theorem get?_put_of_ne (h : key' ≠ key) : (c.put key v).get? kind' key' = c.get? kind' key' := by
  have hne : (key' == key) = false := by simpa using h
  simp [put, get?, List.lookup_cons, hne, lookup_filter_ne h]

theorem mem_keys_put : key' ∈ (c.put key v).keys ↔ key' ∈ c.keys ∨ key' = key := by
  simp only [keys, put, List.map_cons, List.mem_cons, List.mem_map, List.mem_filter, bne_iff_ne]
  by_cases h : key' = key
  · simp [h]
  · simp only [h, false_or, or_false]
    constructor
    · rintro ⟨e, ⟨he, _⟩, rfl⟩
      exact ⟨e, he, rfl⟩
    · rintro ⟨e, he, rfl⟩
      exact ⟨e, ⟨he, h⟩, rfl⟩

theorem Distinct.put (h : c.Distinct) : (c.put key v).Distinct := by
  refine List.nodup_cons.mpr ⟨by simp, ?_⟩
  exact h.sublist (List.filter_sublist.map _)

theorem mem_keys_of_get? {a : α} (h : c.get? kind key = some a) : key ∈ c.keys := by
  obtain ⟨v, hv, _⟩ := Option.bind_eq_some_iff.mp h
  obtain ⟨before, after, hentries, _⟩ := List.lookup_eq_some_iff.mp hv
  simp [keys, hentries]

-- ---------------------------------------------------------------------------
-- Fetching
-- ---------------------------------------------------------------------------

theorem fetch_of_some {a : α} (h : c.get? kind key = some a) :
    c.fetch kind key compute = pure (a, c) := by
  simp [fetch, h]

theorem value_fetch_of_none (h : c.get? kind key = none) :
    (c.fetch kind key compute).value = (compute.value, c.put key (kind.store compute.value)) := by
  simp [fetch, h]

theorem value_fetch :
    (c.fetch kind key compute).value.1 = (c.get? kind key).getD compute.value := by
  cases h : c.get? kind key with
  | none => simp [value_fetch_of_none h]
  | some a => simp [fetch_of_some h]

theorem get?_fetch_self : (c.fetch kind key compute).value.2.get? kind key =
    some ((c.get? kind key).getD compute.value) := by
  cases h : c.get? kind key with
  | none => simp [value_fetch_of_none h, get?_put_self]
  | some a => simp [fetch_of_some h, h]

theorem get?_fetch_of_ne (h : key' ≠ key) :
    (c.fetch kind key compute).value.2.get? kind' key' = c.get? kind' key' := by
  cases hkey : c.get? kind key with
  | none => simp [value_fetch_of_none hkey, get?_put_of_ne h]
  | some a => simp [fetch_of_some hkey]

theorem mem_keys_fetch :
    key' ∈ (c.fetch kind key compute).value.2.keys ↔ key' ∈ c.keys ∨ key' = key := by
  cases h : c.get? kind key with
  | none => simp [value_fetch_of_none h, mem_keys_put]
  | some a =>
    have hmem := mem_keys_of_get? h
    simp only [fetch_of_some h, Logged.value_pure]
    exact ⟨.inl, fun hor => hor.elim id (· ▸ hmem)⟩

theorem Distinct.fetch (h : c.Distinct) : (c.fetch kind key compute).value.2.Distinct := by
  cases hkey : c.get? kind key with
  | none => simpa [value_fetch_of_none hkey] using h.put
  | some a => simpa [fetch_of_some hkey] using h

-- ---------------------------------------------------------------------------
-- Size
-- ---------------------------------------------------------------------------

theorem Distinct.size_le_of_subset (h : c.Distinct) {ks : List CacheKey} (hsub : c.keys ⊆ ks) :
    c.size ≤ ks.length := by
  have hlen := (List.Nodup.subperm h hsub).length_le
  simpa [keys, size] using hlen

end ServerFractions.Cache
