import ServerFractions.Proofs.Descriptor.Collection
import ServerFractions.TopLevel

/-!
# Entries under claiming and attaching

What the top-level entries hold after each operation, in terms of what they
held before. Keys stay distinct (`Distinct.claim`, `Distinct.attach`), and
neither keys nor children come to name a dependency twice (`Proper.claim`,
`Proper.attach`).
-/

namespace ServerFractions.TopLevel

variable {t : TopLevel} {d key child : Descriptor} {children : List Descriptor} {e : Entry}

/-- Listed as a key or as a child. -/
def Carries (t : TopLevel) (d : Descriptor) : Prop :=
  d ∈ t.keys ∨ ∃ e ∈ t.entries, d ∈ e.children

/-- No two entries have the same key. -/
def Distinct (t : TopLevel) : Prop :=
  (t.entries.map (·.key.identity)).Nodup

theorem contains_iff : t.contains d = true ↔ ∃ e ∈ t.entries, e.key.identity = d.identity := by
  simp [contains]

theorem contains_eq_false_iff :
    t.contains d = false ↔ ∀ e ∈ t.entries, e.key.identity ≠ d.identity := by
  simp [contains]

theorem mem_keys : d ∈ t.keys ↔ ∃ e ∈ t.entries, e.key = d := by
  simp [keys]

theorem contains_of_mem_keys (h : d ∈ t.keys) : t.contains d = true := by
  obtain ⟨e, he, rfl⟩ := mem_keys.mp h
  exact contains_iff.mpr ⟨e, he, rfl⟩

theorem Distinct.get?_eq (h : t.Distinct) (he : e ∈ t.entries) :
    t.get? e.key = some e.children := by
  obtain ⟨e', hfound⟩ : ∃ e', t.entries.find? (·.key.same e.key) = some e' :=
    Option.isSome_iff_exists.mp (List.find?_isSome.mpr ⟨e, he, by simp⟩)
  have hkey : e'.key.identity = e.key.identity := by simpa using List.find?_some hfound
  have heq : e' = e := List.inj_on_of_nodup_map h (List.mem_of_find?_eq_some hfound) he hkey
  simp [get?, entry?, hfound, heq]

theorem exists_of_get?_eq_some (h : t.get? d = some children) :
    ∃ e ∈ t.entries, e.key.identity = d.identity ∧ e.children = children := by
  obtain ⟨e, he, hchildren⟩ := Option.map_eq_some_iff.mp h
  exact ⟨e, List.mem_of_find?_eq_some he, by simpa using List.find?_some he, hchildren⟩

theorem mem_claim : e ∈ (t.claim key children).2.entries ↔
    e ∈ t.entries ∨ t.contains key = false ∧ e = ⟨key, Descriptor.insertAll children []⟩ := by
  unfold claim
  split
  · rename_i h
    simp [h]
  · rename_i h
    simp [h]

theorem mem_attach : e ∈ (t.attach key child).entries ↔
    e ∈ t.entries ∧ e.key.identity ≠ key.identity ∨
    t.contains key = false ∧ e = ⟨key, [child]⟩ ∨
    ∃ e' ∈ t.entries, e'.key.identity = key.identity ∧
      e = { e' with children := Descriptor.insert child e'.children } := by
  unfold attach
  split
  · rename_i h
    simp only [List.mem_map, h, Bool.true_eq_false, false_and, false_or]
    constructor
    · rintro ⟨e', he', rfl⟩
      by_cases hkey : e'.key.identity = key.identity
      · exact .inr ⟨e', he', hkey, by simp [hkey]⟩
      · exact .inl (by simpa [hkey] using he')
    · rintro (⟨he, hkey⟩ | ⟨e', he', hkey, rfl⟩)
      · exact ⟨e, he, by simp [hkey]⟩
      · exact ⟨e', he', by simp [hkey]⟩
  · rename_i h
    rw [Bool.not_eq_true] at h
    have hnone := contains_eq_false_iff.mp h
    simp only [List.mem_append, List.mem_singleton, h, true_and]
    constructor
    · rintro (he | he)
      · exact .inl ⟨he, hnone e he⟩
      · exact .inr (.inl he)
    · rintro (⟨he, _⟩ | he | ⟨e', he', hkey, _⟩)
      · exact .inl he
      · exact .inr he
      · exact absurd hkey (hnone e' he')

theorem distinct_append (h : t.Distinct) (hnew : t.contains key = false) :
    Distinct ⟨t.entries ++ [⟨key, children⟩]⟩ := by
  have hnone := contains_eq_false_iff.mp hnew
  rw [Distinct, List.map_append]
  exact h.append (List.nodup_singleton _) (by simpa [List.disjoint_singleton] using hnone)

theorem Distinct.claim (h : t.Distinct) : (t.claim key children).2.Distinct := by
  unfold TopLevel.claim
  split
  · exact h
  · rename_i hnew
    exact distinct_append h (by simpa using hnew)

theorem Distinct.attach (h : t.Distinct) : (t.attach key child).Distinct := by
  unfold TopLevel.attach
  split
  · simpa [Distinct, Function.comp_def, apply_ite Entry.key] using h
  · rename_i hnew
    exact distinct_append h (by simpa using hnew)

/-- Neither keys nor the children of an entry name a dependency twice. -/
structure Proper (t : TopLevel) : Prop where
  keys : t.Distinct
  children : ∀ e ∈ t.entries, (e.children.map Descriptor.identity).Nodup

theorem Proper.empty : Proper .empty where
  keys := List.nodup_nil
  children := by simp [TopLevel.empty]

theorem Proper.claim (h : t.Proper) : (t.claim key children).2.Proper where
  keys := h.keys.claim
  children e he := by
    rcases mem_claim.mp he with he | ⟨_, rfl⟩
    · exact h.children e he
    · exact Descriptor.nodup_insertAll List.nodup_nil

theorem Proper.attach (h : t.Proper) : (t.attach key child).Proper where
  keys := h.keys.attach
  children e he := by
    rcases mem_attach.mp he with ⟨he, _⟩ | ⟨_, rfl⟩ | ⟨e', he', _, rfl⟩
    · exact h.children e he
    · simp
    · exact Descriptor.nodup_insert (h.children e' he')

end ServerFractions.TopLevel
