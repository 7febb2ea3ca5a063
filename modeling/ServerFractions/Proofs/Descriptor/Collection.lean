import Mathlib.Data.List.Nodup
import ServerFractions.Descriptor

/-!
# Collections of descriptors

What a collection holds after descriptors were inserted, in terms of what it
held before. It keeps the first descriptor of an identity, whatever file comes
with a later one (`mem_insertAll`, `collects_insertAll`).
-/

namespace ServerFractions.Descriptor

variable {d e x : Descriptor} {ds new : List Descriptor}

-- ---------------------------------------------------------------------------
-- Members
-- ---------------------------------------------------------------------------

theorem same_eq_false_iff : d.same e = false ↔ d.identity ≠ e.identity := by
  rw [Bool.eq_false_iff, Ne, same_iff]

theorem mem_insert :
    x ∈ insert d ds ↔ x ∈ ds ∨ x = d ∧ ∀ e ∈ ds, e.identity ≠ d.identity := by
  unfold insert
  split
  · rename_i h
    obtain ⟨e, he, hde⟩ := List.any_eq_true.mp h
    constructor
    · exact .inl
    · rintro (hx | ⟨rfl, hnone⟩)
      · exact hx
      · exact absurd (same_iff.mp hde).symm (hnone e he)
  · rename_i h
    have hnone : ∀ e ∈ ds, e.identity ≠ d.identity := fun e he heq =>
      h (List.any_eq_true.mpr ⟨e, he, same_iff.mpr heq.symm⟩)
    simp only [List.mem_append, List.mem_singleton]
    exact or_congr_right ⟨fun hx => ⟨hx, hnone⟩, And.left⟩

theorem insertAll_append {new' : List Descriptor} :
    insertAll (new ++ new') ds = insertAll new' (insertAll new ds) :=
  List.foldl_append

theorem mem_insertAll : x ∈ insertAll new ds ↔
    x ∈ ds ∨ (∀ e ∈ ds, e.identity ≠ x.identity) ∧ new.find? x.same = some x := by
  induction new generalizing ds with
  | nil => simp [insertAll]
  | cons d new ih =>
    rw [show insertAll (d :: new) ds = insertAll new (insert d ds) from rfl, ih]
    by_cases hxd : x.identity = d.identity
    · rw [List.find?_cons_of_pos (same_iff.mpr hxd)]
      -- `d` stands for this identity from here on, so `new` adds nothing to it.
      have hlater : ¬ ∀ e ∈ insert d ds, e.identity ≠ x.identity := by
        intro h
        by_cases hd : ∃ e ∈ ds, e.identity = d.identity
        · obtain ⟨e, he, hed⟩ := hd
          exact h e (mem_insert.mpr (.inl he)) (hed.trans hxd.symm)
        · exact h d (mem_insert.mpr (.inr ⟨rfl, by simpa using hd⟩)) hxd.symm
      rw [or_iff_left (fun h => hlater h.1), mem_insert]
      refine or_congr_right ⟨?_, ?_⟩
      · rintro ⟨rfl, hnone⟩
        exact ⟨hnone, rfl⟩
      · rintro ⟨hnone, hd⟩
        cases hd
        exact ⟨rfl, hnone⟩
    · rw [List.find?_cons_of_neg (mt same_iff.mp hxd)]
      have hne : x ≠ d := fun h => hxd (congrArg identity h)
      simp only [mem_insert, hne, false_and, or_false]
      refine or_congr_right (and_congr_left fun _ => ?_)
      constructor
      · exact fun h e he => h e (.inl he)
      · rintro h e (he | ⟨rfl, _⟩)
        · exact h e he
        · exact Ne.symm hxd

theorem mem_insertAll_nil : x ∈ insertAll new [] ↔ new.find? x.same = some x := by
  simp [mem_insertAll]

theorem mem_insertAll_nil_of_inj
    (h : ∀ d ∈ new, ∀ e ∈ new, d.identity = e.identity → d = e) :
    d ∈ insertAll new [] ↔ d ∈ new := by
  rw [mem_insertAll_nil]
  constructor
  · exact List.mem_of_find?_eq_some
  · intro hd
    obtain ⟨e, he⟩ : ∃ e, new.find? d.same = some e :=
      Option.isSome_iff_exists.mp (List.find?_isSome.mpr ⟨d, hd, by simp⟩)
    have hsame : d.identity = e.identity := by simpa using List.find?_some he
    rw [he, h d hd e (List.mem_of_find?_eq_some he) hsame]

-- ---------------------------------------------------------------------------
-- Identities
-- ---------------------------------------------------------------------------

theorem mem_map_identity_insert {i : Identity} :
    i ∈ (insert d ds).map identity ↔ i ∈ ds.map identity ∨ i = d.identity := by
  unfold insert
  split
  · rename_i h
    obtain ⟨e, he, hde⟩ := List.any_eq_true.mp h
    have hd : d.identity ∈ ds.map identity := List.mem_map.mpr ⟨e, he, (same_iff.mp hde).symm⟩
    exact ⟨.inl, fun hi => hi.elim id (· ▸ hd)⟩
  · simp

theorem nodup_insert (h : (ds.map identity).Nodup) : ((insert d ds).map identity).Nodup := by
  unfold insert
  split
  · exact h
  · rename_i hnew
    rw [List.map_append]
    refine h.append (List.nodup_singleton _) (List.disjoint_singleton.mpr fun hd => hnew ?_)
    obtain ⟨e, he, hde⟩ := List.mem_map.mp hd
    exact List.any_eq_true.mpr ⟨e, he, same_iff.mpr hde.symm⟩

theorem mem_map_identity_insertAll {i : Identity} :
    i ∈ (insertAll new ds).map identity ↔ i ∈ ds.map identity ∨ i ∈ new.map identity := by
  induction new generalizing ds with
  | nil => simp [insertAll]
  | cons d new ih =>
    rw [show insertAll (d :: new) ds = insertAll new (insert d ds) from rfl, ih,
      mem_map_identity_insert, List.map_cons, List.mem_cons, or_assoc]

theorem nodup_insertAll (h : (ds.map identity).Nodup) :
    ((insertAll new ds).map identity).Nodup := by
  induction new generalizing ds with
  | nil => exact h
  | cons d new ih => exact ih (nodup_insert h)

-- ---------------------------------------------------------------------------
-- What is collected from a list
-- ---------------------------------------------------------------------------

/-- `d` is in the list, and nothing before it is the same dependency. -/
def FirstOfIdentity (ds : List Descriptor) (d : Descriptor) : Prop :=
  ∃ before after, ds = before ++ d :: after ∧ ∀ e ∈ before, e.identity ≠ d.identity

/-- The collection has the first of each identity of the list, and nothing else. -/
structure Collects (given ds : List Descriptor) : Prop where
  nodup : (ds.map identity).Nodup
  mem_iff : ∀ d, d ∈ ds ↔ FirstOfIdentity given d

theorem collects_insertAll : Collects ds (insertAll ds []) where
  nodup := nodup_insertAll .nil
  mem_iff d := by
    have hother : ∀ e, (!d.same e) = true ↔ e.identity ≠ d.identity := by
      intro e
      rw [Bool.not_eq_true', same_eq_false_iff, ne_comm]
    rw [mem_insertAll_nil, List.find?_eq_some_iff_append, FirstOfIdentity]
    simp only [hother, same_iff, true_and]

end ServerFractions.Descriptor
