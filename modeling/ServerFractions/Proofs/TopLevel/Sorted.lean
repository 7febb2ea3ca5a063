import Mathlib.Data.List.Forall2
import ServerFractions.Proofs.Descriptor
import ServerFractions.Proofs.TopLevel

/-!
# The canonical view

The canonical view of a result lists the same entries in ascending order
(`Proper.rearranges_sorted`, `Proper.ascending_sorted`), and it does not depend
on the order in which entries and children were met (`Rearranges.sorted_eq`).
-/

namespace ServerFractions

namespace Descriptor

variable {ds es : List Descriptor}

theorem ascending_sort (h : (ds.map identity).Nodup) :
    (sort ds).Pairwise fun d e => d.identity.Before e.identity :=
  Identity.pairwise_mergeSort_before h

theorem sort_eq_of_perm (hperm : ds.Perm es) (h : (ds.map identity).Nodup) : sort es = sort ds := by
  have hes : (es.map identity).Nodup := (hperm.map identity).nodup_iff.mp h
  refine Identity.eq_of_perm_of_before ?_ (ascending_sort hes) (ascending_sort h)
  exact (List.mergeSort_perm es notAfter).trans (hperm.symm.trans (List.mergeSort_perm ds notAfter).symm)

/-- There is one ascending list of what a collection holds. -/
theorem eq_sort_of_ascending (hascending : ds.Pairwise fun d e => d.identity.Before e.identity)
    (h : (es.map identity).Nodup) (hsame : ∀ d, d ∈ ds ↔ d ∈ es) : ds = sort es := by
  have hds : ds.Nodup := by
    refine hascending.imp ?_
    rintro d _ hbefore rfl
    exact Identity.Before.irrefl hbefore
  have hperm : ds.Perm es := (List.perm_ext_iff_of_nodup hds (.of_map _ h)).mpr hsame
  exact Identity.eq_of_perm_of_before (hperm.trans (List.mergeSort_perm es notAfter).symm)
    hascending (ascending_sort h)

end Descriptor

namespace TopLevel

variable {t u : TopLevel}

/-- The same key, with the children in another order. -/
structure Entry.Rearranges (e e' : Entry) : Prop where
  key : e'.key = e.key
  children : e.children.Perm e'.children

/-- Both hold the same entries, in another order and with their children in
another order. -/
def Rearranges (t u : TopLevel) : Prop :=
  ∃ entries, List.Forall₂ Entry.Rearranges t.entries entries ∧ entries.Perm u.entries

/-- Keys in strictly ascending order, and the children of each entry as well. -/
structure Ascending (es : List Entry) : Prop where
  keys : es.Pairwise fun e e' => e.key.identity.Before e'.key.identity
  children : ∀ e ∈ es, e.children.Pairwise fun d d' => d.identity.Before d'.identity

def Entry.sorted (e : Entry) : Entry :=
  { e with children := Descriptor.sort e.children }

theorem sorted_eq_mergeSort :
    t.sorted = (t.entries.map Entry.sorted).mergeSort fun e e' => e.key.notAfter e'.key := rfl

theorem rearranges_sorted : t.Rearranges ⟨t.sorted⟩ := by
  refine ⟨t.entries.map Entry.sorted, ?_, (List.mergeSort_perm _ _).symm⟩
  rw [List.forall₂_map_right_iff, List.forall₂_same]
  exact fun e _ => ⟨rfl, (List.mergeSort_perm e.children Descriptor.notAfter).symm⟩

theorem Distinct.ascending_sorted (h : t.Distinct) :
    t.sorted.Pairwise fun e e' => e.key.identity.Before e'.key.identity := by
  refine Identity.pairwise_mergeSort_before (f := fun e : Entry => e.key.identity) ?_
  simpa [Distinct, Entry.sorted, Function.comp_def] using h

theorem Proper.ascending_sorted (h : t.Proper) : Ascending t.sorted where
  keys := h.keys.ascending_sorted
  children e he := by
    rw [sorted_eq_mergeSort, List.mem_mergeSort] at he
    obtain ⟨e', he', rfl⟩ := List.mem_map.mp he
    exact Descriptor.ascending_sort (h.children e' he')

theorem map_key_eq {es es' : List Entry} (h : List.Forall₂ Entry.Rearranges es es') :
    es'.map (·.key) = es.map (·.key) := by
  induction h with
  | nil => rfl
  | cons he _ ih => simp [he.key, ih]

theorem map_sorted_eq {es es' : List Entry} (h : List.Forall₂ Entry.Rearranges es es')
    (hdistinct : ∀ e ∈ es, (e.children.map Descriptor.identity).Nodup) :
    es'.map Entry.sorted = es.map Entry.sorted := by
  induction h with
  | nil => rfl
  | cons he _ ih =>
    rw [List.forall_mem_cons] at hdistinct
    simp [Entry.sorted, he.key, Descriptor.sort_eq_of_perm he.children hdistinct.1, ih hdistinct.2]

theorem Rearranges.keys_perm (h : t.Rearranges u) : t.keys.Perm u.keys := by
  obtain ⟨entries, hentries, hperm⟩ := h
  rw [keys, ← map_key_eq hentries]
  exact hperm.map _

theorem Rearranges.distinct (h : t.Rearranges u) (ht : t.Distinct) : u.Distinct := by
  have hkeys := (h.keys_perm.map Descriptor.identity).nodup_iff
  simp only [keys, List.map_map] at hkeys
  exact hkeys.mp ht

open scoped List in
/-- The canonical view is the same whatever the order of entries and children. -/
theorem Rearranges.sorted_eq (h : t.Rearranges u) (ht : t.Proper) : u.sorted = t.sorted := by
  refine Identity.eq_of_perm_of_before (f := fun e : Entry => e.key.identity) ?_
    (h.distinct ht.keys).ascending_sorted ht.keys.ascending_sorted
  obtain ⟨entries, hentries, hperm⟩ := h
  calc u.sorted
    _ ~ u.entries.map Entry.sorted := List.mergeSort_perm _ _
    _ ~ entries.map Entry.sorted := (hperm.map _).symm
    _ = t.entries.map Entry.sorted := map_sorted_eq hentries ht.children
    _ ~ t.sorted := (List.mergeSort_perm _ _).symm

end TopLevel

end ServerFractions
