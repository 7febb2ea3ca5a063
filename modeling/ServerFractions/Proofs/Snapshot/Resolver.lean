import ServerFractions.Proofs.Except
import ServerFractions.Snapshot.Resolver

/-!
# What a batch is answered with

A batch is answered exactly when each of its requests is, and then with the
blocks of the requests one after the other (`resolver_eq_ok_iff`).
-/

namespace ServerFractions

namespace Snapshot

variable {s : Snapshot} {batch : Batch} {found : List ResolvedArtifact} {a : ResolvedArtifact}

theorem resolver_eq_ok_iff : s.resolver batch = .ok found ↔ ∃ blocks,
    List.Forall₂ (fun r block => s.resolveRequest batch.transitive r = .ok block)
      batch.requests blocks ∧ found = blocks.flatten := by
  simp only [resolver, ← mapM_eq_ok_iff]
  cases batch.requests.mapM (s.resolveRequest batch.transitive) with
  | error e => simp [bind, Except.bind]
  | ok blocks => simp [bind, Except.bind, pure, Except.pure, eq_comm]

theorem exists_resolver_ok : (∃ found, s.resolver batch = .ok found) ↔
    ∀ r ∈ batch.requests, ∃ block, s.resolveRequest batch.transitive r = .ok block := by
  simp only [resolver_eq_ok_iff]
  constructor
  · rintro ⟨_, blocks, hblocks, _⟩ r hr
    obtain ⟨i, hi, rfl⟩ := List.getElem_of_mem hr
    exact ⟨_, hblocks.get hi (hblocks.length_eq ▸ hi)⟩
  · intro h
    choose! block hblock using h
    refine ⟨_, batch.requests.map block, ?_, rfl⟩
    rw [List.forall₂_map_right_iff, List.forall₂_same]
    exact hblock

theorem mem_resolver (h : s.resolver batch = .ok found) : a ∈ found ↔
    ∃ r ∈ batch.requests, ∃ block, s.resolveRequest batch.transitive r = .ok block ∧
      a ∈ block := by
  obtain ⟨blocks, hblocks, rfl⟩ := resolver_eq_ok_iff.mp h
  rw [List.mem_flatten]
  clear h
  generalize batch.requests = requests at hblocks
  induction hblocks with
  | nil => simp
  | @cons r block rs blocks hblock _ ih =>
    simp only [List.mem_cons, exists_eq_or_imp, ih, hblock, Except.ok.injEq, exists_eq_left']

end Snapshot

end ServerFractions
