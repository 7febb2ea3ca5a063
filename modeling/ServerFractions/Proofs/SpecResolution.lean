import ServerFractions.Proofs.Descriptor.Collection
import ServerFractions.Proofs.ProjectIndex
import ServerFractions.Proofs.Snapshot.Resolver
import ServerFractions.SpecResolution

/-!
# What a list of specifications resolves to

Each specification is kept, asked of the resolver or left out by itself, given
the projects that are seen through the cache (`value_sort`). The answer is what
is kept together with what the one batch finds (`answer_resolveSpecs`), so
neither the order of the list nor its repetitions matter
(`answers_of_same_specs`).
-/

namespace ServerFractions.SpecResolution

open Descriptor (insertAll identity)

variable {r : Registry} {s : Snapshot} {policy : SpecPolicy} {l : Lookups} {c c' : Cache}
  {spec : ArtifactSpec} {specs specs' : List ArtifactSpec} {st : Sorting} {i : Identity}
  {found ds ds' : List Descriptor}

-- ---------------------------------------------------------------------------
-- One specification
-- ---------------------------------------------------------------------------

/-- The descriptor of a specification that is kept as it is. -/
def kept? (policy : SpecPolicy) (l : Lookups) (spec : ArtifactSpec) : Option Descriptor :=
  match policy.disposition spec (l.find spec.coordinates).isSome with
  | .passThrough => some spec.descriptor
  | _ => none

/-- What is asked of the resolver for a specification. -/
def request? (policy : SpecPolicy) (l : Lookups) (spec : ArtifactSpec) : Option Request :=
  match policy.disposition spec (l.find spec.coordinates).isSome with
  | .resolveProject => (l.find spec.coordinates).map .project
  | .resolveExternal => some (.external spec)
  | _ => none

theorem value_add : (st.add policy (l.find spec.coordinates) spec).value =
    { kept := insertAll (kept? policy l spec).toList st.kept
      requests := st.requests ++ (request? policy l spec).toList } := by
  unfold Sorting.add kept? request?
  cases policy.disposition spec (l.find spec.coordinates).isSome with
  | skip => simp [insertAll]
  | passThrough => simp [insertAll]
  | resolveProject => simp [insertAll]
  | resolveExternal => simp [insertAll]

-- ---------------------------------------------------------------------------
-- All specifications
-- ---------------------------------------------------------------------------

theorem sort_cons : (sort r policy (spec :: specs) st c).value =
    (sort r policy specs (st.add policy ((r.seen c).find spec.coordinates) spec).value
      (ProjectIndex.find ⟨r, c⟩ spec.coordinates).value.2).value := by
  simp only [sort, Logged.value_bind, ProjectIndex.value_find]

theorem filterMap_cons_eq {β : Type} (f : ArtifactSpec → Option β) :
    (spec :: specs).filterMap f = (f spec).toList ++ specs.filterMap f := by
  cases h : f spec with
  | none => simp [h]
  | some b => simp [h]

theorem value_sort (policy : SpecPolicy) (specs : List ArtifactSpec) (st : Sorting) :
    (sort r policy specs st c).value.1 =
    { kept := insertAll (specs.filterMap (kept? policy (r.seen c))) st.kept
      requests := st.requests ++ specs.filterMap (request? policy (r.seen c)) } := by
  induction specs generalizing st c with
  | nil => simp [sort, insertAll]
  | cons spec specs ih =>
    rw [sort_cons, ih, (ProjectIndex.fills_find spec.coordinates).seen_eq, value_add,
      filterMap_cons_eq, filterMap_cons_eq, List.append_assoc, Descriptor.insertAll_append]

theorem fills_sort : r.Fills c (sort r policy specs st c).value.2 := by
  induction specs generalizing st c with
  | nil => exact .refl
  | cons spec specs ih =>
    rw [sort_cons]
    exact (ProjectIndex.fills_find spec.coordinates).trans ih

/-- The descriptors that are kept as they are, and the batch that all other
specifications make up. -/
def keptOf (policy : SpecPolicy) (l : Lookups) (specs : List ArtifactSpec) : List Descriptor :=
  insertAll (specs.filterMap (kept? policy l)) []

def batchOf (policy : SpecPolicy) (l : Lookups) (specs : List ArtifactSpec) : Batch where
  requests := specs.filterMap (request? policy l)
  transitive := policy.transitive

@[simp] theorem transitive_batchOf : (batchOf policy l specs).transitive = policy.transitive := rfl

theorem value_sort_nil : (sort r policy specs {} c).value.1 =
    { kept := keptOf policy (r.seen c) specs
      requests := (batchOf policy (r.seen c) specs).requests } :=
  value_sort policy specs {}

/-- The resolver is asked only where the batch holds a request. -/
theorem value_resolveSpecs {ε : Type} {resolver : Resolver ε} :
    (resolveSpecs r resolver policy (some specs) c).value =
      if (batchOf policy (r.seen c) specs).requests.isEmpty then
        { answer := .ok (keptOf policy (r.seen c) specs)
          cache := (sort r policy specs {} c).value.2 }
      else
        { answer := (resolver (batchOf policy (r.seen c) specs)).map fun found =>
            insertAll (found.map (·.descriptor)) (keptOf policy (r.seen c) specs)
          batches := [batchOf policy (r.seen c) specs]
          cache := (sort r policy specs {} c).value.2 } := by
  simp only [resolveSpecs, Logged.value_bind, value_sort_nil]
  split
  · rfl
  · rfl

/-- The answer is what is kept, and then what the resolver finds. A list that
asks for nothing is answered without the resolver, which would find nothing. -/
theorem answer_resolveSpecs :
    (resolveSpecs s.registry s.resolver policy (some specs) c).value.answer =
      (s.resolver (batchOf policy (s.registry.seen c) specs)).map fun found =>
        insertAll (found.map (·.descriptor)) (keptOf policy (s.registry.seen c) specs) := by
  rw [value_resolveSpecs]
  split
  · rename_i hempty
    have hnone : s.resolver (batchOf policy (s.registry.seen c) specs) = .ok [] := by
      rw [Snapshot.resolver_eq_ok_iff]
      exact ⟨[], by simpa using hempty, rfl⟩
    rw [hnone]
    rfl
  · rfl

theorem answer_eq_ok_iff :
    (resolveSpecs s.registry s.resolver policy (some specs) c).value.answer = .ok ds ↔
      ∃ found, s.resolver (batchOf policy (s.registry.seen c) specs) = .ok found ∧
        ds = insertAll (found.map (·.descriptor)) (keptOf policy (s.registry.seen c) specs) := by
  rw [answer_resolveSpecs]
  cases s.resolver (batchOf policy (s.registry.seen c) specs) with
  | error f => simp [Except.map]
  | ok found => simp [Except.map, eq_comm]

theorem exists_answer_ok :
    (∃ ds, (resolveSpecs s.registry s.resolver policy (some specs) c).value.answer = .ok ds) ↔
      ∃ found, s.resolver (batchOf policy (s.registry.seen c) specs) = .ok found := by
  simp only [answer_eq_ok_iff]
  rw [exists_comm]
  simp

theorem fills_resolveSpecs {resolver : Resolver} {specs? : Option (List ArtifactSpec)} :
    r.Fills c (resolveSpecs r resolver policy specs? c).value.cache := by
  cases specs? with
  | none => exact .refl
  | some specs =>
    simp only [resolveSpecs, Logged.value_bind]
    split
    · exact fills_sort
    · exact fills_sort

/-- The answer and the batch depend on the cache only through what is seen of
the projects. -/
theorem resolveSpecs_congr {resolver : Resolver} {specs? : Option (List ArtifactSpec)}
    (h : r.seen c = r.seen c') :
    (resolveSpecs r resolver policy specs? c).value.answer =
      (resolveSpecs r resolver policy specs? c').value.answer ∧
    (resolveSpecs r resolver policy specs? c).value.batches =
      (resolveSpecs r resolver policy specs? c').value.batches := by
  cases specs? with
  | none => exact ⟨rfl, rfl⟩
  | some specs =>
    simp only [resolveSpecs, Logged.value_bind, value_sort, h]
    split
    · exact ⟨rfl, rfl⟩
    · exact ⟨rfl, rfl⟩

-- ---------------------------------------------------------------------------
-- Order and repetition
-- ---------------------------------------------------------------------------

theorem mem_requests_of_same (h : ∀ x, x ∈ specs ↔ x ∈ specs') {request : Request} :
    request ∈ (batchOf policy l specs).requests ↔ request ∈ (batchOf policy l specs').requests := by
  simp only [batchOf, List.mem_filterMap, h]

theorem mem_keptOf_of_same (h : ∀ x, x ∈ specs ↔ x ∈ specs') :
    i ∈ (keptOf policy l specs).map identity ↔ i ∈ (keptOf policy l specs').map identity := by
  rw [keptOf, keptOf, Descriptor.mem_map_identity_insertAll, Descriptor.mem_map_identity_insertAll]
  simp only [List.mem_map, List.mem_filterMap, h]

theorem mem_found_of_same (h : ∀ x, x ∈ specs ↔ x ∈ specs') {found found' : List ResolvedArtifact}
    (hfound : s.resolver (batchOf policy l specs) = .ok found)
    (hfound' : s.resolver (batchOf policy l specs') = .ok found') {a : ResolvedArtifact} :
    a ∈ found ↔ a ∈ found' := by
  rw [Snapshot.mem_resolver hfound, Snapshot.mem_resolver hfound']
  simp only [mem_requests_of_same h, transitive_batchOf]

theorem exists_resolver_ok_of_same (h : ∀ x, x ∈ specs ↔ x ∈ specs') :
    (∃ found, s.resolver (batchOf policy l specs) = .ok found) ↔
      ∃ found, s.resolver (batchOf policy l specs') = .ok found := by
  simp only [Snapshot.exists_resolver_ok, mem_requests_of_same h, transitive_batchOf]

/-- Two lists of the same specifications, in whatever order and however often,
are both answered or both refused, and the answers name the same dependencies,
each of them once. The second list may come later, with the cache that the
first one left. -/
theorem answers_of_same_specs (policy : SpecPolicy) (h : ∀ x, x ∈ specs ↔ x ∈ specs')
    (hseen : s.registry.seen c = s.registry.seen c') :
    ((∃ ds, (resolveSpecs s.registry s.resolver policy (some specs) c).value.answer = .ok ds) ↔
      ∃ ds', (resolveSpecs s.registry s.resolver policy (some specs') c').value.answer = .ok ds') ∧
    ∀ ds ds', (resolveSpecs s.registry s.resolver policy (some specs) c).value.answer = .ok ds →
      (resolveSpecs s.registry s.resolver policy (some specs') c').value.answer = .ok ds' →
      (ds.map identity).Perm (ds'.map identity) := by
  refine ⟨?_, fun ds ds' hds hds' => ?_⟩
  · rw [exists_answer_ok, exists_answer_ok, ← hseen]
    exact exists_resolver_ok_of_same h
  · obtain ⟨found, hfound, rfl⟩ := answer_eq_ok_iff.mp hds
    obtain ⟨found', hfound', rfl⟩ := answer_eq_ok_iff.mp hds'
    rw [← hseen] at hfound' ⊢
    have hkept : ∀ specs, ((keptOf policy (s.registry.seen c) specs).map identity).Nodup :=
      fun _ => Descriptor.nodup_insertAll .nil
    refine (List.perm_ext_iff_of_nodup (Descriptor.nodup_insertAll (hkept specs))
      (Descriptor.nodup_insertAll (hkept specs'))).mpr fun i => ?_
    rw [Descriptor.mem_map_identity_insertAll, Descriptor.mem_map_identity_insertAll,
      mem_keptOf_of_same h]
    simp only [List.map_map, List.mem_map, mem_found_of_same h hfound hfound']

/-- A project that leads to a module, and back. -/
def looped : Snapshot where
  document := {
    rootProject := "demo"
    projects := [{ coordinates := ⟨"org.acme", "app", "1"⟩ }]
    modules := [
      { coordinates := ⟨"org.acme", "app", "1"⟩, artifacts := [{}],
        children := ["org.acme:json:2"] },
      { coordinates := ⟨"org.acme", "json", "2"⟩,
        artifacts := [{}, { classifier := some "sources" }], children := ["org.acme:app:1"] }] }
  closed := Snapshot.Document.firstFault?_eq_none_iff.mp (by decide)

def appSpec : ArtifactSpec := { groupId := "org.acme", artifactId := "app", version := "1" }

def jsonSpec : ArtifactSpec := { groupId := "org.acme", artifactId := "json", version := "2" }

/-- The specifications of both modules, resolved with everything below them. -/
def loopedRun (specs : List ArtifactSpec) (c : Cache) : SpecResolution :=
  (resolveSpecs looped.registry looped.resolver {} (some specs) c).value

/-- `json` twice and on both sides of `app`, and then once with what the first
run left in the cache. -/
theorem looped_answers_same : ∃ ds ds',
    (loopedRun [jsonSpec, appSpec, jsonSpec] .empty).answer = .ok ds ∧
    (loopedRun [appSpec, jsonSpec]
      (loopedRun [jsonSpec, appSpec, jsonSpec] .empty).cache).answer = .ok ds' ∧
    (ds.map identity).Perm (ds'.map identity) := by
  have hsame : ∀ x, x ∈ [jsonSpec, appSpec, jsonSpec] ↔ x ∈ [appSpec, jsonSpec] := by
    simp only [List.mem_cons]
    tauto
  obtain ⟨hok, hperm⟩ := answers_of_same_specs (s := looped) {} hsame
    fills_resolveSpecs.seen_eq.symm
  have hfirst : ∃ ds, (loopedRun [jsonSpec, appSpec, jsonSpec] .empty).answer = .ok ds := by
    refine exists_answer_ok.mpr (Snapshot.exists_resolver_ok.mpr ?_)
    have hrequests : (batchOf {} (looped.registry.seen .empty) [jsonSpec, appSpec, jsonSpec]).requests =
        [.external jsonSpec, .project { coordinates := appSpec.coordinates }, .external jsonSpec] := by
      decide
    rw [hrequests]
    simp only [List.forall_mem_cons]
    exact ⟨⟨_, rfl⟩, ⟨_, rfl⟩, ⟨_, rfl⟩, by simp⟩
  obtain ⟨ds, hds⟩ := hfirst
  obtain ⟨ds', hds'⟩ := hok.mp ⟨ds, hds⟩
  exact ⟨ds, ds', hds, hds', hperm ds ds' hds hds'⟩

end ServerFractions.SpecResolution
