import ServerFractions.Proofs.FirstWithout
import ServerFractions.Proofs.Snapshot.Graph
import ServerFractions.Proofs.Snapshot.Resolver

/-!
# The blocks of a batch

A batch against a snapshot is refused for its first request that cannot be
answered, and else gives one block for each request (`resolver_decides`). A
block starts with the requested module. What follows are all artifacts of the
other modules below it, whatever the request asks of the module itself, and
also where they lead back to it. Nothing is said about the order of the modules
below.
-/

namespace ServerFractions

namespace Request

/-- The artifacts of the requested module that the request asks for. -/
def wants : Request → Artifact → Bool
  | .project _, _ => true
  | .external spec, a => a.type = spec.type ∧ a.classifier = spec.classifier

theorem wants_external {spec : ArtifactSpec} : wants (.external spec) = spec.accepts := by
  funext a
  simp [wants, ArtifactSpec.accepts, Bool.beq_eq_decide_eq]

theorem any_accepts_iff {spec : ArtifactSpec} {as : List Artifact} :
    as.any spec.accepts = true ↔
      ∃ a ∈ as, a.type = spec.type ∧ a.classifier = spec.classifier := by
  simp [ArtifactSpec.accepts]

end Request

namespace Snapshot

variable {s : Snapshot} {transitive : Bool} {r : Request} {m : ModuleEntry} {gav x : String}
  {below : List ModuleEntry} {block : List ResolvedArtifact} {a : ResolvedArtifact}

-- ---------------------------------------------------------------------------
-- What is collected
-- ---------------------------------------------------------------------------

theorem reaches_reverse_iff :
    Reaches (fun g => (s.children g).reverse) gav x ↔ Reaches s.children gav x := by
  simp only [Reaches, List.mem_reverse]

/-- The modules below that with the given gav, itself left out; none unless
`transitive`. -/
structure Below (s : Snapshot) (transitive : Bool) (gav : String) (below : List ModuleEntry) :
    Prop where
  nodup : below.Nodup
  mem_iff : ∀ k, k ∈ below ↔ transitive = true ∧ k.gav ≠ gav ∧ Reaches s.children gav k.gav ∧
    s.module? k.gav = some k

theorem exists_collect_eq (transitive : Bool) (hm : s.module? gav = some m) :
    ∃ below, s.Below transitive gav below ∧
      s.collect transitive gav = m.resolved ++ below.flatMap (·.resolved) := by
  cases transitive with
  | false => exact ⟨[], ⟨.nil, by simp⟩, by simp [collect, hm]⟩
  | true =>
    have hgav : gav ∈ s.document.gavs := exists_module?_iff.mp ⟨m, hm⟩
    have hnext : ∀ x, ∀ y ∈ (s.children x).reverse, y ∈ s.document.gavs :=
      fun x y hy => mem_gavs_of_mem_children (List.mem_reverse.mp hy)
    obtain ⟨rest, hrest⟩ : ∃ rest, preorder (fun g => (s.children g).reverse) s.document.gavs [gav] =
        gav :: rest := ⟨_, preorder_cons_of_mem _ [] hgav⟩
    have hnodup : (gav :: rest).Nodup := hrest ▸ nodup_preorder s.closed.modules_distinct
    have hmem : ∀ x, x ∈ gav :: rest ↔ Reaches s.children gav x := by
      intro x
      rw [← hrest, mem_preorder_iff_reaches hnext (List.forall_mem_singleton.mpr hgav)]
      simp [reaches_reverse_iff]
    refine ⟨rest.filterMap s.module?, ⟨?_, fun k => ?_⟩, ?_⟩
    · refine hnodup.of_cons.filterMap fun x y k hx hy => ?_
      exact (gav_of_module? hx).symm.trans (gav_of_module? hy)
    · rw [List.mem_filterMap]
      constructor
      · rintro ⟨x, hx, hk⟩
        obtain rfl := gav_of_module? hk
        have hne : k.gav ≠ gav := fun heq => (List.nodup_cons.mp hnodup).1 (heq ▸ hx)
        exact ⟨rfl, hne, (hmem _).mp (.tail _ hx), hk⟩
      · rintro ⟨_, hne, hreach, hk⟩
        exact ⟨k.gav, (List.mem_cons.mp ((hmem _).mpr hreach)).resolve_left hne, hk⟩
    · simp [collect, hrest, hm]

-- ---------------------------------------------------------------------------
-- One request
-- ---------------------------------------------------------------------------

/-- The snapshot has the requested module, and an external request finds the
artifact that it asks for. -/
def Answers (s : Snapshot) (r : Request) : Prop :=
  ∃ m, s.module? r.gav = some m ∧
    ∀ spec, r = .external spec →
      ∃ a ∈ m.artifacts, a.type = spec.type ∧ a.classifier = spec.classifier

/-- What a request is answered with. -/
structure Block (s : Snapshot) (transitive : Bool) (r : Request) (m : ModuleEntry)
    (below : List ModuleEntry) (block : List ResolvedArtifact) : Prop where
  module : s.module? r.gav = some m
  others : s.Below transitive r.gav below
  wanted : ∀ spec, r = .external spec → m.artifacts.filter r.wants ≠ []
  records : block = (m.artifacts.filter r.wants).map (⟨m.coordinates, ·⟩) ++
    below.flatMap fun k => k.artifacts.map (⟨k.coordinates, ·⟩)

theorem Below.ne_coordinates (h : s.Below transitive gav below) (hm : s.module? gav = some m)
    (ha : a ∈ below.flatMap (·.resolved)) : a.coordinates ≠ m.coordinates := by
  obtain ⟨k, hk, ha⟩ := List.mem_flatMap.mp ha
  obtain ⟨b, _, rfl⟩ := List.mem_map.mp ha
  intro heq
  exact ((h.mem_iff k).mp hk).2.1 ((congrArg Coordinates.gav heq).trans (gav_of_module? hm))

/-- The filter is about the requested module alone. -/
theorem Below.filter_eq (h : s.Below transitive gav below) (hm : s.module? gav = some m)
    {p : Artifact → Bool} :
    (m.resolved ++ below.flatMap (·.resolved)).filter
        (fun a => a.coordinates != m.coordinates || p a.artifact) =
      (m.artifacts.filter p).map (⟨m.coordinates, ·⟩) ++ below.flatMap (·.resolved) := by
  have hothers : ∀ a ∈ below.flatMap (·.resolved),
      (a.coordinates != m.coordinates || p a.artifact) = true := by
    intro a ha
    simp [h.ne_coordinates hm ha]
  have hown : ((fun a => a.coordinates != m.coordinates || p a.artifact) ∘
      fun b => (⟨m.coordinates, b⟩ : ResolvedArtifact)) = p := by
    funext b
    simp
  rw [List.filter_append, List.filter_eq_self.mpr hothers, ModuleEntry.resolved, List.filter_map,
    hown]

theorem resolveRequest_of_answers (h : s.Answers r) : ∃ m below block,
    s.resolveRequest transitive r = .ok block ∧ s.Block transitive r m below block := by
  obtain ⟨m, hm, hspec⟩ := h
  obtain ⟨below, hbelow, hcollect⟩ := exists_collect_eq transitive hm
  cases r with
  | project p =>
    have hall : m.artifacts.filter (Request.wants (.project p)) = m.artifacts :=
      List.filter_eq_self.mpr fun _ _ => rfl
    refine ⟨m, below, s.collect transitive (Request.project p).gav, ?_, hm, hbelow, by simp, ?_⟩
    · simp only [resolveRequest, hm]
    · rw [hcollect, hall]
      rfl
  | external spec =>
    have hfound := Request.any_accepts_iff.mpr (hspec spec rfl)
    refine ⟨m, below, (s.collect transitive (Request.external spec).gav).filter fun a =>
      a.coordinates != m.coordinates || spec.accepts a.artifact, ?_, hm, hbelow, fun _ _ => ?_, ?_⟩
    · simp only [resolveRequest, hm, hfound, if_true]
    · obtain ⟨a, ha, haccepts⟩ := List.any_eq_true.mp hfound
      rw [Request.wants_external]
      exact List.ne_nil_of_mem (List.mem_filter.mpr ⟨ha, haccepts⟩)
    · rw [hcollect, hbelow.filter_eq hm, Request.wants_external]
      rfl

theorem resolveRequest_of_not_answers (h : ¬ s.Answers r) :
    s.resolveRequest transitive r = .error (.unresolvedArtifact r.gav) := by
  cases hm : s.module? r.gav with
  | none => simp [resolveRequest, hm]
  | some m =>
    cases r with
    | project p => exact absurd ⟨m, hm, by simp⟩ h
    | external spec =>
      have hmissing : ¬ m.artifacts.any spec.accepts = true := by
        intro hfound
        refine h ⟨m, hm, ?_⟩
        rintro _ ⟨⟩
        exact Request.any_accepts_iff.mp hfound
      simp only [resolveRequest, hm, if_neg hmissing]

theorem exists_resolveRequest_ok :
    (∃ block, s.resolveRequest transitive r = .ok block) ↔ s.Answers r := by
  constructor
  · rintro ⟨block, hok⟩
    by_contra h
    simp [resolveRequest_of_not_answers h] at hok
  · intro h
    obtain ⟨_, _, block, hok, _⟩ := resolveRequest_of_answers h
    exact ⟨block, hok⟩

theorem resolveRequest_eq_error_iff {f : Fault} : s.resolveRequest transitive r = .error f ↔
    ¬ s.Answers r ∧ f = .unresolvedArtifact r.gav := by
  constructor
  · intro herror
    have h : ¬ s.Answers r := by
      intro h
      obtain ⟨_, hok⟩ := exists_resolveRequest_ok.mpr h
      cases herror.symm.trans hok
    cases herror.symm.trans (resolveRequest_of_not_answers h)
    exact ⟨h, rfl⟩
  · rintro ⟨h, rfl⟩
    exact resolveRequest_of_not_answers h

theorem exists_block (hok : s.resolveRequest transitive r = .ok block) :
    ∃ m below, s.Block transitive r m below block := by
  obtain ⟨m, below, block', hok', hblock⟩ :=
    resolveRequest_of_answers (exists_resolveRequest_ok.mp ⟨block, hok⟩)
  cases hok.symm.trans hok'
  exact ⟨m, below, hblock⟩

-- ---------------------------------------------------------------------------
-- A batch
-- ---------------------------------------------------------------------------

theorem resolver_eq_error_iff {batch : Batch} {f : Fault} : s.resolver batch = .error f ↔
    ∃ r, FirstWithout s.Answers batch.requests r ∧ f = .unresolvedArtifact r.gav := by
  have hmapM : s.resolver batch = .error f ↔
      batch.requests.mapM (s.resolveRequest batch.transitive) = .error f := by
    rw [resolver]
    cases batch.requests.mapM (s.resolveRequest batch.transitive) with
    | error e => simp [bind, Except.bind]
    | ok blocks => simp [bind, Except.bind, pure, Except.pure]
  simp only [hmapM, mapM_eq_error_iff fun _ => exists_resolveRequest_ok.symm,
    resolveRequest_eq_error_iff]
  refine exists_congr fun r => and_congr_right fun hfirst => and_iff_right ?_
  obtain ⟨_, _, _, _, hr⟩ := hfirst
  exact hr

/-- A batch is answered exactly when each request can be, and else refused for
the first that cannot. The answer has one block for each request, in order. -/
theorem resolver_decides (s : Snapshot) (batch : Batch) :
    ((∃ found, s.resolver batch = .ok found) ↔ ∀ r ∈ batch.requests, s.Answers r) ∧
    (∀ f, s.resolver batch = .error f ↔
      ∃ r, FirstWithout s.Answers batch.requests r ∧ f = .unresolvedArtifact r.gav) ∧
    ∀ found, s.resolver batch = .ok found → ∃ blocks,
      List.Forall₂ (fun r block => ∃ m below, s.Block batch.transitive r m below block)
        batch.requests blocks ∧ found = blocks.flatten := by
  refine ⟨?_, fun f => resolver_eq_error_iff, fun found hok => ?_⟩
  · simp only [exists_resolver_ok, exists_resolveRequest_ok]
  · obtain ⟨blocks, hblocks, hfound⟩ := resolver_eq_ok_iff.mp hok
    exact ⟨blocks, hblocks.imp fun _ _ => exists_block, hfound⟩

/-- `tool` has no artifacts, and so the batch is refused for it, although `api`
could be answered and the last module is not there at all. -/
theorem coiled_refused : coiled.resolver
    { requests := [
        .external { groupId := "org.acme", artifactId := "api", version := "1" },
        .external { groupId := "org.acme", artifactId := "tool", version := "2" },
        .external { groupId := "org.acme", artifactId := "tool", version := "3" }]
      transitive := true } = .error (.unresolvedArtifact "org.acme:tool:2") := by
  refine ((resolver_decides _ _).2.1 _).mpr ⟨_, ⟨[_], [_], rfl, ?_, ?_⟩, rfl⟩
  · refine List.forall_mem_singleton.mpr ⟨_, rfl, ?_⟩
    rintro _ ⟨⟩
    exact ⟨{}, by simp, rfl, rfl⟩
  · rintro ⟨m, hm, hspec⟩
    cases hm
    obtain ⟨a, ha, _⟩ := hspec _ rfl
    cases ha

end Snapshot

end ServerFractions
