import ServerFractions.Proofs.Descriptor.Collection
import ServerFractions.Proofs.ProjectIndex.Gavs
import ServerFractions.Proofs.SpecResolution

/-!
# One batch for what remains

Resolved from an empty cache, with whatever resolver, the specifications that
are neither skipped nor passed through make up one batch, each by the request
that it asks for (`forall₂_asksFor`); where none remains there is no batch. The
answer collects what is passed through and then what the resolver finds, and
keeps the first of an identity (`resolveSpecs_one_batch`).
-/

namespace ServerFractions.SpecResolution

open Descriptor (Collects collects_insertAll insertAll)

variable {ε : Type} {r : Registry} {policy : SpecPolicy} {spec : ArtifactSpec}
  {specs : List ArtifactSpec} {ds : List Descriptor}

-- ---------------------------------------------------------------------------
-- What becomes of a specification
-- ---------------------------------------------------------------------------

/-- No project of the build has the gav of the specification. -/
def Foreign (r : Registry) (spec : ArtifactSpec) : Prop :=
  ∀ p ∈ r.projects, p.coordinates.gav ≠ spec.gav

/-- Defaults are left out, and the specification is of the default group and
names no project. -/
def Skipped (r : Registry) (policy : SpecPolicy) (spec : ArtifactSpec) : Prop :=
  policy.excludeDefaults = true ∧ spec.groupId = policy.defaultGroup ∧ Foreign r spec

def PassedThrough (r : Registry) (policy : SpecPolicy) (spec : ArtifactSpec) : Prop :=
  ¬ Skipped r policy spec ∧ spec.file ≠ none ∧ policy.transitive = false

def Remains (r : Registry) (policy : SpecPolicy) (spec : ArtifactSpec) : Prop :=
  ¬ Skipped r policy spec ∧ ¬ PassedThrough r policy spec

instance : Decidable (Foreign r spec) :=
  inferInstanceAs (Decidable (∀ p ∈ r.projects, _))

instance : Decidable (Skipped r policy spec) :=
  inferInstanceAs (Decidable (_ ∧ _))

instance : Decidable (PassedThrough r policy spec) :=
  inferInstanceAs (Decidable (_ ∧ _))

instance : Decidable (Remains r policy spec) :=
  inferInstanceAs (Decidable (_ ∧ _))

theorem foreign_iff : Foreign r spec ↔ r.lookups.find spec.coordinates = none := by
  rw [← Option.not_isSome_iff_eq_none, Registry.isSome_find_lookups_iff]
  simp [Foreign, ArtifactSpec.gav]

theorem disposition_lookups :
    policy.disposition spec (r.lookups.find spec.coordinates).isSome =
      if Skipped r policy spec then .skip
      else if PassedThrough r policy spec then .passThrough
      else if Foreign r spec then .resolveExternal
      else .resolveProject := by
  have hproject : (r.lookups.find spec.coordinates).isSome = true ↔ ¬ Foreign r spec := by
    rw [foreign_iff, Option.isSome_iff_ne_none]
  have hskip : (policy.excludeDefaults && spec.groupId == policy.defaultGroup &&
      !(r.lookups.find spec.coordinates).isSome) = true ↔ Skipped r policy spec := by
    simp [Skipped, foreign_iff, and_assoc]
  have hask : (!spec.isResolved || policy.transitive) = true ↔
      ¬ (spec.file ≠ none ∧ policy.transitive = false) := by
    simp [ArtifactSpec.isResolved, or_iff_not_imp_left]
  simp only [SpecPolicy.disposition, hskip, hask, hproject]
  by_cases hs : Skipped r policy spec
  · simp [hs]
  · by_cases hp : spec.file ≠ none ∧ policy.transitive = false
    · simp [hs, hp, PassedThrough]
    · simp [hs, hp, PassedThrough]

-- ---------------------------------------------------------------------------
-- The batch
-- ---------------------------------------------------------------------------

/-- The request that a specification asks for: the last project of its gav, and
the specification itself where no project has it. -/
inductive AsksFor (r : Registry) (spec : ArtifactSpec) : Request → Prop
  | project {p : Project} (h : r.LastWith spec.gav p) : AsksFor r spec (.project p)
  | external (h : Foreign r spec) : AsksFor r spec (.external spec)

theorem request?_cases (r : Registry) (policy : SpecPolicy) (spec : ArtifactSpec) :
    (¬ Remains r policy spec ∧ request? policy r.lookups spec = none) ∨
    Remains r policy spec ∧
      ∃ request, request? policy r.lookups spec = some request ∧ AsksFor r spec request := by
  unfold request?
  rw [disposition_lookups]
  by_cases hskip : Skipped r policy spec
  · exact .inl ⟨fun h => h.1 hskip, by simp [hskip]⟩
  by_cases hpass : PassedThrough r policy spec
  · exact .inl ⟨fun h => h.2 hpass, by simp [hskip, hpass]⟩
  refine .inr ⟨⟨hskip, hpass⟩, ?_⟩
  by_cases hforeign : Foreign r spec
  · exact ⟨.external spec, by simp [hskip, hpass, hforeign], .external hforeign⟩
  · obtain ⟨p, hp⟩ := Option.ne_none_iff_exists'.mp (mt foreign_iff.mpr hforeign)
    exact ⟨.project p, by simp [hskip, hpass, hforeign, hp],
      .project (Registry.find_lookups_eq_some_iff.mp hp)⟩

/-- In the order of the list, a request for each specification that remains. -/
theorem forall₂_asksFor (r : Registry) (policy : SpecPolicy) (specs : List ArtifactSpec) :
    List.Forall₂ (AsksFor r) (specs.filter (Remains r policy ·))
      (batchOf policy r.lookups specs).requests := by
  unfold batchOf
  induction specs with
  | nil => exact .nil
  | cons spec specs ih =>
    obtain ⟨hgone, hnone⟩ | ⟨hremains, request, hsome, hasks⟩ := request?_cases r policy spec
    · simpa [hgone, hnone] using ih
    · simpa [hremains, hsome] using ⟨hasks, ih⟩

theorem requests_eq_nil_iff :
    (batchOf policy r.lookups specs).requests = [] ↔ ∀ spec ∈ specs, ¬ Remains r policy spec := by
  have hlength := (forall₂_asksFor r policy specs).length_eq
  rw [← List.length_eq_zero_iff, ← hlength, List.length_eq_zero_iff, List.filter_eq_nil_iff]
  simp

-- ---------------------------------------------------------------------------
-- The answer
-- ---------------------------------------------------------------------------

/-- The specification as a descriptor, with the scope and the file it has. -/
def asGiven (spec : ArtifactSpec) : Descriptor where
  scope := spec.scope
  group := spec.groupId
  artifact := spec.artifactId
  version := spec.version
  type := spec.type
  classifier := spec.classifier
  file := spec.file

/-- What was found as a descriptor for compilation. -/
def asFound (a : ResolvedArtifact) : Descriptor where
  scope := .compile
  group := a.coordinates.group
  artifact := a.coordinates.name
  version := a.coordinates.version
  type := a.artifact.type
  classifier := a.artifact.classifier
  file := a.artifact.file

theorem kept?_lookups : kept? policy r.lookups spec =
    if PassedThrough r policy spec then some (asGiven spec) else none := by
  rw [kept?, disposition_lookups]
  by_cases hskip : Skipped r policy spec
  · simp [hskip, PassedThrough]
  · split_ifs <;> rfl

/-- The descriptors of all that is passed through, in the order of the list. -/
def givenOf (r : Registry) (policy : SpecPolicy) (specs : List ArtifactSpec) : List Descriptor :=
  (specs.filter (PassedThrough r policy ·)).map asGiven

theorem filterMap_kept? : specs.filterMap (kept? policy r.lookups) = givenOf r policy specs := by
  unfold givenOf
  induction specs with
  | nil => rfl
  | cons spec specs ih =>
    by_cases hpass : PassedThrough r policy spec
    · simp [kept?_lookups, hpass, ← ih]
    · simp [kept?_lookups, hpass, ← ih]

/-- What the answer is once the resolver has answered the batch. -/
def Answers (given : List Descriptor) :
    Except ε (List ResolvedArtifact) → Except ε (List Descriptor) → Prop
  | .error f, answer => answer = .error f
  | .ok found, answer => ∃ ds, answer = .ok ds ∧ Collects (given ++ found.map asFound) ds

theorem answers_map (found? : Except ε (List ResolvedArtifact)) :
    Answers ds found? (found?.map fun found =>
      insertAll (found.map (·.descriptor)) (insertAll ds [])) := by
  cases found? with
  | error f => rfl
  | ok found =>
    have hcollects : Collects (ds ++ found.map asFound)
        (insertAll (found.map asFound) (insertAll ds [])) := by
      rw [← Descriptor.insertAll_append]
      exact collects_insertAll
    exact ⟨_, rfl, hcollects⟩

-- ---------------------------------------------------------------------------
-- The run
-- ---------------------------------------------------------------------------

theorem run_of_none_remains {resolver : Resolver ε} (h : ∀ spec ∈ specs, ¬ Remains r policy spec) :
    (resolveSpecs r resolver policy (some specs) .empty).value =
      { answer := .ok (insertAll (givenOf r policy specs) [])
        cache := (sort r policy specs {} .empty).value.2 } := by
  rw [value_resolveSpecs, Registry.seen_empty, if_pos (by simpa using requests_eq_nil_iff.mpr h),
    keptOf, filterMap_kept?]

theorem run_of_remains {resolver : Resolver ε} (h : ∃ spec ∈ specs, Remains r policy spec) :
    (resolveSpecs r resolver policy (some specs) .empty).value =
      { answer := (resolver (batchOf policy r.lookups specs)).map fun found =>
          insertAll (found.map (·.descriptor)) (insertAll (givenOf r policy specs) [])
        batches := [batchOf policy r.lookups specs]
        cache := (sort r policy specs {} .empty).value.2 } := by
  have hrequests : ¬ (batchOf policy r.lookups specs).requests = [] := by
    rw [requests_eq_nil_iff]
    simpa using h
  rw [value_resolveSpecs, Registry.seen_empty, if_neg (by simpa using hrequests), keptOf,
    filterMap_kept?]

/-- The resolver is asked once if a specification remains, for what remains, and
else not at all. Its fault is the answer; what it finds comes after what is
given. Only what it says to that one batch matters. -/
theorem resolveSpecs_one_batch (r : Registry) (resolver : Resolver ε) (policy : SpecPolicy)
    (specs : List ArtifactSpec) :
    let run := (resolveSpecs r resolver policy (some specs) .empty).value
    ((∀ spec ∈ specs, ¬ Remains r policy spec) →
      run.batches = [] ∧ ∃ ds, run.answer = .ok ds ∧ Collects (givenOf r policy specs) ds) ∧
    ((∃ spec ∈ specs, Remains r policy spec) → ∃ requests,
      List.Forall₂ (AsksFor r) (specs.filter (Remains r policy ·)) requests ∧
      run.batches = [⟨requests, policy.transitive⟩] ∧
      Answers (givenOf r policy specs) (resolver ⟨requests, policy.transitive⟩) run.answer) ∧
    ∀ resolver' : Resolver ε, (∀ batch ∈ run.batches, resolver' batch = resolver batch) →
      (resolveSpecs r resolver' policy (some specs) .empty).value = run := by
  intro run
  refine ⟨fun hnone => ?_, fun hsome => ?_, fun resolver' hsame => ?_⟩
  · have hrun : run = _ := run_of_none_remains hnone
    rw [hrun]
    exact ⟨rfl, _, rfl, collects_insertAll⟩
  · have hrun : run = _ := run_of_remains hsome
    rw [hrun]
    exact ⟨_, forall₂_asksFor r policy specs, rfl, answers_map _⟩
  · -- What remains is the same for both resolvers, so both are asked the same batch.
    by_cases hsome : ∃ spec ∈ specs, Remains r policy spec
    · have hrun : run = _ := run_of_remains hsome
      rw [hrun] at hsame ⊢
      rw [run_of_remains hsome, hsame _ (.head _)]
    · have hnone : ∀ spec ∈ specs, ¬ Remains r policy spec := by simpa using hsome
      have hrun : run = _ := run_of_none_remains hnone
      rw [hrun, run_of_none_remains hnone]

/-- A build with a project in the default group. -/
def customBuild : Registry where
  rootProject := "app"
  projects := [{ coordinates := ⟨"io.thorntail", "custom", "1"⟩, path := "custom" }]
  includedBuilds := []
  availableModules := fun _ => none

def localSpec : ArtifactSpec :=
  { groupId := "org.acme", artifactId := "local", version := "1", file := some "/home/local.jar" }

def remoteSpec : ArtifactSpec := { groupId := "org.acme", artifactId := "remote", version := "2" }

def remoteFound : ResolvedArtifact := ⟨⟨"org.acme", "remote", "2"⟩, { file := some "/repo/remote.jar" }⟩

/-- Another file for what `localSpec` gives. -/
def localFound : ResolvedArtifact := ⟨⟨"org.acme", "local", "1"⟩, { file := some "/repo/local.jar" }⟩

/-- One specification of each kind, the last of which is skipped. -/
def mixedSpecs : List ArtifactSpec :=
  [localSpec, remoteSpec,
    { groupId := "io.thorntail", artifactId := "custom", version := "1" },
    { groupId := "io.thorntail", artifactId := "undertow", version := "2.5.0" }]

def mixedRun : SpecResolution String :=
  (resolveSpecs customBuild (fun _ => .ok [localFound, remoteFound])
    { transitive := false, excludeDefaults := true } (some mixedSpecs) .empty).value

/-- `local` keeps the file it was given. -/
theorem mixed_one_batch : ∃ ds,
    mixedRun.batches = [{
      requests := [.external remoteSpec,
        .project { coordinates := ⟨"io.thorntail", "custom", "1"⟩, path := "custom" }]
      transitive := false }] ∧
    mixedRun.answer = .ok ds ∧ asGiven localSpec ∈ ds ∧ asFound remoteFound ∈ ds ∧
    asFound localFound ∉ ds := by
  obtain ⟨_, hremains, _⟩ := resolveSpecs_one_batch customBuild
    (fun _ => .ok [localFound, remoteFound] : Resolver String)
    { transitive := false, excludeDefaults := true } mixedSpecs
  obtain ⟨_, _, _, ds, hds, hcollects⟩ := hremains ⟨remoteSpec, by decide, by decide⟩
  have hlocal : asGiven localSpec ∈ ds := (hcollects.mem_iff _).mpr ⟨[], _, rfl, by simp⟩
  have hremote : asFound remoteFound ∈ ds :=
    (hcollects.mem_iff _).mpr ⟨[asGiven localSpec, asFound localFound], [], by decide, by decide⟩
  refine ⟨ds, by decide, hds, hlocal, hremote, fun hother => ?_⟩
  have hsame := List.inj_on_of_nodup_map hcollects.nodup hlocal hother (by decide)
  exact absurd hsame (by decide)

end ServerFractions.SpecResolution
