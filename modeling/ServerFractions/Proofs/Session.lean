import Mathlib.Data.List.Dedup
import ServerFractions.Proofs.ProjectResolution
import ServerFractions.Proofs.SpecResolution

/-!
# One cache for many questions

A session asks one snapshot after the other, all with the same cache. As long
as snapshots of the same root project declare the same projects and included
builds, every question is answered as with an empty cache, and the cache grows
by at most two entries for each root project (`run_transparent`). What the
library logs on the way is not part of a reply: included builds are reported
only when they are looked at for the first time.
-/

namespace ServerFractions.Session

inductive Query where
  | isProject (x : Coordinates)
  | projectFor (x : Coordinates)
  | projects
  | included
  | specs (policy : SpecPolicy) (specs? : Option (List ArtifactSpec))
  | resolve (catalog : Except Failure (List ModuleKey)) (configuration : String)
    (transitive : Bool)

/-- The answer to a query, with the batches that the resolver was asked and
what a user was told. -/
inductive Reply where
  | flag (b : Bool)
  | project (p? : Option Project)
  | projects (ps : List (String × Project))
  | gavs (gavs : List String)
  | descriptors (answer : Except Fault (List Descriptor)) (batches : List Batch)
  | resolved (answer : Except Failure ResolvedProject) (notices : List Notice)

structure Step where
  snapshot : Snapshot
  query : Query

variable {q : Query} {s : Snapshot} {step : Step} {steps pool : List Step} {c c' : Cache}

def Query.ask (q : Query) (s : Snapshot) (c : Cache) : Reply × Cache :=
  match q with
  | .isProject x => (ProjectIndex.contains ⟨s.registry, c⟩ x).value.map .flag id
  | .projectFor x => (ProjectIndex.find ⟨s.registry, c⟩ x).value.map .project id
  | .projects => (ProjectIndex.projects ⟨s.registry, c⟩).value.map .projects id
  | .included => (ProjectIndex.included ⟨s.registry, c⟩).value.map .gavs id
  | .specs policy specs? =>
    let r := (resolveSpecs s.registry s.resolver policy specs? c).value
    (.descriptors r.answer r.batches, r.cache)
  | .resolve catalog configuration transitive =>
    let r := (s.resolveProject catalog configuration transitive c).value
    (.resolved r.answer r.notices, r.cache)

theorem Query.fills_ask : s.registry.Fills c (q.ask s c).2 := by
  cases q with
  | isProject x => exact ProjectIndex.fills_contains
  | projectFor x => exact ProjectIndex.fills_find x
  | projects => exact .projects .refl
  | included => exact .included .refl
  | specs policy specs? => exact SpecResolution.fills_resolveSpecs
  | resolve catalog configuration transitive => exact ProjectResolution.fills_resolveProject

theorem Query.ask_congr (h : s.registry.seen c = s.registry.seen c') :
    (q.ask s c).1 = (q.ask s c').1 := by
  cases q with
  | isProject x => simp [ask, ProjectIndex.value_contains, h]
  | projectFor x => simp [ask, ProjectIndex.value_find, h]
  | projects => simp [ask, ProjectIndex.value_projects, h]
  | included => simp [ask, ProjectIndex.value_included, h]
  | specs policy specs? =>
    exact congrArg₂ Reply.descriptors (SpecResolution.resolveSpecs_congr h).1
      (SpecResolution.resolveSpecs_congr h).2
  | resolve catalog configuration transitive =>
    exact congrArg₂ Reply.resolved (ProjectResolution.resolveProject_congr h).1
      (ProjectResolution.resolveProject_congr h).2

-- ---------------------------------------------------------------------------
-- Runs
-- ---------------------------------------------------------------------------

/-- The reply to a step with a cache of its own. -/
def Step.alone (step : Step) : Reply :=
  (step.query.ask step.snapshot .empty).1

def Step.root (step : Step) : String :=
  step.snapshot.document.rootProject

def run : List Step → Cache → List Reply × Cache
  | [], c => ([], c)
  | step :: rest, c =>
    let asked := step.query.ask step.snapshot c
    let more := run rest asked.2
    (asked.1 :: more.1, more.2)

/-- Snapshots of the same root project declare the same projects and the same
included builds. -/
def Consistent (steps : List Step) : Prop :=
  ∀ a ∈ steps, ∀ b ∈ steps, a.root = b.root →
    a.snapshot.document.projects = b.snapshot.document.projects ∧
    a.snapshot.document.includedBuilds = b.snapshot.document.includedBuilds

instance : Decidable (Consistent steps) :=
  inferInstanceAs (Decidable (∀ a ∈ steps, ∀ b ∈ steps, _ → _))

theorem Consistent.alike {a b : Step} (h : Consistent pool) (ha : a ∈ pool) (hb : b ∈ pool) :
    a.snapshot.registry.Alike b.snapshot.registry := by
  intro hroot
  obtain ⟨hprojects, hincluded⟩ := h a ha b hb hroot
  have havailable : a.snapshot.availableModules = b.snapshot.availableModules := by
    funext build
    simp only [Snapshot.availableModules, hincluded]
  simp only [Registry.lookups, Registry.projectsByGav, Registry.includedGavs, Snapshot.registry,
    hprojects, hincluded, havailable]

theorem Consistent.honest_ask (h : Consistent pool) (hstep : step ∈ pool)
    (hc : ∀ a ∈ pool, a.snapshot.registry.Honest c) :
    ∀ a ∈ pool, a.snapshot.registry.Honest (step.query.ask step.snapshot c).2 :=
  fun a ha => Query.fills_ask.honest (h.alike hstep ha) (hc step hstep) (hc a ha)

theorem replies_run (hpool : Consistent pool) (hsub : steps ⊆ pool)
    (hc : ∀ a ∈ pool, a.snapshot.registry.Honest c) :
    (run steps c).1 = steps.map (·.alone) := by
  -- The pool stays whole while the steps are used up: a step has to leave the cache
  -- honest about every build that may still be asked, not only about its own.
  induction steps generalizing c with
  | nil => rfl
  | cons step steps ih =>
    obtain ⟨hstep, hrest⟩ := List.cons_subset.mp hsub
    have hreply : (step.query.ask step.snapshot c).1 = step.alone :=
      Query.ask_congr (hc step hstep)
    simp only [run, ih hrest (hpool.honest_ask hstep hc), hreply, List.map_cons]

-- ---------------------------------------------------------------------------
-- Growth
-- ---------------------------------------------------------------------------

theorem cache_run_append {more : List Step} :
    (run (steps ++ more) c).2 = (run more (run steps c).2).2 := by
  induction steps generalizing c with
  | nil => rfl
  | cons step steps ih => exact ih

theorem keys_subset_run : c.keys ⊆ (run steps c).2.keys := by
  induction steps generalizing c with
  | nil => exact fun _ hk => hk
  | cons step steps ih => exact fun _ hk => ih (Query.fills_ask.keys_subset hk)

theorem distinct_run (hc : c.Distinct) : (run steps c).2.Distinct := by
  induction steps generalizing c with
  | nil => exact hc
  | cons step steps ih => exact ih (Query.fills_ask.distinct hc)

/-- The keys under which the builds of one root project store their lookups. -/
def storedKeys (root : String) : List CacheKey :=
  [⟨root, "project_gav_collection"⟩, ⟨root, "included_project_identifiers"⟩]

theorem subset_keys_run {k : CacheKey} (hk : k ∈ (run steps c).2.keys) :
    k ∈ c.keys ∨ ∃ step ∈ steps, k ∈ storedKeys step.root := by
  induction steps generalizing c with
  | nil => exact .inl hk
  | cons step steps ih =>
    rcases ih hk with hask | ⟨other, hother, hk⟩
    · have hfilled := Query.fills_ask.subset_keys hask
      simp only [List.mem_cons] at hfilled
      rcases hfilled with rfl | rfl | hk
      · exact .inr ⟨step, .head _, .head _⟩
      · exact .inr ⟨step, .head _, .tail _ (.head _)⟩
      · exact .inl hk
    · exact .inr ⟨other, .tail _ hother, hk⟩

theorem size_le_run_append {more : List Step} :
    (run steps .empty).2.size ≤ (run (steps ++ more) .empty).2.size := by
  have hsub : (run steps .empty).2.keys ⊆ (run more (run steps .empty).2).2.keys := keys_subset_run
  have hle := (distinct_run Cache.distinct_empty).size_le_of_subset hsub
  rw [cache_run_append]
  simpa [Cache.keys, Cache.size] using hle

theorem size_run_le : (run steps .empty).2.size ≤ 2 * (steps.map (·.root)).dedup.length := by
  have hsub : (run steps .empty).2.keys ⊆ (steps.map (·.root)).dedup.flatMap storedKeys := by
    intro k hk
    rcases subset_keys_run hk with hk | ⟨step, hstep, hk⟩
    · cases hk
    · exact List.mem_flatMap.mpr
        ⟨step.root, List.mem_dedup.mpr (List.mem_map.mpr ⟨step, hstep, rfl⟩), hk⟩
  have hle := (distinct_run Cache.distinct_empty).size_le_of_subset hsub
  have hlen : ((steps.map (·.root)).dedup.flatMap storedKeys).length =
      (steps.map (·.root)).dedup.length * 2 := by
    simp [List.length_flatMap, storedKeys]
  omega

/-- A session on an empty cache answers every step as if the step were alone,
and at no time does the cache shrink or hold more than two entries for each
root project that was asked. -/
theorem run_transparent (h : Consistent steps) :
    (run steps .empty).1 = steps.map (·.alone) ∧
    (∀ done more rest, steps = done ++ more ++ rest →
      (run done .empty).2.size ≤ (run (done ++ more) .empty).2.size) ∧
    ∀ done rest, steps = done ++ rest →
      (run done .empty).2.size ≤ 2 * (done.map (·.root)).dedup.length := by
  refine ⟨?_, fun _ _ _ _ => size_le_run_append, fun _ _ _ => size_run_le⟩
  exact replies_run h (List.Subset.refl _) fun _ _ => Registry.honest_empty

open SpecResolution (looped appSpec jsonSpec)

/-- The build of `looped` after its modules changed. -/
def reloaded : Snapshot where
  document := { looped.document with
    modules := [{ coordinates := ⟨"org.acme", "app", "1"⟩, artifacts := [{}] }] }
  closed := Snapshot.Document.firstFault?_eq_none_iff.mp (by decide)

/-- A build whose project of the same gav lies elsewhere. -/
def neighbour : Snapshot where
  document := {
    rootProject := "other"
    projects := [{ coordinates := ⟨"org.acme", "app", "1"⟩, path := "app" }]
    includedBuilds := [{ name := "shared", availableModules := some [⟨"org.acme", "json", "2"⟩] }] }
  closed := Snapshot.Document.firstFault?_eq_none_iff.mp (by decide)

def interleaved : List Step :=
  [⟨looped, .isProject jsonSpec.coordinates⟩, ⟨neighbour, .isProject jsonSpec.coordinates⟩,
    ⟨reloaded, .specs {} (some [appSpec, jsonSpec])⟩, ⟨neighbour, .projectFor appSpec.coordinates⟩,
    ⟨looped, .specs {} (some [jsonSpec, appSpec])⟩]

/-- The module is a project of the second build alone, and gone after the
change, although both lookups of the first build were stored before. -/
theorem interleaved_transparent : Consistent interleaved ∧
    (run interleaved .empty).1 = interleaved.map (·.alone) ∧
    (run interleaved .empty).2.size ≤ 4 := by
  have hconsistent : Consistent interleaved := by decide
  obtain ⟨hreplies, _, hsize⟩ := run_transparent hconsistent
  exact ⟨hconsistent, hreplies, hsize interleaved [] (by simp)⟩

end ServerFractions.Session
