import Mathlib.Data.List.Permutation
import ServerFractions.Proofs.ProjectResolution
import ServerFractions.Proofs.Promotion.Proper
import ServerFractions.Proofs.TopLevel.Sorted
import ServerFractions.Report.Format

/-!
# Reports are canonical

A report shows the entries of a result in ascending order, each once and marked
by its own coordinates (`build_shows`), and it looks the same in whatever order
the maps and sets of the result were iterated (`build_eq_of_iterates`).
-/

namespace ServerFractions

variable {s : Snapshot} {cache : Cache} {name : String} {transitive : Bool}
  {fractions : List ModuleKey} {resolved resolved' : ResolvedProject} {metadata : Report.Metadata}

/-- The coordinates are those of a project, as an index with this cache says. -/
def Snapshot.isProject (s : Snapshot) (cache : Cache) (c : Coordinates) : Bool :=
  (ProjectIndex.contains ⟨s.registry, cache⟩ c).value.1

theorem Snapshot.isProject_eq : s.isProject cache = (s.registry.seen cache).contains := by
  funext c
  exact ProjectIndex.value_contains

/-- The same resolution, had its maps and sets been iterated in other orders:
the entries, the children of each, the known fractions, and the entries as they
were looked up among the projects. -/
structure Snapshot.Iterates (s : Snapshot) (cache : Cache) (resolved resolved' : ResolvedProject) :
    Prop where
  configuration : resolved'.configuration = resolved.configuration
  result : resolved.result.Rearranges resolved'.result
  fractions : ∀ key, key ∈ resolved'.fractions ↔ key ∈ resolved.fractions
  projectGavs : ∃ keys, keys.Perm resolved.result.keys ∧ ∀ gav, gav ∈ resolved'.projectGavs ↔
    gav ∈ (ProjectResolution.projectGavs s.registry keys cache).value.1

namespace Report

/-- A dependency with all fields of a descriptor. -/
structure Dependency.Describes (v : Dependency) (d : Descriptor) : Prop where
  group : v.group = d.group
  artifact : v.artifact = d.artifact
  version : v.version = d.version
  scope : v.scope = d.scope.name
  type : v.type = d.type
  classifier : v.classifier = d.classifier
  file : v.file = d.file

/-- An entry with the key of another and its children one by one, marked by the
coordinates of the key. -/
structure Entry.Describes (fractions : List ModuleKey) (isProject : Coordinates → Bool) (v : Entry)
    (e : TopLevel.Entry) : Prop where
  dependency : v.dependency.Describes e.key
  fraction : v.fraction = true ↔ ModuleKey.mk (e.key.group ++ ":" ++ e.key.artifact) ∈ fractions
  project : v.project = true ↔ isProject ⟨e.key.group, e.key.artifact, e.key.version⟩ = true
  children : List.Forall₂ Dependency.Describes v.children e.children

/-- The report shows every entry of the result once and in ascending order. -/
structure Shows (r : Report) (t : TopLevel) (fractions : List ModuleKey)
    (isProject : Coordinates → Bool) : Prop where
  entries : ∃ shown, t.Rearranges ⟨shown⟩ ∧ TopLevel.Ascending shown ∧
    List.Forall₂ (Entry.Describes fractions isProject) r.entries shown
  flagged : r.fractionCount = (r.entries.filter (·.fraction)).length
  known : r.fractionCount =
    t.keys.countP fun d => ModuleKey.mk (d.group ++ ":" ++ d.artifact) ∈ fractions

/-- How an entry is shown. -/
def Entry.ofEntry (fractions : List ModuleKey) (isProject : Coordinates → Bool)
    (e : TopLevel.Entry) : Entry where
  dependency := .ofDescriptor e.key
  fraction := e.key.key ∈ fractions
  project := isProject e.key.coordinates
  children := e.children.map .ofDescriptor

theorem Entry.ofEntry_congr {fractions' : List ModuleKey} {isProject : Coordinates → Bool}
    (h : ∀ key, key ∈ fractions' ↔ key ∈ fractions) :
    Entry.ofEntry fractions' isProject = Entry.ofEntry fractions isProject := by
  funext e
  simp [Entry.ofEntry, h]

theorem Dependency.describes_ofDescriptor (d : Descriptor) : (ofDescriptor d).Describes d :=
  ⟨rfl, rfl, rfl, rfl, rfl, rfl, rfl⟩

theorem Entry.describes_ofEntry {isProject : Coordinates → Bool} (e : TopLevel.Entry) :
    (Entry.ofEntry fractions isProject e).Describes fractions isProject e where
  dependency := Dependency.describes_ofDescriptor e.key
  fraction := decide_eq_true_iff
  project := .rfl
  children := by
    rw [ofEntry, List.forall₂_map_left_iff, List.forall₂_same]
    exact fun d _ => Dependency.describes_ofDescriptor d

theorem Entry.forall₂_describes {isProject : Coordinates → Bool} (es : List TopLevel.Entry) :
    List.Forall₂ (Describes fractions isProject) (es.map (ofEntry fractions isProject)) es := by
  rw [List.forall₂_map_left_iff, List.forall₂_same]
  exact fun e _ => describes_ofEntry e

theorem mem_projectGavs_iff {keys : List Descriptor} {d : Descriptor} (hd : d ∈ keys) :
    d.gav ∈ (ProjectResolution.projectGavs s.registry keys cache).value.1 ↔
      s.isProject cache d.coordinates = true := by
  rw [ProjectResolution.value_projectGavs, List.mem_map, Snapshot.isProject_eq]
  constructor
  · rintro ⟨d', hd', hgav⟩
    have hproject := (List.mem_filter.mp hd').2
    -- The lookups know a module by its gav alone.
    simp only [Lookups.contains, Lookups.find] at hproject ⊢
    rwa [← show d'.coordinates.gav = d.coordinates.gav from hgav]
  · exact fun hproject => ⟨d, List.mem_filter.mpr ⟨hd, hproject⟩, rfl⟩

theorem entries_build {keys : List Descriptor} (hkeys : resolved.result.keys ⊆ keys)
    (hgavs : ∀ gav, gav ∈ resolved.projectGavs ↔
      gav ∈ (ProjectResolution.projectGavs s.registry keys cache).value.1) :
    (build resolved metadata).entries =
      resolved.result.sorted.map (Entry.ofEntry resolved.fractions (s.isProject cache)) := by
  refine List.map_congr_left fun e he => ?_
  have hkey : e.key ∈ keys := by
    rw [TopLevel.sorted_eq_mergeSort, List.mem_mergeSort] at he
    obtain ⟨e', he', rfl⟩ := List.mem_map.mp he
    exact hkeys (TopLevel.mem_keys.mpr ⟨e', he', rfl⟩)
  simp [Entry.ofEntry, hgavs, mem_projectGavs_iff hkey]

theorem known_of_entries {r : Report} {t : TopLevel} {shown : List TopLevel.Entry}
    {isProject : Coordinates → Bool} (ht : t.Rearranges ⟨shown⟩)
    (h : r.entries = shown.map (Entry.ofEntry fractions isProject)) :
    r.fractionCount =
      t.keys.countP fun d => ModuleKey.mk (d.group ++ ":" ++ d.artifact) ∈ fractions := by
  rw [fractionCount, h, List.countP_map, ht.keys_perm.countP_eq, TopLevel.keys, List.countP_map]
  rfl

theorem proper_of_answer (h : (s.resolveProject (.ok fractions) name transitive cache).value.answer =
    .ok resolved) : resolved.result.Proper := by
  obtain ⟨_, _, _, hempty | ⟨configuration, _, hok⟩, _⟩ := ProjectResolution.exists_of_answer_eq_ok h
  · rw [hempty]
    exact .empty
  · exact configuration.proper_of_resolve hok

theorem build_shows (h : (s.resolveProject (.ok fractions) name transitive cache).value.answer =
    .ok resolved) : (build resolved metadata).Shows resolved.result fractions (s.isProject cache) := by
  obtain ⟨_, hcatalog, rfl, _, hgavs⟩ := ProjectResolution.exists_of_answer_eq_ok h
  cases hcatalog
  have hentries : (build resolved metadata).entries = resolved.result.sorted.map
      (Entry.ofEntry resolved.fractions (s.isProject cache)) :=
    entries_build (List.Subset.refl _) hgavs
  refine ⟨⟨_, TopLevel.rearranges_sorted, (proper_of_answer h).ascending_sorted, ?_⟩,
    List.countP_eq_length_filter, known_of_entries TopLevel.rearranges_sorted hentries⟩
  rw [hentries]
  exact Entry.forall₂_describes _

/-- The report does not depend on the order of iteration. -/
theorem build_eq_of_iterates
    (h : (s.resolveProject (.ok fractions) name transitive cache).value.answer = .ok resolved)
    (hother : s.Iterates cache resolved resolved') :
    build resolved' metadata = build resolved metadata := by
  obtain ⟨_, _, _, _, hgavs⟩ := ProjectResolution.exists_of_answer_eq_ok h
  obtain ⟨keys, hkeys, hgavs'⟩ := hother.projectGavs
  have hsub : resolved'.result.keys ⊆ keys :=
    (hother.result.keys_perm.symm.trans hkeys.symm).subset
  have hentries : (build resolved' metadata).entries = (build resolved metadata).entries := by
    rw [entries_build hsub hgavs', entries_build (List.Subset.refl _) hgavs,
      hother.result.sorted_eq (proper_of_answer h)]
    rw [Entry.ofEntry_congr hother.fractions]
  exact (Report.mk.injEq ..).mpr ⟨rfl, hother.configuration, hentries⟩

/-- Every report of a resolution shows its entries in the strict total order of
descriptors, and no order of iteration changes it or its text. -/
theorem build_canonical (metadata : Metadata)
    (h : (s.resolveProject (.ok fractions) name transitive cache).value.answer = .ok resolved) :
    IsStrictTotalOrder Identity Identity.Before ∧
    (build resolved metadata).Shows resolved.result fractions (s.isProject cache) ∧
    ∀ resolved', s.Iterates cache resolved resolved' →
      build resolved' metadata = build resolved metadata ∧
      ∀ format, (build resolved' metadata).render format = (build resolved metadata).render format := by
  refine ⟨Identity.isStrictTotalOrder_before, build_shows h, fun resolved' hother => ?_⟩
  have hbuild : build resolved' metadata = build resolved metadata :=
    build_eq_of_iterates h hother
  exact ⟨hbuild, fun format => by rw [hbuild]⟩

def appModule : Snapshot.ModuleEntry where
  coordinates := ⟨"org.acme", "app", "1"⟩
  artifacts := [{}]
  children := ["org.acme:jaxrs:2"]

def jaxrsModule : Snapshot.ModuleEntry where
  coordinates := ⟨"org.acme", "jaxrs", "2"⟩
  artifacts := [{}]
  children := ["org.acme:json:3"]

def jsonModule : Snapshot.ModuleEntry where
  coordinates := ⟨"org.acme", "json", "3"⟩
  artifacts := [{ classifier := some "tests" }, { file := some "json.jar" }]

/-- A project and a fraction with two artifacts of one module below it. -/
def paired : Snapshot where
  document := {
    rootProject := "demo"
    projects := [{ coordinates := ⟨"org.acme", "app", "1"⟩ }]
    modules := [appModule, jaxrsModule, jsonModule]
    configurations := [
      { name := "runtimeClasspath", dependencies := ["org.acme:app", "org.acme:jaxrs"],
        firstLevel := ["org.acme:jaxrs:2", "org.acme:app:1"] }] }
  closed := Snapshot.Document.firstFault?_eq_none_iff.mp (by decide)

def pairedFractions : List ModuleKey := [.ofParts "org.acme" "jaxrs"]

def pairedConfiguration : Configuration where
  name := "runtimeClasspath"
  hierarchy := [⟨"runtimeClasspath", [.ofParts "org.acme" "app", .ofParts "org.acme" "jaxrs"]⟩]
  graph := {
    modules := #[
      ⟨⟨"org.acme", "jaxrs", "2"⟩, [{}], [1]⟩,
      ⟨⟨"org.acme", "json", "3"⟩, [{ classifier := some "tests" }, { file := some "json.jar" }], []⟩,
      ⟨⟨"org.acme", "app", "1"⟩, [{}], [0]⟩]
    firstLevel := [0, 2] }

def jsonTests : Descriptor := ⟨.runtime, "org.acme", "json", "3", "jar", some "tests", none⟩

def jsonPlain : Descriptor := ⟨.runtime, "org.acme", "json", "3", "jar", none, some "json.jar"⟩

def jaxrs : Descriptor := ⟨.runtime, "org.acme", "jaxrs", "2", "jar", none, none⟩

def app : Descriptor := ⟨.runtime, "org.acme", "app", "1", "jar", none, none⟩

def pairedProject : ResolvedProject where
  configuration := "runtimeClasspath"
  result := ⟨[⟨jaxrs, [jsonTests, jsonPlain]⟩, ⟨app, [app]⟩]⟩
  fractions := pairedFractions
  projectGavs := ["org.acme:app:1"]

/-- The same with everything the other way round. -/
def reversedProject : ResolvedProject where
  configuration := "runtimeClasspath"
  result := ⟨[⟨app, [app]⟩, ⟨jaxrs, [jsonPlain, jsonTests]⟩]⟩
  fractions := pairedFractions
  projectGavs := ["org.acme:app:1"]

theorem value_paired_configuration :
    (paired.configuration "runtimeClasspath").value = some pairedConfiguration := by
  have hnames : (paired.hierarchyNames "runtimeClasspath").value = ["runtimeClasspath"] := by cbv
  have hreached : paired.reached ["org.acme:jaxrs:2", "org.acme:app:1"] =
      [jaxrsModule, jsonModule, appModule] := by cbv
  have hgraph : paired.graph ["org.acme:jaxrs:2", "org.acme:app:1"] = pairedConfiguration.graph := by
    rw [Snapshot.graph, hreached]
    cbv
  show some (Configuration.mk _ (paired.hierarchy "runtimeClasspath").value
    (paired.graph ["org.acme:jaxrs:2", "org.acme:app:1"])) = _
  rw [hgraph, Snapshot.hierarchy, Logged.value_bind, hnames]
  rfl

theorem paired_resolves :
    (paired.resolveProject (.ok pairedFractions) "runtimeClasspath" true .empty).value.answer =
      .ok pairedProject := by
  have hresult : (pairedConfiguration.resolve pairedFractions true).value =
      .ok pairedProject.result := by cbv
  simp only [Snapshot.resolveProject, Logged.value_bind, value_paired_configuration, hresult]
  rfl

theorem paired_iterates : paired.Iterates .empty pairedProject reversedProject where
  configuration := rfl
  result := ⟨[⟨jaxrs, [jsonPlain, jsonTests]⟩, ⟨app, [app]⟩],
    .cons ⟨rfl, .swap ..⟩ (.cons ⟨rfl, .refl _⟩ .nil), .swap ..⟩
  fractions _ := .rfl
  projectGavs := ⟨[app, jaxrs], .swap .., fun _ => .rfl⟩

def pairedMetadata : Metadata := ⟨"2024-05-04T10:00:00+00:00", toolName, toolVersion⟩

theorem paired_canonical : reversedProject.result ≠ pairedProject.result ∧
    paired.Iterates .empty pairedProject reversedProject ∧
    (build pairedProject pairedMetadata).Shows pairedProject.result pairedFractions
      (paired.isProject .empty) ∧
    (build reversedProject pairedMetadata).toJson = (build pairedProject pairedMetadata).toJson := by
  obtain ⟨_, hshows, hsame⟩ := build_canonical pairedMetadata paired_resolves
  exact ⟨by decide, paired_iterates, hshows, (hsame _ paired_iterates).2 .json⟩

end Report

end ServerFractions
