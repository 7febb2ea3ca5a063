import ServerFractions.Proofs.Configuration
import ServerFractions.Proofs.Coordinates
import ServerFractions.Proofs.EraseDups
import ServerFractions.Proofs.ProjectIndex
import ServerFractions.Snapshot.Basic

/-!
# What is found by a gav

An index knows projects and modules by their gavs only. Of the projects with
one gav it finds the last (`find_lookups_eq_some_iff`), and of the included
builds with one name it asks the first (`mem_included_lookups`). So an answer
is about the coordinates that were asked for when these hold no colon
(`lookups_by_gav`), and the modules of all included builds are known when
their names are distinct (`included_by_name`). Nothing in a snapshot promises
either (`joined_not_exact`, `shadowed_not_all`).
-/

namespace ServerFractions

-- ---------------------------------------------------------------------------
-- Answers with events, one for each element
-- ---------------------------------------------------------------------------

namespace Logged

variable {α β : Type}

/-- A lemma and no instance: `simp` would turn each `do` block into maps. -/
theorem lawfulMonad : LawfulMonad Logged := LawfulMonad.mk' Logged
  (fun x => by simp [Functor.map, Logged.bind])
  (fun a f => by simp [Bind.bind, Pure.pure, Logged.bind])
  (fun x f g => by simp [Bind.bind, Logged.bind])

theorem value_mapM {f : α → Logged β} {as : List α} :
    (as.mapM f).value = as.map fun a => (f a).value := by
  have := lawfulMonad
  induction as with
  | nil => simp
  | cons a as ih => simp only [List.mapM_cons, value_bind, value_pure, ih, List.map_cons]

end Logged

-- ---------------------------------------------------------------------------
-- The lookups of a build
-- ---------------------------------------------------------------------------

namespace Registry

variable {r : Registry} {x : Coordinates} {p : Project} {gav : String}

/-- The project has the gav, and no later project of the build does. -/
def LastWith (r : Registry) (gav : String) (p : Project) : Prop :=
  ∃ before after, r.projects = before ++ p :: after ∧ p.coordinates.gav = gav ∧
    ∀ q ∈ after, q.coordinates.gav ≠ gav

theorem LastWith.mem (h : r.LastWith gav p) : p ∈ r.projects := by
  obtain ⟨before, after, hlist, _⟩ := h
  simp [hlist]

theorem LastWith.gav_eq (h : r.LastWith gav p) : p.coordinates.gav = gav := by
  obtain ⟨_, _, _, hgav, _⟩ := h
  exact hgav

theorem lookup_replace {κ ν : Type} [DecidableEq κ] {k k' : κ} {v : ν} (index : List (κ × ν)) :
    (index.filter (·.1 != k) ++ [(k, v)]).lookup k' = if k' = k then some v else index.lookup k' := by
  rw [List.lookup_append]
  split
  · rename_i hk
    subst hk
    have hnone : (index.filter (·.1 != k')).lookup k' = none :=
      List.lookup_eq_none_iff.mpr fun e he =>
        bne_iff_ne.mpr (Ne.symm (bne_iff_ne.mp (List.mem_filter.mp he).2))
    simp [hnone]
  · rename_i hk
    have hne : (k' == k) = false := by simpa using hk
    rw [Cache.lookup_filter_ne hk]
    simp [List.lookup_cons, hne]

/-- By induction from the end, where the index was written last. -/
theorem lookup_projectsByGav :
    r.projectsByGav.lookup gav = r.projects.reverse.find? (·.coordinates.gav == gav) := by
  unfold projectsByGav
  induction r.projects using List.reverseRecOn with
  | nil => rfl
  | append_singleton ps p ih =>
    rw [List.foldl_append, List.foldl_cons, List.foldl_nil, lookup_replace, ih,
      List.reverse_append, List.reverse_singleton, List.singleton_append, List.find?_cons]
    by_cases hp : gav = p.coordinates.gav
    · simp [hp]
    · have hne : (p.coordinates.gav == gav) = false := beq_eq_false_iff_ne.mpr (Ne.symm hp)
      simp [hp, hne]

theorem find_lookups_eq_some_iff : r.lookups.find x = some p ↔ r.LastWith x.gav p := by
  simp only [Lookups.find, lookups, lookup_projectsByGav, find?_reverse_eq_some_iff_append,
    LastWith, beq_iff_eq, beq_eq_false_iff_ne]

theorem isSome_find_lookups_iff :
    (r.lookups.find x).isSome ↔ ∃ p ∈ r.projects, p.coordinates.gav = x.gav := by
  simp [Lookups.find, lookups, lookup_projectsByGav]

/-- The gavs of all modules that a build gives when it is asked by its name. -/
theorem mem_included_lookups : gav ∈ r.lookups.included ↔
    ∃ build ∈ r.includedBuilds, ∃ ms, r.availableModules build = some ms ∧
      ∃ y ∈ ms, y.gav = gav := by
  simp only [lookups, includedGavs, Logged.value_bind, Logged.value_pure, Logged.value_mapM,
    List.mem_eraseDups, List.mem_flatten, List.mem_map]
  constructor
  · rintro ⟨gavs, ⟨build, hbuild, rfl⟩, hgav⟩
    cases hms : r.availableModules build with
    | none =>
      simp only [hms, Logged.value_bind, Logged.value_pure] at hgav
      cases hgav
    | some ms => exact ⟨build, hbuild, ms, hms, by simpa [hms] using hgav⟩
  · rintro ⟨build, hbuild, ms, hms, hgav⟩
    exact ⟨_, ⟨build, hbuild, rfl⟩, by simpa [hms] using hgav⟩

end Registry

-- ---------------------------------------------------------------------------
-- Included builds
-- ---------------------------------------------------------------------------

namespace Snapshot

variable {s : Snapshot} {b : IncludedBuild} {x y : Coordinates} {c : Cache} {gav name : String}

/-- No included build before it has its name. -/
def FirstOfName (s : Snapshot) (b : IncludedBuild) : Prop :=
  ∃ before after, s.document.includedBuilds = before ++ b :: after ∧
    ∀ b' ∈ before, b'.name ≠ b.name

/-- Some included build lists the module. -/
def Lists (s : Snapshot) (y : Coordinates) : Prop :=
  ∃ b ∈ s.document.includedBuilds, ∃ ms, b.availableModules = some ms ∧ y ∈ ms

/-- An included build lists the module, and it is the first of its name. -/
def ListsFirst (s : Snapshot) (y : Coordinates) : Prop :=
  ∃ b, s.FirstOfName b ∧ ∃ ms, b.availableModules = some ms ∧ y ∈ ms

theorem FirstOfName.mem (h : s.FirstOfName b) : b ∈ s.document.includedBuilds := by
  obtain ⟨before, after, hlist, _⟩ := h
  simp [hlist]

theorem ListsFirst.lists (h : s.ListsFirst y) : s.Lists y := by
  obtain ⟨b, hb, hlists⟩ := h
  exact ⟨b, hb.mem, hlists⟩

theorem Lists.listsFirst (hnames : (s.document.includedBuilds.map (·.name)).Nodup)
    (h : s.Lists y) : s.ListsFirst y := by
  obtain ⟨b, hb, hlists⟩ := h
  obtain ⟨before, after, hlist⟩ := List.append_of_mem hb
  refine ⟨b, ⟨before, after, hlist, fun b' hb' hname => ?_⟩, hlists⟩
  rw [hlist, List.map_append] at hnames
  exact List.disjoint_of_nodup_append hnames (List.mem_map.mpr ⟨b', hb', hname⟩) (by simp)

theorem find?_name_eq_some_iff : s.document.includedBuilds.find? (·.name == name) = some b ↔
    s.FirstOfName b ∧ b.name = name := by
  simp only [List.find?_eq_some_iff_append, FirstOfName, beq_iff_eq]
  constructor
  · rintro ⟨rfl, before, after, hlist, hbefore⟩
    exact ⟨⟨before, after, hlist, by simpa using hbefore⟩, rfl⟩
  · rintro ⟨⟨before, after, hlist, hbefore⟩, rfl⟩
    exact ⟨rfl, before, after, hlist, by simpa using hbefore⟩

theorem mem_included_registry :
    gav ∈ s.registry.lookups.included ↔ ∃ y, s.ListsFirst y ∧ y.gav = gav := by
  rw [Registry.mem_included_lookups]
  simp only [registry, availableModules, Option.bind_eq_some_iff, find?_name_eq_some_iff,
    ListsFirst]
  constructor
  · rintro ⟨_, _, ms, ⟨b, ⟨hb, _⟩, hms⟩, y, hy, hgav⟩
    exact ⟨y, ⟨b, hb, ms, hms, hy⟩, hgav⟩
  · rintro ⟨y, ⟨b, hb, ms, hms, hy⟩, hgav⟩
    exact ⟨b.name, List.mem_map.mpr ⟨b, hb.mem, rfl⟩, ms, ⟨b, ⟨hb, rfl⟩, hms⟩, y, hy, hgav⟩

/-- The modules that the index knows are those of the included builds, of builds
with one name those of the first. None is missing where the names are distinct. -/
theorem included_by_name (s : Snapshot) :
    let known := (ProjectIndex.included ⟨s.registry, .empty⟩).value.1
    known.Nodup ∧ (∀ gav, gav ∈ known ↔ ∃ y, s.ListsFirst y ∧ y.gav = gav) ∧
      ((s.document.includedBuilds.map (·.name)).Nodup →
        ∀ gav, gav ∈ known ↔ ∃ y, s.Lists y ∧ y.gav = gav) := by
  intro known
  have hknown : known = s.registry.lookups.included := ProjectIndex.value_included
  have hmem : ∀ gav, gav ∈ known ↔ ∃ y, s.ListsFirst y ∧ y.gav = gav := by
    intro gav
    rw [hknown, mem_included_registry]
  refine ⟨?_, hmem, fun hnames gav => ?_⟩
  · rw [hknown]
    exact nodup_eraseDups
  · rw [hmem]
    constructor
    · rintro ⟨y, hy, hgav⟩
      exact ⟨y, hy.lists, hgav⟩
    · rintro ⟨y, hy, hgav⟩
      exact ⟨y, hy.listsFirst hnames, hgav⟩

/-- Three included builds of distinct names, the second of which cannot list
its modules. -/
def composite : Snapshot where
  document := {
    rootProject := "demo"
    includedBuilds := [
      { name := "shared", availableModules := some [⟨"org.acme", "model", "1"⟩] },
      { name := "legacy", availableModules := none },
      { name := "tools",
        availableModules := some [⟨"org.acme", "model", "1"⟩, ⟨"org.acme", "client", "1"⟩] }] }
  closed := Document.firstFault?_eq_none_iff.mp (by decide)

theorem composite_included : "org.acme:client:1" ∈
    (ProjectIndex.included ⟨composite.registry, .empty⟩).value.1 :=
  ((included_by_name composite).2.2 (by decide) _).mpr
    ⟨⟨"org.acme", "client", "1"⟩, ⟨_, .tail _ (.tail _ (.head _)), _, rfl, .tail _ (.head _)⟩, rfl⟩

/-- Two included builds of one name. -/
def shadowed : Snapshot where
  document := {
    rootProject := "demo"
    includedBuilds := [
      { name := "shared", availableModules := some [⟨"org.acme", "model", "1"⟩] },
      { name := "shared", availableModules := some [⟨"org.acme", "client", "1"⟩] }] }
  closed := Document.firstFault?_eq_none_iff.mp (by decide)

/-- The module of the second build is not known. -/
theorem shadowed_not_all : shadowed.Lists ⟨"org.acme", "client", "1"⟩ ∧
    "org.acme:client:1" ∉ (ProjectIndex.included ⟨shadowed.registry, .empty⟩).value.1 :=
  ⟨⟨_, .tail _ (.head _), _, rfl, .head _⟩, by decide⟩

-- ---------------------------------------------------------------------------
-- Projects
-- ---------------------------------------------------------------------------

/-- What the index finds for the coordinates has these coordinates. -/
structure FoundExactly (s : Snapshot) (c : Cache) (x : Coordinates) : Prop where
  find : ∀ p, (ProjectIndex.find ⟨s.registry, c⟩ x).value.1 = some p →
    p ∈ s.document.projects ∧ p.coordinates = x
  contains : (ProjectIndex.contains ⟨s.registry, c⟩ x).value.1 = true →
    (∃ p ∈ s.document.projects, p.coordinates = x) ∨ s.Lists x

/-- The index answers by the gav of the coordinates, with the last project that
has it. Where the coordinates hold no colon, that is an answer about them. -/
theorem lookups_by_gav (hc : s.registry.Honest c) (x : Coordinates) :
    (∀ p, (ProjectIndex.find ⟨s.registry, c⟩ x).value.1 = some p ↔
      s.registry.LastWith x.gav p) ∧
    ((ProjectIndex.contains ⟨s.registry, c⟩ x).value.1 = true ↔
      (∃ p ∈ s.document.projects, p.coordinates.gav = x.gav) ∨
      ∃ y, s.ListsFirst y ∧ y.gav = x.gav) ∧
    (x.Plain → s.FoundExactly c x) := by
  have hfind : ∀ p, (ProjectIndex.find ⟨s.registry, c⟩ x).value.1 = some p ↔
      s.registry.LastWith x.gav p := by
    intro p
    rw [ProjectIndex.value_find, hc, Registry.find_lookups_eq_some_iff]
  have hcontains : (ProjectIndex.contains ⟨s.registry, c⟩ x).value.1 = true ↔
      (∃ p ∈ s.document.projects, p.coordinates.gav = x.gav) ∨
      ∃ y, s.ListsFirst y ∧ y.gav = x.gav := by
    rw [ProjectIndex.value_contains, hc, Lookups.contains, Bool.or_eq_true,
      Registry.isSome_find_lookups_iff, List.contains_iff_mem, mem_included_registry]
    rfl
  refine ⟨hfind, hcontains, fun hx => ⟨fun p hp => ?_, fun hknown => ?_⟩⟩
  · have hlast := (hfind p).mp hp
    exact ⟨hlast.mem, hx.eq_of_gav hlast.gav_eq⟩
  · rcases hcontains.mp hknown with ⟨p, hp, hgav⟩ | ⟨y, hy, hgav⟩
    · exact .inl ⟨p, hp, hx.eq_of_gav hgav⟩
    · exact .inr (hx.eq_of_gav hgav ▸ hy.lists)

/-- A project with a colon in its group, and one without. -/
def joined : Snapshot where
  document := {
    rootProject := "demo"
    projects := [
      { coordinates := ⟨"org.acme:web", "app", "1"⟩, path := "app" },
      { coordinates := ⟨"org.acme", "model", "1"⟩, path := "model" }] }
  closed := Document.firstFault?_eq_none_iff.mp (by decide)

/-- The project without a colon is found for its own coordinates, also from a
cache that another question has filled. -/
theorem joined_finds_model : ∃ p,
    (ProjectIndex.find ⟨joined.registry,
      (ProjectIndex.contains ⟨joined.registry, .empty⟩ ⟨"org.acme", "app", "1"⟩).value.2⟩
      ⟨"org.acme", "model", "1"⟩).value.1 = some p ∧
    p ∈ joined.document.projects ∧ p.coordinates = ⟨"org.acme", "model", "1"⟩ := by
  have hhonest : joined.registry.Honest
      (ProjectIndex.contains ⟨joined.registry, .empty⟩ ⟨"org.acme", "app", "1"⟩).value.2 :=
    ProjectIndex.fills_contains.seen_eq
  obtain ⟨hfind, _, hexact⟩ := lookups_by_gav hhonest ⟨"org.acme", "model", "1"⟩
  have hp := (hfind { coordinates := ⟨"org.acme", "model", "1"⟩, path := "model" }).mpr
    ⟨[{ coordinates := ⟨"org.acme:web", "app", "1"⟩, path := "app" }], [], rfl, rfl, by simp⟩
  exact ⟨_, hp, (hexact ⟨by decide, by decide, by decide⟩).find _ hp⟩

/-- The other one is found for coordinates that no project has. -/
theorem joined_not_exact : ¬ joined.FoundExactly .empty ⟨"org.acme", "web:app", "1"⟩ := by
  intro h
  have hfound : (ProjectIndex.find ⟨joined.registry, .empty⟩ ⟨"org.acme", "web:app", "1"⟩).value.1 =
      some { coordinates := ⟨"org.acme:web", "app", "1"⟩, path := "app" } := by decide
  exact absurd (h.find _ hfound).2 (by decide)

end Snapshot

end ServerFractions
