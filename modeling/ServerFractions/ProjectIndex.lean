import ServerFractions.Cache

/-!
# Looking up projects

Two lookups over the projects of a build, each computed once and then kept in
the build's cache: its own projects by gav, and the gavs of all modules that
included builds list. Later projects of a gav hide earlier ones.
-/

namespace ServerFractions

namespace Registry

/-- The projects by gav, each gav once. -/
def projectsByGav (r : Registry) : List (String × Project) :=
  r.projects.foldl (fun index p =>
    index.filter (·.1 != p.coordinates.gav) ++ [(p.coordinates.gav, p)]) []

/-- The gavs of the modules of all included builds. A build that cannot list
them is reported. -/
def includedGavs (r : Registry) : Logged (List String) := do
  let gavs ← r.includedBuilds.mapM fun build =>
    match r.availableModules build with
    | some modules => pure (modules.map (·.gav))
    | none => do
      Logged.report (.silentBuild build)
      return []
  return gavs.flatten.eraseDups

end Registry

/-- The lookups over the projects of a build and the cache they share. -/
structure ProjectIndex where
  registry : Registry
  cache : Cache

namespace ProjectIndex

def projectsKey (i : ProjectIndex) : CacheKey :=
  ⟨i.registry.rootProject, "project_gav_collection"⟩

def includedKey (i : ProjectIndex) : CacheKey :=
  ⟨i.registry.rootProject, "included_project_identifiers"⟩

def projects (i : ProjectIndex) : Logged (List (String × Project) × Cache) :=
  i.cache.fetch .projects i.projectsKey (pure i.registry.projectsByGav)

def included (i : ProjectIndex) : Logged (List String × Cache) :=
  i.cache.fetch .texts i.includedKey i.registry.includedGavs

def find (i : ProjectIndex) (c : Coordinates) : Logged (Option Project × Cache) := do
  let (projects, cache) ← i.projects
  return (projects.lookup c.gav, cache)

/-- Whether the coordinates are those of a project of the build or of an
included one. Included builds are looked up only for what is no project. -/
def contains (i : ProjectIndex) (c : Coordinates) : Logged (Bool × Cache) := do
  let (project?, cache) ← i.find c
  if project?.isSome then return (true, cache)
  let (included, cache) ← { i with cache }.included
  return (included.contains c.gav, cache)

end ProjectIndex

end ServerFractions
