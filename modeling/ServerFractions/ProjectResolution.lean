import ServerFractions.ProjectIndex
import ServerFractions.Promotion
import ServerFractions.Snapshot.Graph

/-!
# Resolving a project

Resolves one configuration of a build against a catalog of known fractions
and marks which of the top-level entries are projects. On the way the user is
told about the progress. A configuration that the build does not declare
resolves to nothing.
-/

namespace ServerFractions

inductive Notice where
  | report (message : String)
  | error (message : String)
  | completion (message : String)
  | progress (current total : Nat) (gav : String)
  deriving DecidableEq, Repr

/-- A resolved configuration, with the fractions that were known and the gavs
of the top-level entries that are projects. -/
structure ResolvedProject where
  configuration : String
  result : TopLevel
  fractions : List ModuleKey
  projectGavs : List String
  deriving DecidableEq, Repr

/-- What became of the resolution of a configuration: the answer, what the
user was told, and the cache. -/
structure ProjectResolution where
  answer : Except Failure ResolvedProject
  notices : List Notice
  cache : Cache

namespace ProjectResolution

def loaded (fractions : List ModuleKey) : Notice :=
  .report s!"📚 Loaded {fractions.length} known fraction(s)"

def started (configuration : String) : Notice :=
  .report s!"🔍 Resolving configuration '{configuration}'"

def notFound (configuration : String) : Notice :=
  .error s!"⚠️  Configuration '{configuration}' not found, nothing to resolve"

def completed (result : TopLevel) : Notice :=
  .completion s!"✅ Resolved {result.size} top-level dependencies"

/-- Looks up the entries of a result among the projects of the build. -/
def projectGavs (registry : Registry) : List Descriptor → Cache → Logged (List String × Cache)
  | [], cache => pure ([], cache)
  | key :: rest, cache => do
    let (isProject, cache) ← ProjectIndex.contains ⟨registry, cache⟩ key.coordinates
    let (gavs, cache) ← projectGavs registry rest cache
    return (if isProject then key.gav :: gavs else gavs, cache)

def lookups (result : TopLevel) : List Notice :=
  result.keys.mapIdx fun i key => .progress (i + 1) result.size key.gav

end ProjectResolution

open ProjectResolution in
/-- Resolves a configuration. The distinct keys of the catalog come first: a
catalog that fails is all that is seen of the resolution. -/
def Snapshot.resolveProject (s : Snapshot) (catalog : Except Failure (List ModuleKey))
    (configuration : String) (transitive : Bool) (cache : Cache) : Logged ProjectResolution :=
  match catalog with
  | .error failure => pure { answer := .error failure, notices := [], cache }
  | .ok fractions => do
    let begun := [loaded fractions, started configuration]
    match ← s.configuration configuration with
    | none =>
      Logged.report (.missingConfiguration configuration)
      let nothing : ResolvedProject :=
        { configuration, result := .empty, fractions, projectGavs := [] }
      return { answer := .ok nothing, notices := begun ++ [notFound configuration], cache }
    | some c =>
      match ← c.resolve fractions transitive with
      | .error fault => return { answer := .error fault, notices := begun, cache }
      | .ok result =>
        Logged.report (.resolved result)
        let (gavs, cache) ← projectGavs s.registry result.keys cache
        let resolved : ResolvedProject :=
          { configuration, result, fractions, projectGavs := gavs.eraseDups }
        return { answer := .ok resolved
                 notices := begun ++ completed result :: lookups result
                 cache }

end ServerFractions
