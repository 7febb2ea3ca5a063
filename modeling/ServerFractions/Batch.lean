import ServerFractions.ArtifactSpec
import ServerFractions.Fault
import ServerFractions.Project

/-!
# Batches of requests

A batch asks a resolver for the artifacts of several modules at once: of
projects of the build with all their artifacts, and of external modules with
the one artifact that a specification names.
-/

namespace ServerFractions

/-- One module whose artifacts are wanted. -/
inductive Request where
  | project (p : Project)
  | external (s : ArtifactSpec)
  deriving DecidableEq, Repr, Inhabited

/-- An artifact that was found, with the module it belongs to. -/
structure ResolvedArtifact where
  coordinates : Coordinates
  artifact : Artifact
  deriving DecidableEq, Repr, Inhabited

/-- Requests that go to a resolver together. In a transitive batch everything
below the requested modules is wanted too. -/
structure Batch where
  requests : List Request
  transitive : Bool
  deriving DecidableEq, Repr, Inhabited

/-- Answers a batch as a whole. What it fails with is its own. -/
abbrev Resolver (ε : Type := Fault) := Batch → Except ε (List ResolvedArtifact)

def Request.coordinates : Request → Coordinates
  | .project p => p.coordinates
  | .external s => s.coordinates

def Request.gav (r : Request) : String :=
  r.coordinates.gav

/-- The descriptor of an artifact that was found; resolved artifacts are
wanted for compilation. -/
def ResolvedArtifact.descriptor (r : ResolvedArtifact) : Descriptor :=
  .ofArtifact .compile r.coordinates r.artifact

end ServerFractions
