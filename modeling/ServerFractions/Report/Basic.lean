import ServerFractions.ProjectResolution
import ServerFractions.Timestamp

/-!
# Reports

A report is the canonical view of a resolved configuration: its entries and
their children in ascending order, each with the fields that readers see, and
where it came from. Nothing in it is shared with the resolution, so a report
can hold any text.
-/

namespace ServerFractions

def toolName : String := "fraction-resolver"

def toolVersion : String := "0.4.0"

namespace Report

/-- A dependency as readers see it. -/
structure Dependency where
  group : String
  artifact : String
  version : String
  scope : String
  type : String
  classifier : Option String := none
  file : Option String := none
  deriving DecidableEq, Repr, Inhabited

/-- A top-level dependency, whether it is a known fraction, whether it is a
project, and what it brings along. -/
structure Entry where
  dependency : Dependency
  fraction : Bool
  project : Bool
  children : List Dependency := []
  deriving DecidableEq, Repr, Inhabited

structure Metadata where
  timestamp : String
  toolName : String
  toolVersion : String
  deriving DecidableEq, Repr, Inhabited

end Report

structure Report where
  metadata : Report.Metadata
  configuration : String
  entries : List Report.Entry
  deriving DecidableEq, Repr, Inhabited

namespace Report

namespace Dependency

def gav (d : Dependency) : String :=
  Coordinates.gav ⟨d.group, d.artifact, d.version⟩

def ofDescriptor (d : Descriptor) : Dependency :=
  { group := d.group, artifact := d.artifact, version := d.version, scope := d.scope.name,
    type := d.type, classifier := d.classifier, file := d.file }

end Dependency

def Metadata.at (now : Instant) : Metadata :=
  ⟨now.render, ServerFractions.toolName, ServerFractions.toolVersion⟩

def fractionCount (r : Report) : Nat :=
  r.entries.countP (·.fraction)

/-- The place of the first entry of a gav. -/
def find? (r : Report) (gav : String) : Option Nat :=
  r.entries.findIdx? (·.dependency.gav == gav)

def build (resolved : ResolvedProject) (metadata : Metadata) : Report :=
  { metadata
    configuration := resolved.configuration
    entries := resolved.result.sorted.map fun e =>
      { dependency := .ofDescriptor e.key
        fraction := e.key.key ∈ resolved.fractions
        project := e.key.gav ∈ resolved.projectGavs
        children := e.children.map .ofDescriptor } }

end Report

end ServerFractions
