import ServerFractions.Descriptor

/-!
# Artifact specifications

What a caller asks for: one artifact of one module. A specification that
names a file is already resolved. The disposition of a specification says
whether it is left out, kept as it is, or resolved as a project of the build
or as an external module.
-/

namespace ServerFractions

/-- A request for one artifact of a module, with the scope it is wanted in. -/
structure ArtifactSpec where
  groupId : String
  artifactId : String
  version : String
  type : String := "jar"
  classifier : Option String := none
  scope : Scope := .compile
  file : Option String := none
  deriving DecidableEq, Repr, Inhabited

namespace ArtifactSpec

def coordinates (s : ArtifactSpec) : Coordinates :=
  ⟨s.groupId, s.artifactId, s.version⟩

def gav (s : ArtifactSpec) : String :=
  s.coordinates.gav

/-- The artifact that is asked for, with its file if it has one. -/
def artifact (s : ArtifactSpec) : Artifact :=
  { type := s.type, classifier := s.classifier, file := s.file }

def isResolved (s : ArtifactSpec) : Bool :=
  s.file.isSome

/-- The descriptor of exactly what is asked for. -/
def descriptor (s : ArtifactSpec) : Descriptor :=
  .ofArtifact s.scope s.coordinates s.artifact

/-- Whether an artifact is the one that is asked for, files aside. -/
def accepts (s : ArtifactSpec) (a : Artifact) : Bool :=
  a.type == s.type && a.classifier == s.classifier

end ArtifactSpec

-- ---------------------------------------------------------------------------
-- Dispositions
-- ---------------------------------------------------------------------------

/-- What becomes of a specification. -/
inductive Disposition where
  | skip
  | passThrough
  | resolveProject
  | resolveExternal
  deriving DecidableEq, Repr, Inhabited

/-- What a caller wants done with a list of specifications. Specifications of
the default group are supplied by the runtime and may be left out. -/
structure SpecPolicy where
  transitive : Bool := true
  excludeDefaults : Bool := false
  defaultGroup : String := "io.thorntail"
  deriving DecidableEq, Repr, Inhabited

/-- A specification of the default group is left out only if it is excluded
and no project. A known file is enough unless everything below it is wanted
too. -/
def SpecPolicy.disposition (p : SpecPolicy) (s : ArtifactSpec) (isProject : Bool) : Disposition :=
  if p.excludeDefaults && s.groupId == p.defaultGroup && !isProject then .skip
  else if !s.isResolved || p.transitive then
    if isProject then .resolveProject else .resolveExternal
  else .passThrough

end ServerFractions
