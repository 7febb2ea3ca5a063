/-!
# Artifacts

One file that a resolved module produces. The type is free text; a
classifier that is absent differs from one that is empty.
-/

namespace ServerFractions

/-- One artifact of a module. `file` is absent until the artifact is fetched. -/
structure Artifact where
  type : String := "jar"
  classifier : Option String := none
  file : Option String := none
  deriving DecidableEq, Repr, Inhabited

end ServerFractions
