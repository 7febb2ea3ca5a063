import ServerFractions.Coordinates

/-!
# Projects of a build

A build has projects of its own and includes other builds, which may or may
not be able to list their modules. A registry is what a resolution may ask a
build about them.
-/

namespace ServerFractions

/-- A project of the build and the directory it lies in. -/
structure Project where
  coordinates : Coordinates
  path : String := "."
  deriving DecidableEq, Repr, Inhabited

/-- What a build tells about its projects. The same name may stand for several
included builds. -/
structure Registry where
  rootProject : String
  projects : List Project
  includedBuilds : List String
  availableModules : String → Option (List Coordinates)

end ServerFractions
