/-!
# Coordinates of modules

A module is named by group, name and version. Its key is the version-less
`group:artifact` text by which catalogs and declared dependencies refer to it,
its gav the `group:name:version` text by which a snapshot refers to it. Both
texts join their parts without escaping, so parts that hold a colon can share
a text; reading a declared key accepts only texts with one reading.
-/

namespace ServerFractions

/-- The `group:artifact` text of a module, without version. -/
structure ModuleKey where
  text : String
  deriving DecidableEq, Repr, Inhabited, Hashable

structure Coordinates where
  group : String
  name : String
  version : String
  deriving DecidableEq, Repr, Inhabited, Hashable

namespace ModuleKey

/-- The key of a group and an artifact, whatever characters they hold. -/
def ofParts (group artifact : String) : ModuleKey :=
  ⟨group ++ ":" ++ artifact⟩

/-- Reads `group:artifact`: one colon with text on both sides. -/
def parse? (value : String) : Option ModuleKey :=
  let chars := value.toList
  let group := chars.takeWhile (· != ':')
  match chars.dropWhile (· != ':') with
  | [] => none
  | _ :: artifact =>
    if group.isEmpty || artifact.isEmpty || artifact.contains ':' then none
    else some (ofParts (String.ofList group) (String.ofList artifact))

end ModuleKey

namespace Coordinates

/-- The key of the module, shared by all its versions. -/
def key (c : Coordinates) : ModuleKey :=
  .ofParts c.group c.name

/-- The text `group:name:version`. -/
def gav (c : Coordinates) : String :=
  c.group ++ ":" ++ c.name ++ ":" ++ c.version

end Coordinates

end ServerFractions
