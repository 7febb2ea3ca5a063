import ServerFractions.Graph
import ServerFractions.Scope

/-!
# Configurations

A configuration of the build has a hierarchy, itself first and then all it
extends, and a resolved graph. The hierarchy decides the scope of a declared
dependency: the last configuration that declares it wins, so a declaration
further up the hierarchy overrides one nearer to the requested configuration.
-/

namespace ServerFractions

/-- A configuration as the build declares it. -/
structure DeclaredConfiguration where
  name : String
  dependencies : List ModuleKey
  deriving DecidableEq, Repr, Inhabited

/-- A requested configuration with its hierarchy and its resolved graph. -/
structure Configuration where
  name : String
  hierarchy : List DeclaredConfiguration
  graph : Graph
  deriving DecidableEq, Repr, Inhabited

/-- The scope that a hierarchy assigns to a dependency: that of the last
configuration that declares it. Configurations without a scope of their own
take `fallback`. -/
def assignedScope (hierarchy : List DeclaredConfiguration) (fallback : Scope) (key : ModuleKey) :
    Option Scope :=
  (hierarchy.reverse.find? (key ∈ ·.dependencies)).map
    fun declared => Scope.ofConfiguration declared.name fallback

end ServerFractions
