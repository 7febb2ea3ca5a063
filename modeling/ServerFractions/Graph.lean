import ServerFractions.Artifact
import ServerFractions.Coordinates

/-!
# Dependency graphs

A graph holds resolved modules, each reached by its node, the place where it
stands. Modules are shared between parents and may lie on cycles. The first
level lists what the configuration itself asks for.
-/

namespace ServerFractions

/-- The place of a module in a graph. -/
abbrev Node := Nat

/-- A resolved module with its artifacts and its children. Platforms and
aggregators carry no artifacts. -/
structure Module where
  coordinates : Coordinates
  artifacts : List Artifact
  children : List Node := []
  deriving DecidableEq, Repr, Inhabited

structure Graph where
  modules : Array Module := #[]
  firstLevel : List Node := []
  deriving DecidableEq, Repr, Inhabited

namespace Graph

def empty : Graph := {}

def module? (g : Graph) (n : Node) : Option Module :=
  g.modules[n]?

/-- The children of a node; none for a place that holds no module. -/
def children (g : Graph) (n : Node) : List Node :=
  (g.module? n).elim [] (·.children)

def size (g : Graph) : Nat :=
  g.modules.size

def nodes (g : Graph) : List Node :=
  List.range g.size

def find? (g : Graph) (c : Coordinates) : Option Node :=
  g.modules.findIdx? (·.coordinates == c)

end Graph

end ServerFractions
