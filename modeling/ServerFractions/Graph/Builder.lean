import ServerFractions.Graph
import Std.Data.HashMap

/-!
# Building graphs

A builder takes modules, edges and first-level nodes one by one. Adding the
same coordinates again gives the node that is already there and changes
nothing, so shared subtrees are written by naming them again. Edges and
first-level nodes are kept once, in the order of their first insertion.
-/

namespace ServerFractions

/-- Adds an element at the end unless it is there. -/
def appendNew {α : Type} [DecidableEq α] (a : α) (as : List α) : List α :=
  if a ∈ as then as else as ++ [a]

structure Graph.Builder where
  modules : Array Module := #[]
  index : Std.HashMap Coordinates Node := ∅
  firstLevel : List Node := []

namespace Graph.Builder

def empty : Builder := {}

/-- The node of a module that was added. -/
def node? (b : Builder) (c : Coordinates) : Option Node :=
  b.index[c]?

/-- Adds a module and gives its node. Coordinates that are already there keep
their node and the artifacts they came with first. -/
def addModule (b : Builder) (c : Coordinates) (artifacts : List Artifact) : Node × Builder :=
  match b.node? c with
  | some n => (n, b)
  | none =>
    (b.modules.size,
      { b with
        modules := b.modules.push { coordinates := c, artifacts }
        index := b.index.insert c b.modules.size })

def addChild (b : Builder) (parent child : Node) : Builder :=
  { b with modules := b.modules.modify parent fun m =>
      { m with children := appendNew child m.children } }

/-- Adds a node to the first level. -/
def addFirstLevel (b : Builder) (n : Node) : Builder :=
  { b with firstLevel := appendNew n b.firstLevel }

def build (b : Builder) : Graph :=
  { modules := b.modules, firstLevel := b.firstLevel }

end Graph.Builder

end ServerFractions
