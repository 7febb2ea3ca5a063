import ServerFractions.Graph.Builder
import ServerFractions.Reach
import ServerFractions.Snapshot.Hierarchy

/-!
# Graphs of configurations

The graph of a configuration holds what can be reached from its first level,
in depth-first preorder, with the declared children in declared order.
-/

namespace ServerFractions.Snapshot

/-- The modules that can be reached from the given gavs, in depth-first preorder. -/
def reached (s : Snapshot) (gavs : List String) : List ModuleEntry :=
  (preorder s.children s.document.gavs gavs).filterMap s.module?

/-- The node of a gav in a graph that holds its module. -/
def node? (s : Snapshot) (b : Graph.Builder) (gav : String) : Option Node :=
  (s.module? gav).bind (b.node? ·.coordinates)

def withModules (modules : List ModuleEntry) : Graph.Builder :=
  modules.foldl (fun b m => (b.addModule m.coordinates m.artifacts).2) .empty

def withEdges (s : Snapshot) (b : Graph.Builder) (m : ModuleEntry) : Graph.Builder :=
  match b.node? m.coordinates with
  | none => b
  | some parent => (m.children.filterMap (s.node? b)).foldl (·.addChild parent ·) b

/-- The graph of everything below the given first level. -/
def graph (s : Snapshot) (firstLevel : List String) : Graph :=
  let modules := s.reached firstLevel
  let b := modules.foldl s.withEdges (withModules modules)
  ((firstLevel.filterMap (s.node? b)).foldl (·.addFirstLevel ·) b).build

def configuration (s : Snapshot) (name : String) : Logged (Option Configuration) :=
  match s.configuration? name with
  | none => pure none
  | some entry => do
    let hierarchy ← s.hierarchy name
    return some { name, hierarchy, graph := s.graph entry.firstLevel }

end ServerFractions.Snapshot
