import ServerFractions.Configuration
import ServerFractions.Event
import ServerFractions.Fault
import ServerFractions.Reach

/-!
# Promotion

Resolving a configuration collapses its graph into top-level entries. A known
fraction is a packaging unit: wherever it is reached, it becomes an entry of
its own that holds everything below it. All else stays nested under the
first-level dependency that pulled it in, which is listed among its own
children.

First-level dependencies are taken in order and children in declared order, so
of those with the same scope the earliest that reaches a fraction owns it. A
walk stops at what is already a top-level entry, at a second visit of the same
node and at the depth limit. In direct mode there is no walk: an entry holds
the children of its first-level dependency.
-/

namespace ServerFractions

def Module.descriptor (m : Module) (s : Scope) : Descriptor :=
  .ofModule s m.coordinates m.artifacts

def Module.descriptors (m : Module) (s : Scope) : List Descriptor :=
  m.artifacts.map (.ofArtifact s m.coordinates)

namespace Graph

/-- Every artifact of every other module below `n`, cycles back to `n` included. -/
def descendants (g : Graph) (s : Scope) (n : Node) : List Descriptor :=
  let below := (preorder g.children g.nodes [n]).filter (· != n)
  (below.filterMap g.module?).flatMap (·.descriptors s)

/-- The children of `n` that carry artifacts. -/
def directChildren (g : Graph) (s : Scope) (n : Node) : List Descriptor :=
  (((g.children n).filterMap g.module?).filter (!·.artifacts.isEmpty)).map (·.descriptor s)

end Graph

namespace Promotion

-- ---------------------------------------------------------------------------
-- One walk
-- ---------------------------------------------------------------------------

/-- What stays the same during the walk from one first-level dependency. -/
structure Walk where
  graph : Graph
  fractions : List ModuleKey
  scope : Scope
  root : Descriptor

/-- What a walk changes. -/
structure State where
  result : TopLevel
  visited : List Node := []
  events : List Event := []

namespace State

def mark (st : State) (n : Node) : State :=
  { st with visited := n :: st.visited }

def report (st : State) (e : Event) : State :=
  { st with events := st.events ++ [e] }

def claim (st : State) (key : Descriptor) (children : List Descriptor) : State :=
  { st with result := (st.result.claim key children).2 }

def attach (st : State) (key child : Descriptor) : State :=
  { st with result := st.result.attach key child }

end State

/-- Visits a node with `steps` levels left. -/
def Walk.visit (w : Walk) : (steps : Nat) → Node → State → State
  | 0, _, st => st.report (.truncated w.root)
  | steps + 1, n, st =>
    if n ∈ st.visited then st
    else
      match w.graph.module? n with
      | none => st.mark n
      | some m =>
        let st := st.mark n
        let d := m.descriptor w.scope
        if st.result.contains d then st
        else if m.coordinates.key ∈ w.fractions then
          (st.report (.promoted d)).claim d (w.graph.descendants w.scope n)
        else
          let st := if m.artifacts.isEmpty then st else st.attach w.root d
          m.children.foldl (fun st child => w.visit steps child st) st

-- ---------------------------------------------------------------------------
-- All first-level dependencies
-- ---------------------------------------------------------------------------

/-- The entry of one first-level dependency, and whatever its walk promotes. -/
def resolveRoot (g : Graph) (fractions : List ModuleKey) (transitive : Bool) (s : Scope)
    (n : Node) (m : Module) (result : TopLevel) : Logged TopLevel :=
  if s == .platform || m.artifacts.isEmpty then
    ⟨result, [.skipped m.coordinates.key s m.artifacts.length]⟩
  else if transitive then
    let walk : Walk := { graph := g, fractions, scope := s, root := m.descriptor s }
    let final := walk.visit depthLimit n { result }
    ⟨final.result, final.events⟩
  else
    let (claimed, result) := result.claim (m.descriptor s) (g.directChildren s n)
    ⟨result, if claimed then [] else [.alreadyTopLevel m.coordinates]⟩

/-- Takes the first-level dependencies one by one. The first one without a
scope ends the resolution. -/
def resolveRoots (g : Graph) (scopeOf : ModuleKey → Option Scope) (fractions : List ModuleKey)
    (transitive : Bool) : List Node → TopLevel → Logged (Except Fault TopLevel)
  | [], result => pure (.ok result)
  | n :: rest, result =>
    match g.module? n with
    | none => resolveRoots g scopeOf fractions transitive rest result
    | some m =>
      match scopeOf m.coordinates.key with
      | none => pure (.error (.undeclared m.coordinates.key.text))
      | some s => do
        let result ← resolveRoot g fractions transitive s n m result
        resolveRoots g scopeOf fractions transitive rest result

end Promotion

/-- Collapses a configuration into its top-level entries. With `transitive`
fractions are promoted with their subtrees, else only direct children are
kept. -/
def Configuration.resolve (c : Configuration) (fractions : List ModuleKey) (transitive : Bool) :
    Logged (Except Fault TopLevel) :=
  match Scope.ofConfiguration? c.name with
  | none => pure (.error (.unknownConfiguration c.name))
  | some fallback =>
    Promotion.resolveRoots c.graph (assignedScope c.hierarchy fallback) fractions transitive
      c.graph.firstLevel .empty

end ServerFractions
