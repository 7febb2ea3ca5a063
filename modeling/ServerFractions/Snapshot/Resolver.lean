import ServerFractions.Batch
import ServerFractions.Reach
import ServerFractions.Snapshot.Basic

/-!
# Resolving batches against a snapshot

A request is answered with the artifacts of its module and, in a transitive
batch, of everything below it, the last child first. For an external request
the module itself contributes only the artifact that is asked for, and has to
have it. The first request that cannot be answered refuses the batch.
-/

namespace ServerFractions.Snapshot

def ModuleEntry.resolved (m : ModuleEntry) : List ResolvedArtifact :=
  m.artifacts.map fun a => ⟨m.coordinates, a⟩

/-- The artifacts of the module with a gav and, if `transitive`, of everything
below it. -/
def collect (s : Snapshot) (transitive : Bool) (gav : String) : List ResolvedArtifact :=
  let gavs :=
    if transitive then preorder (fun g => (s.children g).reverse) s.document.gavs [gav] else [gav]
  (gavs.filterMap s.module?).flatMap (·.resolved)

def resolveRequest (s : Snapshot) (transitive : Bool) (r : Request) :
    Except Fault (List ResolvedArtifact) :=
  match s.module? r.gav with
  | none => .error (.unresolvedArtifact r.gav)
  | some m =>
    let found := s.collect transitive r.gav
    match r with
    | .project _ => .ok found
    | .external spec =>
      if m.artifacts.any spec.accepts then
        .ok (found.filter fun a => a.coordinates != m.coordinates || spec.accepts a.artifact)
      else .error (.unresolvedArtifact r.gav)

/-- The snapshot as a resolver: one block per request, in order. -/
def resolver (s : Snapshot) : Resolver := fun batch => do
  return (← batch.requests.mapM (s.resolveRequest batch.transitive)).flatten

end ServerFractions.Snapshot
