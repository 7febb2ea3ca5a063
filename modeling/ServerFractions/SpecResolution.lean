import ServerFractions.Batch
import ServerFractions.ProjectIndex

/-!
# Resolving specifications

A list of specifications becomes a set of descriptors. What is left out or
kept as it is needs no resolver; all the rest goes to the resolver in one
batch, in the order of the list. Nothing is asked of the build for a list
that is absent or empty.
-/

namespace ServerFractions

namespace SpecResolution

structure Sorting where
  kept : List Descriptor := []
  requests : List Request := []
  deriving DecidableEq, Repr

/-- Sorts one specification in, given its project in the build. -/
def Sorting.add (st : Sorting) (policy : SpecPolicy) (project? : Option Project)
    (spec : ArtifactSpec) : Logged Sorting :=
  match policy.disposition spec project?.isSome with
  | .skip => do
    Logged.report (.suppliedByRuntime spec.gav)
    return st
  | .passThrough => pure { st with kept := Descriptor.insert spec.descriptor st.kept }
  | .resolveProject =>
    pure { st with requests := st.requests ++ (project?.map Request.project).toList }
  | .resolveExternal => pure { st with requests := st.requests ++ [.external spec] }

def sort (registry : Registry) (policy : SpecPolicy) :
    List ArtifactSpec → Sorting → Cache → Logged (Sorting × Cache)
  | [], st, cache => pure (st, cache)
  | spec :: rest, st, cache => do
    let (project?, cache) ← ProjectIndex.find ⟨registry, cache⟩ spec.coordinates
    let st ← st.add policy project? spec
    sort registry policy rest st cache

end SpecResolution

/-- What became of a list of specifications: the answer, every batch that the
resolver was asked, and the cache. -/
structure SpecResolution (ε : Type := Fault) where
  answer : Except ε (List Descriptor)
  batches : List Batch := []
  cache : Cache

open SpecResolution in
/-- Resolves specifications. An absent list is reported and treated as empty. -/
def resolveSpecs {ε : Type} (registry : Registry) (resolver : Resolver ε) (policy : SpecPolicy)
    (specs? : Option (List ArtifactSpec)) (cache : Cache) : Logged (SpecResolution ε) :=
  match specs? with
  | none => do
    Logged.report .absentSpecs
    return { answer := .ok [], cache }
  | some specs => do
    let (sorting, cache) ← sort registry policy specs {} cache
    if sorting.requests.isEmpty then return { answer := .ok sorting.kept, cache }
    Logged.report (.batched sorting.requests.length)
    let batch : Batch := { requests := sorting.requests, transitive := policy.transitive }
    let answer := (resolver batch).map fun found =>
      Descriptor.insertAll (found.map (·.descriptor)) sorting.kept
    return { answer, batches := [batch], cache }

end ServerFractions
