import ServerFractions.Artifact
import ServerFractions.Json.Reader
import ServerFractions.Json.Record
import ServerFractions.Project

/-!
# Snapshot documents

What the export of a build holds: its projects, the builds it includes, its
resolved modules and its configurations. Modules refer to each other by gav
and configurations by name; a document alone does not promise that what is
referred to exists.
-/

namespace ServerFractions.Snapshot

open Json (Record Value)

structure ModuleEntry where
  coordinates : Coordinates
  artifacts : List Artifact := []
  children : List String := []
  deriving DecidableEq, Repr, Inhabited

/-- A build that is included. Its modules are absent when it cannot list them. -/
structure IncludedBuild where
  name : String
  availableModules : Option (List Coordinates) := none
  deriving DecidableEq, Repr, Inhabited

/-- A configuration with the names of those it extends, the dependencies it
declares and the gavs of its first-level modules. -/
structure ConfigurationEntry where
  name : String
  extendsFrom : List String := []
  dependencies : List String := []
  firstLevel : List String := []
  deriving DecidableEq, Repr, Inhabited

structure Document where
  rootProject : String
  projects : List Project := []
  includedBuilds : List IncludedBuild := []
  modules : List ModuleEntry := []
  configurations : List ConfigurationEntry := []
  deriving DecidableEq, Repr, Inhabited

def ModuleEntry.gav (m : ModuleEntry) : String :=
  m.coordinates.gav

namespace Document

def gavs (d : Document) : List String :=
  d.modules.map (·.gav)

def configurationNames (d : Document) : List String :=
  d.configurations.map (·.name)

end Document

-- ---------------------------------------------------------------------------
-- Reading
-- ---------------------------------------------------------------------------

namespace Decode

def coordinateFields : List String := ["group", "name", "version"]

def coordinatesOf? (r : Record) : Option Coordinates := do
  return { group := ← r.required "group" Value.asText?
           name := ← r.required "name" Value.asText?
           version := ← r.required "version" Value.asText? }

def coordinates? (v : Value) : Option Coordinates :=
  Record.ofValue? coordinateFields v >>= coordinatesOf?

def artifact? (v : Value) : Option Artifact := do
  let r ← Record.ofValue? ["type", "classifier", "file"] v
  return { type := ← r.withDefault "type" "jar" Value.asText?
           classifier := ← r.optional "classifier" Value.asText?
           file := ← r.optional "file" Value.asText? }

def project? (v : Value) : Option Project := do
  let r ← Record.ofMerged? ("path" :: coordinateFields) v
  let path ← r.optional "path" Value.asText?
  return { coordinates := ← coordinatesOf? r, path := path.getD "." }

def includedBuild? (v : Value) : Option IncludedBuild := do
  let r ← Record.ofValue? ["name", "available_modules"] v
  return { name := ← r.required "name" Value.asText?
           availableModules := ← r.optional "available_modules" (Value.asList? coordinates?) }

def module? (v : Value) : Option ModuleEntry := do
  let r ← Record.ofMerged? ("artifacts" :: "children" :: coordinateFields) v
  return { coordinates := ← coordinatesOf? r
           artifacts := ← r.withDefault "artifacts" [] (Value.asList? artifact?)
           children := ← r.withDefault "children" [] (Value.asList? Value.asText?) }

def configuration? (v : Value) : Option ConfigurationEntry := do
  let r ← Record.ofValue? ["name", "extends_from", "dependencies", "first_level"] v
  let texts := Value.asList? Value.asText?
  return { name := ← r.required "name" Value.asText?
           extendsFrom := ← r.withDefault "extends_from" [] texts
           dependencies := ← r.withDefault "dependencies" [] texts
           firstLevel := ← r.withDefault "first_level" [] texts }

def document? (v : Value) : Option Document := do
  let r ← Record.ofValue?
    ["root_project", "projects", "included_builds", "modules", "configurations"] v
  return { rootProject := ← r.required "root_project" Value.asText?
           projects := ← r.withDefault "projects" [] (Value.asList? project?)
           includedBuilds := ← r.withDefault "included_builds" [] (Value.asList? includedBuild?)
           modules := ← r.withDefault "modules" [] (Value.asList? module?)
           configurations := ← r.withDefault "configurations" [] (Value.asList? configuration?) }

end Decode

def Document.read? (text : String) : Option Document :=
  Json.read? text >>= Decode.document?

end ServerFractions.Snapshot
