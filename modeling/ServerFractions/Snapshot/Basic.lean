import ServerFractions.Event
import ServerFractions.Fault
import ServerFractions.Snapshot.Closed

/-!
# Snapshots

A snapshot is a closed document: every module, configuration and key that it
refers to exists. Loading checks this once, so that everything asked of a
snapshot later finds what it looks for.
-/

namespace ServerFractions

structure Snapshot where
  document : Snapshot.Document
  closed : document.Closed

namespace Snapshot

/-- Why a text is no snapshot. -/
inductive LoadFault where
  | malformed
  | fault (f : SnapshotFault)
  deriving DecidableEq, Repr

def LoadFault.message : LoadFault → String
  | .malformed => "not a JSON document of the expected form"
  | .fault f => f.message

/-- The snapshot of a document, or its earliest fault. -/
def ofDocument (d : Document) : Except SnapshotFault Snapshot :=
  match h : d.firstFault? with
  | none => .ok ⟨d, Document.firstFault?_eq_none_iff.1 h⟩
  | some f => .error f

def parse (text : String) : Except LoadFault Snapshot :=
  match Document.read? text with
  | none => .error .malformed
  | some d => (ofDocument d).mapError .fault

/-- Loads the text of the file `source`; only faults and no answer mention it. -/
def load (text source : String) : Logged (Except Fault Snapshot) :=
  match parse text with
  | .error f => pure (.error (.badSnapshot source f.message))
  | .ok s => do
    Logged.report (.loadedSnapshot s.document.rootProject s.document.modules.length
      s.document.configurations.length)
    return .ok s

def module? (s : Snapshot) (gav : String) : Option ModuleEntry :=
  s.document.modules.find? (·.gav == gav)

def children (s : Snapshot) (gav : String) : List String :=
  (s.module? gav).elim [] (·.children)

def configuration? (s : Snapshot) (name : String) : Option ConfigurationEntry :=
  s.document.configurations.find? (·.name == name)

/-- The names of all configurations, in ascending order. -/
def configurationNames (s : Snapshot) : List String :=
  s.document.configurationNames.mergeSort fun a b => a ≤ b

/-- The modules of the first included build of a name, if it can list them. -/
def availableModules (s : Snapshot) (build : String) : Option (List Coordinates) :=
  (s.document.includedBuilds.find? (·.name == build)).bind (·.availableModules)

def registry (s : Snapshot) : Registry where
  rootProject := s.document.rootProject
  projects := s.document.projects
  includedBuilds := s.document.includedBuilds.map (·.name)
  availableModules := s.availableModules

end Snapshot

end ServerFractions
