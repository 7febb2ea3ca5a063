import ServerFractions.Catalog
import ServerFractions.CommandLine.Outcome
import ServerFractions.ProjectResolution
import ServerFractions.Scenario.Matrix
import ServerFractions.Scenario.Record
import ServerFractions.Settings
import ServerFractions.Snapshot.Resolver
import ServerFractions.SpecList
import ServerFractions.SpecResolution

/-!
# Running commands

What a command comes to, given what is seen of its files. The settings are
loaded first, then the inputs in the order in which they are named here, and
only when all else has succeeded is the text delivered. So of several faults the
first decides the outcome, and a command that fails delivers nothing.
-/

namespace ServerFractions.CommandLine

/-- A step of a command: it may fail, and events are reported on the way. -/
abbrev Attempt := ExceptT Failure Logged

-- ---------------------------------------------------------------------------
-- Inputs
-- ---------------------------------------------------------------------------

/-- The file next to a snapshot that holds the settings, unless another is given. -/
def besideSnapshot (snapshot : String) : String :=
  let directory := ((Path.parent? snapshot).filter (· != "")).getD "."
  Path.join directory Settings.fileName

def settingsAt (files : Files) (path : String) : Attempt Settings :=
  match files.text path with
  | .error reason => throw (Settings.unreadable path reason)
  | .ok text => ExceptT.mk (Settings.load text path)

/-- The settings that are given, or those beside the snapshot, or none. -/
def settings (files : Files) (given : Option String) (snapshot : String) : Attempt Settings :=
  match given with
  | some path => settingsAt files path
  | none =>
    let path := besideSnapshot snapshot
    if files.stands path then settingsAt files path else return {}

def loadInput {α : Type} (files : Files) (path : String)
    (load : String → String → Logged (Except Fault α)) : Attempt α :=
  match files.input path with
  | .error fault => throw (.fault fault)
  | .ok text => ExceptT.mk do
    return (← load text path).mapError .fault

/-- Reads a list of specifications. The path is only named in faults. -/
def loadSpecs (text path : String) : Logged (Except Fault (List ArtifactSpec)) :=
  match ArtifactSpec.readList? text with
  | some specs => pure (.ok specs)
  | none =>
    pure (.error (.unreadableFile path
      "expected a JSON array of artifact specs: not a list of the expected form"))

-- ---------------------------------------------------------------------------
-- Resolving a configuration
-- ---------------------------------------------------------------------------

namespace ResolveOptions

/-- What is to be resolved and how it is to be shown. -/
structure Plan where
  configuration : String
  transitive : Bool
  format : OutputFormat

/-- Options are given precedence over settings, and settings over defaults. -/
def plan (o : ResolveOptions) (s : Settings) : Plan where
  configuration := (o.configuration.or s.configuration).getD Settings.defaultConfiguration
  transitive := !o.directChildrenOnly && s.transitiveChildren.getD true
  format := (o.format.or s.outputFormat).getD .json

def blankConfiguration : Fault :=
  .invalidConfiguration ("configuration must not be empty.\n\n" ++
    "💡 Hint: Omit --configuration to resolve runtimeClasspath.")

structure Prepared where
  plan : Plan
  snapshot : Snapshot
  catalog : Catalog

def prepare (o : ResolveOptions) (files : Files) : Attempt Prepared := do
  let plan := o.plan (← CommandLine.settings files o.settings o.snapshot)
  if Text.isAllBlank plan.configuration then throw (.fault blankConfiguration)
  let snapshot ← loadInput files o.snapshot Snapshot.load
  let catalog ← loadInput files o.catalog Catalog.load
  return { plan, snapshot, catalog }

/-- The line that a notice puts before the user. Errors are told even to one
who wants quiet; progress is drawn on terminals only. -/
def line? (quiet : Bool) : Notice → Option String
  | .report message | .completion message => if quiet then none else some message
  | .error message => some message
  | .progress _ _ _ => none

def run (o : ResolveOptions) (files : Files) (now : Instant) (quiet : Bool) : Logged Outcome := do
  match ← o.prepare files with
  | .error failure => return { answer := .error failure }
  | .ok p =>
    let r ← p.snapshot.resolveProject (.ok p.catalog.keys) p.plan.configuration p.plan.transitive
      Cache.empty
    let told := r.notices.filterMap (line? quiet)
    match r.answer with
    | .error failure => return { told, answer := .error failure }
    | .ok resolved =>
      let text := (Report.build resolved (.at now)).render p.plan.format
      return {
        told := if quiet then told else told ++ [p.plan.format.progress]
        answer := (deliver files o.output text).mapError .fault }

end ResolveOptions

-- ---------------------------------------------------------------------------
-- Resolving specifications
-- ---------------------------------------------------------------------------

namespace SpecsOptions

/-- A flag is set by its option or by the settings. -/
def policy (o : SpecsOptions) (s : Settings) : SpecPolicy where
  transitive := o.transitive || s.transitiveChildren.getD false
  excludeDefaults := o.excludeDefaults || s.excludeDefaults.getD false
  defaultGroup := (o.defaultGroup.or s.defaultGroup).getD Settings.standardGroup

def resolve (o : SpecsOptions) (files : Files) : Attempt (List Descriptor) := do
  let policy := o.policy (← CommandLine.settings files o.settings o.snapshot)
  let snapshot ← loadInput files o.snapshot Snapshot.load
  let specs ← loadInput files o.specs loadSpecs
  let r ← resolveSpecs snapshot.registry snapshot.resolver policy (some specs) Cache.empty
  match r.answer with
  | .ok found => return found
  | .error fault => throw (.fault fault)

def run (o : SpecsOptions) (files : Files) : Logged Outcome := do
  match ← o.resolve files with
  | .error failure => return { answer := .error failure }
  | .ok found =>
    return { answer := (deliver files o.output (Descriptor.renderList found)).mapError .fault }

end SpecsOptions

-- ---------------------------------------------------------------------------
-- Scenarios
-- ---------------------------------------------------------------------------

namespace ScenarioOptions

def listed (names : List String) : String :=
  if names.isEmpty then "(none)" else ", ".intercalate names

def expectations (s : Scenario) (snippets : Bool) : String :=
  s!"{s.describe}\n" ++
    s!"tests runnable: {s.runnable}\n" ++
    s!"autodetection effective: {s.detects}\n" ++
    s!"expected fractions: {listed s.present}\n" ++
    s!"absent fractions: {listed s.absent}\n" ++
    if snippets then
      s!"\n# dependencies\n{s.dependenciesSnippet}\n" ++
        s!"\n# plugin configuration\n{s.pluginSnippet}\n"
    else ""

def run : ScenarioOptions → Outcome
  | .all =>
    { answer := .ok (.printed (String.join (Scenario.matrix.map (·.record ++ "\n")))) }
  | .one record snippets =>
    match Scenario.parse record with
    | .ok s => { answer := .ok (.printed (expectations s snippets)) }
    | .error fault => { answer := .error fault.fault }

end ScenarioOptions

-- ---------------------------------------------------------------------------
-- Invocations
-- ---------------------------------------------------------------------------

namespace Invocation

def threshold (i : Invocation) : Level :=
  match i.verbosity with
  | 0 => .warn
  | 1 => .info
  | _ => .debug

def run (i : Invocation) (files : Files) (now : Instant) : Logged Outcome :=
  match i.command with
  | .resolve o => o.run files now i.quiet
  | .specs o => o.run files
  | .scenario o => return o.run

/-- The paths that a command looks at, that of its settings first. -/
def paths (i : Invocation) : List String :=
  match i.command with
  | .resolve o => settingsPath o.settings o.snapshot :: o.snapshot :: o.catalog :: outputPaths o.output
  | .specs o => settingsPath o.settings o.snapshot :: o.snapshot :: o.specs :: outputPaths o.output
  | .scenario _ => []
where
  settingsPath (given : Option String) (snapshot : String) : String :=
    given.getD (besideSnapshot snapshot)
  outputPaths (output : Option String) : List String :=
    output.toList ++ (output.bind Path.parent?).toList

end Invocation

def respond (files : Files) (now : Instant) (arguments : List String) : Logged Response :=
  match Invocation.read arguments with
  | .error stop => pure stop.response
  | .ok invocation => do
    return (← invocation.run files now).response

end ServerFractions.CommandLine
