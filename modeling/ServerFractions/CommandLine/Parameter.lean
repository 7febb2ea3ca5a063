import ServerFractions.Report.Format

/-!
# Parameters of the command line

What can be written on the command line: the parameters with their names,
letters and kinds of values, and the commands with the parameters and operands
that each takes.
-/

namespace ServerFractions.CommandLine

inductive ValueKind where
  | path
  | text
  | format
  deriving DecidableEq, Repr

/-- Whether a value is one of a kind. A text may be empty, a path may not. -/
def ValueKind.admits : ValueKind → String → Bool
  | .path, value => value != ""
  | .text, _ => true
  | .format, value => (OutputFormat.parse? value).isSome

inductive Parameter where
  | verbose
  | quiet
  | help
  | version
  | snapshot
  | catalog
  | configuration
  | directChildrenOnly
  | format
  | output
  | settings
  | specs
  | transitive
  | excludeDefaults
  | defaultGroup
  | all
  | snippets
  deriving DecidableEq, Repr

namespace Parameter

/-- The name that is written after two hyphens. -/
def name : Parameter → String
  | .verbose => "verbose"
  | .quiet => "quiet"
  | .help => "help"
  | .version => "version"
  | .snapshot => "snapshot"
  | .catalog => "catalog"
  | .configuration => "configuration"
  | .directChildrenOnly => "direct-children-only"
  | .format => "format"
  | .output => "output"
  | .settings => "config"
  | .specs => "specs"
  | .transitive => "transitive"
  | .excludeDefaults => "exclude-defaults"
  | .defaultGroup => "default-group"
  | .all => "all"
  | .snippets => "snippets"

/-- The letter that is written after one hyphen. -/
def letter? : Parameter → Option Char
  | .verbose => some 'v'
  | .quiet => some 'q'
  | .help => some 'h'
  | .version => some 'V'
  | .snapshot => some 's'
  | .catalog => some 'c'
  | .format => some 'f'
  | .output => some 'o'
  | _ => none

/-- The kind of the value of a parameter; flags have none. -/
def value? : Parameter → Option ValueKind
  | .snapshot | .catalog | .output | .settings | .specs => some .path
  | .configuration | .defaultGroup => some .text
  | .format => some .format
  | _ => none

def repeats (p : Parameter) : Bool :=
  p == .verbose

def purpose : Parameter → String
  | .verbose => "Increase log verbosity (-v info, -vv debug)"
  | .quiet => "Suppress progress output; errors are still reported"
  | .help => "Print help"
  | .version => "Print version"
  | .snapshot => "Build snapshot (JSON)"
  | .catalog => "Fraction catalog (TOML)"
  | .configuration => "Configuration to resolve [default: runtimeClasspath]"
  | .directChildrenOnly => "Keep only direct children instead of promoting fraction subtrees"
  | .format => "Output format: json or text"
  | .output => "Output file path (if not specified, outputs to stdout)"
  | .settings => "Configuration file [default: fraction-resolver.config.yml next to the snapshot]"
  | .specs => "Artifact specs (JSON array)"
  | .transitive => "Resolve dependencies of every spec as well"
  | .excludeDefaults => "Skip default-group specs that are not projects of the build"
  | .defaultGroup => "Group supplied by the runtime [default: io.thorntail]"
  | .all => "List every valid serialized scenario instead"
  | .snippets => "Also print the dependency and plugin configuration snippets"

end Parameter

-- ---------------------------------------------------------------------------
-- Commands
-- ---------------------------------------------------------------------------

/-- The commands by name only. -/
inductive Verb where
  | resolve
  | specs
  | scenario
  deriving DecidableEq, Repr

def rootParameters : List Parameter :=
  [.verbose, .quiet, .help, .version]

namespace Verb

def all : List Verb := [.resolve, .specs, .scenario]

def name : Verb → String
  | .resolve => "resolve"
  | .specs => "specs"
  | .scenario => "scenario"

/-- A command is written as its exact name. -/
def parse? (s : String) : Option Verb :=
  all.find? (·.name == s)

theorem parse?_name (v : Verb) : parse? v.name = some v := by
  cases v <;> decide

def parameters : Verb → List Parameter
  | .resolve =>
    [.snapshot, .catalog, .configuration, .directChildrenOnly, .format, .output, .settings,
      .verbose, .quiet, .help]
  | .specs =>
    [.snapshot, .specs, .transitive, .excludeDefaults, .defaultGroup, .output, .settings,
      .verbose, .quiet, .help]
  | .scenario => [.all, .snippets, .verbose, .quiet, .help]

def required : Verb → List Parameter
  | .resolve => [.snapshot, .catalog]
  | .specs => [.snapshot, .specs]
  | .scenario => []

/-- The name of the operand of a command that takes one. -/
def operand? : Verb → Option String
  | .scenario => some "RECORD"
  | _ => none

def purpose : Verb → String
  | .resolve => "Resolve a configuration into top-level dependencies and promoted fractions"
  | .specs => "Resolve a list of artifact specs against the snapshot"
  | .scenario => "Show the expectations derived from a testing project scenario"

end Verb

end ServerFractions.CommandLine
