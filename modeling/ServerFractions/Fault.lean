/-!
# Faults

The ways in which a command fails, with the wording that users see, and the
exit status that tells a rejected configuration from any other failure. A
failure may carry context: the outermost text is shown first, its causes
after it, and the status is decided by the fault at the bottom.
-/

namespace ServerFractions

inductive Fault where
  /-- The requested configuration has no scope. -/
  | unknownConfiguration (name : String)
  /-- A setting, a scenario or one of its values was rejected. -/
  | invalidConfiguration (message : String)
  /-- A first-level dependency that no configuration of the hierarchy declares. -/
  | undeclared (dependency : String)
  /-- The snapshot lacks a requested artifact. -/
  | unresolvedArtifact (coordinates : String)
  | unreadableFile (path details : String)
  | unwritableFile (path details : String)
  | badSnapshot (path details : String)
  | badCatalog (path details : String)
  deriving DecidableEq, Repr, Inhabited

namespace Fault

private def withHint (message hint : String) : String :=
  message ++ "\n\n💡 Hint: " ++ hint

def message : Fault → String
  | .unknownConfiguration name =>
    withHint ("Unknown configuration name provided: " ++ name)
      ("Request one of the standard dependency configurations " ++
        "(e.g. runtimeClasspath, compileClasspath)")
  | .invalidConfiguration message => "Invalid configuration: " ++ message
  | .undeclared dependency =>
    "Dependency resolution logic is broken. Unable to get scope for dependency: " ++ dependency
  | .unresolvedArtifact coordinates =>
    withHint ("Could not resolve artifact: " ++ coordinates)
      "Make sure the build snapshot contains the requested module"
  | .unreadableFile path details =>
    withHint ("Failed to read file: " ++ path ++ "\nDetails: " ++ details)
      "Please verify that the file exists and you have read permissions"
  | .unwritableFile path details =>
    withHint ("Failed to write to file: " ++ path ++ "\nDetails: " ++ details)
      "Please verify that the directory exists and you have write permissions"
  | .badSnapshot path details =>
    withHint ("Failed to parse build snapshot: " ++ path ++ "\nDetails: " ++ details)
      "The snapshot must be JSON exported from the build"
  | .badCatalog path details =>
    withHint ("Failed to parse fraction catalog: " ++ path ++ "\nDetails: " ++ details)
      "Each [[fraction]] entry needs group_id and artifact_id"

end Fault

-- ---------------------------------------------------------------------------
-- Failures
-- ---------------------------------------------------------------------------

/-- A fault or another failure, inside any number of contexts. -/
inductive Failure where
  | fault (f : Fault)
  | other (message : String)
  | context (text : String) (cause : Failure)
  deriving DecidableEq, Repr, Inhabited

instance : Coe Fault Failure := ⟨.fault⟩

namespace Failure

/-- The outermost text. -/
def message : Failure → String
  | .fault f => f.message
  | .other message => message
  | .context text _ => text

/-- All texts, from the outermost to that of the root cause. -/
def chain : Failure → List String
  | .context text cause => text :: cause.chain
  | f => [f.message]

/-- The fault at the bottom, if there is one. -/
def fault? : Failure → Option Fault
  | .fault f => some f
  | .other _ => none
  | .context _ cause => cause.fault?

end Failure

-- ---------------------------------------------------------------------------
-- Exit status
-- ---------------------------------------------------------------------------

inductive ExitStatus where
  | success
  | invalidConfiguration
  | invalidArguments
  | applicationError
  deriving DecidableEq, Repr, Inhabited

namespace ExitStatus

def code : ExitStatus → Nat
  | .success => 0
  | .invalidConfiguration => 1
  | .invalidArguments => 2
  | .applicationError => 3

def render : ExitStatus → String
  | .success => "Success (0)"
  | .invalidConfiguration => "Invalid Configuration (1)"
  | .invalidArguments => "Invalid Arguments (2)"
  | .applicationError => "Application Error (3)"

/-- Rejected configurations and scenarios are told apart from other failures,
through any context. -/
def ofFailure (f : Failure) : ExitStatus :=
  match f.fault? with
  | some (.invalidConfiguration _) | some (.unknownConfiguration _) => .invalidConfiguration
  | _ => .applicationError

end ExitStatus

end ServerFractions
