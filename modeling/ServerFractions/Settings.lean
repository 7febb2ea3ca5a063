import ServerFractions.Event
import ServerFractions.Fault
import ServerFractions.Report.Format
import ServerFractions.Text.Blank
import ServerFractions.Yaml.Value

/-!
# Settings

Defaults for the command line, kept in a YAML file. All settings are optional;
unknown ones are reported and passed over. Texts may be written as any scalar.
-/

namespace ServerFractions

structure Settings where
  configuration : Option String := none
  transitiveChildren : Option Bool := none
  excludeDefaults : Option Bool := none
  defaultGroup : Option String := none
  format : Option String := none
  /-- The names of unknown settings, in ascending order, each once. -/
  unknown : List String := []
  deriving DecidableEq, Repr, Inhabited

namespace Settings

/-- The name of the file that is looked for when none is given. -/
def fileName : String := "fraction-resolver.config.yml"

/-- The configuration that is resolved when none is named. -/
def defaultConfiguration : String := "runtimeClasspath"

/-- The group whose artifacts the runtime supplies, unless another is set. -/
def standardGroup : String := "io.thorntail"

def outputFormat (s : Settings) : Option OutputFormat :=
  s.format.bind OutputFormat.parse?

-- ---------------------------------------------------------------------------
-- Reading
-- ---------------------------------------------------------------------------

namespace Decode

open Yaml (Decoder)

def known : List String :=
  ["configuration", "transitive_children", "exclude_defaults", "default_group", "format"]

/-- How deep the values of unknown settings may be nested. -/
def levels : Nat := 127

def setting (s : Settings) (name : String) (n : Yaml.Node) : Decoder Settings := do
  match name with
  | "configuration" => return { s with configuration := ← Decoder.optional Decoder.text n }
  | "transitive_children" => return { s with transitiveChildren := ← Decoder.optional Decoder.flag n }
  | "exclude_defaults" => return { s with excludeDefaults := ← Decoder.optional Decoder.flag n }
  | "default_group" => return { s with defaultGroup := ← Decoder.optional Decoder.text n }
  | "format" => return { s with format := ← Decoder.optional Decoder.text n }
  | _ =>
    let _ ← Decoder.value levels n
    return { s with unknown := name :: s.unknown }

/-- Takes in settings, of which the known ones may not repeat. -/
def settings : (seen : List String) → Settings → List (Yaml.Node × Yaml.Node) → Decoder Settings
  | _, s, [] => return s
  | seen, s, (k, v) :: rest => do
    let name ← Decoder.text k
    if name ∈ seen then failure
    let s ← setting s name v
    settings (if name ∈ known then name :: seen else seen) s rest

/-- A document holds a mapping, or nothing at all. -/
def document (root : Yaml.Node) : Decoder Settings := do
  match ← Decoder.follow root with
  | .mapping _ _ entries => settings [] {} entries
  | .scalar _ _ "" .plain => return {}
  | _ => failure

end Decode

/-- The settings that a text holds, if it is a document of the expected form. -/
def read? (text : String) : Option Settings := do
  match ← Yaml.Document.read? text with
  | none => return {}
  | some root =>
    let s ← (Decode.document root).run root
    return { s with unknown := (s.unknown.mergeSort fun a b => a ≤ b).eraseDups }

-- ---------------------------------------------------------------------------
-- Checking
-- ---------------------------------------------------------------------------

def blankMessage (name : String) : String :=
  s!"{name} must not be empty.\n\n💡 Hint: Remove the '{name}' field to use the default."

/-- Why the settings are rejected: a blank text, or else a format that is none. -/
def fault? (s : Settings) : Option Fault :=
  if s.configuration.any Text.isAllBlank then
    some (.invalidConfiguration (blankMessage "configuration"))
  else if s.defaultGroup.any Text.isAllBlank then
    some (.invalidConfiguration (blankMessage "default_group"))
  else
    (s.format.filter (OutputFormat.parse? · |>.isNone)).map fun name =>
      .invalidConfiguration (OutputFormat.rejection name)

def malformed (path : String) : Failure :=
  .context (s!"Failed to parse config file: {path}\n\n" ++
      "💡 Hint: Ensure the file contains valid YAML syntax.")
    (.other "not a YAML document of the expected form")

def unreadable (path reason : String) : Failure :=
  .context (s!"Failed to read config file: {path}\n\n" ++
      "💡 Hint: Check that the file exists and is readable.")
    (.other reason)

/-- Loads the text of the file `path`, which only failures mention. -/
def load (text path : String) : Logged (Except Failure Settings) :=
  match read? text with
  | none => pure (.error (malformed path))
  | some s =>
    match s.fault? with
    | some f => pure (.error f)
    | none => do
      Logged.reportAll (s.unknown.map .unknownSetting)
      return .ok s

end Settings

end ServerFractions
