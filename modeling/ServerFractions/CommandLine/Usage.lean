import ServerFractions.CommandLine.Invocation
import ServerFractions.Report.Basic

/-!
# Usage texts

What is shown to a user who asks for help or for the version, and to one whose
arguments do not fit.
-/

namespace ServerFractions.CommandLine

def Parameter.placeholder (p : Parameter) : String :=
  "<" ++ (p.name.map fun c => if c = '-' then '_' else c.toUpper) ++ ">"

/-- A parameter as it is written, with the name of its value. -/
def Parameter.written (p : Parameter) : String :=
  "--" ++ p.name ++ (if p.value?.isSome then " " ++ p.placeholder else "")

def columns (rows : List (String × String)) : String :=
  let width := (rows.map (·.1.length)).foldl max 0
  String.join (rows.map fun (left, right) =>
    "  " ++ left ++ String.ofList (List.replicate (width - left.length + 2) ' ') ++ right ++ "\n")

/-- The row of a parameter, its letter first. -/
def Parameter.row (p : Parameter) : String × String :=
  let letter := match p.letter? with
    | some c => String.ofList ['-', c, ',', ' ']
    | none => "    "
  (letter ++ p.written, p.purpose)

def optionRows (ps : List Parameter) : String :=
  "Options:\n" ++ columns (ps.map (·.row))

/-- How the program or one of its commands is called. -/
def usageLine : Option Verb → String
  | none => s!"Usage: {toolName} [OPTIONS] <COMMAND>\n"
  | some v =>
    let required := String.join (v.required.map (" " ++ ·.written))
    let operand := (v.operand?.map (" [" ++ · ++ "]")).getD ""
    s!"Usage: {toolName} {v.name} [OPTIONS]{required}{operand}\n"

/-- The help text of the program or of one of its commands. -/
def helpText : Option Verb → String
  | none =>
    "Resolve fraction-aware dependency maps from build snapshots\n\n" ++ usageLine none ++
      "\nCommands:\n" ++
      columns (Verb.all.map (fun v => (v.name, v.purpose)) ++
        [("help", "Print this message or the help of the given subcommand(s)")]) ++
      "\n" ++ optionRows rootParameters
  | some v => v.purpose ++ "\n\n" ++ usageLine (some v) ++ "\n" ++ optionRows v.parameters

def versionText : String :=
  toolName ++ " " ++ toolVersion ++ "\n"

def Misuse.message : Misuse → String
  | .missingCommand => s!"'{toolName}' requires a subcommand but one was not provided"
  | .unknownCommand name => s!"unrecognized subcommand '{name}'"
  | .unknownParameter text => s!"unexpected argument '{text}' found"
  | .unwantedValue p value => s!"unexpected value '{value}' for '{p.written}' found"
  | .missingValue p => s!"a value is required for '{p.written}' but none was supplied"
  | .invalidValue p value => s!"invalid value '{value}' for '{p.written}'"
  | .repeated p => s!"the argument '{p.written}' cannot be used multiple times"
  | .missingParameter p => s!"the required argument '{p.written}' was not provided"
  | .missingOperand name => s!"the required argument <{name}> was not provided"
  | .unwantedOperand operand => s!"unexpected argument '{operand}' found"
  | .conflict p operand => s!"the argument '{p.written}' cannot be used with '{operand}'"

end ServerFractions.CommandLine
