import ServerFractions.CommandLine.Usage
import ServerFractions.Fault
import ServerFractions.Files.Basic

/-!
# Outcomes of commands

A command ends with a failure or with a text that is delivered to exactly one
destination, the standard output or a file. On the way there it may have told
the user some lines. The response is what all this comes to for the caller: the
exit status, what is printed, and what is written.
-/

namespace ServerFractions.CommandLine

inductive Delivery where
  | printed (text : String)
  | written (path text : String)
  deriving DecidableEq, Repr

/-- How a command ended, after the lines that the user was told. -/
structure Outcome where
  told : List String := []
  answer : Except Failure Delivery

structure Response where
  status : ExitStatus
  stdout : String := ""
  stderr : String := ""
  /-- A path and the text that is written there. -/
  file : Option (String × String) := none
  deriving DecidableEq, Repr

/-- Delivers a text to a file, if one is named. -/
def deliver (files : Files) (output : Option String) (text : String) : Except Fault Delivery :=
  match output with
  | none => .ok (.printed text)
  | some path =>
    match files.outputObstacle? path with
    | some details => .error (.unwritableFile path details)
    | none => .ok (.written path text)

/-- A text that ends its last line. -/
def ended (text : String) : String :=
  if text.endsWith "\n" then text else text ++ "\n"

/-- What is said about a failure: its message, and what caused it. -/
def errorText (f : Failure) : String :=
  let causes := f.chain.tail.map fun cause => "\nCaused by: " ++ cause ++ "\n"
  "\n❌ An error occurred:\n\n" ++ f.message ++ "\n" ++ String.join causes ++ "\n"

namespace Outcome

def response (o : Outcome) : Response :=
  let told := String.join (o.told.map (· ++ "\n"))
  match o.answer with
  | .error f => { status := .ofFailure f, stderr := told ++ errorText f }
  | .ok (.printed text) => { status := .success, stdout := ended text, stderr := told }
  | .ok (.written path text) =>
    { status := .success
      stderr := told ++ "✅ Output complete: " ++ path ++ "\n"
      file := some (path, text) }

/-- The outcome when the file could not be written after all. -/
def refused (o : Outcome) (reason : String) : Outcome :=
  match o.answer with
  | .ok (.written path _) => { o with answer := .error (.fault (.unwritableFile path reason)) }
  | _ => o

end Outcome

def Stop.response : Stop → Response
  | .help verb => { status := .success, stdout := helpText verb }
  | .version => { status := .success, stdout := versionText }
  | .misuse m =>
    { status := .invalidArguments
      stderr := s!"error: {m.message}\n\n{usageLine none}\nFor more information, try '--help'.\n" }

end ServerFractions.CommandLine
