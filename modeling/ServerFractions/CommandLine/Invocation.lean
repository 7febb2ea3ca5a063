import ServerFractions.CommandLine.Parameter

/-!
# Invocations

Reads the arguments of the program. They are taken one after the other, and
reading stops at the first that asks for help, asks for the version, or does not
fit. A parameter is written out after two hyphens, its value after an equals sign
or as the next argument; letters may be clustered after one hyphen, the value of
the last following at once, after an equals sign, or as the next argument. An
argument that starts with a hyphen is no value, except for the hyphen alone. After
two hyphens alone all arguments are operands.
-/

namespace ServerFractions.CommandLine

-- ---------------------------------------------------------------------------
-- Invocations
-- ---------------------------------------------------------------------------

structure ResolveOptions where
  snapshot : String
  catalog : String
  configuration : Option String := none
  directChildrenOnly : Bool := false
  format : Option OutputFormat := none
  output : Option String := none
  settings : Option String := none
  deriving DecidableEq, Repr

structure SpecsOptions where
  snapshot : String
  specs : String
  transitive : Bool := false
  excludeDefaults : Bool := false
  defaultGroup : Option String := none
  output : Option String := none
  settings : Option String := none
  deriving DecidableEq, Repr

inductive ScenarioOptions where
  | all
  | one (record : String) (snippets : Bool)
  deriving DecidableEq, Repr

inductive Command where
  | resolve (options : ResolveOptions)
  | specs (options : SpecsOptions)
  | scenario (options : ScenarioOptions)
  deriving DecidableEq, Repr

structure Invocation where
  verbosity : Nat := 0
  quiet : Bool := false
  command : Command
  deriving DecidableEq, Repr

/-- What does not fit about the arguments. -/
inductive Misuse where
  | missingCommand
  | unknownCommand (name : String)
  | unknownParameter (written : String)
  | unwantedValue (parameter : Parameter) (value : String)
  | missingValue (parameter : Parameter)
  | invalidValue (parameter : Parameter) (value : String)
  | repeated (parameter : Parameter)
  | missingParameter (parameter : Parameter)
  | missingOperand (name : String)
  | unwantedOperand (operand : String)
  | conflict (parameter : Parameter) (operand : String)
  deriving DecidableEq, Repr

/-- Why reading stopped before there was an invocation. -/
inductive Stop where
  | help (verb : Option Verb)
  | version
  | misuse (m : Misuse)
  deriving DecidableEq, Repr

-- ---------------------------------------------------------------------------
-- Reading
-- ---------------------------------------------------------------------------

/-- What was given so far at one level, before a command or after it. -/
structure Reading where
  verb : Option Verb := none
  given : List (Parameter × String) := []
  operands : List String := []
  deriving DecidableEq, Repr

namespace Reading

def count (r : Reading) (p : Parameter) : Nat :=
  r.given.countP (·.1 == p)

def has (r : Reading) (p : Parameter) : Bool :=
  r.count p != 0

def value? (r : Reading) (p : Parameter) : Option String :=
  r.given.lookup p

def parameters (r : Reading) : List Parameter :=
  match r.verb with
  | none => rootParameters
  | some v => v.parameters

/-- Takes in a parameter and its value, which is empty for a flag. -/
def add (r : Reading) (p : Parameter) (value : String) : Except Stop Reading :=
  if p = .help then .error (.help r.verb)
  else if p = .version then .error .version
  else if r.has p && !p.repeats then .error (.misuse (.repeated p))
  else if p.value?.any fun kind => !kind.admits value then
    .error (.misuse (.invalidValue p value))
  else .ok { r with given := r.given ++ [(p, value)] }

def addOperand (r : Reading) (operand : String) : Except Stop Reading :=
  if r.operands.isEmpty && (r.verb.bind Verb.operand?).isSome then
    .ok { r with operands := [operand] }
  else .error (.misuse (.unwantedOperand operand))

/-- Takes in a cluster of letters. A letter whose value does not follow at once
is left to the next argument. -/
def cluster (r : Reading) : List Char → Except Stop (Reading × Option Parameter)
  | [] => .ok (r, none)
  | c :: rest =>
    match r.parameters.find? (·.letter? == some c) with
    | none => .error (.misuse (.unknownParameter (String.ofList ['-', c])))
    | some p =>
      match p.value?, rest with
      | none, _ => do cluster (← r.add p "") rest
      | some _, [] => .ok (r, some p)
      | some _, '=' :: value | some _, value => do return (← r.add p (String.ofList value), none)

def written (r : Reading) (text : List Char) : Except Stop (Reading × Option Parameter) :=
  let name := String.ofList (text.takeWhile (· != '='))
  match r.parameters.find? (·.name == name) with
  | none => .error (.misuse (.unknownParameter ("--" ++ name)))
  | some p =>
    match p.value?, text.dropWhile (· != '=') with
    | none, [] => do return (← r.add p "", none)
    | none, _ :: value => .error (.misuse (.unwantedValue p (String.ofList value)))
    | some _, [] => .ok (r, some p)
    | some _, _ :: value => do return (← r.add p (String.ofList value), none)

def step (r : Reading) (argument : String) : Except Stop (Reading × Option Parameter) :=
  match argument.toList with
  | '-' :: '-' :: text => r.written text
  | '-' :: letters => r.cluster letters
  | _ => .error (.misuse (.unknownParameter argument))

def isParameter (argument : String) : Bool :=
  argument.startsWith "-" && argument != "-"

def readAll (r : Reading) : List String → Except Stop Reading
  | [] => .ok r
  | argument :: rest =>
    if argument = "--" then rest.foldlM addOperand r
    else if isParameter argument then do
      match ← r.step argument with
      | (r, none) => readAll r rest
      | (r, some p) =>
        match rest with
        | [] => .error (.misuse (.missingValue p))
        | value :: rest =>
          if isParameter value then .error (.misuse (.missingValue p))
          else readAll (← r.add p value) rest
    else do readAll (← r.addOperand argument) rest

def required (r : Reading) (p : Parameter) : Except Stop String :=
  match r.value? p with
  | some value => .ok value
  | none => .error (.misuse (.missingParameter p))

def resolveOptions (r : Reading) : Except Stop ResolveOptions := do
  return { snapshot := ← r.required .snapshot
           catalog := ← r.required .catalog
           configuration := r.value? .configuration
           directChildrenOnly := r.has .directChildrenOnly
           format := r.value? .format >>= OutputFormat.parse?
           output := r.value? .output
           settings := r.value? .settings }

def specsOptions (r : Reading) : Except Stop SpecsOptions := do
  return { snapshot := ← r.required .snapshot
           specs := ← r.required .specs
           transitive := r.has .transitive
           excludeDefaults := r.has .excludeDefaults
           defaultGroup := r.value? .defaultGroup
           output := r.value? .output
           settings := r.value? .settings }

/-- One scenario is shown by its record, or all are listed, but not both. -/
def scenarioOptions (r : Reading) : Except Stop ScenarioOptions :=
  match r.operands, r.has .all with
  | [], true => .ok .all
  | [], false => .error (.misuse (.missingOperand "RECORD"))
  | record :: _, true => .error (.misuse (.conflict .all record))
  | record :: _, false => .ok (.one record (r.has .snippets))

/-- The command that was given, once all arguments are taken in. -/
def command (r : Reading) : Verb → Except Stop Command
  | .resolve => .resolve <$> r.resolveOptions
  | .specs => .specs <$> r.specsOptions
  | .scenario => .scenario <$> r.scenarioOptions

end Reading

namespace Invocation

/-- What the arguments after the command make of those before it. The verbosity
that is given after the command counts, if one is. -/
def ofReadings (before after : Reading) (command : Command) : Invocation :=
  { verbosity := if after.has .verbose then after.count .verbose else before.count .verbose
    quiet := before.has .quiet || after.has .quiet
    command }

/-- Reads what follows the word for help: nothing, or the name of a command. -/
def readHelp : List String → Stop
  | [] | ["help"] => .help none
  | name :: rest =>
    match Verb.parse? name, rest with
    | some verb, [] => .help (some verb)
    | some _, other :: _ => .misuse (.unknownCommand other)
    | none, _ => .misuse (.unknownCommand name)

/-- Reads the arguments from the start, given what was read so far. -/
def readFrom (before : Reading) : List String → Except Stop Invocation
  | [] => .error (.misuse .missingCommand)
  | argument :: rest =>
    if argument = "--" then
      .error (.misuse (rest.head?.elim .missingCommand .unknownCommand))
    else if Reading.isParameter argument then do
      readFrom (← before.step argument).1 rest
    else
      match Verb.parse? argument with
      | some verb => do
        let after ← Reading.readAll { verb } rest
        return ofReadings before after (← after.command verb)
      | none =>
        if argument = "help" then .error (readHelp rest)
        else .error (.misuse (.unknownCommand argument))

def read (arguments : List String) : Except Stop Invocation :=
  readFrom {} arguments

end Invocation

end ServerFractions.CommandLine
