import ServerFractions.Scenario.Basic
import ServerFractions.Text.Blank
import ServerFractions.Text.Split

/-!
# Records of scenarios

A record names the six choices with colons between them, the technologies
with commas: `WAR:FRACTIONS:NEVER:SERVLET,JAX_RS:NONE:NONE`. Blank text around a
record is passed over, but not within it.
-/

namespace ServerFractions.Scenario

def choice {α : Type} (kind : String) (parse? : String → Option α) (value : String) :
    Except ScenarioFault α :=
  match parse? value with
  | some a => .ok a
  | none => .error (.unknownValue kind value)

def packagingOf : String → Except ScenarioFault Packaging :=
  choice "packaging" Packaging.parse?

def dependenciesOf : String → Except ScenarioFault Dependencies :=
  choice "dependencies" Dependencies.parse?

def autodetectionOf : String → Except ScenarioFault Autodetection :=
  choice "autodetection" Autodetection.parse?

def technologyOf : String → Except ScenarioFault Technology :=
  choice "included technology" Technology.parse?

def additionalDependencyOf : String → Except ScenarioFault AdditionalDependency :=
  choice "additional dependency" AdditionalDependency.parse?

def additionalFractionOf : String → Except ScenarioFault AdditionalFraction :=
  choice "additional fraction" AdditionalFraction.parse?

/-- The scenario of six written choices. The technologies are read first. -/
def ofNames (packaging dependencies autodetection : String) (technologies : List String)
    (additionalDependency additionalFraction : String) : Except ScenarioFault Scenario := do
  let technologies ← technologies.mapM technologyOf
  ofChoices (← packagingOf packaging) (← dependenciesOf dependencies)
    (← autodetectionOf autodetection) technologies (← additionalDependencyOf additionalDependency)
    (← additionalFractionOf additionalFraction)

/-- Reads a record. An empty field of technologies lists none. -/
def parse (record : String) : Except ScenarioFault Scenario :=
  match Text.split ':' (Text.trim record) with
  | [packaging, dependencies, autodetection, technologies, additionalDependency,
      additionalFraction] =>
    ofNames packaging dependencies autodetection
      (if technologies = "" then [] else Text.split ',' technologies)
      additionalDependency additionalFraction
  | fields => .error (.fieldCount fields.length record)

def record (s : Scenario) : String :=
  ":".intercalate [s.packaging.name, s.dependencies.name, s.autodetection.name,
    ",".intercalate (s.technologies.map (·.name)), s.additionalDependency.name,
    s.additionalFraction.name]

def describe (s : Scenario) : String :=
  let technologies := ", ".intercalate (s.technologies.map (·.name))
  s!"packaging: {s.packaging.name}, dependencies: {s.dependencies.name}, " ++
    s!"autodetection: {s.autodetection.name}, technologies: [{technologies}], " ++
    s!"additional dependency: {s.additionalDependency.name}, " ++
    s!"additional fraction: {s.additionalFraction.name}"

end ServerFractions.Scenario
