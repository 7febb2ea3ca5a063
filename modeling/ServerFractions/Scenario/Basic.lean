import ServerFractions.Fault
import ServerFractions.Scenario.Variants

/-!
# Testing projects

A scenario describes a generated testing project and predicts which fractions
it ends up with. Its technologies stand in their order of declaration, each
once, and include all that they depend on.
-/

namespace ServerFractions

open Scenario

/-- Technologies in order of declaration, each once. -/
def Scenario.arranged (ts : List Technology) : List Technology :=
  Technology.all.filter (· ∈ ts)

/-- What a technology depends on and `ts` lacks. -/
def Scenario.missing (ts : List Technology) (t : Technology) : List Technology :=
  t.prerequisites.filter (· ∉ ts)

structure Scenario where
  packaging : Packaging
  dependencies : Dependencies
  autodetection : Autodetection
  technologies : List Technology
  additionalDependency : AdditionalDependency
  additionalFraction : AdditionalFraction
  technologies_arranged : arranged technologies = technologies
  prerequisites_included : ∀ t ∈ technologies, missing technologies t = []
  deriving DecidableEq

namespace Scenario

-- ---------------------------------------------------------------------------
-- Construction
-- ---------------------------------------------------------------------------

inductive ScenarioFault where
  /-- A value that the kind of choice does not have. -/
  | unknownValue (kind value : String)
  | fieldCount (found : Nat) (record : String)
  | missingPrerequisites (technology : Technology) (missing : List Technology)
  deriving DecidableEq, Repr

def ScenarioFault.message : ScenarioFault → String
  | .unknownValue kind value => s!"Unknown {kind} value: '{value}'"
  | .fieldCount found record =>
    s!"Expected 6 ':'-separated fields in testing project record, found {found}: '{record}'"
  | .missingPrerequisites technology missing =>
    s!"If you want to include {technology.name}, you also have to include " ++
      ", ".intercalate (missing.map (·.name))

def ScenarioFault.fault (f : ScenarioFault) : Fault :=
  .invalidConfiguration f.message

theorem mem_arranged {ts : List Technology} {t : Technology} : t ∈ arranged ts ↔ t ∈ ts := by
  cases t <;> simp [arranged, Technology.all]

theorem arranged_arranged (ts : List Technology) : arranged (arranged ts) = arranged ts := by
  simp only [arranged]
  congr 1
  funext t
  have := @mem_arranged ts t
  simp only [arranged] at this
  simp [this]

/-- The scenario of six choices. The first technology, in order of
declaration, that lacks something it depends on is reported. -/
def ofChoices (packaging : Packaging) (dependencies : Dependencies) (autodetection : Autodetection)
    (technologies : List Technology) (additionalDependency : AdditionalDependency)
    (additionalFraction : AdditionalFraction) : Except ScenarioFault Scenario :=
  let included := arranged technologies
  match h : included.find? (missing included · != []) with
  | some t => .error (.missingPrerequisites t (missing included t))
  | none => .ok {
      packaging, dependencies, autodetection, technologies := included, additionalDependency,
      additionalFraction
      technologies_arranged := arranged_arranged technologies
      prerequisites_included := by simpa using h }

-- ---------------------------------------------------------------------------
-- Predictions
-- ---------------------------------------------------------------------------

def declaresFractions (s : Scenario) : Bool :=
  s.dependencies == .fractions

def detects (s : Scenario) : Bool :=
  match s.autodetection with
  | .force => true
  | .never => false
  | .whenMissing => !s.declaresFractions

/-- Whether the project's tests can run. They need a WAR, which alone can be
reached from outside, and some way to get at fractions. -/
def runnable (s : Scenario) : Bool :=
  s.packaging == .war && (s.declaresFractions || s.detects)

/-- Texts in ascending order, each once. -/
def textSet (ss : List String) : List String :=
  (ss.mergeSort fun a b => a ≤ b).eraseDups

def knownFractions : List String :=
  textSet (Technology.all.map (·.fraction) ++ AdditionalDependency.all.filterMap (·.brings?) ++
    AdditionalFraction.all.filterMap (·.brings?))

/-- The fractions of the technologies, and of the additional dependency when
they are looked for. -/
def inferred (s : Scenario) : List String :=
  s.technologies.map (·.fraction) ++ if s.detects then s.additionalDependency.brings?.toList else []

/-- The fractions that the project ends up with. Plain interfaces give nothing
unless fractions are looked for; what is asked for explicitly always comes. -/
def present (s : Scenario) : List String :=
  textSet ((if s.declaresFractions || s.detects then s.inferred else []) ++
    s.additionalFraction.brings?.toList)

/-- The known fractions that the project does not end up with. -/
def absent (s : Scenario) : List String :=
  knownFractions.filter (· ∉ s.present)

-- ---------------------------------------------------------------------------
-- Snippets
-- ---------------------------------------------------------------------------

def dependenciesSnippet (s : Scenario) : String :=
  String.join (s.technologies.map fun t => (t.declaration s.dependencies).render) ++
    s.additionalDependency.snippet

def pluginSnippet (s : Scenario) : String :=
  element "fractionDetectMode" s.autodetection.setting ++ "\n" ++
    match s.additionalFraction.brings? with
    | some fraction => element "fractions" (element "fraction" fraction) ++ "\n"
    | none => ""

end Scenario

end ServerFractions
