/-!
# Choices of a testing project

A testing project is put together from six independent choices. Each choice
has a name in records and stands for what it adds to the project's
description or to the fractions that the project ends up with.
-/

namespace ServerFractions.Scenario

-- ---------------------------------------------------------------------------
-- Packaging
-- ---------------------------------------------------------------------------

inductive Packaging where
  | jar
  | war
  deriving DecidableEq, Repr, Inhabited

namespace Packaging

def all : List Packaging := [.jar, .war]

def name : Packaging → String
  | .jar => "JAR"
  | .war => "WAR"

def type : Packaging → String
  | .jar => "jar"
  | .war => "war"

def parse? (s : String) : Option Packaging :=
  all.find? (·.name == s)

end Packaging

-- ---------------------------------------------------------------------------
-- Dependencies
-- ---------------------------------------------------------------------------

/-- Whether the project depends on fractions themselves or only on the plain
interfaces that they implement. -/
inductive Dependencies where
  | fractions
  | plainInterfaces
  deriving DecidableEq, Repr, Inhabited

namespace Dependencies

def all : List Dependencies := [.fractions, .plainInterfaces]

def name : Dependencies → String
  | .fractions => "FRACTIONS"
  | .plainInterfaces => "JAVA_EE_APIS"

def parse? (s : String) : Option Dependencies :=
  all.find? (·.name == s)

end Dependencies

-- ---------------------------------------------------------------------------
-- Autodetection
-- ---------------------------------------------------------------------------

/-- When the packaging plugin looks for fractions on its own. -/
inductive Autodetection where
  | force
  | never
  | whenMissing
  deriving DecidableEq, Repr, Inhabited

namespace Autodetection

def all : List Autodetection := [.force, .never, .whenMissing]

def name : Autodetection → String
  | .force => "FORCE"
  | .never => "NEVER"
  | .whenMissing => "WHEN_MISSING"

def setting : Autodetection → String
  | .force => "force"
  | .never => "never"
  | .whenMissing => "when_missing"

def parse? (s : String) : Option Autodetection :=
  all.find? (·.name == s)

end Autodetection

-- ---------------------------------------------------------------------------
-- Snippets
-- ---------------------------------------------------------------------------

structure Declaration where
  group : String
  artifact : String
  version : Option String := none
  scope : Option String := none
  deriving DecidableEq, Repr

def element (name content : String) : String :=
  "<" ++ name ++ ">" ++ content ++ "</" ++ name ++ ">"

def Declaration.render (d : Declaration) : String :=
  element "dependency"
    (element "groupId" d.group ++ element "artifactId" d.artifact ++
      (d.version.map (element "version")).getD "" ++ (d.scope.map (element "scope")).getD "") ++ "\n"

-- ---------------------------------------------------------------------------
-- Technologies
-- ---------------------------------------------------------------------------

inductive Technology where
  | servlet
  | rest
  | ejb
  deriving DecidableEq, Repr, Inhabited

namespace Technology

def all : List Technology := [.servlet, .rest, .ejb]

def name : Technology → String
  | .servlet => "SERVLET"
  | .rest => "JAX_RS"
  | .ejb => "EJB"

def fraction : Technology → String
  | .servlet => "undertow"
  | .rest => "jaxrs"
  | .ejb => "ejb"

/-- What has to be included with it. The sample for EJB is reached through a
servlet. -/
def prerequisites : Technology → List Technology
  | .servlet | .rest => []
  | .ejb => [.servlet]

def interfaceDeclaration : Technology → Declaration
  | .servlet => { group := "javax.servlet", artifact := "javax.servlet-api" }
  | .rest => { group := "org.jboss.spec.javax.ws.rs", artifact := "jboss-jaxrs-api_2.1_spec" }
  | .ejb => { group := "org.jboss.spec.javax.ejb", artifact := "jboss-ejb-api_3.2_spec" }

/-- What the project declares in order to use it. Plain interfaces are provided
by the runtime. -/
def declaration (t : Technology) : Dependencies → Declaration
  | .fractions => { group := "io.thorntail", artifact := t.fraction }
  | .plainInterfaces => { t.interfaceDeclaration with scope := some "provided" }

def parse? (s : String) : Option Technology :=
  all.find? (·.name == s)

end Technology

-- ---------------------------------------------------------------------------
-- Additions
-- ---------------------------------------------------------------------------

/-- A further library that the project uses. -/
inductive AdditionalDependency where
  | none
  | unrelated
  | usingInterfaces
  deriving DecidableEq, Repr, Inhabited

namespace AdditionalDependency

def all : List AdditionalDependency := [.none, .unrelated, .usingInterfaces]

def name : AdditionalDependency → String
  | .none => "NONE"
  | .unrelated => "NON_JAVA_EE"
  | .usingInterfaces => "USING_JAVA_EE"

/-- The fraction that autodetection infers from it. -/
def brings? : AdditionalDependency → Option String
  | .none | .unrelated => Option.none
  | .usingInterfaces => some "cdi"

def declaration? : AdditionalDependency → Option Declaration
  | .none => Option.none
  | .unrelated => some { group := "joda-time", artifact := "joda-time", version := some "2.10.5" }
  | .usingInterfaces => some
    { group := "org.apache.deltaspike.core", artifact := "deltaspike-core-api",
      version := some "1.9.3" }

/-- The line that declares it, if there is anything to declare. -/
def snippet (a : AdditionalDependency) : String :=
  (a.declaration?.map (·.render)).getD ""

def parse? (s : String) : Option AdditionalDependency :=
  all.find? (·.name == s)

end AdditionalDependency

/-- A fraction that is asked for explicitly, whether or not it comes anyway. -/
inductive AdditionalFraction where
  | none
  | alreadyPresent
  | notYetPresent
  deriving DecidableEq, Repr, Inhabited

namespace AdditionalFraction

def all : List AdditionalFraction := [.none, .alreadyPresent, .notYetPresent]

def name : AdditionalFraction → String
  | .none => "NONE"
  | .alreadyPresent => "ALREADY_PRESENT"
  | .notYetPresent => "NOT_YET_PRESENT"

def brings? : AdditionalFraction → Option String
  | .none => Option.none
  | .alreadyPresent => some "undertow"
  | .notYetPresent => some "logstash"

def parse? (s : String) : Option AdditionalFraction :=
  all.find? (·.name == s)

end AdditionalFraction

end ServerFractions.Scenario
