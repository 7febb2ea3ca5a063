/-!
# Scopes

A dependency has one of five scopes, in the order of their declaration here.
Configurations of the build tool map to scopes by a fixed table; a
configuration of another name takes the scope of the requested one.
-/

namespace ServerFractions

/-- The scopes of a dependency. `platform` marks imported platforms and bills
of materials, which bring no artifacts and are never part of a result. -/
inductive Scope where
  | compile
  | provided
  | runtime
  | test
  | platform
  deriving DecidableEq, Repr, Inhabited

namespace Scope

def name : Scope → String
  | .compile => "compile"
  | .provided => "provided"
  | .runtime => "runtime"
  | .test => "test"
  | .platform => "import"

/-- The scope of a written name; case matters. -/
def parse? : String → Option Scope
  | "compile" => some .compile
  | "provided" => some .provided
  | "runtime" => some .runtime
  | "test" => some .test
  | "import" => some .platform
  | _ => none

/-- The place of a scope in their order. -/
def rank : Scope → Nat
  | .compile => 0
  | .provided => 1
  | .runtime => 2
  | .test => 3
  | .platform => 4

/-- The scope of a configuration that the build tool itself defines. -/
def ofConfiguration? : String → Option Scope
  | "platform-runtime" | "enforced-platform-runtime" => some .platform
  | "compile" | "api" | "implementation" | "apiElements" | "compileClasspath" => some .compile
  | "default" | "master" => some .compile
  | "providedCompile" | "compileOnly" => some .provided
  | "runtime" | "runtimeOnly" | "runtimeElements" | "runtimeClasspath" => some .runtime
  | "providedRuntime" => some .runtime
  | "testImplementation" | "testCompileOnly" | "testRuntimeOnly" | "testCompile" => some .test
  | "testCompileClasspath" | "testRuntime" | "testRuntimeClasspath" => some .test
  | _ => none

/-- The scope of any configuration; names outside the table take `fallback`. -/
def ofConfiguration (configuration : String) (fallback : Scope) : Scope :=
  (ofConfiguration? configuration).getD fallback

theorem parse?_name (s : Scope) : parse? s.name = some s := by
  cases s <;> rfl

theorem rank_inj {s t : Scope} : s.rank = t.rank ↔ s = t := by
  cases s <;> cases t <;> simp [rank]

end Scope

end ServerFractions
