import ServerFractions.Artifact
import ServerFractions.Coordinates
import ServerFractions.Scope

/-!
# Dependency descriptors

A descriptor names one resolved dependency with its scope. Its identity is
everything but the file: two descriptors that differ in the file only are the
same dependency, and a collection keeps the one it got first. Identities are
totally ordered, strings by code point and an absent classifier first.
-/

namespace ServerFractions

/-- What makes two descriptors the same dependency. -/
structure Identity where
  group : String
  artifact : String
  version : String
  type : String
  classifier : Option String
  scope : Scope
  deriving DecidableEq, Repr, Inhabited

structure Descriptor where
  scope : Scope
  group : String
  artifact : String
  version : String
  type : String
  classifier : Option String
  file : Option String
  deriving DecidableEq, Repr, Inhabited

-- ---------------------------------------------------------------------------
-- Order
-- ---------------------------------------------------------------------------

/-- The order of identities: field by field, the scope last. -/
def Identity.order : Identity → Identity → Ordering :=
  compareLex (compareOn (·.group)) <|
  compareLex (compareOn (·.artifact)) <|
  compareLex (compareOn (·.version)) <|
  compareLex (compareOn (·.type)) <|
  compareLex (compareOn (·.classifier)) <|
  compareOn (·.scope.rank)

namespace Descriptor

-- ---------------------------------------------------------------------------
-- Building
-- ---------------------------------------------------------------------------

def ofArtifact (scope : Scope) (c : Coordinates) (a : Artifact) : Descriptor :=
  { scope, group := c.group, artifact := c.name, version := c.version,
    type := a.type, classifier := a.classifier, file := a.file }

/-- The descriptor of a module as a whole: that of its first artifact, and of
a plain `jar` without file when it has none. -/
def ofModule (scope : Scope) (c : Coordinates) (artifacts : List Artifact) : Descriptor :=
  ofArtifact scope c (artifacts.headD {})

-- ---------------------------------------------------------------------------
-- Reading
-- ---------------------------------------------------------------------------

def identity (d : Descriptor) : Identity :=
  { group := d.group, artifact := d.artifact, version := d.version,
    type := d.type, classifier := d.classifier, scope := d.scope }

def same (d e : Descriptor) : Bool :=
  d.identity == e.identity

def coordinates (d : Descriptor) : Coordinates :=
  ⟨d.group, d.artifact, d.version⟩

def key (d : Descriptor) : ModuleKey :=
  d.coordinates.key

def gav (d : Descriptor) : String :=
  d.coordinates.gav

/-- `group:artifact:type[:classifier]:version:scope`. -/
def render (d : Descriptor) : String :=
  let classified := match d.classifier with
    | some c => ":" ++ c
    | none => ""
  d.group ++ ":" ++ d.artifact ++ ":" ++ d.type ++ classified ++ ":" ++ d.version ++ ":" ++
    d.scope.name

def order (d e : Descriptor) : Ordering :=
  d.identity.order e.identity

/-- `d` does not stand after `e`. -/
def notAfter (d e : Descriptor) : Bool :=
  (d.order e).isLE

-- ---------------------------------------------------------------------------
-- Collections
-- ---------------------------------------------------------------------------

/-- Adds a descriptor unless the same dependency is already there. -/
def insert (d : Descriptor) (ds : List Descriptor) : List Descriptor :=
  if ds.any d.same then ds else ds ++ [d]

def insertAll (new ds : List Descriptor) : List Descriptor :=
  new.foldl (fun acc d => insert d acc) ds

/-- The descriptors in ascending order; equal ones keep their order. -/
def sort (ds : List Descriptor) : List Descriptor :=
  ds.mergeSort notAfter

end Descriptor

-- ---------------------------------------------------------------------------
-- Laws
-- ---------------------------------------------------------------------------

@[simp] theorem Descriptor.same_iff {d e : Descriptor} : d.same e = true ↔ d.identity = e.identity := by
  simp [same]

@[simp] theorem Descriptor.gav_ofArtifact (s : Scope) (c : Coordinates) (a : Artifact) :
    (ofArtifact s c a).gav = c.gav := rfl

@[simp] theorem Descriptor.coordinates_ofArtifact (s : Scope) (c : Coordinates) (a : Artifact) :
    (ofArtifact s c a).coordinates = c := rfl

instance : Std.TransCmp Identity.order :=
  inferInstanceAs (Std.TransCmp (compareLex _ _))

theorem Identity.order_eq_iff {i j : Identity} : i.order j = .eq ↔ i = j := by
  obtain ⟨g, a, v, t, c, s⟩ := i
  obtain ⟨g', a', v', t', c', s'⟩ := j
  simp [order, compareLex, compareOn, Ordering.then_eq_eq, Scope.rank_inj]

instance : Std.LawfulEqCmp Identity.order where
  compare_self := Identity.order_eq_iff.2 rfl
  eq_of_compare := Identity.order_eq_iff.1

end ServerFractions
