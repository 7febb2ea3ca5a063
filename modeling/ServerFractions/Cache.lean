import ServerFractions.Event
import ServerFractions.Project

/-!
# The cache of a build

A cache keeps what was computed once, under the build that owns it and a key.
A stored value is told apart by its kind: a value of another kind than the one
asked for counts as missing and is replaced.
-/

namespace ServerFractions

inductive Cached where
  | integer (n : Int)
  | text (s : String)
  | texts (ss : List String)
  | projects (ps : List (String × Project))
  deriving DecidableEq, Repr, Inhabited

/-- One kind of cached values: how a value is stored and recognised again. -/
structure CacheKind (α : Type) where
  store : α → Cached
  view? : Cached → Option α
  view?_store : ∀ a, view? (store a) = some a := by intro; rfl

namespace CacheKind

def integer : CacheKind Int where
  store := .integer
  view?
    | .integer n => some n
    | _ => none

def text : CacheKind String where
  store := .text
  view?
    | .text s => some s
    | _ => none

/-- A set of texts, as a list. -/
def texts : CacheKind (List String) where
  store := .texts
  view?
    | .texts ss => some ss
    | _ => none

def projects : CacheKind (List (String × Project)) where
  store := .projects
  view?
    | .projects ps => some ps
    | _ => none

end CacheKind

/-- The owning build and the name of an entry. -/
structure CacheKey where
  owner : String
  key : String
  deriving DecidableEq, Repr, Inhabited

/-- Entries by key, each key once. -/
structure Cache where
  entries : List (CacheKey × Cached) := []
  deriving DecidableEq, Repr, Inhabited

namespace Cache

def empty : Cache := {}

def size (c : Cache) : Nat :=
  c.entries.length

/-- The value under a key, when it is of the kind asked for. -/
def get? {α : Type} (c : Cache) (kind : CacheKind α) (key : CacheKey) : Option α :=
  (c.entries.lookup key).bind kind.view?

/-- Stores a value in place of whatever is under the key. -/
def put (c : Cache) (key : CacheKey) (v : Cached) : Cache :=
  ⟨(key, v) :: c.entries.filter (·.1 != key)⟩

/-- The value under a key. It is computed and stored when it is missing. -/
def fetch {α : Type} (c : Cache) (kind : CacheKind α) (key : CacheKey) (compute : Logged α) :
    Logged (α × Cache) :=
  match c.get? kind key with
  | some a => pure (a, c)
  | none => do
    let a ← compute
    return (a, c.put key (kind.store a))

def render (c : Cache) : String :=
  "BuildCache \x7b entries: " ++ toString c.size ++ " \x7d"

end Cache

end ServerFractions
