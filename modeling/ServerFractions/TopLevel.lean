import ServerFractions.Descriptor

/-!
# Top-level entries

The result of a resolution maps each top-level dependency to the dependencies
it brings along. Keys and children are told apart by identity, without the
file. An entry is either claimed, with all its children at once, or grown by
attaching one child after the other; a claim never touches an entry that is
already there. Entries keep the order in which they came; `sorted` is the
canonical view.
-/

namespace ServerFractions

structure TopLevel.Entry where
  key : Descriptor
  children : List Descriptor
  deriving DecidableEq, Repr, Inhabited

/-- Top-level dependencies, each once, in the order of their arrival. -/
structure TopLevel where
  entries : List TopLevel.Entry := []
  deriving DecidableEq, Repr, Inhabited

namespace TopLevel

def empty : TopLevel := {}

-- ---------------------------------------------------------------------------
-- Reading
-- ---------------------------------------------------------------------------

def entry? (t : TopLevel) (key : Descriptor) : Option Entry :=
  t.entries.find? (·.key.same key)

def get? (t : TopLevel) (key : Descriptor) : Option (List Descriptor) :=
  (t.entry? key).map (·.children)

def contains (t : TopLevel) (key : Descriptor) : Bool :=
  t.entries.any (·.key.same key)

def keys (t : TopLevel) : List Descriptor :=
  t.entries.map (·.key)

def size (t : TopLevel) : Nat :=
  t.entries.length

/-- Whether both hold the same keys with the same children, files and order aside. -/
def same (t u : TopLevel) : Bool :=
  t.size == u.size && t.entries.all fun e =>
    match u.get? e.key with
    | none => false
    | some children =>
      e.children.length == children.length && e.children.all fun d => children.any d.same

-- ---------------------------------------------------------------------------
-- Writing
-- ---------------------------------------------------------------------------

/-- Makes an entry with all its children. Refused, and without effect, when
the key is already there. -/
def claim (t : TopLevel) (key : Descriptor) (children : List Descriptor) : Bool × TopLevel :=
  if t.contains key then (false, t)
  else (true, ⟨t.entries ++ [⟨key, Descriptor.insertAll children []⟩]⟩)

/-- Adds a child to an entry, and makes the entry when it is not there. -/
def attach (t : TopLevel) (key child : Descriptor) : TopLevel :=
  if t.contains key then
    ⟨t.entries.map fun e =>
      if e.key.same key then { e with children := Descriptor.insert child e.children } else e⟩
  else ⟨t.entries ++ [⟨key, [child]⟩]⟩

-- ---------------------------------------------------------------------------
-- The canonical view
-- ---------------------------------------------------------------------------

/-- The entries in ascending order of their keys, each with its children in
ascending order. -/
def sorted (t : TopLevel) : List Entry :=
  (t.entries.map fun e => { e with children := Descriptor.sort e.children }).mergeSort
    fun d e => d.key.notAfter e.key

end TopLevel

end ServerFractions
