import ServerFractions.Toml.Value

/-!
# Tables under construction

A document puts its tables together from headers and dotted keys. What may
still be added to a table depends on how it came to be, and nothing is ever
defined twice:

* a dotted key adds to tables that dotted keys made, and passes through tables
  that only stand between others;
* a header defines a table that is new or so far only stands between others;
* a header of an array adds an element to an array that such headers made;
* values, inline tables and written arrays included, stay as they are.
-/

namespace ServerFractions.Toml

/-- How a table came to be. -/
inductive Origin where
  /-- By a header of its own. -/
  | header
  /-- By standing on the way to another table. -/
  | implied
  /-- By dotted keys. -/
  | dotted
  deriving DecidableEq, Repr

/-- A part of a document under construction. -/
inductive Node where
  | value (v : Value)
  | table (origin : Origin) (members : List (String × Node))
  /-- An array of tables with its elements, the last one first. -/
  | tables (elements : List (List (String × Node)))
  deriving Repr, Inhabited

abbrev Members := List (String × Node)

namespace Members

/-- Puts a part in place of the one of that name, or at the end. -/
def put (ms : Members) (name : String) (n : Node) : Members :=
  match ms with
  | [] => [(name, n)]
  | (k, m) :: rest => if k = name then (name, n) :: rest else (k, m) :: put rest name n

/-- Gives a value to the key `key` in the table that the dotted names `path`
lead to. -/
def assign (key : String) (v : Value) : (path : List String) → Members → Option Members
  | [], ms =>
    match ms.lookup key with
    | none => some (ms.put key (.value v))
    | some _ => none
  | name :: path, ms =>
    match ms.lookup name with
    | none => (assign key v path []).map fun inner => ms.put name (.table .dotted inner)
    | some (.table origin inner) =>
      if origin = .dotted || (origin = .implied && !path.isEmpty) then
        (assign key v path inner).map fun inner => ms.put name (.table origin inner)
      else none
    | some _ => none

/-- A key with the names before it, and its value. -/
structure Assignment where
  path : List String
  key : String
  value : Value
  deriving Repr

def assignAll (as : List Assignment) (ms : Members) : Option Members :=
  as.foldlM (fun ms a => ms.assign a.key a.value a.path) ms

/-- Works on the table that the names of a header lead to. The last element
of an array of tables stands for the array. -/
def within (f : Members → Option Members) : (path : List String) → Members → Option Members
  | [], ms => f ms
  | name :: path, ms =>
    match ms.lookup name with
    | none => (within f path []).map fun inner => ms.put name (.table .implied inner)
    | some (.table origin inner) =>
      (within f path inner).map fun inner => ms.put name (.table origin inner)
    | some (.tables (last :: others)) =>
      (within f path last).map fun last => ms.put name (.tables (last :: others))
    | some _ => none

/-- Defines the table `key` with the given body. -/
def define (key : String) (body : List Assignment) (ms : Members) : Option Members :=
  match ms.lookup key with
  | none => (assignAll body []).map fun inner => ms.put key (.table .header inner)
  | some (.table .implied inner) =>
    (assignAll body inner).map fun inner => ms.put key (.table .header inner)
  | some _ => none

/-- Adds an element with the given body to the array of tables `key`. -/
def extend (key : String) (body : List Assignment) (ms : Members) : Option Members :=
  match ms.lookup key with
  | none => (assignAll body []).map fun inner => ms.put key (.tables [inner])
  | some (.tables elements) =>
    (assignAll body []).map fun inner => ms.put key (.tables (inner :: elements))
  | some _ => none

end Members

-- ---------------------------------------------------------------------------
-- Finished values
-- ---------------------------------------------------------------------------

namespace Node

mutual

def toValue : Node → Value
  | .value v => v
  | .table _ ms => .table (memberValues ms)
  | .tables elements => .array (tableValues elements).reverse

def memberValues : List (String × Node) → List (String × Value)
  | [] => []
  | (name, n) :: ms => (name, n.toValue) :: memberValues ms

def tableValues : List (List (String × Node)) → List Value
  | [] => []
  | ms :: rest => .table (memberValues ms) :: tableValues rest

end

end Node

end ServerFractions.Toml
