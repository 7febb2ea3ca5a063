import ServerFractions.Json.Value

/-!
# Records in JSON

A record is written as an object with a fixed set of known members, or as an
array of its fields in order, of which the last ones may be missing. Unknown
members are passed over, known ones may not repeat. A merged record, whose
fields belong to two things at once, must be an object; what it holds besides
its fields is read too and has to be plain.
-/

namespace ServerFractions.Json

/-- The fields of a record that are present. -/
abbrev Record := List (String × Value)

namespace Record

/-- How deep the unknown members of a merged record may be nested. -/
def mergedLevels : Nat := 124

/-- The members of an object, when all their names are well-formed. -/
def named? (members : List (Text × Value)) : Option Record :=
  members.mapM fun (name, v) => name.map (·, v)

/-- The known members, when none of them is repeated. -/
def known? (names : List String) (members : Record) : Option Record :=
  let known := members.filter (·.1 ∈ names)
  if (known.map (·.1)).Nodup then some known else none

def ofValue? (names : List String) : Value → Option Record
  | .object members => named? members >>= known? names
  | .array vs => if vs.length ≤ names.length then some (names.zip vs) else none
  | _ => none

def ofMerged? (names : List String) : Value → Option Record
  | .object members => do
    let members ← named? members
    let unknown := members.filter (·.1 ∉ names)
    if unknown.all (·.2.isPlain mergedLevels) then known? names members else none
  | _ => none

variable {α : Type}

def required (r : Record) (name : String) (decode : Value → Option α) : Option α :=
  (r.lookup name).bind decode

/-- A field that may be missing. -/
def withDefault (r : Record) (name : String) (default : α) (decode : Value → Option α) :
    Option α :=
  match r.lookup name with
  | some v => decode v
  | none => some default

/-- A field that may be missing or null. -/
def optional (r : Record) (name : String) (decode : Value → Option α) : Option (Option α) :=
  match r.lookup name with
  | some .null | none => some none
  | some v => (decode v).map some

end Record

namespace Value

/-- Well-formed text. -/
def asText? : Value → Option String
  | .string s => s
  | _ => none

def asList? {α : Type} (decode : Value → Option α) : Value → Option (List α)
  | .array vs => vs.mapM decode
  | _ => none

end Value

end ServerFractions.Json
