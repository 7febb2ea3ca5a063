import ServerFractions.Coordinates
import ServerFractions.Event
import ServerFractions.Fault
import ServerFractions.Text.Blank
import ServerFractions.Toml.Reader

/-!
# Fraction catalogs

A catalog lists the fractions that the runtime knows, in `[[fraction]]` tables
or in an array of tables or of plain lists. It may list a fraction more than
once; its keys are the distinct `group:artifact` keys of all entries.
-/

namespace ServerFractions

structure FractionEntry where
  groupId : String
  artifactId : String
  version : Option String := none
  name : Option String := none
  deriving DecidableEq, Repr, Inhabited

structure Catalog where
  fractions : List FractionEntry := []
  deriving DecidableEq, Repr, Inhabited

def FractionEntry.key (e : FractionEntry) : ModuleKey :=
  .ofParts e.groupId e.artifactId

def FractionEntry.isBlank (e : FractionEntry) : Bool :=
  Text.isAllBlank e.groupId || Text.isAllBlank e.artifactId

namespace Catalog

/-- A catalog that knows no fractions. -/
def empty : Catalog := {}

/-- The distinct keys, in the order of their first entries. -/
def keys (c : Catalog) : List ModuleKey :=
  (c.fractions.map (·.key)).eraseDups

-- ---------------------------------------------------------------------------
-- Reading
-- ---------------------------------------------------------------------------

inductive LoadFault where
  | malformed
  | blankEntry (entry : FractionEntry)
  deriving DecidableEq, Repr

def LoadFault.message : LoadFault → String
  | .malformed => "not a TOML document of the expected form"
  | .blankEntry e => s!"fraction entry with empty coordinates: '{e.groupId}:{e.artifactId}'"

open Toml (Value)

def optionalText? (members : List (String × Value)) (name : String) : Option (Option String) :=
  match members.lookup name with
  | none => some none
  | some v => v.asText?.map some

/-- The fields of an entry; all others only have to be in range. -/
def fields : List String := ["group_id", "artifact_id", "version", "name"]

/-- An entry is a table, or a list of its fields of which the last two may be
missing. Whatever follows them in a list is passed over. -/
def entry? : Value → Option FractionEntry
  | .table members => do
    if Value.membersInRange (members.filter (·.1 ∉ fields)) then
      return { groupId := ← (← members.lookup "group_id").asText?
               artifactId := ← (← members.lookup "artifact_id").asText?
               version := ← optionalText? members "version"
               name := ← optionalText? members "name" }
    else none
  | .array (group :: artifact :: rest) => do
    return { groupId := ← group.asText?
             artifactId := ← artifact.asText?
             version := ← (rest[0]?).mapM (·.asText?)
             name := ← (rest[1]?).mapM (·.asText?) }
  | _ => none

def entries? (members : List (String × Value)) : Option (List FractionEntry) :=
  if Value.membersInRange (members.filter (·.1 != "fraction")) then
    match members.lookup "fraction" with
    | none => some []
    | some (.array vs) => vs.mapM entry?
    | some _ => none
  else none

/-- The catalog that a text holds. The first entry with blank coordinates
refuses it. -/
def parse (text : String) : Except LoadFault Catalog :=
  match Toml.read? text >>= entries? with
  | none => .error .malformed
  | some fractions =>
    match fractions.find? (·.isBlank) with
    | some e => .error (.blankEntry e)
    | none => .ok { fractions }

/-- Loads the text of the file `source`; the catalog itself does not mention it. -/
def load (text source : String) : Logged (Except Fault Catalog) :=
  match parse text with
  | .error f => pure (.error (.badCatalog source f.message))
  | .ok c => do
    Logged.report (.loadedCatalog c.fractions.length source)
    return .ok c

end Catalog

end ServerFractions
