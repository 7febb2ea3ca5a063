import ServerFractions.Json.Printer
import ServerFractions.Report.Basic

/-!
# Reports as JSON

The document names the configuration, when and by what it was resolved, how
many entries and fractions there are, and then every entry. Optional fields
are left out when absent, and the children when there are none.
-/

namespace ServerFractions

open Json (Value)

namespace Report

/-- A member that is left out when absent. -/
def optionalMember (name : String) : Option String → List (String × Value)
  | some s => [(name, .text s)]
  | none => []

namespace Dependency

/-- The members of a dependency, in the order in which they are written. -/
def members (d : Dependency) : List (String × Value) :=
  [("group", .text d.group), ("artifact", .text d.artifact), ("version", .text d.version),
    ("scope", .text d.scope), ("type", .text d.type)] ++
    optionalMember "classifier" d.classifier ++ optionalMember "file" d.file

end Dependency

namespace Entry

/-- The list of children, unless it is empty. -/
def childMembers (e : Entry) : List (String × Value) :=
  if e.children.isEmpty then []
  else [("dependsOn", .array (e.children.map (.record ·.members)))]

def toValue (e : Entry) : Value :=
  .record (e.dependency.members ++
    [("fraction", .bool e.fraction), ("project", .bool e.project)] ++ e.childMembers)

end Entry

def Metadata.toValue (m : Metadata) : Value :=
  .record [("timestamp", .text m.timestamp),
    ("tools", .array [.record [("name", .text m.toolName), ("version", .text m.toolVersion)]])]

def toValue (r : Report) : Value :=
  .record [("configuration", .text r.configuration), ("metadata", r.metadata.toValue),
    ("summary", .record [("topLevel", .natural r.entries.length),
      ("fractions", .natural r.fractionCount)]),
    ("dependencies", .array (r.entries.map (·.toValue)))]

def toJson (r : Report) : String :=
  r.toValue.render

end Report

end ServerFractions
