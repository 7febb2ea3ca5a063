import ServerFractions.ArtifactSpec
import ServerFractions.Json.Printer
import ServerFractions.Json.Reader
import ServerFractions.Json.Record

/-!
# Specifications and descriptors in JSON

Specifications are read from records, alone or in a list. The descriptors that
they resolve to are written as a list of objects.
-/

namespace ServerFractions

open Json (Record Value)

/-- A scope is written as its name, or as an object with the name as its one
member and nothing in it. -/
def Scope.ofValue? : Value → Option Scope
  | .string (some name) | .object [(some name, .null)] => Scope.parse? name
  | _ => none

namespace ArtifactSpec

def ofValue? (v : Value) : Option ArtifactSpec := do
  let r ← Record.ofValue?
    ["group_id", "artifact_id", "version", "type", "classifier", "scope", "file"] v
  return { groupId := ← r.required "group_id" Value.asText?
           artifactId := ← r.required "artifact_id" Value.asText?
           version := ← r.required "version" Value.asText?
           type := ← r.withDefault "type" "jar" Value.asText?
           classifier := ← r.optional "classifier" Value.asText?
           scope := ← r.withDefault "scope" .compile Scope.ofValue?
           file := ← r.optional "file" Value.asText? }

def read? (text : String) : Option ArtifactSpec :=
  Json.read? text >>= ofValue?

def readList? (text : String) : Option (List ArtifactSpec) :=
  Json.read? text >>= Value.asList? ofValue?

end ArtifactSpec

namespace Descriptor

/-- The object of a descriptor; absent fields are left out. -/
def toValue (d : Descriptor) : Value :=
  let optional (name : String) (field : Option String) : List (String × Value) :=
    (field.map fun s => (name, Value.text s)).toList
  .record ([("scope", .text d.scope.name), ("group", .text d.group),
    ("artifact", .text d.artifact), ("version", .text d.version), ("type", .text d.type)] ++
    optional "classifier" d.classifier ++ optional "file" d.file)

/-- A list of descriptors as JSON text, in ascending order. -/
def renderList (ds : List Descriptor) : String :=
  (Value.array ((sort ds).map (·.toValue))).render

end Descriptor

end ServerFractions
