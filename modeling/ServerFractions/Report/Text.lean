import ServerFractions.Report.Basic

/-!
# Reports as plain text

A heading of three lines, then one block for each entry: the dependency with
its marks, and below it the children, each behind a tab.
-/

namespace ServerFractions.Report

/-- `group:artifact:type[:classifier]:version:scope`. -/
def Dependency.render (d : Dependency) : String :=
  let classified := match d.classifier with
    | some c => ":" ++ c
    | none => ""
  d.group ++ ":" ++ d.artifact ++ ":" ++ d.type ++ classified ++ ":" ++ d.version ++ ":" ++ d.scope

def Entry.render (e : Entry) : String :=
  "\n" ++ e.dependency.render ++ (if e.fraction then " [fraction]" else "") ++
    (if e.project then " [project]" else "") ++ "\n" ++
    String.join (e.children.map fun d => "\t" ++ d.render ++ "\n")

def heading (r : Report) : String :=
  "Configuration: " ++ r.configuration ++ "\n" ++
    "Generated by " ++ r.metadata.toolName ++ " " ++ r.metadata.toolVersion ++ " at " ++
    r.metadata.timestamp ++ "\n" ++
    toString r.entries.length ++ " top-level dependencies, " ++ toString r.fractionCount ++
    " fraction(s)\n"

def toText (r : Report) : String :=
  r.heading ++
    if r.entries.isEmpty then "\n(no dependencies)\n" else String.join (r.entries.map (·.render))

end ServerFractions.Report
