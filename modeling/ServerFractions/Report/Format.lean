import ServerFractions.Report.Json
import ServerFractions.Report.Text

/-!
# Output formats

A report is written as JSON, unless plain text is asked for. The name of a
format may be written in any case; no letter outside ASCII stands for a letter
of one of the names.
-/

namespace ServerFractions

inductive OutputFormat where
  | json
  | text
  deriving DecidableEq, Repr, Inhabited

namespace OutputFormat

def name : OutputFormat → String
  | .json => "json"
  | .text => "text"

def parse? (s : String) : Option OutputFormat :=
  match s.toLower with
  | "json" => some .json
  | "text" | "txt" => some .text
  | _ => none

/-- What is said about a name that no format has. -/
def rejection (s : String) : String :=
  "Invalid format: " ++ s ++ ". Please specify 'json' or 'text'"

/-- What a user is told before a report is written. -/
def progress : OutputFormat → String
  | .json => "📝 Generating JSON report..."
  | .text => "📝 Generating text report..."

end OutputFormat

def Report.render (r : Report) : OutputFormat → String
  | .json => r.toJson
  | .text => r.toText

end ServerFractions
