import Std.Time.DateTime.Timestamp
import ServerFractions.CommandLine.Run

/-!
# The program

Looks at the files that the arguments name, asks the library what they come to,
and prints and writes just that.
-/

namespace ServerFractions.Main

open CommandLine

/-- The instant at which the program runs. -/
def now : IO Instant := do
  let nanoseconds := (← Std.Time.Timestamp.now).toNanosecondsSinceUnixEpoch.toInt
  return ⟨nanoseconds / 1000000000, (nanoseconds % 1000000000).toNat⟩

/-- Whether a file can be made at a path where nothing stands. -/
def isVacant (path : String) : IO Bool := do
  let directory := ((Path.parent? path).filter (· != "")).getD "."
  return !path.endsWith "/" && (← ((← IO.currentDir) / directory).isDir)

def content (path : String) : IO Content := do
  match ← (IO.FS.readFile path).toBaseIO with
  | .ok text => return .text text
  | .error e => return .unreadable (toString e)

/-- What stands at the end of a path where something stands. A device is read for
settings only, since reading from one may never end. -/
def standing (path : String) (m : IO.FS.Metadata) (isSettings : Bool) : IO Standing := do
  match m.type with
  | .dir => return .directory
  | .file => return .regular m.byteSize.toNat (← content path)
  | _ =>
    if isSettings then return .special (← content path) none
    else return .special (.unreadable "Not a regular file") none

def look (path : String) (isSettings : Bool) : IO Sight := do
  let place := (← IO.currentDir) / path
  match ← place.symlinkMetadata.toBaseIO with
  | .error _ => return { link := false, standing := .nothing (← isVacant path) }
  | .ok own =>
    let link := own.type matches .symlink
    match ← place.metadata.toBaseIO with
    | .error _ => return { link, standing := .nothing false }
    | .ok m => return { link, standing := ← standing path m isSettings }

/-- Looks at paths, of which the first is that of the settings. -/
def lookAll (paths : List String) : IO Files := do
  let seen ← paths.mapIdxM fun i path => return (path, ← look path (i == 0))
  return fun path => (seen.lookup path).getD { link := false, standing := .nothing false }

def print (r : Response) : IO UInt32 := do
  IO.eprint r.stderr
  IO.print r.stdout
  return r.status.code.toUInt32

/-- Writes the file of an outcome. If that fails, so does the outcome. -/
def carryOut (o : Outcome) : IO Outcome := do
  match o.response.file with
  | none => return o
  | some (path, text) =>
    try
      IO.FS.writeFile path text
      return o
    catch e => return o.refused (toString e)

end ServerFractions.Main

open ServerFractions CommandLine Main in
def main (arguments : List String) : IO UInt32 := do
  match Invocation.read arguments with
  | .error stop => print stop.response
  | .ok invocation =>
    let files ← lookAll invocation.paths
    let r := invocation.run files (← now)
    for line in r.events.filterMap (·.line? invocation.threshold) do
      IO.eprintln line
    print (← carryOut r.value).response
