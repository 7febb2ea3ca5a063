import ServerFractions.Fault
import ServerFractions.Files.Path

/-!
# Files

What a program sees of the files that its paths lead to. Inputs are taken from
regular files of limited size only and never through a symbolic link, and no
output goes through one. A text as such can be read from anything that has one.
-/

namespace ServerFractions

/-- What can be read from a file, or why nothing can. -/
inductive Content where
  | text (text : String)
  | unreadable (reason : String)
  deriving DecidableEq, Repr, Inhabited

/-- What stands at the end of a path. -/
inductive Standing where
  /-- Nothing yet; a file can be made there if the place is vacant. -/
  | nothing (vacant : Bool)
  | directory
  /-- A regular file, with its size in bytes as the file system has it. -/
  | regular (size : Nat) (content : Content)
  /-- A device or the like, which may refuse whatever is written to it. -/
  | special (content : Content) (refusal? : Option String)
  deriving DecidableEq, Repr, Inhabited

/-- Whether a path is itself a symbolic link, and what stands at its end once
all links are followed. -/
structure Sight where
  link : Bool
  standing : Standing
  deriving DecidableEq, Repr, Inhabited

abbrev Files := String → Sight

namespace Files

variable (files : Files)

def stands (path : String) : Bool :=
  match (files path).standing with
  | .nothing _ => false
  | _ => true

def isDirectory (path : String) : Bool :=
  (files path).standing == .directory

/-- The text at a path, or why there is none. Links are followed. -/
def text (path : String) : Except String String :=
  match (files path).standing with
  | .nothing _ => .error "No such file or directory"
  | .directory => .error "Is a directory"
  | .regular _ (.text text) | .special (.text text) _ => .ok text
  | .regular _ (.unreadable reason) | .special (.unreadable reason) _ => .error reason

/-- The most bytes of an input. -/
def sizeLimit : Nat := 100 * 1024 * 1024

/-- Why a path is no input, if it is none. -/
def inputObstacle? (path : String) : Option String :=
  let sight := files path
  if sight.link then some "Security: symbolic links are not accepted as input files"
  else
    match sight.standing with
    | .directory | .special _ _ => some "Not a regular file"
    | .regular size _ =>
      if sizeLimit < size then
        some s!"File is too large ({size} bytes). Maximum allowed size is {sizeLimit} bytes"
      else none
    | .nothing _ => none

def input (path : String) : Except Fault String :=
  match files.inputObstacle? path with
  | some details => .error (.unreadableFile path details)
  | none => (files.text path).mapError (.unreadableFile path)

/-- Why no output can be written to a path, if none can. A missing directory is
told before a link, and a link before all else. -/
def outputObstacle? (path : String) : Option String :=
  match (Path.parent? path).filter fun parent => parent != "" && !files.isDirectory parent with
  | some parent => some ("Parent directory does not exist: " ++ parent)
  | none =>
    let sight := files path
    if sight.link then
      some ("Security: Output path is a symbolic link. " ++
        "Writing through symbolic links is not allowed.")
    else
      match sight.standing with
      | .directory => some "Is a directory"
      | .nothing false => some "No such file or directory"
      | .special _ refusal? => refusal?
      | .nothing true | .regular _ _ => none

end Files

end ServerFractions
