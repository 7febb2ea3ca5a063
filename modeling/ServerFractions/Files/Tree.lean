import ServerFractions.Files.Basic

/-!
# File trees

A working directory with all that is in it. Paths are followed name by name:
symbolic links lead on from the directory that they are in, and two dots lead
up. Of what is above the working directory nothing is known, so a path that
leads there finds a directory with nothing in it.
-/

namespace ServerFractions

inductive Item where
  | directory
  | file (text : String)
  | link (target : String)
  deriving DecidableEq, Repr, Inhabited

/-- The items of a tree by their names from the working directory on, the latest
first where one was replaced. -/
structure FileTree where
  items : List (List String × Item) := []
  deriving DecidableEq, Repr, Inhabited

/-- A directory by its names, or what is above the working directory. -/
abbrev Spot := Option (List String)

/-- Where a path leads. -/
inductive Lead where
  | to (spot : Spot) (item : Item)
  /-- No item has that name in the directory. -/
  | vacant (directory : Spot) (name : String)
  | nowhere
  deriving DecidableEq, Repr, Inhabited

namespace FileTree

def item? (t : FileTree) (directory : Spot) (name : String) : Option Item :=
  directory.bind fun names => t.items.lookup (names ++ [name])

def put (t : FileTree) (names : List String) (item : Item) : FileTree :=
  ⟨(names, item) :: t.items⟩

/-- The directories above an item, the outermost first. -/
def above (names : List String) : List (List String) :=
  (List.range names.length).tail.map names.take

/-- Puts an item in place, in directories that are made where they are missing. -/
def add (t : FileTree) (names : List String) (item : Item) : FileTree :=
  let missing := (above names).filter fun directory => (t.items.lookup directory).isNone
  (missing.foldl (fun t directory => t.put directory .directory) t).put names item

def ofList (items : List (String × Item)) : FileTree :=
  items.foldl (fun t (path, item) => t.add (Path.names path) item) {}

-- ---------------------------------------------------------------------------
-- Following paths
-- ---------------------------------------------------------------------------

/-- The most symbolic links on the way of a path. -/
def linkLimit : Nat := 40

/-- The most bytes of a name. -/
def nameLimit : Nat := 255

def start (path : String) (here : Spot) : Spot :=
  if path.startsWith "/" then none else here

/-- Follows names from a directory on. A link at the very end is followed only
if `through`. -/
def walk (t : FileTree) (through : Bool) (links : Nat) (here : Spot) (names : List String) : Lead :=
  match names with
  | [] => .to here .directory
  | name :: rest =>
    if Path.isIdle name then walk t through links here rest
    else if name = ".." then walk t through links (here.bind parent?) rest
    else
      match t.item? here name with
      | none =>
        if rest.isEmpty && name.utf8ByteSize ≤ nameLimit then .vacant here name else .nowhere
      | some .directory => walk t through links (here.map (· ++ [name])) rest
      | some (.file text) =>
        if rest.isEmpty then .to (here.map (· ++ [name])) (.file text) else .nowhere
      | some (.link target) =>
        if rest.isEmpty && !through then .to (here.map (· ++ [name])) (.link target)
        else
          match links with
          | 0 => .nowhere
          | links + 1 => walk t through links (start target here) (Path.names target ++ rest)
termination_by (links, names.length)
where
  /-- The directory above one; above the working directory all is one. -/
  parent? : List String → Spot
    | [] => none
    | names => some names.dropLast

def follow (t : FileTree) (through : Bool) (path : String) : Lead :=
  if path = "" then .nowhere
  else t.walk through linkLimit (start path (some [])) (Path.names path)

-- ---------------------------------------------------------------------------
-- Seeing and writing
-- ---------------------------------------------------------------------------

def isLink (t : FileTree) (path : String) : Bool :=
  match t.follow false path with
  | .to _ (.link _) => true
  | _ => false

/-- What stands at the end of a path. -/
def standing (t : FileTree) (path : String) : Standing :=
  match t.follow true path with
  | .to _ .directory => .directory
  | .to _ (.file text) => .regular text.utf8ByteSize (.text text)
  | .to _ (.link _) | .nowhere => .nothing false
  | .vacant _ _ => .nothing true

def files (t : FileTree) : Files := fun path =>
  { link := t.isLink path, standing := t.standing path }

/-- Writes a text to the file at the end of a path, which is made if it is
missing. Nothing happens where no file can be, or above the working directory. -/
def write (t : FileTree) (path text : String) : FileTree :=
  match t.follow true path with
  | .to (some names) (.file _) => t.put names (.file text)
  | .vacant (some directory) name => t.put (directory ++ [name]) (.file text)
  | _ => t

def regular (t : FileTree) : List (String × String) :=
  (t.items.map (·.1)).eraseDups.filterMap fun names =>
    match t.items.lookup names with
    | some (.file text) => some ("/".intercalate names, text)
    | _ => none

/-- The regular files that are new or have another text than before. -/
def changed (before after : FileTree) : List (String × String) :=
  after.regular.filter (· ∉ before.regular)

end FileTree

end ServerFractions
