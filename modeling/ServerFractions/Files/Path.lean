import ServerFractions.Text.Split

/-!
# Paths

A path is a text of names with slashes between them; one that starts with a
slash is absolute. Empty names and single dots say nothing, except for a dot at
the very start of a path.
-/

namespace ServerFractions.Path

/-- The names of a path, the ones that say nothing included. -/
def names (path : String) : List String :=
  Text.split '/' path

/-- Whether a name leads nowhere. -/
def isIdle (name : String) : Bool :=
  name == "" || name == "."

/-- The path of a first name and more names, of which the first is empty if
the path is absolute. -/
def ofNames (first : String) (rest : List String) : String :=
  if first = "" && rest.isEmpty then "/" else "/".intercalate (first :: rest)

/-- The path without its last name, which is empty for a single name. Neither
the root nor the empty path has one. -/
def parent? (path : String) : Option String :=
  match names path with
  | [] => none
  | first :: rest =>
    match rest.reverse.dropWhile isIdle with
    | _ :: before => some (ofNames first (before.dropWhile isIdle).reverse)
    | [] => if first = "" then none else some ""

def join (directory name : String) : String :=
  if directory.endsWith "/" then directory ++ name else directory ++ "/" ++ name

example : parent? "a//b/." = some "a" := by decide +kernel

example : parent? "./b" = some "." ∧ parent? "./" = some "" := by decide +kernel

example : parent? "/b" = some "/" ∧ parent? "//" = none ∧ parent? "" = none := by decide +kernel

end ServerFractions.Path
