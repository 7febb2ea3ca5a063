import ServerFractions.Toml.Scalar
import ServerFractions.Toml.Table

/-!
# Reading TOML

The reader turns a text into sections, each with its header and the keys below
it, and puts a table together from them. It follows version 1.1 of the format:
inline tables may span lines and end in a comma, times may leave out their
seconds, and `\e` and `\x` are escapes.
-/

namespace ServerFractions.Toml

namespace Reader

-- ---------------------------------------------------------------------------
-- Blanks, line ends, comments
-- ---------------------------------------------------------------------------

def isBlank (c : Char) : Bool :=
  c == ' ' || c == '\t'

def skipBlank (cs : List Char) : List Char :=
  cs.dropWhile isBlank

/-- Whether a character may stand in comments and strings: anything but control
characters other than tabs. -/
def isPrintable (c : Char) : Bool :=
  c == '\t' || (32 ≤ c.toNat && c.toNat != 127)

def afterBreak? : List Char → Option (List Char)
  | '\n' :: rest | '\r' :: '\n' :: rest => some rest
  | _ => none

def skipComment : List Char → List Char
  | '#' :: rest => rest.dropWhile isPrintable
  | cs => cs

/-- What follows the end of a line: blanks, a comment, and a line break or the
end of the text. -/
def lineEnd? (cs : List Char) : Option (List Char) :=
  match skipComment (skipBlank cs) with
  | [] => some []
  | cs => afterBreak? cs

def skipLines : (fuel : Nat) → List Char → List Char
  | 0, cs => cs
  | fuel + 1, cs =>
    let cs := skipComment (skipBlank cs)
    match afterBreak? cs with
    | some rest => skipLines fuel rest
    | none => cs

-- ---------------------------------------------------------------------------
-- Strings
-- ---------------------------------------------------------------------------

/-- The character that `count` hexadecimal digits name. -/
def coded? (count : Nat) (cs : List Char) : Option (Char × List Char) := do
  let digits := cs.take count
  if digits.length < count then none
  return (← Text.charOf? (← Text.digitsValue? 16 digits), cs.drop count)

def escape? : List Char → Option (Char × List Char)
  | 'b' :: rest => some ('\x08', rest)
  | 't' :: rest => some ('\t', rest)
  | 'n' :: rest => some ('\n', rest)
  | 'f' :: rest => some ('\x0c', rest)
  | 'r' :: rest => some ('\r', rest)
  | 'e' :: rest => some ('\x1b', rest)
  | '"' :: rest => some ('"', rest)
  | '\\' :: rest => some ('\\', rest)
  | 'x' :: rest => coded? 2 rest
  | 'u' :: rest => coded? 4 rest
  | 'U' :: rest => coded? 8 rest
  | _ => none

/-- A string of one line, after its opening quote. Only strings in double
quotes have escapes. -/
def line : (fuel : Nat) → (quote : Char) → List Char → Option (List Char × List Char)
  | 0, _, _ => none
  | fuel + 1, quote, cs =>
    match cs with
    | [] => none
    | c :: rest =>
      if c = quote then some ([], rest)
      else if c = '\\' ∧ quote = '"' then do
        let (e, rest) ← escape? rest
        let (more, rest) ← line fuel quote rest
        return (e :: more, rest)
      else if isPrintable c then (line fuel quote rest).map fun (more, rest) => (c :: more, rest)
      else none

/-- The end of a string of several lines: three quotes, and up to two more that
belong to the string. -/
def closing? (quote : Char) (cs : List Char) : Option (List Char × List Char) :=
  let quotes := cs.takeWhile (· == quote)
  if quotes.length < 3 then none
  else
    let own := min 2 (quotes.length - 3)
    some (List.replicate own quote, cs.drop (own + 3))

/-- What follows a backslash at the end of a line, and all blank text and line
breaks after it. -/
def continued? (fuel : Nat) (cs : List Char) : Option (List Char) :=
  let rec skip : (fuel : Nat) → List Char → List Char
    | 0, cs => cs
    | fuel + 1, cs =>
      let cs := skipBlank cs
      match afterBreak? cs with
      | some rest => skip fuel rest
      | none => cs
  (afterBreak? (skipBlank cs)).map (skip fuel)

def block : (fuel : Nat) → (quote : Char) → List Char → Option (List Char × List Char)
  | 0, _, _ => none
  | fuel + 1, quote, cs =>
    match closing? quote cs with
    | some found => some found
    | none =>
      match cs with
      | [] => none
      | '\r' :: '\n' :: rest =>
        (block fuel quote rest).map fun (more, rest) => ('\r' :: '\n' :: more, rest)
      | c :: rest =>
        if c = '\\' ∧ quote = '"' then
          match continued? fuel rest with
          | some rest => block fuel quote rest
          | none => do
            let (e, rest) ← escape? rest
            let (more, rest) ← block fuel quote rest
            return (e :: more, rest)
        else if c = '\n' ∨ isPrintable c then
          (block fuel quote rest).map fun (more, rest) => (c :: more, rest)
        else none

/-- A string after its first quote. A line break right behind three opening
quotes does not belong to the string. -/
def string (fuel : Nat) (quote : Char) (cs : List Char) : Option (String × List Char) :=
  let found := match cs with
    | a :: b :: rest =>
      if a = quote ∧ b = quote then block fuel quote ((afterBreak? rest).getD rest)
      else line fuel quote cs
    | cs => line fuel quote cs
  found.map fun (s, rest) => (String.ofList s, rest)

-- ---------------------------------------------------------------------------
-- Keys
-- ---------------------------------------------------------------------------

def isBare (c : Char) : Bool :=
  c.isAlphanum || c == '_' || c == '-'

def key (fuel : Nat) : List Char → Option (String × List Char)
  | [] => none
  | c :: rest =>
    if c = '"' ∨ c = '\'' then
      (line fuel c rest).map fun (s, rest) => (String.ofList s, rest)
    else
      match (c :: rest).takeWhile isBare with
      | [] => none
      | bare => some (String.ofList bare, (c :: rest).dropWhile isBare)

/-- A key with all dotted names before it, and what follows it and the blanks
after it. -/
def names : (fuel : Nat) → List Char → Option ((List String × String) × List Char)
  | 0, _ => none
  | fuel + 1, cs => do
    let (name, rest) ← key fuel (skipBlank cs)
    match skipBlank rest with
    | '.' :: rest =>
      let ((path, last), rest) ← names fuel rest
      return ((name :: path, last), rest)
    | rest => return (([], name), rest)

/-- How deep arrays and inline tables may be nested, and how many names a key
may have. -/
def levelLimit : Nat := 80

/-- A key with the dotted names before it, not too many. -/
def dottedKey (fuel : Nat) (cs : List Char) : Option ((List String × String) × List Char) :=
  (names fuel cs).filter fun ((path, _), _) => path.length < levelLimit

-- ---------------------------------------------------------------------------
-- Values
-- ---------------------------------------------------------------------------

def isScalar (c : Char) : Bool :=
  isBare c || c == '+' || c == '.' || c == ':'

/-- An unquoted value. A date may go on behind one blank, with a time. -/
def scalar (cs : List Char) : Option (Value × List Char) :=
  let first := cs.takeWhile isScalar
  let rest := cs.dropWhile isScalar
  match rest with
  | ' ' :: d :: more =>
    if Scalar.isDateShaped first && d.isDigit then
      let time := (d :: more).takeWhile isScalar
      (Scalar.value? (first ++ ' ' :: time)).map (·, (d :: more).dropWhile isScalar)
    else (Scalar.value? first).map (·, rest)
  | rest => (Scalar.value? first).map (·, rest)

mutual

/-- A value, with so many levels of arrays and inline tables left. -/
def value : (fuel levels : Nat) → List Char → Option (Value × List Char)
  | 0, _, _ => none
  | fuel + 1, levels, cs =>
    match cs, levels with
    | '"' :: rest, _ => (string fuel '"' rest).map fun (s, rest) => (.string s, rest)
    | '\'' :: rest, _ => (string fuel '\'' rest).map fun (s, rest) => (.string s, rest)
    | '[' :: rest, levels + 1 => (elements fuel levels rest).map fun (vs, rest) => (.array vs, rest)
    | '\x7b' :: rest, levels + 1 => do
      let (as, rest) ← pairs fuel levels rest
      let members ← Members.assignAll as []
      return (.table (Node.memberValues members), rest)
    | cs, _ => scalar cs

/-- The elements of an array up to its closing bracket. -/
def elements : (fuel levels : Nat) → List Char → Option (List Value × List Char)
  | 0, _, _ => none
  | fuel + 1, levels, cs =>
    match skipLines fuel cs with
    | ']' :: rest => some ([], rest)
    | cs => do
      let (v, rest) ← value fuel levels cs
      match skipLines fuel rest with
      | ',' :: rest =>
        let (vs, rest) ← elements fuel levels rest
        return (v :: vs, rest)
      | ']' :: rest => return ([v], rest)
      | _ => none

/-- The keys and values of an inline table up to its closing brace. -/
def pairs : (fuel levels : Nat) → List Char → Option (List Members.Assignment × List Char)
  | 0, _, _ => none
  | fuel + 1, levels, cs =>
    match skipLines fuel cs with
    | '\x7d' :: rest => some ([], rest)
    | cs => do
      let (a, rest) ← assignment fuel levels cs
      match skipLines fuel rest with
      | ',' :: rest =>
        let (as, rest) ← pairs fuel levels rest
        return (a :: as, rest)
      | '\x7d' :: rest => return ([a], rest)
      | _ => none

def assignment : (fuel levels : Nat) → List Char → Option (Members.Assignment × List Char)
  | 0, _, _ => none
  | fuel + 1, levels, cs => do
    let ((path, key), rest) ← dottedKey fuel cs
    match rest with
    | '=' :: rest =>
      let (v, rest) ← value fuel levels (skipBlank rest)
      return ({ path, key, value := v }, rest)
    | _ => none

end

-- ---------------------------------------------------------------------------
-- Sections
-- ---------------------------------------------------------------------------

structure Header where
  isElement : Bool
  path : List String
  key : String
  deriving Repr

/-- A line that is no comment. -/
inductive Statement where
  | header (h : Header)
  | assignment (a : Members.Assignment)
  deriving Repr

def header (fuel : Nat) (isElement : Bool) (cs : List Char) : Option (Header × List Char) := do
  let ((path, key), rest) ← dottedKey fuel cs
  match isElement, rest with
  | false, ']' :: rest | true, ']' :: ']' :: rest => return ({ isElement, path, key }, rest)
  | _, _ => none

def statement (fuel : Nat) : List Char → Option (Statement × List Char)
  | '[' :: '[' :: rest => (header fuel true rest).map fun (h, rest) => (.header h, rest)
  | '[' :: rest => (header fuel false rest).map fun (h, rest) => (.header h, rest)
  | cs => (assignment fuel levelLimit cs).map fun (a, rest) => (.assignment a, rest)

/-- The statements of a text, each on its own line. -/
def statements : (fuel : Nat) → List Char → Option (List Statement)
  | 0, _ => none
  | fuel + 1, cs =>
    match skipLines fuel cs with
    | [] => some []
    | cs => do
      let (s, rest) ← statement fuel cs
      let more ← statements fuel (← lineEnd? rest)
      return s :: more

def body : List Statement → List Members.Assignment × List Statement
  | .assignment a :: rest => let (as, rest) := body rest; (a :: as, rest)
  | rest => ([], rest)

theorem length_body_le (ss : List Statement) : (body ss).2.length ≤ ss.length := by
  induction ss with
  | nil => simp [body]
  | cons s ss ih => cases s <;> simp [body]; omega

def addSections (ms : Members) : List Statement → Option Members
  | .header h :: rest =>
    let f := if h.isElement then Members.extend h.key (body rest).1 else Members.define h.key (body rest).1
    (ms.within f h.path).bind (addSections · (body rest).2)
  | _ => some ms
termination_by ss => ss.length
decreasing_by
  have := length_body_le rest
  simp only [List.length_cons]; omega

end Reader

open Reader in
/-- The table that a text holds, if it is a TOML document. A byte order mark at
its start is passed over. -/
def read? (text : String) : Option (List (String × Value)) := do
  let cs := match text.toList with
    | '\uFEFF' :: rest => rest
    | cs => cs
  let ss ← statements (2 * cs.length + 2) cs
  let top ← Members.assignAll (body ss).1 []
  return Node.memberValues (← addSections top (body ss).2)

end ServerFractions.Toml
