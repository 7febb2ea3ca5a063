import ServerFractions.Decimal
import ServerFractions.Yaml.Node

/-!
# Values of YAML nodes

What a node stands for. Plain scalars are told apart by their text; quoted ones
are text. Reading follows aliases, but not without end: nesting and the number
of aliases are limited. Tags of the core schema have to agree with the text,
and other local tags stand for no value.
-/

namespace ServerFractions.Yaml

inductive Value where
  | null
  | boolean (b : Bool)
  | integer (n : Int)
  | decimal (d : Decimal)
  | infinity (negative : Bool)
  | notANumber
  | text (s : String)
  | sequence (items : List Value)
  | mapping (entries : List (Value × Value))
  deriving Repr, BEq, Inhabited

-- ---------------------------------------------------------------------------
-- Plain scalars
-- ---------------------------------------------------------------------------

namespace Plain

def isNull (s : String) : Bool :=
  s == "null" || s == "Null" || s == "NULL" || s == "~"

def boolean? : String → Option Bool
  | "true" | "True" | "TRUE" => some true
  | "false" | "False" | "FALSE" => some false
  | _ => none

def withoutSign : List Char → List Char
  | '+' :: rest | '-' :: rest => rest
  | cs => cs

/-- Whether a text is digits that begin with a zero, which is no number. -/
def isZeroPadded (cs : List Char) : Bool :=
  match withoutSign cs with
  | '0' :: c :: rest => (c :: rest).all Char.isDigit
  | _ => false

/-- Digits of a base, at least one. -/
def digits? (base : Nat) (cs : List Char) : Option Nat :=
  if cs.isEmpty then none else Text.digitsValue? base cs

/-- A whole number without its sign: decimal, or with the mark of another base. -/
def magnitude? : List Char → Option Nat
  | '0' :: 'x' :: rest => digits? 16 rest
  | '0' :: 'o' :: rest => digits? 8 rest
  | '0' :: 'b' :: rest => digits? 2 rest
  | cs => if isZeroPadded cs then none else digits? 10 cs

def integer? : List Char → Option Int
  | '-' :: rest => (magnitude? rest).map fun n => -(n : Int)
  | '+' :: rest => (magnitude? rest).map fun n => (n : Int)
  | cs => (magnitude? cs).map fun n => (n : Int)

def exponent? : List Char → Option Int
  | [] => some 0
  | _ :: '-' :: ds => (digits? 10 ds).map fun n => -(n : Int)
  | _ :: '+' :: ds => (digits? 10 ds).map fun n => (n : Int)
  | _ :: ds => (digits? 10 ds).map fun n => (n : Int)

/-- A decimal number without its sign, the point anywhere in it. -/
def unsigned? (negative : Bool) (cs : List Char) : Option Decimal := do
  let (mantissa, tail) := cs.span fun c => c != 'e' && c != 'E'
  let (whole, fraction) := mantissa.span (· != '.')
  let fraction := fraction.drop 1
  let significand ← digits? 10 (whole ++ fraction)
  return { negative, significand, exponent := (← exponent? tail) - fraction.length }

/-- The number in a form that equal numbers share. -/
def normal (d : Decimal) : Decimal :=
  if d.significand = 0 then { significand := 0 }
  else
    let digits := Nat.toDigits 10 d.significand
    let zeros := (digits.reverse.takeWhile (· == '0')).length
    { d with significand := d.significand / Nat.pow 10 zeros, exponent := d.exponent + zeros }

/-- A number with a finite value, or one of the words for others. -/
def float? (s : String) : Option Value :=
  match s with
  | ".inf" | ".Inf" | ".INF" | "+.inf" | "+.Inf" | "+.INF" => some (.infinity false)
  | "-.inf" | "-.Inf" | "-.INF" => some (.infinity true)
  | ".nan" | ".NaN" | ".NAN" => some .notANumber
  | _ =>
    let found := match s.toList with
      | '-' :: rest => unsigned? true rest
      | '+' :: rest => unsigned? false rest
      | cs => unsigned? false cs
    (found.filter (·.isFinite)).map fun d => .decimal (normal d)

/-- A whole number as a value. Numbers that need more than 64 bits are refused,
those that need more than 128 are no whole numbers. -/
def integerValue? (n : Int) : Option (Option Value) :=
  if fitsWord 64 n then some (some (.integer n)) else if fitsWord 128 n then none else some none

/-- The value of a plain scalar; refused when it is a whole number of the wrong
size. -/
def value? (s : String) : Option Value :=
  if s.isEmpty || isNull s then some .null
  else
    match boolean? s with
    | some b => some (.boolean b)
    | none => do
      let whole ← match integer? s.toList with
        | some n => integerValue? n
        | none => some none
      match whole with
      | some v => return v
      | none =>
        if isZeroPadded s.toList then return .text s
        return (float? s).getD (.text s)

end Plain

def coreTag (name : String) : String :=
  "tag:yaml.org,2002:" ++ name

/-- The value of a scalar; refused when its tag does not agree with its text. -/
def scalarValue? (tag : Option String) (s : String) (style : Style) : Option Value :=
  match tag with
  | none => if style = .plain then Plain.value? s else some (.text s)
  | some t =>
    if t = coreTag "bool" then (Plain.boolean? s).map .boolean
    else if t = coreTag "int" then
      (Plain.integer? s.toList).bind fun n => (Plain.integerValue? n).join
    else if t = coreTag "float" then Plain.float? s
    else if t = coreTag "null" then (if Plain.isNull s then some .null else none)
    else if t.startsWith "!" then none
    else some (.text s)

-- ---------------------------------------------------------------------------
-- Anchors
-- ---------------------------------------------------------------------------

namespace Node

mutual

/-- The nodes with anchors, by number; later nodes come first. -/
def anchored : Node → List (Nat × Node) → List (Nat × Node)
  | .scalar (some n) tag s style, found => (n, .scalar (some n) tag s style) :: found
  | .sequence anchor tag items, found =>
    let found := match anchor with
      | some n => (n, .sequence anchor tag items) :: found
      | none => found
    anchoredItems items found
  | .mapping anchor tag entries, found =>
    let found := match anchor with
      | some n => (n, .mapping anchor tag entries) :: found
      | none => found
    anchoredEntries entries found
  | _, found => found

def anchoredItems : List Node → List (Nat × Node) → List (Nat × Node)
  | [], found => found
  | n :: ns, found => anchoredItems ns (n.anchored found)

def anchoredEntries : List (Node × Node) → List (Nat × Node) → List (Nat × Node)
  | [], found => found
  | (k, v) :: es, found => anchoredEntries es (v.anchored (k.anchored found))

end

mutual

/-- How many steps a reader of the node takes, aliases not followed: one for each
scalar and alias, two for each collection. -/
def steps : Node → Nat
  | .scalar .. | .alias _ => 1
  | .sequence _ _ items => itemSteps items + 2
  | .mapping _ _ entries => entrySteps entries + 2

def itemSteps : List Node → Nat
  | [] => 0
  | n :: ns => n.steps + itemSteps ns

def entrySteps : List (Node × Node) → Nat
  | [] => 0
  | (k, v) :: es => k.steps + v.steps + entrySteps es

end

end Node

-- ---------------------------------------------------------------------------
-- Reading values
-- ---------------------------------------------------------------------------

/-- Reads with the anchored nodes at hand and so many aliases left to follow. -/
abbrev Decoder := ReaderT (List (Nat × Node)) (StateT Nat Option)

namespace Decoder

/-- How many aliases may be followed for each step of a document. -/
def aliasLimit : Nat := 100

def run {α : Type} (d : Decoder α) (root : Node) : Option α :=
  ((ReaderT.run d (root.anchored [])).run (aliasLimit * root.steps)).map (·.1)

/-- The node itself, or the one that it is an alias for. -/
def follow (n : Node) : Decoder Node := do
  match n with
  | .alias number =>
    let left ← getThe Nat
    if left = 0 then failure
    set (left - 1)
    match (← read).lookup number with
    | some n => return n
    | none => failure
  | n => return n

/-- The tag of a collection, which may not be local. -/
def checkTag (tag : Option String) : Decoder Unit := do
  if tag.any (·.startsWith "!") then failure

def hasRepeatedKey : List (Value × Value) → Bool
  | [] => false
  | (k, _) :: es => es.any (·.1 == k) || hasRepeatedKey es

/-- The value of a node with so many levels of nesting left. Keys may not
repeat. -/
def value : (levels : Nat) → Node → Decoder Value
  | levels, n => do
    match ← follow n, levels with
    | .scalar _ tag s style, _ =>
      match scalarValue? tag s style with
      | some v => return v
      | none => failure
    | .sequence _ tag items, levels + 1 =>
      checkTag tag
      return .sequence (← items.mapM (value levels))
    | .mapping _ tag entries, levels + 1 =>
      checkTag tag
      let entries ← entries.mapM fun (k, v) => return (← value levels k, ← value levels v)
      if hasRepeatedKey entries then failure
      return .mapping entries
    | _, _ => failure

/-- The text of a scalar, however it is written. -/
def text (n : Node) : Decoder String := do
  match ← follow n with
  | .scalar _ _ s _ => return s
  | _ => failure

/-- A scalar that may stand for nothing: a plain one that is empty or null. A
tag, other than that of null, makes it something. -/
def optional {α : Type} (decode : Node → Decoder α) (n : Node) : Decoder (Option α) := do
  let n ← follow n
  match n with
  | .scalar _ none s .plain =>
    if s.isEmpty || Plain.isNull s then return none else some <$> decode n
  | .scalar _ (some tag) s .plain =>
    if tag = coreTag "null" then
      if Plain.isNull s then return none else failure
    else some <$> decode n
  | n => some <$> decode n

/-- A plain scalar that is a boolean, or a literal one with the tag of booleans. -/
def flag (n : Node) : Decoder Bool := do
  match ← follow n with
  | .scalar _ tag s style =>
    if style = .plain || (style = .literal && tag = some (coreTag "bool")) then
      match Plain.boolean? s with
      | some b => return b
      | none => failure
    else failure
  | _ => failure

end Decoder

end ServerFractions.Yaml
