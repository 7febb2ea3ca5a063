/-!
# Tokens of YAML texts

A text is a row of tokens. Where indentation nests the text, the nesting is
spelt out: a block collection has a token at its start and one at its end, and
every key and value of a mapping is announced.
-/

namespace ServerFractions.Yaml

inductive Style where
  | plain
  | singleQuoted
  | doubleQuoted
  | literal
  | folded
  deriving DecidableEq, Repr, Inhabited

inductive Token where
  | version (major minor : Nat)
  | handle (handle beginning : String)
  | documentStart
  | documentEnd
  | blockSequence
  | blockMapping
  | blockEnd
  | flowSequence
  | flowSequenceEnd
  | flowMapping
  | flowMappingEnd
  | blockEntry
  | flowEntry
  | key
  | value
  | alias (name : String)
  | anchor (name : String)
  | tag (handle suffix : String)
  | scalar (text : String) (style : Style)
  | streamEnd
  deriving DecidableEq, Repr, Inhabited

end ServerFractions.Yaml
