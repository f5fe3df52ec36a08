/-
Tokens of YAML: the marks that open and close collections, the signs in them, and scalars with what
may stand before them. Where collections are shown by indentation, their opening and closing marks
are not written; they are tokens all the same.
-/
import TermMarkup.Yaml.NodeTag
import TermMarkup.Yaml.Scalar

namespace TermMarkup.Yaml

inductive Sign where
  | streamEnd
  | version (major minor : Nat)
  | handle (handle : String) (meaning : List UInt8)
  | documentStart
  | documentEnd
  | blockSequence
  | blockMapping
  | blockEnd
  | flowSequence
  | flowSequenceEnd
  | flowMapping
  | flowMappingEnd
  | blockEntry
  | flowEntry
  | key
  | value
  | alias (name : String)
  | anchor (name : String)
  | tag (handle : String) (suffix : List UInt8)
  | scalar (text : String) (style : ScalarStyle)
  deriving DecidableEq, Repr

/-- A sign and where it stands. -/
structure Token where
  sign : Sign
  start : Mark
  stop : Mark
  deriving DecidableEq, Repr

end TermMarkup.Yaml
