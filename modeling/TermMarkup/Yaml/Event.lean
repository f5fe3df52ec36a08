/-
Events: a YAML document node by node, collections between a start and an end. An alias stands for a
node that an anchor named before. Of a malformed text the events before the fault are known.
-/
import TermMarkup.Yaml.Token

namespace TermMarkup.Yaml

/-- A scalar and its tag, if it has one. -/
structure Scalar where
  text : String
  style : ScalarStyle
  tag : Option NodeTag
  deriving DecidableEq, Repr

inductive Event where
  /-- A text without a document. -/
  | void
  /-- The node with the given anchor number. -/
  | alias (number : Nat)
  | scalar (scalar : Scalar)
  | sequenceStart (tag : Option NodeTag)
  | sequenceEnd
  | mappingStart (tag : Option NodeTag)
  | mappingEnd
  deriving DecidableEq, Repr

/-- The events of a document, where the node of each anchor number starts, and what was wrong with
the text after them. -/
structure Document where
  events : Array (Event × Mark) := #[]
  anchored : List (Nat × Nat) := []
  fault : Option Malformed := none

end TermMarkup.Yaml
