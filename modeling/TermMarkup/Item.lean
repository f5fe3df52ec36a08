/-
Items: text runs and elements as they are written, before tags and attributes get a meaning. An
element is either self-closing or has a body and the name of its closing tag, whatever that name is.
-/
import TermMarkup.ParseError

namespace TermMarkup

/-- A name and where it stands. -/
structure Name where
  text : String
  span : Span
  deriving DecidableEq, Repr

/-- An attribute as written; its span runs from its name to its value. -/
structure WrittenAttribute where
  name : String
  value : Option String
  span : Span
  deriving DecidableEq, Repr

/-- The name and attributes of an opening tag. -/
structure OpenTag where
  name : Name
  attributes : List WrittenAttribute
  deriving DecidableEq, Repr

inductive Item where
  | text (value : String)
  | selfClosing (tag : OpenTag)
  | element (tag : OpenTag) (body : List Item) (close : Name)

end TermMarkup
