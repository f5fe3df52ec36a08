/-
The kinds of nodes. A styled kind takes attributes and has an entry in a theme; the others are text,
line breaks and the four inline kinds. Every kind is named by its tag.
-/

namespace TermMarkup

/-- The kinds that carry a style. -/
inductive StyledKind where
  | h1
  | h2
  | h3
  | body
  | paragraph
  | span
  | div
  | listItem
  deriving DecidableEq, Repr

/-- The kinds of nodes. -/
inductive Kind where
  | text
  | lineBreak
  | bold
  | italics
  | underline
  | color
  | styled (kind : StyledKind)
  deriving DecidableEq, Repr

/-- The deepest nesting a document may have. -/
def maxNesting : Nat := 64

namespace StyledKind

def tag : StyledKind → String
  | h1 => "h1"
  | h2 => "h2"
  | h3 => "h3"
  | body => "body"
  | paragraph => "p"
  | span => "span"
  | div => "div"
  | listItem => "li"

/-- Whether the kind starts on a new line of its own. -/
def isBlock : StyledKind → Bool
  | h1 | h2 | h3 | paragraph | div | listItem => true
  | body | span => false

end StyledKind

namespace Kind

def tag : Kind → String
  | text => "text"
  | lineBreak => "br"
  | bold => "bold"
  | italics => "italics"
  | underline => "underline"
  | color => "color"
  | styled kind => kind.tag

/-- Every kind, in the order in which lists of kinds show them. -/
def all : List Kind :=
  [text, lineBreak, bold, italics, underline, color, styled .h1, styled .h2, styled .h3,
    styled .body, styled .paragraph, styled .span, styled .div, styled .listItem]

/-- The kind with the given tag. -/
def ofTag? (tag : String) : Option Kind :=
  all.find? (·.tag == tag)

def isBlock : Kind → Bool
  | styled kind => kind.isBlock
  | _ => false

/-- Whether nodes of the kind may have content. -/
def hasContent : Kind → Bool
  | text | lineBreak => false
  | _ => true

def isStyled : Kind → Bool
  | styled _ => true
  | _ => false

end Kind

end TermMarkup
