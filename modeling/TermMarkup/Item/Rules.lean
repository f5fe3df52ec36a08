/-
The rules of documents as parsers. A document is any number of text runs and elements; the body of
an element is a document again.
-/
import TermMarkup.Item
import TermMarkup.Token.Parser

namespace TermMarkup

namespace Token

def name? : Token → Option String
  | name word => some word
  | _ => none

def quoted? : Token → Option String
  | quoted value => some value
  | _ => none

def text? : Token → Option String
  | text value => some value
  | _ => none

end Token

namespace Item.Rules

open Token.Parser

def name : Token.Parser Name :=
  (select Token.name?).mapWithSpan Name.mk

def value : Token.Parser String :=
  (just .equals).ignoreThen (select Token.quoted?)

def writtenAttribute : Token.Parser WrittenAttribute :=
  ((select Token.name?).andThen value.orNot).mapWithSpan fun (key, value) span => ⟨key, value, span⟩

def close : Token.Parser Name :=
  ((just .closeOpen).ignoreThen name).thenIgnore (just .tagEnd)

/-- What follows the attributes of a tag: its end, or a body and a closing tag. -/
def body (nodes : Token.Parser (List Item)) : Token.Parser (Option (List Item × Name)) :=
  ((just .selfClose).map fun _ => none).or
    ((((just .tagEnd).ignoreThen nodes).andThen close).map some)

/-- The item of a tag and what follows it. -/
def item : (Name × List WrittenAttribute) × Option (List Item × Name) → Item
  | ((name, attributes), none) => .selfClosing ⟨name, attributes⟩
  | ((name, attributes), some (items, close)) => .element ⟨name, attributes⟩ items close

def element (nodes : Token.Parser (List Item)) : Token.Parser Item :=
  ((((just .tagOpen).ignoreThen name).andThen writtenAttribute.repeated).andThen
    (body nodes)).map item

/-- A text run or an element. -/
def node (nodes : Token.Parser (List Item)) : Token.Parser Item :=
  ((select Token.text?).map Item.text).or (element nodes)

def nodes : Token.Parser (List Item) :=
  recursive fun nodes => (node nodes).repeated

def document : Token.Parser (List Item) :=
  nodes.thenIgnore atEnd

end Item.Rules

end TermMarkup
