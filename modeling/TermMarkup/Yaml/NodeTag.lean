/-
Tags of nodes. A tag is a run of octets, since the escapes in it may write octets that are no text.
A tag of the document's own starts with an exclamation mark and may name a variant; the tags of the
core types start with a common stem.
-/

namespace TermMarkup.Yaml

/-- The octets of a text. -/
def octets (text : String) : List UInt8 :=
  text.toList.flatMap String.utf8EncodeChar

/-- The octets up to the first that is zero, where a tag ends. -/
def upToZero (os : List UInt8) : List UInt8 :=
  os.takeWhile (· != 0)

structure NodeTag where
  octets : List UInt8
  deriving DecidableEq, Repr

namespace NodeTag

/-- What the tags of the core types start with. -/
def coreStem : List UInt8 := Yaml.octets "tag:yaml.org,2002:"

/-- The tag of a core type. -/
def core (name : String) : NodeTag := ⟨coreStem ++ Yaml.octets name⟩

/-- Whether the tag is one of the document's own. -/
def isOwn (tag : NodeTag) : Bool :=
  tag.octets.head? == some 0x21

/-- The text of some octets, if they are text. -/
def text? (os : List UInt8) : Option String :=
  String.fromUTF8? ⟨os.toArray⟩

/-- The name in a tag of the document's own; a lone exclamation mark is its own name. -/
def name? (tag : NodeTag) : Option String :=
  match tag.octets with
  | [0x21] => some "!"
  | 0x21 :: name => text? name
  | _ => none

end NodeTag

end TermMarkup.Yaml
