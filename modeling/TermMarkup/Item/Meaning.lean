/-
What items mean: each becomes a node of an untyped tree. This is where a tag has to be known, a
closing tag has to match, a line break has to be self-closing, and each attribute has to be known
to its tag, to be given once and to have a value that fits.
-/
import TermMarkup.Entity
import TermMarkup.Item
import TermMarkup.Text.Camel

namespace TermMarkup

/-- The kind a tag stands for. Text has no tag. -/
def OpenTag.kind (tag : OpenTag) : Except ParseError Kind :=
  match Kind.ofTag? tag.name.text with
  | some .text | none => .error ⟨.unknownTag tag.name.text, tag.name.span⟩
  | some kind => .ok kind

namespace WrittenAttribute

/-- The fields of a node with one more attribute. -/
def addTo (kind : Kind) (tag : String) (fields : List (String × Raw)) (a : WrittenAttribute) :
    Except ParseError (List (String × Raw)) :=
  let name := Text.camelCase a.name
  match Attribute.shape? kind name with
  | none => .error ⟨.unknownAttribute name tag, a.span⟩
  | some shape =>
    if (fields.lookup name).isSome then .error ⟨.duplicateAttribute name tag, a.span⟩
    else
      match Attribute.coerce shape (a.value.map Entity.decode) with
      | .ok value => .ok (Raw.insert name value fields)
      | .error cause => .error ⟨.invalidValue name tag cause, a.span⟩

end WrittenAttribute

/-- The fields of a node from its opening tag. -/
def OpenTag.fields (tag : OpenTag) (kind : Kind) : Except ParseError (List (String × Raw)) :=
  tag.attributes.foldlM (WrittenAttribute.addTo kind tag.name.text) [("node", .string kind.tag)]

namespace Item

/-- The fields with the content of a node: no child leaves it out, one child stands alone. -/
def withContent (fields : List (String × Raw)) : List Raw → Raw
  | [] => .object fields
  | [child] => .object (Raw.insert "content" child fields)
  | children => .object (Raw.insert "content" (.array children) fields)

mutual

/-- The untyped node an item stands for. -/
def toRaw : Item → Except ParseError Raw
  | .text value =>
    .ok (.ofFields [("node", .string "text"), ("value", .string (Entity.decode value))])
  | .selfClosing tag => do
    let kind ← tag.kind
    let fields ← tag.fields kind
    return .object fields
  | .element tag body close => do
    let kind ← tag.kind
    if close.text ≠ tag.name.text then
      throw ⟨.mismatchedClose close.text tag.name.text, close.span⟩
    if kind = .lineBreak then
      throw ⟨.breakWithBody, tag.name.span⟩
    let fields ← tag.fields kind
    let children ← toRaws body
    return withContent fields children

/-- The untyped nodes of a list of items. -/
def toRaws : List Item → Except ParseError (List Raw)
  | [] => .ok []
  | item :: items => do
    let first ← toRaw item
    let others ← toRaws items
    return first :: others

end

end Item

end TermMarkup
