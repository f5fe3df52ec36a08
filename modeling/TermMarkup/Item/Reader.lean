/-
Reading items from tokens. A document is any number of text runs and elements; an element is

    `<` name attribute* `/>`        or        `<` name attribute* `>` document `</` name `>`

and an attribute is a name, or a name, an equals sign and a quoted value. The reader keeps the
elements whose body is open and what it has read of the current tag, and takes one token at a time;
in each state it knows which tokens can come next, so the first token it refuses is the first that
no document has there. `Item.Rules` has the same grammar as parsers, and the two agree on all tokens.
-/
import TermMarkup.Item

namespace TermMarkup.Item

/-- What the reader is in the middle of. -/
inductive Phase where
  /-- Between the items of a body. -/
  | items
  /-- After `<`. -/
  | openName
  /-- After the name of a tag or a complete attribute; attributes stand latest first. -/
  | inTag (name : Name) (attributes : List WrittenAttribute)
  /-- After the name of an attribute. -/
  | afterName (name : Name) (attributes : List WrittenAttribute) (key : Name)
  /-- After the equals sign of an attribute. -/
  | value (name : Name) (attributes : List WrittenAttribute) (key : Name)
  /-- After `</`. -/
  | closeName
  /-- After the name of a closing tag. -/
  | closeEnd (close : Name)
  deriving DecidableEq, Repr

/-- An element whose body is open, and the items before it (latest first). -/
structure Frame where
  tag : OpenTag
  before : List Item

/-- The open elements, innermost first, and the items of the innermost body, latest first. -/
structure Reader where
  frames : List Frame
  items : List Item
  phase : Phase

namespace Reader

def start : Reader := ⟨[], [], .items⟩

/-- The opening tag with its attributes in order. -/
def openTag (name : Name) (attributes : List WrittenAttribute) : OpenTag :=
  ⟨name, attributes.reverse⟩

/-- A bare attribute. -/
def bare (key : Name) : WrittenAttribute :=
  ⟨key.text, none, key.span⟩

/-- What a tag becomes with the token after a tag's name or an attribute. -/
def continueTag (r : Reader) (name : Name) (attributes : List WrittenAttribute) (x : Lexeme) :
    Option Reader :=
  match x.token with
  | .name word => some { r with phase := .afterName name attributes ⟨word, x.span⟩ }
  | .tagEnd => some ⟨⟨openTag name attributes, r.items⟩ :: r.frames, [], .items⟩
  | .selfClose =>
    some { r with items := .selfClosing (openTag name attributes) :: r.items, phase := .items }
  | _ => none

/-- The reader after one more token, unless the token cannot stand here. -/
def step (r : Reader) (x : Lexeme) : Option Reader :=
  match r.phase, x.token with
  | .items, .text value => some { r with items := .text value :: r.items }
  | .items, .tagOpen => some { r with phase := .openName }
  | .items, .closeOpen => if r.frames.isEmpty then none else some { r with phase := .closeName }
  | .openName, .name word => some { r with phase := .inTag ⟨word, x.span⟩ [] }
  | .inTag name attributes, _ => r.continueTag name attributes x
  | .afterName name attributes key, .equals =>
    some { r with phase := .value name attributes key }
  | .afterName name attributes key, _ =>
    r.continueTag name (bare key :: attributes) x
  | .value name attributes key, .quoted value =>
    let written := ⟨key.text, some value, key.span.start, x.span.stop⟩
    some { r with phase := .inTag name (written :: attributes) }
  | .closeName, .name word => some { r with phase := .closeEnd ⟨word, x.span⟩ }
  | .closeEnd close, .tagEnd =>
    match r.frames with
    | frame :: frames =>
      some ⟨frames, .element frame.tag r.items.reverse close :: frame.before, .items⟩
    | [] => none
  | _, _ => none

/-- The fixed tokens that can come next, and the end of input where the document is complete. -/
def expected (r : Reader) : List Expected :=
  match r.phase with
  | .items =>
    if r.frames.isEmpty then [.token .tagOpen, .endOfInput]
    else [.token .closeOpen, .token .tagOpen]
  | .inTag _ _ => [.token .selfClose, .token .tagEnd]
  | .afterName _ _ _ => [.token .selfClose, .token .equals, .token .tagEnd]
  | .closeEnd _ => [.token .tagEnd]
  | .openName | .value _ _ _ | .closeName => []

/-- The items read when the document is complete. -/
def finish (r : Reader) : Option (List Item) :=
  match r.frames, r.phase with
  | [], .items => some r.items.reverse
  | _, _ => none

/-- Reads the remaining tokens of a source of `size` bytes. -/
def run (size : Nat) (r : Reader) : List Lexeme → Except ParseError (List Item)
  | [] =>
    match r.finish with
    | some items => .ok items
    | none => .error ⟨.unexpectedToken none r.expected, size, size⟩
  | x :: xs =>
    match r.step x with
    | some next => next.run size xs
    | none => .error ⟨.unexpectedToken (some x.token) r.expected, x.span⟩

end Reader

/-- The items of the tokens of a source of `size` bytes. -/
def read (size : Nat) (lexemes : List Lexeme) : Except ParseError (List Item) :=
  Reader.start.run size lexemes

end TermMarkup.Item
