/-
What can be wrong with a source text: a cause and the span it is about. The wording is here alone.
-/
import TermMarkup.Attribute
import TermMarkup.Token

namespace TermMarkup

/-- What could have stood in the place of an unexpected token. -/
inductive Expected where
  | token (token : Token)
  | endOfInput
  deriving DecidableEq, Repr

inductive ParseFault where
  /-- No token starts with these characters. -/
  | unexpectedCharacters (written : String)
  | unterminatedTag
  | tooDeep
  /-- A token (or the end, for `none`) that cannot continue the document. -/
  | unexpectedToken (found : Option Token) (expected : List Expected)
  | unknownTag (tag : String)
  | mismatchedClose (close tag : String)
  | breakWithBody
  | unknownAttribute (name tag : String)
  | duplicateAttribute (name tag : String)
  | invalidValue (name tag : String) (cause : Attribute.Fault)
  deriving DecidableEq, Repr

def Expected.display : Expected → String
  | token t => t.display
  | endOfInput => "end of input"

def ParseFault.message : ParseFault → String
  | unexpectedCharacters written => "unexpected character `" ++ written ++ "`"
  | unterminatedTag => "unterminated tag"
  | tooDeep => "nesting too deep (more than " ++ Nat.repr maxNesting ++ " open tags)"
  | unexpectedToken found expected =>
    let found := match found with
      | some token => token.display
      | none => "end of input"
    match expected with
    | [] => "unexpected " ++ found
    | _ => "unexpected " ++ found ++ ", expected " ++
      String.intercalate " or " (expected.map Expected.display)
  | unknownTag tag => "unknown tag `<" ++ tag ++ ">`"
  | mismatchedClose close tag =>
    "mismatched closing tag `</" ++ close ++ ">` for `<" ++ tag ++ ">`"
  | breakWithBody => "`<br>` must be self-closing"
  | unknownAttribute name tag => "unknown attribute `" ++ name ++ "` on `<" ++ tag ++ ">`"
  | duplicateAttribute name tag => "duplicate attribute `" ++ name ++ "` on `<" ++ tag ++ ">`"
  | invalidValue name tag cause =>
    "invalid value for `" ++ name ++ "` on `<" ++ tag ++ ">`: " ++ cause.message

/-- A fault and where it is. -/
structure ParseError where
  fault : ParseFault
  span : Span
  deriving DecidableEq, Repr

namespace ParseError

/-- The position of the fault in its source. -/
def position (e : ParseError) (source : String) : Position :=
  .ofOffset source e.span.start

def message (e : ParseError) (source : String) : String :=
  let place := e.position source
  "syntax error at line " ++ Nat.repr place.line ++ ", column " ++ Nat.repr place.column ++ ": " ++
    e.fault.message

end ParseError

end TermMarkup
