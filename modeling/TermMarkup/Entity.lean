/-
Character references. Five names stand for the characters that markup gives a meaning to; reading
decodes each in one pass, and writing escapes the characters that would otherwise be read as
markup. Any other ampersand is literal.
-/

namespace TermMarkup.Entity

def decodeChars : List Char → List Char
  | '&' :: 'l' :: 't' :: ';' :: rest => '<' :: decodeChars rest
  | '&' :: 'g' :: 't' :: ';' :: rest => '>' :: decodeChars rest
  | '&' :: 'a' :: 'm' :: 'p' :: ';' :: rest => '&' :: decodeChars rest
  | '&' :: 'q' :: 'u' :: 'o' :: 't' :: ';' :: rest => '\x22' :: decodeChars rest
  | '&' :: 'a' :: 'p' :: 'o' :: 's' :: ';' :: rest => '\x27' :: decodeChars rest
  | c :: rest => c :: decodeChars rest
  | [] => []

/-- The text with its character references decoded. -/
def decode (text : String) : String :=
  String.ofList (decodeChars text.toList)

/-- A character of a text run as it is written. -/
def escapeTextChar (c : Char) : List Char :=
  if c == '&' then "&amp;".toList else if c == '<' then "&lt;".toList else [c]

/-- A character of an attribute value as it is written between double quotes. -/
def escapeValueChar (c : Char) : List Char :=
  if c == '\x22' then "&quot;".toList else escapeTextChar c

/-- A text run as it is written. -/
def escapeText (text : String) : String :=
  String.ofList (text.toList.flatMap escapeTextChar)

/-- An attribute value as it is written between double quotes. -/
def escapeValue (value : String) : String :=
  String.ofList (value.toList.flatMap escapeValueChar)

end TermMarkup.Entity
