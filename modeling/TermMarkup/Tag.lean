/-
Written tags. Attribute values are escaped and stand in double quotes.
-/
import TermMarkup.Entity

namespace TermMarkup.Tag

def writtenAttribute (a : String × String) : String :=
  " " ++ a.1 ++ "=\"" ++ Entity.escapeValue a.2 ++ "\""

def writtenAttributes (attributes : List (String × String)) : String :=
  String.join (attributes.map writtenAttribute)

/-- An opening tag. -/
def opening (name : String) (attributes : List (String × String)) : String :=
  "<" ++ name ++ writtenAttributes attributes ++ ">"

/-- A self-closing tag. -/
def selfClosing (name : String) (attributes : List (String × String)) : String :=
  "<" ++ name ++ writtenAttributes attributes ++ "/>"

/-- A closing tag. -/
def closing (name : String) : String :=
  "</" ++ name ++ ">"

end TermMarkup.Tag
