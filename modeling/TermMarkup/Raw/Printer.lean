/-
The text of an untyped tree, on one line or laid out with two spaces for each level.
-/
import TermMarkup.Raw

namespace TermMarkup.Raw

def escapeChar (c : Char) : List Char :=
  if c == '\x22' then ['\\', '\x22']
  else if c == '\\' then ['\\', '\\']
  else if c == '\n' then ['\\', 'n']
  else if c == '\r' then ['\\', 'r']
  else if c == '\t' then ['\\', 't']
  else if c == '\x08' then ['\\', 'b']
  else if c == '\x0c' then ['\\', 'f']
  else if c.toNat < 0x20 then
    ['\\', 'u', '0', '0', Nat.digitChar (c.toNat / 16), Nat.digitChar (c.toNat % 16)]
  else [c]

/-- A string between quotes. -/
def stringText (s : String) : String :=
  String.ofList ('\x22' :: s.toList.flatMap escapeChar ++ ['\x22'])

/-- A tree that is neither an array nor an object. -/
def leafText : Raw → String
  | .bool true => "true"
  | .bool false => "false"
  | .number n => n.text
  | .string s => stringText s
  | _ => "null"

mutual

/-- The tree on one line. -/
def compact : Raw → String
  | .array items => "[" ++ String.intercalate "," (compactItems items) ++ "]"
  | .object fields => "\x7b" ++ String.intercalate "," (compactFields fields) ++ "\x7d"
  | leaf => leafText leaf

def compactItems : List Raw → List String
  | [] => []
  | item :: items => compact item :: compactItems items

def compactFields : List (String × Raw) → List String
  | [] => []
  | (key, value) :: fields => (stringText key ++ ":" ++ compact value) :: compactFields fields

end

/-- The start of a line at a level. -/
def lineStart (level : Nat) : String :=
  "\n" ++ String.ofList (List.replicate (2 * level) ' ')

/-- Lines at a level, with a comma after each but the last. -/
def lines (level : Nat) (texts : List String) : String :=
  lineStart level ++ String.intercalate ("," ++ lineStart level) texts

mutual

/-- The tree with each item and field on a line of its own. -/
def pretty (level : Nat) : Raw → String
  | .array [] => "[]"
  | .array items =>
    "[" ++ lines (level + 1) (prettyItems (level + 1) items) ++ lineStart level ++ "]"
  | .object [] => "\x7b\x7d"
  | .object fields =>
    "\x7b" ++ lines (level + 1) (prettyFields (level + 1) fields) ++ lineStart level ++ "\x7d"
  | leaf => leafText leaf

def prettyItems (level : Nat) : List Raw → List String
  | [] => []
  | item :: items => pretty level item :: prettyItems level items

def prettyFields (level : Nat) : List (String × Raw) → List String
  | [] => []
  | (key, value) :: fields =>
    (stringText key ++ ": " ++ pretty level value) :: prettyFields level fields

end

end TermMarkup.Raw
