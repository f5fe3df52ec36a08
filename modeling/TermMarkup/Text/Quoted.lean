/-
Quoted text, as diagnostics show it: between double quotes, with a backslash before a quote or a
backslash, short escapes for the common controls, and the code point in braces for every other
character that would not be seen as itself.
-/
import TermMarkup.Text.UnseenTable

namespace TermMarkup.Text

/-- Whether a character is not seen as itself in quoted text. -/
def isUnseen (c : Char) : Bool :=
  let covers (ranges : List (Nat × Nat)) := ranges.any fun r => r.1 ≤ c.toNat && c.toNat ≤ r.2
  covers unseenWestern || covers unseenIndic || covers unseenEthiopic || covers unseenKhmer ||
    covers unseenSymbols || covers unseenYi || covers unseenAegean || covers unseenBrahmi ||
    covers unseenCuneiform || covers unseenPictures

/-- A character as it stands inside the quotes. -/
def quoteChar (c : Char) : List Char :=
  if c == '\x22' then ['\\', '\x22']
  else if c == '\\' then ['\\', '\\']
  else if c == '\n' then ['\\', 'n']
  else if c == '\r' then ['\\', 'r']
  else if c == '\t' then ['\\', 't']
  else if c == '\x00' then ['\\', '0']
  else if isUnseen c then ['\\', 'u', '\x7b'] ++ Nat.toDigits 16 c.toNat ++ ['\x7d']
  else [c]

/-- The text in double quotes. -/
def quote (s : String) : String :=
  String.ofList ('\x22' :: s.toList.flatMap quoteChar ++ ['\x22'])

end TermMarkup.Text
