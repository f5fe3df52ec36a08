/-
Emoji shortcodes. A shortcode is a name between two colons; substitution replaces the known ones
from left to right, and a colon that closes one candidate does not open the next.
-/
import TermMarkup.Emoji.Table

namespace TermMarkup.Emoji

/-- The emoji with the given name (without colons). -/
def lookup (name : String) : Option String :=
  table.lookup name

/-- The characters a shortcode's name is made of. -/
def isNameChar (c : Char) : Bool :=
  c.isAlphanum || c == '_' || c == '+' || c == '-'

/-- What stands for the candidate `:name:`: its emoji, or the candidate itself. -/
def replacement (name : List Char) : List Char :=
  match lookup (String.ofList name) with
  | some emoji => emoji.toList
  | none => ':' :: name ++ [':']

theorem length_of_dropWhile_eq {p : Char → Bool} {cs rest : List Char} {c : Char}
    (h : cs.dropWhile p = c :: rest) : rest.length < cs.length := by
  have := (List.dropWhile_sublist p (l := cs)).length_le
  rw [h, List.length_cons] at this
  omega

def substituteChars : List Char → List Char
  | [] => []
  | c :: cs =>
    if c == ':' then
      match _h : cs.dropWhile isNameChar with
      | ':' :: rest =>
        match cs.takeWhile isNameChar with
        | [] => ':' :: substituteChars cs
        | name => replacement name ++ substituteChars rest
      | _ => ':' :: substituteChars cs
    else c :: substituteChars cs
termination_by cs => cs.length
decreasing_by
  all_goals simp only [List.length_cons]
  · omega
  · exact Nat.lt_succ_of_lt (length_of_dropWhile_eq _h)
  · omega
  · omega

/-- The text with every known shortcode replaced. -/
def substitute (text : String) : String :=
  String.ofList (substituteChars text.toList)

end TermMarkup.Emoji
