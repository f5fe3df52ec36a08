/-
Letter case. Names of colors, flags and formats are compared in ASCII lower case; attribute names
are brought to camel case with the full case mapping, in which a letter may become several
characters.
-/
import TermMarkup.Text.CaseTable

namespace TermMarkup.Text

/-- The text with its ASCII letters in lower case. -/
def asciiLower (s : String) : String :=
  String.ofList (s.toList.map Char.toLower)

def CaseRun.covers (r : CaseRun) (n : Nat) : Bool :=
  r.first ≤ n && n ≤ r.last && (n - r.first) % r.step == 0

/-- The counterpart of a code point: an expansion, else the run that covers it, else itself. -/
def counterpart (expansions : List (Nat × List Nat)) (runs : List CaseRun) (c : Char) :
    List Char :=
  match expansions.lookup c.toNat with
  | some expansion => expansion.map Char.ofNat
  | none =>
    match runs.find? (·.covers c.toNat) with
    | some r => [Char.ofNat (c.toNat + r.distance).toNat]
    | none => [c]

/-- The upper-case form of a character. -/
def upper (c : Char) : List Char :=
  if c.toNat < 128 then [c.toUpper]
  else counterpart upperExpansions (upperRunsLow ++ upperRunsHigh) c

/-- The lower-case form of a character. -/
def lower (c : Char) : List Char :=
  if c.toNat < 128 then [c.toLower]
  else counterpart lowerExpansions (lowerRunsLow ++ lowerRunsHigh) c

end TermMarkup.Text
