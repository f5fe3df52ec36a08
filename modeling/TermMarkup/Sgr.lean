/-
Terminal codes. Several codes go into one sequence, `ESC [ a ; b m`; no codes give no sequence. A
font is switched on in one order and off in the reverse order.
-/
import TermMarkup.Style

namespace TermMarkup.Sgr

def bold : Nat := 1
def boldOff : Nat := 22
def italics : Nat := 3
def italicsOff : Nat := 23
def underlineOff : Nat := 24
def fgDefault : Nat := 39
def bgDefault : Nat := 49

/-- The sequence for some codes. -/
def sequence (codes : List Nat) : String :=
  match codes with
  | [] => ""
  | _ => "\x1b[" ++ String.intercalate ";" (codes.map Nat.repr) ++ "m"

/-- The codes that switch a font on. -/
def fontOn (f : Font) : List Nat :=
  (f.fg.map Color.fgCode).toList ++ (f.bg.map Color.bgCode).toList ++
    (if f.bold = some true then [bold] else []) ++ (f.underline.bind Underline.code?).toList ++
    (if f.italics = some true then [italics] else [])

/-- The codes that switch a font off. -/
def fontOff (f : Font) : List Nat :=
  (if f.italics = some true then [italicsOff] else []) ++
    (if (f.underline.bind Underline.code?).isSome then [underlineOff] else []) ++
    (if f.bold = some true then [boldOff] else []) ++ (if f.bg.isSome then [bgDefault] else []) ++
    (if f.fg.isSome then [fgDefault] else [])

end TermMarkup.Sgr
