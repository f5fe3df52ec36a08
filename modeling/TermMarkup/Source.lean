/-
Places in a source text. Offsets count bytes of the UTF-8 encoding; lines and columns start at one,
and a column counts characters since the last line feed.
-/

namespace TermMarkup

/-- The bytes from `start` up to but not including `stop`. -/
structure Span where
  start : Nat
  stop : Nat
  deriving DecidableEq, Repr

/-- A line and a column, both starting at one. -/
structure Position where
  line : Nat
  column : Nat
  deriving DecidableEq, Repr

/-- The number of bytes a run of characters takes. -/
def byteLength (cs : List Char) : Nat :=
  cs.foldr (fun c n => c.utf8Size + n) 0

namespace Position

/-- The position just after a character. -/
def after (p : Position) (c : Char) : Position :=
  if c == '\n' then ⟨p.line + 1, 1⟩ else ⟨p.line, p.column + 1⟩

/-- The position `offset` bytes into the characters, when they start at `p`. -/
def advance (p : Position) (offset : Nat) : List Char → Position
  | [] => p
  | c :: cs => if offset == 0 then p else (p.after c).advance (offset - c.utf8Size) cs

/-- The position of a byte offset in a source. -/
def ofOffset (source : String) (offset : Nat) : Position :=
  advance ⟨1, 1⟩ offset source.toList

end Position

end TermMarkup
