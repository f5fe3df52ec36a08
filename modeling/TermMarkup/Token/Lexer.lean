/-
Splitting a source into tokens. Outside tags everything up to the next `<` is one text run; inside
a tag blanks separate names, equals signs and quoted values until `>` or `/>` ends the tag.
-/
import TermMarkup.ParseError

namespace TermMarkup.Token

/-- Where the lexer is: between tags or inside one. -/
inductive Mode where
  | content
  | tag
  deriving DecidableEq, Repr

/-- The blanks that separate tokens inside a tag. -/
def isTagBlank (c : Char) : Bool :=
  c == ' ' || c == '\t' || c == '\r' || c == '\n'

def isNameStart (c : Char) : Bool :=
  c.isAlpha

def isNameChar (c : Char) : Bool :=
  c.isAlphanum || c == '_' || c == '-'

def isQuote (c : Char) : Bool :=
  c == '\x22' || c == '\x27'

theorem length_dropWhile_le (p : Char → Bool) (cs : List Char) :
    (cs.dropWhile p).length ≤ cs.length :=
  (List.dropWhile_sublist p).length_le

theorem length_lt_of_dropWhile {p : Char → Bool} {cs rest : List Char} {c : Char}
    (h : cs.dropWhile p = c :: rest) : rest.length < cs.length := by
  have := length_dropWhile_le p cs
  rw [h, List.length_cons] at this
  omega

/-- The tokens of `cs`, which starts at byte `offset`, when the lexer is in `mode`. -/
def lexFrom (mode : Mode) (offset : Nat) (cs : List Char) : Except ParseError (List Lexeme) :=
  match mode, cs with
  | .content, [] => .ok []
  | .content, '<' :: '/' :: rest =>
    (lexFrom .tag (offset + 2) rest).map (⟨.closeOpen, offset, offset + 2⟩ :: ·)
  | .content, '<' :: rest =>
    (lexFrom .tag (offset + 1) rest).map (⟨.tagOpen, offset, offset + 1⟩ :: ·)
  | .content, c :: rest =>
    let run := c :: rest.takeWhile (· != '<')
    let stop := offset + byteLength run
    (lexFrom .content stop (rest.dropWhile (· != '<'))).map
      (⟨.text (String.ofList run), offset, stop⟩ :: ·)
  | .tag, [] => .error ⟨.unterminatedTag, offset, offset⟩
  | .tag, '=' :: rest =>
    (lexFrom .tag (offset + 1) rest).map (⟨.equals, offset, offset + 1⟩ :: ·)
  | .tag, '>' :: rest =>
    (lexFrom .content (offset + 1) rest).map (⟨.tagEnd, offset, offset + 1⟩ :: ·)
  | .tag, '/' :: '>' :: rest =>
    (lexFrom .content (offset + 2) rest).map (⟨.selfClose, offset, offset + 2⟩ :: ·)
  | .tag, c :: rest =>
    if isTagBlank c then lexFrom .tag (offset + 1) rest
    else if isNameStart c then
      let name := c :: rest.takeWhile isNameChar
      let stop := offset + byteLength name
      (lexFrom .tag stop (rest.dropWhile isNameChar)).map
        (⟨.name (String.ofList name), offset, stop⟩ :: ·)
    else if isQuote c then
      match _h : rest.dropWhile (· != c) with
      | [] =>
        .error ⟨.unexpectedCharacters (String.ofList (c :: rest)), offset,
          offset + byteLength (c :: rest)⟩
      | _ :: after =>
        let value := rest.takeWhile (· != c)
        let stop := offset + byteLength value + 2
        (lexFrom .tag stop after).map (⟨.quoted (String.ofList value), offset, stop⟩ :: ·)
    else
      .error ⟨.unexpectedCharacters (String.ofList [c]), offset, offset + c.utf8Size⟩
termination_by cs.length
decreasing_by
  all_goals simp only [List.length_cons]
  · omega
  · omega
  · exact Nat.lt_succ_of_le (length_dropWhile_le _ _)
  · omega
  · omega
  · omega
  · omega
  · exact Nat.lt_succ_of_le (length_dropWhile_le _ _)
  · exact Nat.lt_succ_of_lt (length_lt_of_dropWhile _h)

/-- The tokens of a source. -/
def lex (source : String) : Except ParseError (List Lexeme) :=
  lexFrom .content 0 source.toList

end TermMarkup.Token
