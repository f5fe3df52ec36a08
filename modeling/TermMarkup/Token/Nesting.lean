/-
The nesting guard. Before items are read, the tokens are checked for too many open tags: an opening
tag that ends in `>` opens a body, a closing tag closes one.
-/
import TermMarkup.ParseError

namespace TermMarkup.Token

/-- Checks the tokens when `depth` bodies are open and `opening` is the start of the opening tag
being read, if any. -/
def checkNestingFrom (depth : Nat) (opening : Option Nat) : List Lexeme → Except ParseError Unit
  | [] => .ok ()
  | x :: xs =>
    match x.token, opening with
    | .tagOpen, _ => checkNestingFrom depth (some x.span.start) xs
    | .closeOpen, _ => checkNestingFrom (depth - 1) none xs
    | .selfClose, _ => checkNestingFrom depth none xs
    | .tagEnd, some start =>
      if depth < maxNesting then checkNestingFrom (depth + 1) none xs
      else .error ⟨.tooDeep, start, x.span.stop⟩
    | _, _ => checkNestingFrom depth opening xs

/-- Refuses tokens that open more than `maxNesting` bodies at once. -/
def checkNesting (lexemes : List Lexeme) : Except ParseError Unit :=
  checkNestingFrom 0 none lexemes

end TermMarkup.Token
