/-
Parsers over tokens, built from smaller ones. A parser takes tokens from the front or fails at one
of them. Choice is ordered and goes back to where it began, and so do an optional part and a
repetition: what stopped them is kept beside their value, since it may turn out to be the reason why
the parser after them fails. Of several failures the furthest counts, and failures at the same token
count together, each with what it expected there.
-/
import TermMarkup.ParseError

namespace TermMarkup

/-- Adds to expectations in the order of their wording, where no two read the same. -/
def Expected.insert (e : Expected) : List Expected → List Expected
  | [] => [e]
  | x :: xs =>
    if e.display = x.display then x :: xs
    else if e.display < x.display then e :: x :: xs
    else x :: e.insert xs

namespace Token

namespace Parser

/-- The tokens from the one that is refused on (none at the end), and what was expected there. -/
structure Failure where
  rest : List Lexeme
  expected : List Expected

namespace Failure

/-- The failure with fewer tokens left; at the same token, both. -/
def furthest (e f : Failure) : Failure :=
  if e.rest.length < f.rest.length then e
  else if f.rest.length < e.rest.length then f
  else { e with expected := e.expected ++ f.expected }

/-- The error to report in a source of `size` bytes. -/
def report (size : Nat) (e : Failure) : ParseError where
  fault := .unexpectedToken (e.rest.head?.map Lexeme.token) (e.expected.foldr Expected.insert [])
  span := (e.rest.head?.map Lexeme.span).getD ⟨size, size⟩

end Failure

/-- A value, the furthest failure on the way to it, and the tokens left. -/
structure Success (α : Type) where
  value : α
  missed : Option Failure
  rest : List Lexeme

end Parser

/-- Takes tokens from the front for a value, or fails. -/
def Parser (α : Type) : Type :=
  List Lexeme → Except Parser.Failure (Parser.Success α)

namespace Parser

variable {α β : Type}

/-! ## One token -/

def just (token : Token) : Parser Unit
  | [] => .error ⟨[], [.token token]⟩
  | x :: xs => if x.token = token then .ok ⟨(), none, xs⟩ else .error ⟨x :: xs, [.token token]⟩

/-- A token that carries a value; there is no one token to expect. -/
def select (value? : Token → Option α) : Parser α
  | [] => .error ⟨[], []⟩
  | x :: xs =>
    match value? x.token with
    | some a => .ok ⟨a, none, xs⟩
    | none => .error ⟨x :: xs, []⟩

def atEnd : Parser Unit
  | [] => .ok ⟨(), none, []⟩
  | x :: xs => .error ⟨x :: xs, [.endOfInput]⟩

/-! ## Values -/

def map (f : α → β) (p : Parser α) : Parser β := fun ts =>
  (p ts).map fun s => { s with value := f s.value }

/-- From the start of the first token to the end of the last. -/
def spanOf (taken : List Lexeme) : Span where
  start := taken.head?.elim 0 (·.span.start)
  stop := taken.getLast?.elim 0 (·.span.stop)

/-- The value together with the span of the tokens taken for it. -/
def mapWithSpan (f : α → Span → β) (p : Parser α) : Parser β := fun ts =>
  (p ts).map fun s =>
    { s with value := f s.value (spanOf (ts.take (ts.length - s.rest.length))) }

/-! ## Sequence, choice and repetition -/

def andThen (p : Parser α) (q : Parser β) : Parser (α × β) := fun ts =>
  match p ts with
  | .error e => .error e
  | .ok s =>
    match q s.rest with
    | .error e => .error (s.missed.elim e e.furthest)
    | .ok t => .ok ⟨(s.value, t.value), s.missed.merge Failure.furthest t.missed, t.rest⟩

def ignoreThen (p : Parser α) (q : Parser β) : Parser β :=
  (p.andThen q).map Prod.snd

def thenIgnore (p : Parser α) (q : Parser β) : Parser α :=
  (p.andThen q).map Prod.fst

/-- The first of the two that succeeds. -/
def or (p q : Parser α) : Parser α := fun ts =>
  match p ts with
  | .ok s => .ok s
  | .error e =>
    match q ts with
    | .ok s => .ok s
    | .error f => .error (e.furthest f)

def orNot (p : Parser α) : Parser (Option α) := fun ts =>
  match p ts with
  | .ok s => .ok { s with value := some s.value }
  | .error e => .ok ⟨none, some e, ts⟩

/-- As often as the parser succeeds and takes a token. -/
def repeatedFrom (p : Parser α) (ts : List Lexeme) : Success (List α) :=
  match p ts with
  | .error e => ⟨[], some e, ts⟩
  | .ok s =>
    if s.rest.length < ts.length then
      let more := p.repeatedFrom s.rest
      ⟨s.value :: more.value, s.missed.merge Failure.furthest more.missed, more.rest⟩
    else ⟨[], s.missed, ts⟩
termination_by ts.length

def repeated (p : Parser α) : Parser (List α) := fun ts =>
  .ok (p.repeatedFrom ts)

/-- A parser that occurs in itself, where it has taken a token before it does. -/
def recursive (p : Parser α → Parser α) (ts : List Lexeme) : Except Failure (Success α) :=
  p (fun us => if us.length < ts.length then recursive p us else .error ⟨us, []⟩) ts
termination_by ts.length

/-- What the parser makes of the tokens of a source of `size` bytes. -/
def parse (size : Nat) (p : Parser α) (ts : List Lexeme) : Except ParseError α :=
  match p ts with
  | .ok s => .ok s.value
  | .error e => .error (e.report size)

end Parser

end Token

end TermMarkup
