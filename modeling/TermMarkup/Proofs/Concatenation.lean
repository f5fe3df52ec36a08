/-
Sources one after the other. The lexer reads an accepted source as the same tokens wherever it
stands, and goes on with what comes after it, unless that would run on from a text at its end. So
two sources together have the tokens of both, mean the nodes of both and compile to the output of
both.
-/
import TermMarkup.Proofs.Lexing
import TermMarkup.Proofs.Locality
import TermMarkup.Proofs.Rendering
import TermMarkup.Proofs.Tokens

namespace TermMarkup

open Node

namespace Token

/-- The last of the tokens is a text. -/
def EndsInText (xs : List Lexeme) : Prop :=
  ∃ value span, xs.getLast? = some ⟨.text value, span⟩

/-- The first of the tokens is a text. -/
def BeginsWithText (xs : List Lexeme) : Prop :=
  ∃ value span, xs.head? = some ⟨.text value, span⟩

theorem EndsInText.cons {xs : List Lexeme} (h : EndsInText xs) (x : Lexeme) :
    EndsInText (x :: xs) := by
  obtain ⟨value, span, h⟩ := h
  refine ⟨value, span, ?_⟩
  rw [List.getLast?_cons, h]
  rfl

/-! ## Accepted sources -/

/-- What may come after characters that the lexer reads as the tokens. -/
def Follows (xs : List Lexeme) (rest : List Char) : Prop :=
  EndsInText xs → before (· == '<') rest

/-- The lexer reads the characters as the same tokens wherever they stand, and is between tags
after them. -/
def LexesTo (mode : Mode) (cs : List Char) (xs : List Lexeme) : Prop :=
  LexesAs mode .content cs (Follows xs) fun ys => ys.map Lexeme.token = xs.map Lexeme.token

/-- One more token in front of characters that are read. -/
theorem LexesTo.token {mode mode' : Mode} {part cs : List Char} {after : List Char → Prop}
    {token : Token} {span : Span} {xs : List Lexeme}
    (hx : LexesAs mode mode' part after (IsToken token)) (hr : LexesTo mode' cs xs)
    (ha : ∀ rest, Follows (⟨token, span⟩ :: xs) rest → after (cs ++ rest)) :
    LexesTo mode (part ++ cs) (⟨token, span⟩ :: xs) := by
  refine hx.append (hr.restrict fun rest hf he => hf (he.cons _)) ha ?_
  rintro _ ys ⟨span, rfl⟩ hy
  simp [hy]

theorem Laid.of_nil {mode : Mode} {offset : Nat} {xs : List Lexeme} (h : Laid mode offset [] xs) :
    mode = .content ∧ xs = [] := by
  generalize hcs : ([] : List Char) = cs at h
  cases h with
  | done => exact ⟨rfl, rfl⟩
  | blank => cases hcs
  | token part hs =>
    cases (List.append_eq_nil_iff.1 hcs.symm).1
    exact absurd rfl hs.ne_nil

/-- What may come after laid out tokens may come after each of them. -/
theorem Stops.follows {token : Token} {span : Span} {stop : Nat} {cs : List Char}
    {xs : List Lexeme} (h : Stops token cs) (hl : Laid token.nextMode stop cs xs)
    {rest : List Char} (hf : Follows (⟨token, span⟩ :: xs) rest) : Stops token (cs ++ rest) := by
  by_cases hne : cs = []
  · subst hne
    obtain ⟨hm, rfl⟩ := hl.of_nil
    cases token with
    | text value => exact hf ⟨value, span, rfl⟩
    | tagEnd | selfClose => trivial
    | tagOpen | closeOpen | name | equals | quoted => cases hm
  · exact h.append hne rest

/-- What the lexer accepts, it reads as the same tokens wherever it stands. -/
theorem lexesTo_of_laid {mode : Mode} {offset : Nat} {cs : List Char} {xs : List Lexeme}
    (h : Laid mode offset cs xs) : LexesTo mode cs xs := by
  induction h with
  | done => exact ((lexes_nil .content).imp fun xs hx => by rw [hx]).restrict fun _ _ => trivial
  | blank hc _ ih =>
    refine (lexes_blank hc).append ih (fun _ _ => trivial) ?_
    rintro _ ys rfl hy
    exact hy
  | token part hs hf _ h ih => exact .token (lexes_spelled hs) ih fun _ hr => hf.follows h hr

theorem before_of_lex {source : String} {xs : List Lexeme} (h : lex source = .ok xs)
    (hb : ¬ BeginsWithText xs) : before (· == '<') source.toList := by
  unfold lex at h
  intro c hc
  obtain ⟨rest, hcs⟩ := List.head?_eq_some_iff.1 hc
  rw [hcs] at h
  rw [beq_iff_eq]
  by_contra hne
  rw [lexFrom] at h
  · obtain ⟨ys, -, rfl⟩ := map_eq_ok h
    exact hb ⟨_, _, rfl⟩
  · exact fun _ he => absurd he hne
  · exact hne

/-- Two sources together have the tokens of both, unless a text meets a text. -/
theorem lex_append {s t : String} {xs ys : List Lexeme} (hs : lex s = .ok xs) (ht : lex t = .ok ys)
    (h : ¬ (EndsInText xs ∧ BeginsWithText ys)) :
    ∃ us vs, lex (s ++ t) = .ok (us ++ vs) ∧ us.map Lexeme.token = xs.map Lexeme.token ∧
      vs.map Lexeme.token = ys.map Lexeme.token := by
  have hf : Follows xs t.toList := fun he => before_of_lex ht fun hb => h ⟨he, hb⟩
  have hsecond : LexesAs .content .content t.toList (· = [])
      fun vs => vs.map Lexeme.token = ys.map Lexeme.token := by
    refine (lexesTo_of_laid (laid_of_lexFrom ht)).restrict ?_
    rintro _ rfl _ c hc
    cases hc
  -- the second source is read from where the first ends, so its tokens have other places
  have hboth : LexesAs .content .content (s ++ t).toList (· = []) fun zs => ∃ us vs,
      zs = us ++ vs ∧ us.map Lexeme.token = xs.map Lexeme.token ∧
      vs.map Lexeme.token = ys.map Lexeme.token := by
    rw [String.toList_append]
    refine (lexesTo_of_laid (laid_of_lexFrom hs)).append hsecond ?_
      fun us vs hu hv => ⟨us, vs, rfl, hu, hv⟩
    rintro _ rfl
    rwa [List.append_nil]
  obtain ⟨_, hl, us, vs, rfl, hu, hv⟩ := hboth.exists_lex rfl
  exact ⟨us, vs, hl, hu, hv⟩

end Token

theorem parseNodes_append {s t : String} {rs ss : List Raw} (hs : parseNodes s = .ok rs)
    (ht : parseNodes t = .ok ss)
    (h : ¬ ((∃ us, Token.lex s = .ok us ∧ Token.EndsInText us) ∧
      ∃ vs, Token.lex t = .ok vs ∧ Token.BeginsWithText vs)) :
    parseNodes (s ++ t) = .ok (rs ++ ss) := by
  obtain ⟨xs, hx, hmx⟩ := parseNodes_eq_ok_iff.1 hs
  obtain ⟨ys, hy, hmy⟩ := parseNodes_eq_ok_iff.1 ht
  obtain ⟨us, vs, hl, hu, hv⟩ :=
    Token.lex_append hx hy fun ⟨he, hb⟩ => h ⟨⟨xs, hx, he⟩, ys, hy, hb⟩
  exact parseNodes_eq_ok_iff.2
    ⟨_, hl, meaning_append ((meaning_congr hu).2 hmx) ((meaning_congr hv).2 hmy)⟩

/-- Accepted sources put together, unless a text at the end of the first meets a text at the
beginning of the second, are accepted: they parse to the trees of both, read as the nodes of both,
and compile to the output of both under every theme and in both formats. -/
theorem compile_append {s t : String} {xs ys : List Node} (hs : readNodes s = .ok xs)
    (ht : readNodes t = .ok ys)
    (h : ¬ ((∃ us, Token.lex s = .ok us ∧ Token.EndsInText us) ∧
      ∃ vs, Token.lex t = .ok vs ∧ Token.BeginsWithText vs)) :
    (∃ rs ss, parse s = .ok (.array rs) ∧ parse t = .ok (.array ss) ∧
      parse (s ++ t) = .ok (.array (rs ++ ss))) ∧
    readNodes (s ++ t) = .ok (xs ++ ys) ∧
    ∀ theme format, ∃ a b, compile theme format s = .ok a ∧ compile theme format t = .ok b ∧
      compile theme format (s ++ t) = .ok (a ++ b) := by
  obtain ⟨raw, hps, hos⟩ := readNodes_eq_ok_iff.1 hs
  obtain ⟨raw', hpt, hot⟩ := readNodes_eq_ok_iff.1 ht
  obtain ⟨rs, hrs, rfl⟩ := map_eq_ok hps
  obtain ⟨ss, hss, rfl⟩ := map_eq_ok hpt
  have hparse : parse (s ++ t) = .ok (.array (rs ++ ss)) := by
    unfold parse
    rw [parseNodes_append hrs hss h]
    rfl
  have hread : readNodes (s ++ t) = .ok (xs ++ ys) :=
    readNodes_eq_ok_iff.2 ⟨_, hparse, ofRaw_append hos hot⟩
  refine ⟨⟨rs, ss, hps, hpt, hparse⟩, hread, fun theme format => ?_⟩
  refine ⟨_, _, compile_eq_ok hs theme format, compile_eq_ok ht theme format, ?_⟩
  rw [compile_eq_ok hread, Render.marks_append, Render.output_append]

/-- A source that ends in a text, before one that begins with a tag. -/
theorem compile_append_text_tag :
    readNodes "<bold>x</bold>y" = .ok [.element .bold (.single (.text "x")), .text "y"] ∧
    readNodes "<br/>z" = .ok [.lineBreak, .text "z"] ∧
    (¬ ∃ vs, Token.lex "<br/>z" = .ok vs ∧ Token.BeginsWithText vs) ∧
    readNodes ("<bold>x</bold>y" ++ "<br/>z") =
      .ok [.element .bold (.single (.text "x")), .text "y", .lineBreak, .text "z"] ∧
    ∀ theme format, ∃ a b, compile theme format "<bold>x</bold>y" = .ok a ∧
      compile theme format "<br/>z" = .ok b ∧
      compile theme format ("<bold>x</bold>y" ++ "<br/>z") = .ok (a ++ b) := by
  have hlexs : Token.lex "<bold>x</bold>y" = .ok [⟨.tagOpen, 0, 1⟩, ⟨.name "bold", 1, 5⟩,
      ⟨.tagEnd, 5, 6⟩, ⟨.text "x", 6, 7⟩, ⟨.closeOpen, 7, 9⟩, ⟨.name "bold", 9, 13⟩,
      ⟨.tagEnd, 13, 14⟩, ⟨.text "y", 14, 15⟩] := by decide +kernel
  have hlex : Token.lex "<br/>z" = .ok [⟨.tagOpen, 0, 1⟩, ⟨.name "br", 1, 3⟩, ⟨.selfClose, 3, 5⟩,
      ⟨.text "z", 5, 6⟩] := by decide +kernel
  have hs : readNodes "<bold>x</bold>y" = .ok [.element .bold (.single (.text "x")), .text "y"] := by
    unfold readNodes parse parseNodes
    rw [hlexs]
    rfl
  have ht : readNodes "<br/>z" = .ok [.lineBreak, .text "z"] := by
    unfold readNodes parse parseNodes
    rw [hlex]
    rfl
  have hb : ¬ ∃ vs, Token.lex "<br/>z" = .ok vs ∧ Token.BeginsWithText vs := by
    rintro ⟨vs, hv, value, span, hfirst⟩
    rw [hlex] at hv
    cases hv
    cases hfirst
  obtain ⟨-, hread, hcompile⟩ := compile_append hs ht fun h => hb h.2
  exact ⟨hs, ht, hb, hread, hcompile⟩

end TermMarkup
