/-
Blanks inside tags do not matter. The tokens of an accepted source are laid out in it, and a source
may be cut after any of them: what comes before the cut is read as the same tokens whatever comes
after it that does not run on from the last of them. So the blanks between two tokens of a tag may be
replaced by any others, or by none unless two names then touch: the tokens stay the same, and with
them what the source means.
-/
import TermMarkup.Proofs.Concatenation
import TermMarkup.Proofs.Lossless
import TermMarkup.Proofs.Viable
import Mathlib.Logic.Relation

namespace TermMarkup

/-- Characters that come first and take as many bytes are the same. -/
theorem append_inj_of_byteLength {l r l' r' : List Char} (h : l ++ r = l' ++ r')
    (hb : byteLength l = byteLength l') : l = l' ∧ r = r' := by
  have hnil {a b : List Char} (hab : byteLength (a ++ b) = byteLength a) : b = [] := by
    by_contra hne
    have hpos := Token.byteLength_pos hne
    rw [byteLength_append] at hab
    omega
  rcases List.append_eq_append_iff.1 h with ⟨others, rfl, rfl⟩ | ⟨others, rfl, rfl⟩
  · cases hnil hb.symm
    simp
  · cases hnil hb
    simp

namespace Token

/-! ## Cutting a source after a token -/

/-- A source is cut after a token: up to there it is read as the same tokens whatever comes after
the token that does not run on from it, and the other tokens are laid out in the rest. -/
theorem Laid.cut {mode : Mode} {offset : Nat} {cs : List Char} {front back : List Lexeme}
    {x : Lexeme} (h : Laid mode offset cs (front ++ x :: back)) :
    ∃ l r, cs = l ++ r ∧ l ≠ [] ∧ x.span.stop = offset + byteLength l ∧
      Laid x.token.nextMode x.span.stop r back ∧
      LexesAs mode x.token.nextMode l (Stops x.token)
        fun ys => ys.map Lexeme.token = (front ++ [x]).map Lexeme.token := by
  generalize hxs : front ++ x :: back = xs at h
  induction h generalizing front with
  | done => exact absurd hxs (by simp)
  | @blank offset c cs xs hc _ ih =>
    obtain ⟨l, r, rfl, hne, hstop, hrest, hl⟩ := ih hxs
    refine ⟨c :: l, r, rfl, List.cons_ne_nil c l, ?_, hrest, ?_⟩
    · rw [hstop, byteLength_cons, utf8Size_of_isTagBlank hc, Nat.add_assoc]
    · refine (lexes_blank hc).append hl (fun _ _ => trivial) ?_
      rintro _ ys rfl hy
      exact hy
  | @token token part offset stop cs xs hs hf he h ih =>
    cases front with
    | nil =>
      obtain ⟨rfl, rfl⟩ := List.cons.inj hxs
      refine ⟨part, cs, rfl, hs.ne_nil, he, h, (lexes_spelled hs).imp ?_⟩
      rintro _ ⟨span, rfl⟩
      rfl
    | cons y front =>
      obtain ⟨rfl, hrest⟩ := List.cons.inj hxs
      obtain ⟨l, r, rfl, hne, hstop, hrest, hl⟩ := ih hrest
      refine ⟨part ++ l, r, by simp, by simp [hne], ?_, hrest, ?_⟩
      · rw [hstop, he, byteLength_append, Nat.add_assoc]
      · refine (lexes_spelled hs).append hl (fun rest _ => hf.of_append hne rest) ?_
        rintro _ ys ⟨span, rfl⟩ hy
        simp [hy]

/-- Inside a tag a blank comes first, or the first of the tokens. -/
theorem Laid.tag_cases {offset : Nat} {cs : List Char} {xs : List Lexeme}
    (h : Laid .tag offset cs xs) :
    (∃ c rest, cs = c :: rest ∧ isTagBlank c = true ∧ Laid .tag (offset + 1) rest xs) ∨
      ∃ x others part rest, xs = x :: others ∧ x.span.start = offset ∧ cs = part ++ rest ∧
        Spells x.token part ∧ x.token.mode = .tag := by
  generalize hm : Mode.tag = mode at h
  cases h with
  | done => cases hm
  | blank hc h => exact Or.inl ⟨_, _, rfl, hc, h⟩
  | token part hs => exact Or.inr ⟨_, _, part, _, rfl, rfl, rfl, hs, rfl⟩

/-- What stands before a token of a tag may be left out; the token comes first then. -/
theorem Laid.drop_gap {offset : Nat} {gap r : List Char} {y : Lexeme} {back : List Lexeme}
    (h : Laid .tag offset (gap ++ r) (y :: back)) (hy : y.span.start = offset + byteLength gap) :
    Laid .tag y.span.start r (y :: back) ∧
      ∃ part rest, r = part ++ rest ∧ Spells y.token part ∧ y.token.mode = .tag := by
  induction gap generalizing offset with
  | nil =>
    have hstart : y.span.start = offset := hy
    rw [List.nil_append] at h
    refine ⟨hstart ▸ h, ?_⟩
    rcases h.tag_cases with ⟨c, rest, -, -, hrest⟩ | ⟨x, others, part, rest, hxs, -, hr, hs⟩
    · -- a token stands after every blank before it
      have hle := hrest.le_start List.mem_cons_self
      omega
    · obtain ⟨rfl, -⟩ := List.cons.inj hxs
      exact ⟨part, rest, hr, hs⟩
  | cons c gap ih =>
    rcases h.tag_cases with ⟨d, rest, hcs, hd, hrest⟩ | ⟨x, others, part, rest, hxs, hx, -⟩
    · obtain ⟨rfl, rfl⟩ := List.cons.inj hcs
      refine ih hrest ?_
      rw [hy, byteLength_cons, utf8Size_of_isTagBlank hd, Nat.add_assoc]
    · obtain ⟨rfl, -⟩ := List.cons.inj hxs
      have hpos := byteLength_pos (List.cons_ne_nil c gap)
      omega

/-! ## Other blanks -/

theorem lexes_blanks {gap : List Char} (h : ∀ c ∈ gap, isTagBlank c = true) :
    LexesAs .tag .tag gap anything (· = []) := by
  induction gap with
  | nil => exact lexes_nil .tag
  | cons c gap ih =>
    obtain ⟨hc, hgap⟩ := List.forall_mem_cons.1 h
    refine (lexes_blank hc).append (ih hgap) (fun _ _ => trivial) ?_
    rintro _ _ rfl rfl
    rfl

theorem stops_blank {token : Token} (hm : token.nextMode = .tag) {c : Char}
    (hc : isTagBlank c = true) (rest : List Char) : Stops token (c :: rest) := by
  simp only [isTagBlank, Bool.or_eq_true, beq_iff_eq] at hc
  cases token with
  | text | tagEnd | selfClose => cases hm
  | closeOpen | equals | quoted => trivial
  | tagOpen | name =>
    refine Tag.before_cons ?_ rest
    rcases hc with ((rfl | rfl) | rfl) | rfl <;> decide

/-- Two tokens of a tag may touch, but not two names; and only a name comes after `<`. -/
theorem stops_spelled {token next : Token} {part : List Char} (hs : Spells next part)
    (hm : next.mode = .tag) (htouch : ¬ ∃ a b, token = .name a ∧ next = .name b)
    (hopen : token = .tagOpen → ∃ word, next = .name word) (hmode : token.nextMode = .tag)
    (rest : List Char) : Stops token (part ++ rest) := by
  cases token with
  | text | tagEnd | selfClose => cases hmode
  | closeOpen | equals | quoted => trivial
  | tagOpen =>
    obtain ⟨word, rfl⟩ := hopen rfl
    cases hs with
    | name hn =>
      have hname : IsName (String.ofList part).toList := by rwa [String.toList_ofList]
      have hslash := Tag.before_name hname rest
      rwa [String.toList_ofList] at hslash
  | name word =>
    cases hs with
    | text | tagOpen | closeOpen => cases hm
    | name => exact absurd ⟨_, _, rfl, rfl⟩ htouch
    | equals | tagEnd | selfClose => exact Tag.before_cons (by decide) _
    | @quoted quote _ hq =>
      refine Tag.before_cons ?_ _
      simp only [isQuote, Bool.or_eq_true, beq_iff_eq] at hq
      rcases hq with rfl | rfl <;> decide

/-- The tokens `x` and `y` follow each other inside a tag of the source `l ++ gap ++ r`, with `gap`
between them; the blanks `gap'` may stand in its place, and do not let two names touch. -/
structure Respacing (l gap gap' r : String) (front : List Lexeme) (x y : Lexeme)
    (back : List Lexeme) : Prop where
  lexes : lex (l ++ gap ++ r) = .ok (front ++ x :: y :: back)
  inTag : x.token.nextMode = .tag
  stop : x.span.stop = l.utf8ByteSize
  start : y.span.start = (l ++ gap).utf8ByteSize
  blank : ∀ c ∈ gap'.toList, isTagBlank c = true
  apart : gap' = "" → ¬ ∃ a b, x.token = .name a ∧ y.token = .name b

/-- The other source is the same but for the blanks between two tokens of a tag. -/
inductive Respaced : String → String → Prop
  | intro {l gap gap' r : String} {front back : List Lexeme} {x y : Lexeme}
    (h : Respacing l gap gap' r front x y back) : Respaced (l ++ gap ++ r) (l ++ gap' ++ r)

namespace Respacing

variable {l gap gap' r : String} {front back : List Lexeme} {x y : Lexeme}

/-- The source is cut after the first token, and what stands before the second is dropped. -/
theorem split (h : Respacing l gap gap' r front x y back) :
    LexesAs .content .tag l.toList (Stops x.token)
      (fun ys => ys.map Lexeme.token = (front ++ [x]).map Lexeme.token) ∧
    Laid .tag y.span.start r.toList (y :: back) ∧
    ∃ part rest, r.toList = part ++ rest ∧ Spells y.token part ∧ y.token.mode = .tag := by
  have hlaid := laid_of_lexFrom h.lexes
  rw [String.toList_append, String.toList_append, List.append_assoc] at hlaid
  obtain ⟨first, rest, hcut, -, hend, hrest, hfirst⟩ := hlaid.cut
  have hbytes : byteLength l.toList = byteLength first := by
    rw [← utf8ByteSize_eq, ← h.stop, hend, Nat.zero_add]
  obtain ⟨rfl, rfl⟩ := append_inj_of_byteLength hcut hbytes
  rw [h.inTag] at hrest hfirst
  have hstart : y.span.start = x.span.stop + byteLength gap.toList := by
    rw [h.start, h.stop, utf8ByteSize_eq, utf8ByteSize_eq, String.toList_append, byteLength_append]
  exact ⟨hfirst, hrest.drop_gap hstart⟩

/-- With the other blanks the tokens are the same, if a name comes after `<`. -/
theorem exists_lex (h : Respacing l gap gap' r front x y back)
    (hopen : x.token = .tagOpen → ∃ word, y.token = .name word) :
    ∃ ys, lex (l ++ gap' ++ r) = .ok ys ∧
      ys.map Lexeme.token = (front ++ x :: y :: back).map Lexeme.token := by
  obtain ⟨hfirst, hlast, part, others, hr, hspells, hmode⟩ := h.split
  have hstops (rest : List Char) : Stops x.token (gap'.toList ++ r.toList ++ rest) := by
    cases hg : gap'.toList with
    | nil =>
      have hempty : gap' = "" := String.toList_eq_nil_iff.1 hg
      rw [List.nil_append, hr, List.append_assoc]
      exact stops_spelled hspells hmode (h.apart hempty) hopen h.inTag _
    | cons c gap => exact stops_blank h.inTag (h.blank c (by simp [hg])) _
  have hback : LexesTo .tag (gap'.toList ++ r.toList) (y :: back) := by
    refine (lexes_blanks h.blank).append (lexesTo_of_laid hlast) (fun _ _ => trivial) ?_
    rintro _ ys rfl hy
    exact hy
  have hall : LexesAs .content .content (l ++ gap' ++ r).toList (Follows (y :: back))
      fun ys => ys.map Lexeme.token = (front ++ x :: y :: back).map Lexeme.token := by
    rw [String.toList_append, String.toList_append, List.append_assoc]
    refine hfirst.append hback (fun rest _ => hstops rest) ?_
    intro us vs hu hv
    rw [List.map_append, hu, hv]
    simp
  exact hall.exists_lex fun _ c hc => by cases hc

end Respacing

end Token

namespace Item

open Reader

/-- In a document a name comes after `<`. -/
theorem Document.name_after_tagOpen {front back : List Lexeme} {x y : Lexeme} {items : List Item}
    (h : Document (front ++ x :: y :: back) items) (hx : x.token = .tagOpen) :
    ∃ word, y.token = .name word := by
  have hrun : start.run 0 (front ++ x :: y :: back) = .ok items := read_eq_ok_iff.2 h
  obtain ⟨last, hsteps, -⟩ := steps_of_run hrun
  rw [steps_append] at hsteps
  obtain ⟨r, -, hsteps⟩ := Option.bind_eq_some_iff.1 hsteps
  rw [steps_cons] at hsteps
  obtain ⟨opened, hopened, hsteps⟩ := Option.bind_eq_some_iff.1 hsteps
  rw [steps_cons] at hsteps
  obtain ⟨named, hnamed, -⟩ := Option.bind_eq_some_iff.1 hsteps
  obtain ⟨token, span⟩ := x
  obtain ⟨next, place⟩ := y
  cases hx
  obtain ⟨frames, read, phase⟩ := r
  cases phase with
  | items =>
    cases Option.some.inj hopened
    cases next with
    | name word => exact ⟨word, rfl⟩
    | tagOpen | closeOpen | text | equals | quoted | tagEnd | selfClose => cases hnamed
  | openName | inTag | afterName | value | closeName | closeEnd => cases hopened

end Item

/-- With other blanks inside a tag an accepted source means the same. -/
theorem Token.Respaced.parse_eq {s t : String} {raw : Raw} (h : Respaced s t)
    (hs : parse s = .ok raw) : parse t = .ok raw := by
  obtain ⟨raws, hraws, rfl⟩ := map_eq_ok hs
  obtain ⟨xs, hx, hm⟩ := parseNodes_eq_ok_iff.1 hraws
  obtain ⟨items, hd, -⟩ := meaning_eq_ok_iff.1 hm
  cases h with
  | intro h =>
    cases Except.ok.inj (h.lexes.symm.trans hx)
    obtain ⟨ys, hy, htokens⟩ := h.exists_lex hd.name_after_tagOpen
    unfold parse
    rw [parseNodes_eq_ok_iff.2 ⟨ys, hy, (meaning_congr htokens).2 hm⟩]
    rfl

/-- Blanks inside the tags of an accepted source may be put in, changed and taken out wherever two
tokens of a tag follow each other, unless two names come to touch: it parses to the same tree. -/
theorem parse_respaced {s t : String} {raw : Raw} (hs : parse s = .ok raw)
    (h : Relation.ReflTransGen Token.Respaced s t) : parse t = .ok raw := by
  induction h with
  | refl => exact hs
  | tail _ hstep ih => exact hstep.parse_eq ih

/-- A blank between two names is replaced, and one before the end of the tag is taken out. -/
theorem parse_respaced_paragraph :
    let raw : Raw := .array [.ofFields [("node", .string "p"), ("bold", .bool true),
      ("content", .ofFields [("node", .string "text"), ("value", .string "x")])]]
    parse "<p bold >x</p>" = .ok raw ∧
    Relation.ReflTransGen Token.Respaced "<p bold >x</p>" "<p\n\tbold>x</p>" ∧
    parse "<p\n\tbold>x</p>" = .ok raw := by
  intro raw
  have hlex : Token.lex "<p bold >x</p>" = .ok ([⟨.tagOpen, 0, 1⟩] ++ ⟨.name "p", 1, 2⟩ ::
      ⟨.name "bold", 3, 7⟩ :: [⟨.tagEnd, 8, 9⟩, ⟨.text "x", 9, 10⟩, ⟨.closeOpen, 10, 12⟩,
      ⟨.name "p", 12, 13⟩, ⟨.tagEnd, 13, 14⟩]) := by decide +kernel
  have hlex' : Token.lex "<p\n\tbold >x</p>" = .ok ([⟨.tagOpen, 0, 1⟩, ⟨.name "p", 1, 2⟩] ++
      ⟨.name "bold", 4, 8⟩ :: ⟨.tagEnd, 9, 10⟩ :: [⟨.text "x", 10, 11⟩, ⟨.closeOpen, 11, 13⟩,
      ⟨.name "p", 13, 14⟩, ⟨.tagEnd, 14, 15⟩]) := by decide +kernel
  have hparse : parse "<p bold >x</p>" = .ok raw := by
    unfold parse parseNodes
    rw [hlex]
    rfl
  have hfirst : Token.Respaced "<p bold >x</p>" "<p\n\tbold >x</p>" :=
    @Token.Respaced.intro "<p" " " "\n\t" "bold >x</p>" _ _ _ _
      ⟨hlex, rfl, rfl, rfl, by simp [Token.isTagBlank], fun h => absurd h (by decide)⟩
  have hend : ¬ ∃ a b, Token.name "bold" = .name a ∧ Token.tagEnd = .name b := by
    rintro ⟨a, b, -, hname⟩
    cases hname
  have hsecond : Token.Respaced "<p\n\tbold >x</p>" "<p\n\tbold>x</p>" :=
    @Token.Respaced.intro "<p\n\tbold" " " "" ">x</p>" _ _ _ _
      ⟨hlex', rfl, rfl, rfl, by simp, fun _ => hend⟩
  have hboth := (Relation.ReflTransGen.single hfirst).tail hsecond
  exact ⟨hparse, hboth, parse_respaced hparse hboth⟩

end TermMarkup
