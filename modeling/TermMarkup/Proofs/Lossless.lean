/-
What the lexer leaves out of a source, which is nothing but blanks inside tags. The tokens of an
accepted source are laid out in it one after the other, each spelled as the characters of its span
say. So the spans are in order and apart from each other, every byte outside them is a blank between
the token that opens a tag and the one that ends it, and the tokens are texts, no two of them side by
side, and whole tags.
-/
import TermMarkup.Proofs.Lexing
import Mathlib.Data.List.Chain
import Mathlib.Data.String.Basic

namespace TermMarkup

namespace Span

/-- The part of a source that a span marks. -/
def slice (span : Span) (source : String) : String :=
  String.Pos.Raw.extract source ⟨span.start⟩ ⟨span.stop⟩

/-- The byte at the offset belongs to the span. -/
def Covers (span : Span) (offset : Nat) : Prop :=
  span.start ≤ offset ∧ offset < span.stop

end Span

theorem byteLength_eq (cs : List Char) : byteLength cs = String.utf8Len cs := by
  induction cs with
  | nil => rfl
  | cons c cs ih =>
    rw [String.utf8Len_cons, ← ih, Nat.add_comm]
    rfl

namespace Token

theorem utf8Size_of_isTagBlank {c : Char} (h : isTagBlank c = true) : c.utf8Size = 1 := by
  simp only [isTagBlank, Bool.or_eq_true, beq_iff_eq] at h
  rcases h with ((rfl | rfl) | rfl) | rfl <;> rfl

/-! ## Tokens in their places -/

theorem byteLength_pos {cs : List Char} (h : cs ≠ []) : 0 < byteLength cs := by
  obtain ⟨c, cs, rfl⟩ := List.exists_cons_of_ne_nil h
  have := c.utf8Size_pos
  rw [byteLength_cons]
  omega

namespace Laid

variable {mode : Mode} {offset : Nat} {cs : List Char} {xs : List Lexeme}

/-- Each token is spelled by the characters that its span marks. -/
theorem placed (h : Laid mode offset cs xs) {x : Lexeme} (hx : x ∈ xs) :
    ∃ before part after, cs = before ++ part ++ after ∧ Spells x.token part ∧
      x.span = ⟨offset + byteLength before, offset + byteLength before + byteLength part⟩ := by
  induction h with
  | done => cases hx
  | @blank offset c cs xs hc _ ih =>
    obtain ⟨before, part, after, rfl, hs, he⟩ := ih hx
    refine ⟨c :: before, part, after, rfl, hs, ?_⟩
    rw [he, byteLength_cons, utf8Size_of_isTagBlank hc]
    simp only [Nat.add_assoc]
  | @token token part offset stop cs xs hs hf hstop _ ih =>
    rcases List.mem_cons.1 hx with rfl | hx
    · exact ⟨[], part, cs, rfl, hs, by rw [hstop]; rfl⟩
    · obtain ⟨before, found, after, rfl, hs, he⟩ := ih hx
      refine ⟨part ++ before, found, after, by simp, hs, ?_⟩
      rw [he, hstop, byteLength_append]
      simp only [Nat.add_assoc]

theorem le_start (h : Laid mode offset cs xs) {x : Lexeme} (hx : x ∈ xs) :
    offset ≤ x.span.start := by
  obtain ⟨before, part, after, -, -, he⟩ := h.placed hx
  rw [he]
  exact Nat.le_add_right _ _

theorem pairwise (h : Laid mode offset cs xs) :
    xs.Pairwise fun x y => x.span.stop ≤ y.span.start := by
  induction h with
  | done => exact .nil
  | blank _ _ ih => exact ih
  | token _ _ _ _ h ih => exact .cons (fun y hy => h.le_start hy) ih

end Laid

/-! ## Bytes between the tokens -/

/-- A byte of the characters, which start at `offset`, that belongs to none of the tokens. -/
structure Gap (offset : Nat) (cs : List Char) (xs : List Lexeme) (i : Nat) : Prop where
  le : offset ≤ i
  lt : i < offset + byteLength cs
  uncovered : ∀ x ∈ xs, ¬ x.span.Covers i

theorem Gap.not_nil {offset i : Nat} {xs : List Lexeme} : ¬ Gap offset [] xs i := by
  intro h
  have hle := h.le
  have hlt := h.lt
  rw [byteLength_nil] at hlt
  omega

theorem Gap.after_token {offset stop i : Nat} {part cs : List Char} {token : Token}
    {xs : List Lexeme} (h : Gap offset (part ++ cs) (⟨token, offset, stop⟩ :: xs) i)
    (he : stop = offset + byteLength part) : Gap stop cs xs i := by
  obtain ⟨hx, hxs⟩ := List.forall_mem_cons.1 h.uncovered
  have hle := h.le
  have hlt := h.lt
  rw [byteLength_append] at hlt
  simp only [Span.Covers] at hx
  exact ⟨by omega, by omega, hxs⟩

theorem Gap.after_blank {offset i : Nat} {c : Char} {cs : List Char} {xs : List Lexeme}
    (h : Gap offset (c :: cs) xs i) (hc : isTagBlank c = true) :
    i = offset ∨ Gap (offset + 1) cs xs i := by
  have hle := h.le
  have hlt := h.lt
  rw [byteLength_cons, utf8Size_of_isTagBlank hc] at hlt
  by_cases hi : i = offset
  · exact Or.inl hi
  · exact Or.inr ⟨by omega, by omega, h.uncovered⟩

/-- A byte that belongs to no token is a blank. -/
theorem Laid.blank_of_gap {mode : Mode} {offset i : Nat} {cs : List Char} {xs : List Lexeme}
    (h : Laid mode offset cs xs) (hi : Gap offset cs xs i) :
    ∃ before c after, cs = before ++ c :: after ∧ i = offset + byteLength before ∧
      isTagBlank c = true := by
  induction h with
  | done offset => exact absurd hi Gap.not_nil
  | @blank offset c cs xs hc _ ih =>
    rcases hi.after_blank hc with rfl | hi
    · exact ⟨[], c, cs, rfl, rfl, hc⟩
    · obtain ⟨before, d, after, rfl, rfl, hd⟩ := ih hi
      refine ⟨c :: before, d, after, rfl, ?_, hd⟩
      rw [byteLength_cons, utf8Size_of_isTagBlank hc, Nat.add_assoc]
  | token part _ _ he _ ih =>
    obtain ⟨before, d, after, rfl, rfl, hd⟩ := ih (hi.after_token he)
    refine ⟨part ++ before, d, after, by simp, ?_, hd⟩
    rw [he, byteLength_append, Nat.add_assoc]

/-! ## Texts and tags -/

def isText : Token → Bool
  | text _ => true
  | _ => false

def opensTag : Token → Bool
  | tagOpen | closeOpen => true
  | _ => false

/-- Whether a token stands inside a tag. -/
def isInner : Token → Bool
  | name _ | equals | quoted _ => true
  | _ => false

def endsTag : Token → Bool
  | tagEnd | selfClose => true
  | _ => false

/-- A text, or the tokens of a tag from the one that opens it to the one that ends it. -/
inductive Piece where
  | text (x : Lexeme)
  | tag (first : Lexeme) (inside : List Lexeme) (last : Lexeme)

namespace Piece

def lexemes : Piece → List Lexeme
  | text x => [x]
  | tag first inside last => first :: (inside ++ [last])

/-- The tokens are those of a text or of one tag. -/
def Proper : Piece → Prop
  | text x => x.token.isText = true
  | tag first inside last =>
    first.token.opensTag = true ∧ (∀ x ∈ inside, x.token.isInner = true) ∧
      last.token.endsTag = true

def IsText (p : Piece) : Prop :=
  ∃ x, p = text x

end Piece

/-- The tokens are texts, no two of them side by side, and tags. -/
structure Grouped (pieces : List Piece) (xs : List Lexeme) : Prop where
  lexemes : pieces.flatMap Piece.lexemes = xs
  proper : ∀ p ∈ pieces, p.Proper
  apart : pieces.IsChain fun p q => ¬ (p.IsText ∧ q.IsText)

/-- The byte lies inside one of the tags. -/
def InTag (pieces : List Piece) (i : Nat) : Prop :=
  ∃ first inside last, .tag first inside last ∈ pieces ∧ first.span.stop ≤ i ∧ i < last.span.start

theorem InTag.cons {pieces : List Piece} {i : Nat} (h : InTag pieces i) (p : Piece) :
    InTag (p :: pieces) i := by
  obtain ⟨first, inside, last, hm, hi⟩ := h
  exact ⟨first, inside, last, List.mem_cons_of_mem _ hm, hi⟩

namespace Grouped

variable {pieces : List Piece} {xs : List Lexeme}

theorem nil : Grouped [] [] :=
  ⟨rfl, fun _ hp => (by cases hp), .nil⟩

/-- A text in front of tokens that do not begin with one. -/
theorem text (h : Grouped pieces xs) {x : Lexeme} (hx : x.token.isText = true)
    (hhead : ∀ y ∈ xs.head?, y.token.isText = false) : Grouped (.text x :: pieces) (x :: xs) := by
  refine ⟨?_, List.forall_mem_cons.2 ⟨hx, h.proper⟩, List.isChain_cons.2 ⟨?_, h.apart⟩⟩
  · rw [List.flatMap_cons, h.lexemes]
    rfl
  · rintro p hp ⟨-, y, rfl⟩
    obtain ⟨others, rfl⟩ := List.head?_eq_some_iff.1 hp
    have hy : y.token.isText = true := h.proper _ List.mem_cons_self
    have hne : y.token.isText = false := hhead y (by rw [← h.lexemes]; rfl)
    rw [hy] at hne
    cases hne

theorem tag (h : Grouped pieces xs) {first last : Lexeme} {inside : List Lexeme}
    (hf : first.token.opensTag = true) (hi : ∀ x ∈ inside, x.token.isInner = true)
    (hl : last.token.endsTag = true) :
    Grouped (.tag first inside last :: pieces) (first :: (inside ++ last :: xs)) := by
  refine ⟨?_, List.forall_mem_cons.2 ⟨⟨hf, hi, hl⟩, h.proper⟩, List.isChain_cons.2 ⟨?_, h.apart⟩⟩
  · rw [List.flatMap_cons, h.lexemes]
    simp [Piece.lexemes]
  · rintro p hp ⟨⟨x, hx⟩, -⟩
    cases hx

end Grouped

theorem Laid.head_of_before {mode : Mode} {offset : Nat} {cs : List Char} {xs : List Lexeme}
    (h : Laid mode offset cs xs) (hb : before (· == '<') cs) :
    ∀ x ∈ xs.head?, x.token.isText = false := by
  intro x hx
  cases h with
  | done => cases hx
  | @blank _ c cs _ hc _ =>
    have hlt := beq_iff_eq.1 (hb c rfl)
    subst hlt
    exact absurd hc (by decide)
  | token part hs =>
    cases Option.some.inj hx
    cases hs with
    | text hne hlt =>
      obtain ⟨c, part, rfl⟩ := List.exists_cons_of_ne_nil hne
      have hc := beq_iff_eq.1 (hb c rfl)
      exact absurd (hc ▸ List.mem_cons_self) hlt
    | tagOpen | closeOpen | name | equals | quoted | tagEnd | selfClose => rfl

/-- What the tokens are that are read from a mode on: inside a tag, they first come to its end. -/
def GroupedFrom (offset : Nat) (cs : List Char) (xs : List Lexeme) : Mode → Prop
  | .content => ∃ pieces, Grouped pieces xs ∧ ∀ i, Gap offset cs xs i → InTag pieces i
  | .tag => ∃ inside last pieces rest, xs = inside ++ last :: rest ∧
      (∀ x ∈ inside, x.token.isInner = true) ∧ last.token.endsTag = true ∧ Grouped pieces rest ∧
      ∀ i, Gap offset cs xs i → i < last.span.start ∨ InTag pieces i

theorem Laid.grouped {mode : Mode} {offset : Nat} {cs : List Char} {xs : List Lexeme}
    (h : Laid mode offset cs xs) : GroupedFrom offset cs xs mode := by
  induction h with
  | done offset => exact ⟨[], .nil, fun i hi => absurd hi Gap.not_nil⟩
  | @blank offset c cs xs hc h ih =>
    obtain ⟨inside, last, pieces, rest, rfl, hin, hl, hg, hgap⟩ := ih
    refine ⟨inside, last, pieces, rest, rfl, hin, hl, hg, fun i hi => ?_⟩
    rcases hi.after_blank hc with rfl | hi
    · -- the blank stands before the token that ends the tag
      exact Or.inl (h.le_start (by simp))
    · exact hgap i hi
  | @token token part offset stop cs xs hs hf he h ih =>
    cases hs with
    | text hne hlt =>
      obtain ⟨pieces, hg, hgap⟩ := ih
      exact ⟨_, hg.text rfl (h.head_of_before hf), fun i hi => (hgap i (hi.after_token he)).cons _⟩
    | tagOpen | closeOpen =>
      -- what follows comes to the end of the tag, so the tag is whole here
      obtain ⟨inside, last, pieces, rest, rfl, hin, hl, hg, hgap⟩ := ih
      refine ⟨_, hg.tag rfl hin hl, fun i hi => ?_⟩
      have hi := hi.after_token he
      rcases hgap i hi with hlt | htag
      · exact ⟨_, _, _, List.mem_cons_self, hi.le, hlt⟩
      · exact htag.cons _
    | name | equals | quoted =>
      obtain ⟨inside, last, pieces, rest, rfl, hin, hl, hg, hgap⟩ := ih
      exact ⟨_ :: inside, last, pieces, rest, rfl, List.forall_mem_cons.2 ⟨rfl, hin⟩, hl, hg,
        fun i hi => hgap i (hi.after_token he)⟩
    | tagEnd | selfClose =>
      obtain ⟨pieces, hg, hgap⟩ := ih
      exact ⟨[], _, pieces, xs, rfl, fun x hx => (by cases hx), rfl, hg,
        fun i hi => Or.inr (hgap i (hi.after_token he))⟩

end Token

/-! ## Offsets in a source -/

section

variable {source : String} {l m r : List Char}

theorem utf8ByteSize_eq (source : String) : source.utf8ByteSize = byteLength source.toList := by
  rw [byteLength_eq, String.utf8Len_toList]

theorem isValid_of_toList (h : source.toList = l ++ r) :
    String.Pos.Raw.IsValid source ⟨byteLength l⟩ := by
  refine String.Pos.Raw.isValid_iff_exists_append.2 ⟨.ofList l, .ofList r, ?_, ?_⟩
  · rw [← String.ofList_append, ← h, String.ofList_toList]
  · rw [String.rawEndPos_ofList, byteLength_eq]

/-- An offset between characters is the length of what comes before it. -/
theorem exists_toList_of_isValid {offset : Nat}
    (h : String.Pos.Raw.IsValid source ⟨offset⟩) :
    ∃ l r, source.toList = l ++ r ∧ offset = byteLength l := by
  obtain ⟨front, back, rfl, hfront⟩ := String.Pos.Raw.isValid_iff_exists_append.1 h
  refine ⟨front.toList, back.toList, String.toList_append, ?_⟩
  rw [← utf8ByteSize_eq]
  exact congrArg String.Pos.Raw.byteIdx hfront

theorem slice_of_toList (h : source.toList = l ++ m ++ r) :
    (Span.mk (byteLength l) (byteLength l + byteLength m)).slice source = .ofList m := by
  unfold Span.slice
  rw [← String.ofList_toList (s := source), h, byteLength_eq, byteLength_eq]
  exact String.extract_of_valid l m r

/-- A character of one byte is that byte of the source. -/
theorem getUTF8Byte_of_toList {c : Char} (h : source.toList = l ++ c :: r) (hc : c.utf8Size = 1)
    (hlt : (⟨byteLength l⟩ : String.Pos.Raw) < source.rawEndPos) :
    source.getUTF8Byte ⟨byteLength l⟩ hlt = c.val.toUInt8 := by
  have hsource : source = .ofList l ++ (.ofList [c] ++ .ofList r) := by
    rw [← String.ofList_append, ← String.ofList_append, List.singleton_append, ← h,
      String.ofList_toList]
  have hsize : (String.ofList l).toByteArray.size = byteLength l := by
    rw [String.size_toByteArray, String.utf8ByteSize_ofList, byteLength_eq]
  have hbyte : (String.ofList [c]).toByteArray = [c.val.toUInt8].toByteArray := by
    rw [String.toByteArray_ofList, List.utf8Encode_singleton, String.utf8EncodeChar_eq_singleton hc]
  subst hsource
  rw [String.getUTF8Byte_eq_getElem]
  simp only [String.toByteArray_append]
  rw [ByteArray.getElem_append_right (by omega), ByteArray.getElem_append_left]
  · simp only [hbyte, hsize, Nat.sub_self]
    rfl
  · rw [hbyte, hsize, Nat.sub_self]
    exact Nat.one_pos

end

namespace Token

theorem byte_of_isTagBlank {c : Char} (h : isTagBlank c = true) :
    c.val.toUInt8 ∈ [0x20, 0x09, 0x0d, 0x0a] := by
  simp only [isTagBlank, Bool.or_eq_true, beq_iff_eq] at h
  rcases h with ((rfl | rfl) | rfl) | rfl <;> decide

/-- The source is its tokens, each spelled where its span says, and blanks inside the tags. -/
structure Lossless (source : String) (xs : List Lexeme) : Prop where
  nonempty : ∀ x ∈ xs, x.span.start < x.span.stop
  inside : ∀ x ∈ xs, x.span.stop ≤ source.utf8ByteSize
  boundaries : ∀ x ∈ xs, String.Pos.Raw.IsValid source ⟨x.span.start⟩ ∧
    String.Pos.Raw.IsValid source ⟨x.span.stop⟩
  increasing : xs.Pairwise fun x y => x.span.stop ≤ y.span.start
  spelled : ∀ x ∈ xs, Spells x.token (x.span.slice source).toList
  grouped : ∃ pieces, Grouped pieces xs ∧
    ∀ (i : Nat) (hi : (⟨i⟩ : String.Pos.Raw) < source.rawEndPos), (∀ x ∈ xs, ¬ x.span.Covers i) →
      source.getUTF8Byte ⟨i⟩ hi ∈ [0x20, 0x09, 0x0d, 0x0a] ∧ InTag pieces i

/-- The lexer loses nothing of a source that it accepts: no span is empty, all are parts of the source
between characters, in order and apart from each other; each token is spelled by its part; the
tokens are texts, no two of them side by side, and whole tags; and every byte outside the spans is a
space, a tab, a carriage return or a line feed inside a tag. -/
theorem lex_lossless {source : String} {xs : List Lexeme} (h : lex source = .ok xs) :
    Lossless source xs := by
  have hlaid : Laid .content 0 source.toList xs := laid_of_lexFrom h
  have hplaced : ∀ x ∈ xs, ∃ l m r, source.toList = l ++ m ++ r ∧ Spells x.token m ∧
      x.span = ⟨byteLength l, byteLength l + byteLength m⟩ := by
    intro x hx
    have hp := hlaid.placed hx
    simpa only [Nat.zero_add] using hp
  obtain ⟨pieces, hgrouped, hgap⟩ := hlaid.grouped
  refine ⟨fun x hx => ?_, fun x hx => ?_, fun x hx => ?_, hlaid.pairwise, fun x hx => ?_,
    pieces, hgrouped, fun i hi hu => ?_⟩
  · obtain ⟨l, m, r, -, hs, he⟩ := hplaced x hx
    have := byteLength_pos hs.ne_nil
    rw [he]
    dsimp only
    omega
  · obtain ⟨l, m, r, hsource, -, he⟩ := hplaced x hx
    rw [he, utf8ByteSize_eq, hsource, byteLength_append, byteLength_append]
    exact Nat.le_add_right _ _
  · obtain ⟨l, m, r, hsource, -, he⟩ := hplaced x hx
    rw [he]
    refine ⟨isValid_of_toList (hsource.trans (List.append_assoc l m r)), ?_⟩
    rw [← byteLength_append]
    exact isValid_of_toList hsource
  · obtain ⟨l, m, r, hsource, hs, he⟩ := hplaced x hx
    rwa [he, slice_of_toList hsource, String.toList_ofList]
  · have hlt : i < source.utf8ByteSize := hi
    have hi' : Gap 0 source.toList xs i :=
      ⟨Nat.zero_le i, by rwa [Nat.zero_add, ← utf8ByteSize_eq], hu⟩
    obtain ⟨l, c, r, hsource, he, hc⟩ := hlaid.blank_of_gap hi'
    rw [Nat.zero_add] at he
    subst he
    refine ⟨?_, hgap _ hi'⟩
    rw [getUTF8Byte_of_toList hsource (utf8Size_of_isTagBlank hc)]
    exact byte_of_isTagBlank hc

/-- A character of two bytes, a tag with a quoted `<` and blanks, and a closing tag with a blank. -/
theorem lex_lossless_blanks :
    let xs : List Lexeme := [⟨.text "é", 0, 2⟩, ⟨.tagOpen, 2, 3⟩, ⟨.name "b", 3, 4⟩,
      ⟨.name "x", 5, 6⟩, ⟨.equals, 6, 7⟩, ⟨.quoted "<'", 7, 11⟩, ⟨.selfClose, 13, 15⟩,
      ⟨.text "y", 15, 16⟩, ⟨.closeOpen, 16, 18⟩, ⟨.name "b", 18, 19⟩, ⟨.tagEnd, 20, 21⟩]
    lex "é<b x=\"<'\" \t/>y</b >" = .ok xs ∧ Lossless "é<b x=\"<'\" \t/>y</b >" xs := by
  intro xs
  have h : lex "é<b x=\"<'\" \t/>y</b >" = .ok xs := by decide +kernel
  exact ⟨h, lex_lossless h⟩

end Token

end TermMarkup
