/-
Where the faults of a source are. The lexer points at the characters that it cannot go on with, and
every later stage at tokens: at one of them, from one of them to a later one, or at the end after
all of them. So a fault marks a part of the source between characters, and an empty part only at the
end of the source; its line counts the line feeds before that part, and its column the characters
since the last of them. Read line by line, such positions are in the order of their offsets, so a
position tells where in the source it is.
-/
import TermMarkup.Parse
import TermMarkup.Proofs.Lossless
import TermMarkup.Proofs.Viable
import Mathlib.Data.List.DropRight
import Mathlib.Data.Prod.Lex
import Mathlib.Order.Monotone.Basic

namespace TermMarkup

/-! ## Lines and columns -/

namespace Position

/-- The position at the end of some characters comes from the position at their start, character by
character. -/
theorem advance_append (p : Position) (l r : List Char) :
    p.advance (byteLength l) (l ++ r) = l.foldl after p := by
  induction l generalizing p with
  | nil => cases r <;> rfl
  | cons c l ih =>
    have hc := c.utf8Size_pos
    have hne : ¬ (c.utf8Size + byteLength l == 0) = true := by
      rw [beq_iff_eq]
      omega
    rw [List.cons_append, byteLength_cons, advance, if_neg hne, Nat.add_sub_cancel_left, ih,
      List.foldl_cons]

theorem ofOffset_of_toList {source : String} {l r : List Char} (h : source.toList = l ++ r) :
    ofOffset source (byteLength l) = l.foldl after ⟨1, 1⟩ := by
  unfold ofOffset
  rw [h, advance_append]

theorem line_foldl_after (p : Position) (cs : List Char) :
    (cs.foldl after p).line = p.line + cs.count '\n' := by
  induction cs generalizing p with
  | nil => rfl
  | cons c cs ih =>
    rw [List.foldl_cons, ih]
    by_cases hc : c = '\n'
    · subst hc
      rw [List.count_cons_self]
      show p.line + 1 + _ = _
      omega
    · rw [List.count_cons_of_ne hc, after, if_neg (by rwa [beq_iff_eq])]

theorem column_foldl_after (line : Nat) (cs : List Char) :
    (cs.foldl after ⟨line, 1⟩).column = 1 + (cs.rtakeWhile (· != '\n')).length := by
  -- a line feed at the end starts the count again, so the induction is on the last character
  induction cs using List.reverseRecOn with
  | nil => rfl
  | append_singleton cs c ih =>
    rw [List.foldl_concat]
    by_cases hc : c = '\n'
    · subst hc
      rw [List.rtakeWhile_concat_neg _ _ _ (by decide)]
      rfl
    · rw [List.rtakeWhile_concat_pos _ _ _ (by rwa [bne_iff_ne]), after,
        if_neg (by rwa [beq_iff_eq]), List.length_append, ih]
      rfl

/-- Positions are in order by line, and within a line by column. -/
instance : PartialOrder Position :=
  .lift (fun p => toLex (p.line, p.column)) fun p q h => by
    obtain ⟨hline, hcolumn⟩ := Prod.mk.inj (toLex.injective h)
    cases p
    cases q
    congr

theorem lt_iff {p q : Position} :
    p < q ↔ p.line < q.line ∨ p.line = q.line ∧ p.column < q.column :=
  Prod.Lex.lt_iff

/-- A line feed leads to a later line, and any other character to a later column of the same. -/
theorem lt_after (p : Position) (c : Char) : p < p.after c := by
  rw [lt_iff, after]
  split
  · exact Or.inl (Nat.lt_succ_self p.line)
  · exact Or.inr ⟨rfl, Nat.lt_succ_self p.column⟩

theorem lt_foldl_after (p : Position) {cs : List Char} (hne : cs ≠ []) :
    p < cs.foldl after p := by
  induction cs generalizing p with
  | nil => exact absurd rfl hne
  | cons c cs ih =>
    rw [List.foldl_cons]
    cases cs with
    | nil => exact lt_after p c
    | cons d cs => exact (lt_after p c).trans (ih (p.after c) (List.cons_ne_nil d cs))

/-- Between the characters of a source, what comes before the smaller of two offsets begins what
comes before the other, so the position of the other is reached by going on. -/
theorem strictMonoOn_ofOffset (source : String) :
    StrictMonoOn (ofOffset source) {offset | String.Pos.Raw.IsValid source ⟨offset⟩} := by
  intro a ha b hb hlt
  obtain ⟨front, back, hfront, rfl⟩ := exists_toList_of_isValid ha
  obtain ⟨longer, rest, hlonger, rfl⟩ := exists_toList_of_isValid hb
  rw [ofOffset_of_toList hfront, ofOffset_of_toList hlonger]
  have happend := hfront.symm.trans hlonger
  rcases List.append_eq_append_iff.1 happend with ⟨more, rfl, -⟩ | ⟨more, rfl, -⟩
  · rw [List.foldl_append]
    refine lt_foldl_after _ ?_
    rintro rfl
    rw [List.append_nil] at hlt
    exact Nat.lt_irrefl _ hlt
  · rw [byteLength_append] at hlt
    omega

/-- Positions tell offsets apart. Of two offsets between characters of a source, its end included,
the smaller has the earlier position, and only equal ones share a position. -/
theorem positions_tell_offsets {source : String} {a b : Nat}
    (ha : String.Pos.Raw.IsValid source ⟨a⟩) (hb : String.Pos.Raw.IsValid source ⟨b⟩) :
    (ofOffset source a < ofOffset source b ↔ a < b) ∧
      (ofOffset source a = ofOffset source b ↔ a = b) :=
  ⟨(strictMonoOn_ofOffset source).lt_iff_lt ha hb, (strictMonoOn_ofOffset source).eq_iff_eq ha hb⟩

/-- After a character of two bytes, two line feeds in a row and a further character, the end of the
source is two lines below the first line feed. -/
theorem positions_tell_offsets_lines :
    String.Pos.Raw.IsValid "é\n\nx" ⟨2⟩ ∧ String.Pos.Raw.IsValid "é\n\nx" ⟨5⟩ ∧
      ofOffset "é\n\nx" 2 = ⟨1, 2⟩ ∧ ofOffset "é\n\nx" 5 = ⟨3, 2⟩ ∧
      ofOffset "é\n\nx" 2 < ofOffset "é\n\nx" 5 ∧ ofOffset "é\n\nx" 2 ≠ ofOffset "é\n\nx" 5 := by
  have hfirst : String.Pos.Raw.IsValid "é\n\nx" ⟨2⟩ :=
    isValid_of_toList (l := ['é']) (r := ['\n', '\n', 'x']) rfl
  have hend : String.Pos.Raw.IsValid "é\n\nx" ⟨5⟩ :=
    isValid_of_toList (l := ['é', '\n', '\n', 'x']) (r := []) rfl
  obtain ⟨hlt, heq⟩ := positions_tell_offsets hfirst hend
  exact ⟨hfirst, hend, by decide, by decide, hlt.2 (by decide), fun h => by cases heq.1 h⟩

end Position

/-! ## Parts of a source -/

/-- The span is that of a part of the characters, which start at byte `offset`; the part is not
empty, unless it is the one after all of them. -/
def Span.PartOf (offset : Nat) (cs : List Char) (span : Span) : Prop :=
  ∃ before part after, cs = before ++ part ++ after ∧ (part = [] → after = []) ∧
    span = ⟨offset + byteLength before, offset + byteLength before + byteLength part⟩

namespace Span.PartOf

variable {offset : Nat} {span : Span}

/-- A part of what comes after some characters is a part of all. -/
theorem after {cs : List Char} (front : List Char) {stop : Nat}
    (he : stop = offset + byteLength front) (h : span.PartOf stop cs) :
    span.PartOf offset (front ++ cs) := by
  obtain ⟨before, part, rest, rfl, hempty, rfl⟩ := h
  refine ⟨front ++ before, part, rest, by simp, hempty, ?_⟩
  rw [he, byteLength_append]
  simp only [Nat.add_assoc]

theorem first (offset : Nat) {part : List Char} (hne : part ≠ []) (rest : List Char) :
    (Span.mk offset (offset + byteLength part)).PartOf offset (part ++ rest) :=
  ⟨[], part, rest, rfl, fun h => absurd h hne, rfl⟩

theorem atEnd (offset : Nat) (cs : List Char) :
    (Span.mk (offset + byteLength cs) (offset + byteLength cs)).PartOf offset cs :=
  ⟨cs, [], [], by simp, fun _ => rfl, rfl⟩

end Span.PartOf

namespace Token

/-- What the lexer cannot go on with is a part of the characters, or the end of them. -/
theorem partOf_of_lexFrom {mode : Mode} {offset : Nat} {cs : List Char} {e : ParseError}
    (h : lexFrom mode offset cs = .error e) : e.span.PartOf offset cs := by
  -- the cases are the rules of the lexer in their order
  fun_induction lexFrom mode offset cs with
  | case1 => cases h
  | case2 offset rest ih => exact .after ['<', '/'] rfl (ih (map_eq_error h))
  | case3 offset rest _ ih => exact .after ['<'] rfl (ih (map_eq_error h))
  | case4 offset c rest _ _ run stop ih =>
    rw [cons_takeWhile_append_dropWhile (· != '<') c rest]
    exact .after run rfl (ih (map_eq_error h))
  | case5 offset =>
    cases h
    exact .atEnd offset []
  | case6 offset rest ih => exact .after ['='] rfl (ih (map_eq_error h))
  | case7 offset rest ih => exact .after ['>'] rfl (ih (map_eq_error h))
  | case8 offset rest ih => exact .after ['/', '>'] rfl (ih (map_eq_error h))
  | case9 offset c rest _ _ _ hb ih =>
    refine .after [c] ?_ (ih h)
    rw [byteLength_cons, utf8Size_of_isTagBlank hb, byteLength_nil]
  | case10 offset c rest _ _ _ _ _ name stop ih =>
    rw [cons_takeWhile_append_dropWhile isNameChar c rest]
    exact .after name rfl (ih (map_eq_error h))
  | case11 offset c rest =>
    cases h
    have hall := Span.PartOf.first offset (List.cons_ne_nil c rest) []
    rwa [List.append_nil] at hall
  | case12 offset c rest _ _ _ _ _ hq quote after hd value stop ih =>
    rw [quoted_split hd]
    refine .after _ ?_ (ih (map_eq_error h))
    rw [byteLength_quoted hq, ← Nat.add_assoc]
  | case13 offset c rest =>
    cases h
    exact .first offset (List.cons_ne_nil c []) rest

/-! ## Spans of tokens -/

/-- The span is that of one of the tokens, or runs from the start of one to the end of a later
one. -/
inductive Spanned (xs : List Lexeme) : Span → Prop
  | one {x : Lexeme} (h : x ∈ xs) : Spanned xs x.span
  | upTo {x y : Lexeme} (h : [x, y].Sublist xs) : Spanned xs ⟨x.span.start, y.span.stop⟩

theorem Spanned.mono {xs ys : List Lexeme} {span : Span} (h : Spanned xs span)
    (hs : xs.Sublist ys) : Spanned ys span := by
  cases h with
  | one h => exact .one (hs.subset h)
  | upTo h => exact .upTo (h.trans hs)

/-- Tokens that are laid out in characters mark parts of them. -/
theorem Laid.partOf {mode : Mode} {offset : Nat} {cs : List Char} {xs : List Lexeme} {span : Span}
    (h : Laid mode offset cs xs) (hs : Spanned xs span) : span.PartOf offset cs := by
  cases hs with
  | one hx =>
    obtain ⟨before, part, after, rfl, hs, he⟩ := h.placed hx
    exact ⟨before, part, after, rfl, fun hp => absurd hp hs.ne_nil, he⟩
  | @upTo x y hxy =>
    induction h with
    | done => cases hxy
    | @blank offset c cs xs hc _ ih =>
      refine .after [c] ?_ (ih hxy)
      rw [byteLength_cons, utf8Size_of_isTagBlank hc, byteLength_nil]
    | @token token part offset stop cs xs hs hf he h ih =>
      cases hxy with
      | cons _ hxy => exact .after part he (ih hxy)
      | cons_cons _ hy =>
        -- the part begins with the first token and goes on to the end of the other
        obtain ⟨before, last, after, rfl, -, hspan⟩ := h.placed (List.singleton_sublist.1 hy)
        have hne : part ++ before ++ last ≠ [] := by simp [hs.ne_nil]
        have hcover := Span.PartOf.first offset hne after
        have hstop : y.span.stop = offset + byteLength (part ++ before ++ last) := by
          rw [hspan, he]
          simp only [byteLength_append, Nat.add_assoc]
        rw [hstop]
        simpa using hcover

/-! ## The guard -/

/-- The guard points from the start of an opening tag to its end. -/
theorem spanned_of_checkNestingFrom {depth : Nat} (opener : Option Lexeme) {xs : List Lexeme}
    {e : ParseError} (h : checkNestingFrom depth (opener.map (·.span.start)) xs = .error e) :
    Spanned (opener.toList ++ xs) e.span := by
  induction xs generalizing depth opener with
  | nil => cases h
  | cons x xs ih =>
    have hskip : (opener.toList ++ xs).Sublist (opener.toList ++ x :: xs) :=
      (List.sublist_cons_self x xs).append_left _
    have hrest : xs.Sublist (opener.toList ++ x :: xs) :=
      (List.sublist_append_right _ xs).trans hskip
    obtain ⟨token, span⟩ := x
    cases token with
    | tagOpen =>
      have hnext := ih (some ⟨.tagOpen, span⟩) h
      exact hnext.mono (List.sublist_append_right _ _)
    | closeOpen | selfClose => exact (ih none h).mono hrest
    | text value | name word | equals | quoted value => exact (ih opener h).mono hskip
    | tagEnd =>
      cases opener with
      | none => exact (ih none h).mono hskip
      | some x =>
        rw [Option.map_some, Item.checkNestingFrom_tagEnd] at h
        split at h
        · exact (ih none h).mono hrest
        · cases h
          exact .upTo ((List.nil_sublist xs).cons_cons _ |>.cons_cons _)

end Token

/-! ## The reader -/

open Token

theorem Item.spanned_of_read {size : Nat} {xs : List Lexeme} {e : ParseError}
    (h : Item.read size xs = .error e) : Spanned xs e.span ∨ e.span = ⟨size, size⟩ := by
  obtain ⟨before, after, r, rfl, -, -, rfl⟩ := Item.Reader.run_eq_error h
  cases after with
  | nil => exact Or.inr rfl
  | cons x after => exact Or.inl (.one (by simp))

/-! ## The meaning of items -/

theorem OpenTag.span_of_kind {tag : OpenTag} {e : ParseError} (h : tag.kind = .error e) :
    e.span = tag.name.span := by
  unfold OpenTag.kind at h
  split at h <;> cases h <;> rfl

theorem WrittenAttribute.span_of_addTo {kind : Kind} {tag : String}
    {fields : List (String × Raw)} {a : WrittenAttribute} {e : ParseError}
    (h : a.addTo kind tag fields = .error e) : e.span = a.span := by
  unfold WrittenAttribute.addTo at h
  dsimp only at h
  split at h
  · cases h
    rfl
  · split at h
    · cases h
      rfl
    · split at h <;> cases h
      rfl

theorem OpenTag.span_of_fields {tag : OpenTag} {kind : Kind} {e : ParseError}
    (h : tag.fields kind = .error e) : ∃ a ∈ tag.attributes, e.span = a.span := by
  unfold OpenTag.fields at h
  generalize [("node", Raw.string kind.tag)] = fields at h
  generalize tag.attributes = attributes at h ⊢
  induction attributes generalizing fields with
  | nil => cases h
  | cons a attributes ih =>
    rw [List.foldlM_cons] at h
    rcases bind_eq_error h with h | ⟨next, -, h⟩
    · exact ⟨a, List.mem_cons_self, WrittenAttribute.span_of_addTo h⟩
    · obtain ⟨b, hb, he⟩ := ih next h
      exact ⟨b, List.mem_cons_of_mem _ hb, he⟩

namespace Item

theorem spanned_of_attributes {xs : List Lexeme} {attributes : List WrittenAttribute}
    (h : Attributes xs attributes) : ∀ a ∈ attributes, Spanned xs a.span := by
  induction h with
  | nil => exact List.forall_mem_nil _
  | bare key _ ih =>
    refine List.forall_mem_cons.2 ⟨.one List.mem_cons_self, fun a ha => ?_⟩
    exact (ih a ha).mono (List.sublist_cons_self _ _)
  | @valued key equals value quoted xs attributes _ ih =>
    refine List.forall_mem_cons.2 ⟨?_, fun a ha => (ih a ha).mono ?_⟩
    · exact .upTo (((List.nil_sublist xs).cons_cons _).cons _ |>.cons_cons _)
    · exact ((List.sublist_cons_self _ xs).cons _).cons _

/-- The tokens of an opening tag span its name and its attributes. -/
theorem spanned_of_opening {xs : List Lexeme} {tag : OpenTag} (h : Opening xs tag) :
    Spanned xs tag.name.span ∧ ∀ a ∈ tag.attributes, Spanned xs a.span := by
  cases h with
  | intro start name ha =>
    refine ⟨.one (List.mem_cons_of_mem _ List.mem_cons_self), fun a hm => ?_⟩
    exact (spanned_of_attributes ha a hm).mono ((List.sublist_cons_self _ _).cons _)

theorem span_of_toRaw_selfClosing {tag : OpenTag} {e : ParseError}
    (h : toRaw (.selfClosing tag) = .error e) :
    e.span = tag.name.span ∨ ∃ a ∈ tag.attributes, e.span = a.span := by
  rw [toRaw] at h
  rcases bind_eq_error h with h | ⟨kind, -, h⟩
  · exact Or.inl (OpenTag.span_of_kind h)
  · rcases bind_eq_error h with h | ⟨fields, -, h⟩
    · exact Or.inr (OpenTag.span_of_fields h)
    · cases h

/-- A fault of an element is that of its opening tag, of its closing tag or of its body. -/
theorem span_of_toRaw_element {tag : OpenTag} {body : List Item} {close : Name} {e : ParseError}
    (h : toRaw (.element tag body close) = .error e) :
    (e.span = tag.name.span ∨ ∃ a ∈ tag.attributes, e.span = a.span) ∨ e.span = close.span ∨
      toRaws body = .error e := by
  rw [toRaw] at h
  rcases bind_eq_error h with h | ⟨kind, -, h⟩
  · exact Or.inl (Or.inl (OpenTag.span_of_kind h))
  · by_cases hm : close.text ≠ tag.name.text
    · rw [if_pos hm] at h
      cases h
      exact Or.inr (Or.inl rfl)
    · rw [if_neg hm] at h
      dsimp only at h
      by_cases hb : kind = .lineBreak
      · rw [if_pos hb] at h
        cases h
        exact Or.inl (Or.inl rfl)
      · rw [if_neg hb] at h
        rcases bind_eq_error h with h | ⟨fields, -, h⟩
        · exact Or.inl (Or.inr (OpenTag.span_of_fields h))
        · rcases bind_eq_error h with h | ⟨children, -, h⟩
          · exact Or.inr (Or.inr h)
          · cases h

theorem toRaws_cons_eq_error {item : Item} {items : List Item} {e : ParseError}
    (h : toRaws (item :: items) = .error e) : toRaw item = .error e ∨ toRaws items = .error e := by
  rw [toRaws] at h
  rcases bind_eq_error h with h | ⟨first, -, h⟩
  · exact Or.inl h
  · rcases bind_eq_error h with h | ⟨others, -, h⟩
    · exact Or.inr h
    · cases h

/-- Items that mean nothing are refused at tokens that they were read from. -/
theorem spanned_of_toRaws {xs : List Lexeme} {items : List Item} {e : ParseError}
    (hd : Document xs items) (h : toRaws items = .error e) : Spanned xs e.span := by
  induction hd with
  | nil => cases h
  | text value span _ ih =>
    rcases toRaws_cons_eq_error h with h | h
    · cases h
    · exact (ih h).mono (List.sublist_cons_self _ _)
  | @selfClosing stop ys xs tag items ho _ ih =>
    obtain ⟨hname, hattributes⟩ := spanned_of_opening ho
    rcases toRaws_cons_eq_error h with h | h
    · refine Spanned.mono ?_ (List.sublist_append_left ys _)
      rcases span_of_toRaw_selfClosing h with he | ⟨a, ha, he⟩
      · exact he ▸ hname
      · exact he ▸ hattributes a ha
    · exact (ih h).mono ((List.sublist_cons_self _ xs).trans (List.sublist_append_right ys _))
  | @element stop closeOpen closeStop close ys body xs tag inner items ho _ _ ihb ih =>
    obtain ⟨hname, hattributes⟩ := spanned_of_opening ho
    rcases toRaws_cons_eq_error h with h | h
    · rcases span_of_toRaw_element h with (he | ⟨a, ha, he⟩) | he | hb
      · exact (he ▸ hname).mono (List.sublist_append_left ys _)
      · exact (he ▸ hattributes a ha).mono (List.sublist_append_left ys _)
      · rw [he]
        exact .one (x := ⟨.name close.text, close.span⟩) (by simp)
      · refine (ihb hb).mono ?_
        exact ((List.sublist_append_left body _).cons _).trans (List.sublist_append_right ys _)
    · refine (ih h).mono (.trans (.cons _ (.trans ?_ (List.sublist_append_right body _)))
        (List.sublist_append_right ys _))
      exact ((List.sublist_cons_self _ xs).cons _).cons _

end Item

/-! ## Faults of a source -/

/-- The characters of a source before a byte offset. -/
def charsBefore (source : String) (offset : Nat) : List Char :=
  ((Span.mk 0 offset).slice source).toList

theorem charsBefore_of_toList {source : String} {l r : List Char} (h : source.toList = l ++ r) :
    charsBefore source (byteLength l) = l := by
  have hslice := @slice_of_toList source [] l r h
  rw [byteLength_nil, Nat.zero_add] at hslice
  rw [charsBefore, hslice, String.toList_ofList]

/-- A fault marks a part of the source, and an empty part only at the end; its line and column are
those where the part begins. -/
structure ParseError.PointsInto (e : ParseError) (source : String) : Prop where
  ordered : e.span.start ≤ e.span.stop
  inside : e.span.stop ≤ source.utf8ByteSize
  start_valid : String.Pos.Raw.IsValid source ⟨e.span.start⟩
  stop_valid : String.Pos.Raw.IsValid source ⟨e.span.stop⟩
  empty : e.span.start = e.span.stop → e.span = ⟨source.utf8ByteSize, source.utf8ByteSize⟩
  line : (e.position source).line = 1 + (charsBefore source e.span.start).count '\n'
  column : (e.position source).column =
    1 + ((charsBefore source e.span.start).rtakeWhile (· != '\n')).length

theorem ParseError.pointsInto_of_partOf {e : ParseError} {source : String}
    (h : e.span.PartOf 0 source.toList) : e.PointsInto source := by
  obtain ⟨l, m, r, hsource, hempty, hspan⟩ := h
  rw [Nat.zero_add] at hspan
  have hsplit : source.toList = l ++ (m ++ r) := by rw [hsource, List.append_assoc]
  have hsize : source.utf8ByteSize = byteLength l + byteLength m + byteLength r := by
    rw [utf8ByteSize_eq, hsource, byteLength_append, byteLength_append]
  have hposition : e.position source = l.foldl Position.after ⟨1, 1⟩ := by
    rw [ParseError.position, hspan]
    exact Position.ofOffset_of_toList hsplit
  have hbefore : charsBefore source e.span.start = l := by
    rw [hspan]
    exact charsBefore_of_toList hsplit
  constructor
  · rw [hspan]
    exact Nat.le_add_right _ _
  · rw [hspan, hsize]
    exact Nat.le_add_right _ _
  · rw [hspan]
    exact isValid_of_toList hsplit
  · rw [hspan, ← byteLength_append]
    exact isValid_of_toList hsource
  · intro he
    have hm : m = [] := by
      by_contra hne
      have := byteLength_pos hne
      rw [hspan] at he
      dsimp only at he
      omega
    subst hm
    rw [hspan, hsize, hempty rfl]
    rfl
  · rw [hposition, hbefore, Position.line_foldl_after]
  · rw [hposition, hbefore, Position.column_foldl_after]

/-- Every fault that ends parsing points into the source: its span lies in the source, begins and ends
between characters, and is empty only at the end of the source; its line is one more than the line
feeds before it, and its column one more than the characters since the last of them. -/
theorem parse_error_points_into_source {source : String} {e : ParseError}
    (h : parse source = .error e) : e.PointsInto source := by
  refine ParseError.pointsInto_of_partOf ?_
  rcases bind_eq_error (map_eq_error h) with hlex | ⟨xs, hlex, h⟩
  · exact partOf_of_lexFrom hlex
  · have hlaid : Laid .content 0 source.toList xs := laid_of_lexFrom hlex
    rcases bind_eq_error h with hguard | ⟨_, -, h⟩
    · exact hlaid.partOf (spanned_of_checkNestingFrom none hguard)
    · rcases bind_eq_error h with hread | ⟨items, hread, hmeaning⟩
      · rcases Item.spanned_of_read hread with hs | hend
        · exact hlaid.partOf hs
        · have hlast := Span.PartOf.atEnd 0 source.toList
          rwa [Nat.zero_add, ← utf8ByteSize_eq, ← hend] at hlast
      · exact hlaid.partOf (Item.spanned_of_toRaws (Item.read_eq_ok_iff.1 hread) hmeaning)

/-- After a character of two bytes and a line feed, a closing tag with another name is found in the
seventh column of the second line, and a quote without an end marks the rest of the source. -/
theorem parse_error_points_into_source_lines :
    let mismatch : ParseError := ⟨.mismatchedClose "q" "p", 9, 10⟩
    let unclosed : ParseError := ⟨.unexpectedCharacters "'é", 5, 8⟩
    (parse "é\n<p>x</q>" = .error mismatch ∧ mismatch.PointsInto "é\n<p>x</q>" ∧
      mismatch.position "é\n<p>x</q>" = ⟨2, 7⟩) ∧
    parse "<p x='é" = .error unclosed ∧ unclosed.PointsInto "<p x='é" := by
  intro mismatch unclosed
  have hlex : Token.lex "é\n<p>x</q>" = .ok [⟨.text "é\n", 0, 3⟩, ⟨.tagOpen, 3, 4⟩,
      ⟨.name "p", 4, 5⟩, ⟨.tagEnd, 5, 6⟩, ⟨.text "x", 6, 7⟩, ⟨.closeOpen, 7, 9⟩, ⟨.name "q", 9, 10⟩,
      ⟨.tagEnd, 10, 11⟩] := by decide +kernel
  have hfail : Token.lex "<p x='é" = .error unclosed := by decide +kernel
  have hmismatch : parse "é\n<p>x</q>" = .error mismatch := by
    unfold parse parseNodes
    rw [hlex]
    rfl
  have hunclosed : parse "<p x='é" = .error unclosed := by
    unfold parse parseNodes
    rw [hfail]
    rfl
  exact ⟨⟨hmismatch, parse_error_points_into_source hmismatch, by decide⟩, hunclosed,
    parse_error_points_into_source hunclosed⟩

end TermMarkup
