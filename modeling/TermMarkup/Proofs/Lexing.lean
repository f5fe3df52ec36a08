/-
How the lexer reads written markup. Each piece of markup is read as certain tokens whatever comes
before it, and whatever comes after it that does not run on from it; pieces that may stand side by
side are read one after the other. In turn, the tokens of whatever the lexer accepts are laid out in
it one after the other, each as long as it can be, with nothing but blanks of tags between them.
-/
import TermMarkup.Tag
import TermMarkup.Token.Lexer
import TermMarkup.Proofs.Entity
import TermMarkup.Proofs.Grammar
import TermMarkup.Proofs.Meaning
import Mathlib.Data.List.Forall2
import Mathlib.Data.List.TakeWhile

namespace TermMarkup

@[simp] theorem byteLength_nil : byteLength [] = 0 := rfl

@[simp] theorem byteLength_cons (c : Char) (cs : List Char) :
    byteLength (c :: cs) = c.utf8Size + byteLength cs := rfl

@[simp] theorem byteLength_append (cs ds : List Char) :
    byteLength (cs ++ ds) = byteLength cs + byteLength ds := by
  induction cs with
  | nil => simp
  | cons c cs ih => simp [ih, Nat.add_assoc]

end TermMarkup

namespace TermMarkup.Token

/-- In `mode` the lexer reads the characters as tokens that satisfy `P` and is then in `mode'`,
wherever the characters start and whatever comes after them that satisfies `after`. -/
def LexesAs (mode mode' : Mode) (cs : List Char) (after : List Char → Prop)
    (P : List Lexeme → Prop) : Prop :=
  ∀ offset, ∃ stop xs, P xs ∧ ∀ rest, after rest →
    lexFrom mode offset (cs ++ rest) = (lexFrom mode' stop rest).map (xs ++ ·)

/-- Anything may come next. -/
def anything (_ : List Char) : Prop := True

/-- The end comes next, or a character that satisfies `p`. -/
def before (p : Char → Bool) (rest : List Char) : Prop :=
  ∀ c ∈ rest.head?, p c = true

theorem map_append_map {ε : Type} (x : Except ε (List Lexeme)) (xs ys : List Lexeme) :
    (x.map (ys ++ ·)).map (xs ++ ·) = x.map (xs ++ ys ++ ·) := by
  cases x with
  | error e => rfl
  | ok zs => exact congrArg Except.ok (List.append_assoc xs ys zs).symm

namespace LexesAs

variable {mode mode' mode'' : Mode} {cs ds : List Char} {after after' : List Char → Prop}
  {P Q R : List Lexeme → Prop}

theorem imp (h : LexesAs mode mode' cs after P) (hpq : ∀ xs, P xs → Q xs) :
    LexesAs mode mode' cs after Q := by
  intro offset
  obtain ⟨stop, xs, hp, hl⟩ := h offset
  exact ⟨stop, xs, hpq xs hp, hl⟩

theorem restrict (h : LexesAs mode mode' cs after P) (ha : ∀ rest, after' rest → after rest) :
    LexesAs mode mode' cs after' P := by
  intro offset
  obtain ⟨stop, xs, hp, hl⟩ := h offset
  exact ⟨stop, xs, hp, fun rest hr => hl rest (ha rest hr)⟩

/-- Pieces that may stand side by side are read one after the other. -/
theorem append (h : LexesAs mode mode' cs after P) (h' : LexesAs mode' mode'' ds after' Q)
    (ha : ∀ rest, after' rest → after (ds ++ rest))
    (hr : ∀ xs ys, P xs → Q ys → R (xs ++ ys)) :
    LexesAs mode mode'' (cs ++ ds) after' R := by
  intro offset
  obtain ⟨middle, xs, hp, hl⟩ := h offset
  obtain ⟨stop, ys, hq, hl'⟩ := h' middle
  refine ⟨stop, xs ++ ys, hr xs ys hp hq, fun rest hrest => ?_⟩
  rw [List.append_assoc, hl _ (ha rest hrest), hl' rest hrest, map_append_map]

/-- A source that is read as tokens, and may end there, has these tokens. -/
theorem exists_lex {source : String} (h : LexesAs .content .content source.toList after P)
    (hend : after []) : ∃ xs, lex source = .ok xs ∧ P xs := by
  obtain ⟨stop, xs, hp, hl⟩ := h 0
  refine ⟨xs, ?_, hp⟩
  have hall := hl [] hend
  rw [List.append_nil, lexFrom] at hall
  unfold lex
  rw [hall]
  exact congrArg Except.ok (List.append_nil xs)

end LexesAs

theorem lexes_nil (mode : Mode) : LexesAs mode mode [] anything (· = []) := by
  intro offset
  refine ⟨offset, [], rfl, fun rest _ => ?_⟩
  rw [List.nil_append]
  cases lexFrom mode offset rest <;> rfl

/-! ## Single tokens -/

/-- The tokens are the one given, wherever it stands. -/
def IsToken (token : Token) (xs : List Lexeme) : Prop :=
  ∃ span, xs = [⟨token, span⟩]

theorem lexes_token {mode mode' : Mode} {cs : List Char} {after : List Char → Prop} {token : Token}
    (length : Nat) (h : ∀ offset rest, after rest → lexFrom mode offset (cs ++ rest) =
      (lexFrom mode' (offset + length) rest).map (⟨token, offset, offset + length⟩ :: ·)) :
    LexesAs mode mode' cs after (IsToken token) :=
  fun offset => ⟨offset + length, _, ⟨_, rfl⟩, h offset⟩

theorem lexes_tagOpen : LexesAs .content .tag ['<'] (before (· != '/')) (IsToken .tagOpen) := by
  refine lexes_token 1 fun offset rest hr => ?_
  rw [List.singleton_append, lexFrom]
  rintro others rfl
  exact absurd (hr '/' rfl) (by decide)

theorem lexes_closeOpen : LexesAs .content .tag ['<', '/'] anything (IsToken .closeOpen) := by
  refine lexes_token 2 fun offset rest _ => ?_
  rw [List.cons_append, List.singleton_append, lexFrom]

theorem lexes_equals : LexesAs .tag .tag ['='] anything (IsToken .equals) := by
  refine lexes_token 1 fun offset rest _ => ?_
  rw [List.singleton_append, lexFrom]

theorem lexes_tagEnd : LexesAs .tag .content ['>'] anything (IsToken .tagEnd) := by
  refine lexes_token 1 fun offset rest _ => ?_
  rw [List.singleton_append, lexFrom]

theorem lexes_selfClose : LexesAs .tag .content ['/', '>'] anything (IsToken .selfClose) := by
  refine lexes_token 2 fun offset rest _ => ?_
  rw [List.cons_append, List.singleton_append, lexFrom]

theorem lexes_blank {c : Char} (hc : isTagBlank c = true) :
    LexesAs .tag .tag [c] anything (· = []) := by
  intro offset
  refine ⟨offset + 1, [], rfl, fun rest _ => ?_⟩
  have hmap : (lexFrom .tag (offset + 1) rest).map ([] ++ ·) = lexFrom .tag (offset + 1) rest := by
    cases lexFrom .tag (offset + 1) rest <;> rfl
  rw [List.singleton_append, lexFrom, if_pos hc, hmap]
  -- what is left is that no earlier rule of the lexer applies, here and for the runs below
  · rintro rfl
    exact absurd hc (by decide)
  · rintro rfl
    exact absurd hc (by decide)
  · rintro others rfl
    exact absurd hc (by decide)

/-! ## Runs -/

theorem takeWhile_run {p : Char → Bool} {cs rest : List Char} (hc : ∀ c ∈ cs, p c = true)
    (hr : before (!p ·) rest) : (cs ++ rest).takeWhile p = cs := by
  rw [List.takeWhile_append_of_pos hc]
  cases rest with
  | nil => exact List.append_nil cs
  | cons c rest =>
    have hp : p c = false := by simpa using hr c rfl
    rw [List.takeWhile_cons, hp]
    exact List.append_nil cs

theorem dropWhile_run {p : Char → Bool} {cs rest : List Char} (hc : ∀ c ∈ cs, p c = true)
    (hr : before (!p ·) rest) : (cs ++ rest).dropWhile p = rest := by
  rw [List.dropWhile_append_of_pos hc]
  cases rest with
  | nil => rfl
  | cons c rest =>
    have hp : p c = false := by simpa using hr c rfl
    rw [List.dropWhile_cons, hp]
    rfl

/-- Text up to the next tag, or the end, is one token. -/
theorem lexFrom_text {cs : List Char} (hne : cs ≠ []) (hc : '<' ∉ cs) (offset : Nat)
    {rest : List Char} (hr : before (· == '<') rest) :
    lexFrom .content offset (cs ++ rest) = (lexFrom .content (offset + byteLength cs) rest).map
      (⟨.text (String.ofList cs), offset, offset + byteLength cs⟩ :: ·) := by
  obtain ⟨c, cs, rfl⟩ := List.exists_cons_of_ne_nil hne
  have hcs : ∀ x ∈ cs, (x != '<') = true := by
    intro x hx
    rw [bne_iff_ne]
    rintro rfl
    exact hc (List.mem_cons_of_mem _ hx)
  have hb : before (fun x => !(x != '<')) rest := by
    intro x hx
    have := hr x hx
    simpa using this
  have hl : c ≠ '<' := by
    rintro rfl
    exact hc List.mem_cons_self
  rw [List.cons_append, lexFrom, takeWhile_run hcs hb, dropWhile_run hcs hb]
  · exact fun others h => absurd h hl
  · exact hl

theorem lexes_text {cs : List Char} (hne : cs ≠ []) (hc : '<' ∉ cs) :
    LexesAs .content .content cs (before (· == '<')) (IsToken (.text (String.ofList cs))) :=
  lexes_token (byteLength cs) fun offset _ hr => lexFrom_text hne hc offset hr

/-- Characters that the lexer takes as one name. -/
def IsName : List Char → Prop
  | [] => False
  | c :: cs => isNameStart c = true ∧ cs.all isNameChar = true

instance : DecidablePred IsName
  | [] => inferInstanceAs (Decidable False)
  | c :: cs => inferInstanceAs (Decidable (isNameStart c = true ∧ cs.all isNameChar = true))

theorem IsName.exists_cons {cs : List Char} (h : IsName cs) :
    ∃ c rest, cs = c :: rest ∧ isNameStart c = true ∧ ∀ x ∈ rest, isNameChar x = true := by
  cases cs with
  | nil => cases h
  | cons c cs => exact ⟨c, cs, rfl, h.1, List.all_eq_true.1 h.2⟩

theorem lexes_name {cs : List Char} (hn : IsName cs) :
    LexesAs .tag .tag cs (before (!isNameChar ·)) (IsToken (.name (String.ofList cs))) := by
  refine lexes_token (byteLength cs) fun offset rest hr => ?_
  obtain ⟨c, cs, rfl, hc, hcs⟩ := hn.exists_cons
  have hblank : ¬ isTagBlank c = true := by
    intro hb
    simp only [isTagBlank, Bool.or_eq_true, beq_iff_eq] at hb
    rcases hb with ((rfl | rfl) | rfl) | rfl
    all_goals exact absurd hc (by decide)
  rw [List.cons_append, lexFrom, if_neg hblank, if_pos hc, takeWhile_run hcs hr,
    dropWhile_run hcs hr]
  · rintro rfl
    exact absurd hc (by decide)
  · rintro rfl
    exact absurd hc (by decide)
  · rintro others rfl
    exact absurd hc (by decide)

/-- Inside a tag, a value between quotes is one token, whatever comes after it. -/
theorem lexFrom_quoted {quote : Char} (hq : isQuote quote = true) {value : List Char}
    (hv : quote ∉ value) (offset : Nat) (rest : List Char) :
    lexFrom .tag offset (quote :: (value ++ [quote]) ++ rest) =
      (lexFrom .tag (offset + (byteLength value + 2)) rest).map
        (⟨.quoted (String.ofList value), offset, offset + (byteLength value + 2)⟩ :: ·) := by
  have hvs : ∀ x ∈ value, (x != quote) = true := by
    intro x hx
    rw [bne_iff_ne]
    rintro rfl
    exact hv hx
  have hb : before (fun x => !(x != quote)) (quote :: rest) := by
    intro x hx
    cases Option.some.inj hx
    simp
  have hd := dropWhile_run hvs hb
  have hnot : ¬ isTagBlank quote = true ∧ ¬ isNameStart quote = true := by
    simp only [isQuote, Bool.or_eq_true, beq_iff_eq] at hq
    rcases hq with rfl | rfl <;> decide
  rw [List.cons_append, List.append_assoc, List.singleton_append, lexFrom, if_neg hnot.1,
    if_neg hnot.2, if_pos hq]
  · split
    · rename_i h
      rw [hd] at h
      cases h
    · rename_i h
      rw [hd] at h
      cases h
      rw [takeWhile_run hvs hb]
      rfl
  · rintro rfl
    exact absurd hq (by decide)
  · rintro rfl
    exact absurd hq (by decide)
  · rintro others rfl
    exact absurd hq (by decide)

theorem lexes_quoted {quote : Char} (hq : isQuote quote = true) {value : List Char}
    (hv : quote ∉ value) :
    LexesAs .tag .tag (quote :: (value ++ [quote])) anything
      (IsToken (.quoted (String.ofList value))) :=
  lexes_token (byteLength value + 2) fun offset rest _ => lexFrom_quoted hq hv offset rest

/-! ## Accepted characters -/

/-- How a token is written. -/
inductive Spells : Token → List Char → Prop
  | text {cs : List Char} (hne : cs ≠ []) (h : '<' ∉ cs) : Spells (.text (String.ofList cs)) cs
  | tagOpen : Spells .tagOpen ['<']
  | closeOpen : Spells .closeOpen ['<', '/']
  | name {cs : List Char} (h : IsName cs) : Spells (.name (String.ofList cs)) cs
  | equals : Spells .equals ['=']
  | quoted {quote : Char} {cs : List Char} (hq : isQuote quote = true) (h : quote ∉ cs) :
    Spells (.quoted (String.ofList cs)) (quote :: (cs ++ [quote]))
  | tagEnd : Spells .tagEnd ['>']
  | selfClose : Spells .selfClose ['/', '>']

theorem Spells.ne_nil {token : Token} {part : List Char} (h : Spells token part) : part ≠ [] := by
  cases h with
  | text hne h => exact hne
  | name h =>
    rintro rfl
    exact h
  | tagOpen | closeOpen | equals | quoted | tagEnd | selfClose => exact List.cons_ne_nil _ _

/-- The mode that a token is read in. -/
def mode : Token → Mode
  | text _ | tagOpen | closeOpen => .content
  | name _ | equals | quoted _ | tagEnd | selfClose => .tag

/-- The mode after a token. -/
def nextMode : Token → Mode
  | text _ | tagEnd | selfClose => .content
  | tagOpen | closeOpen | name _ | equals | quoted _ => .tag

/-- What may come after a token: a text and a name are as long as they can be, and a `<` that opens
a tag is not the first half of `</`. -/
def Stops : Token → List Char → Prop
  | text _ => before (· == '<')
  | tagOpen => before (· != '/')
  | name _ => before (!isNameChar ·)
  | closeOpen | equals | quoted _ | tagEnd | selfClose => anything

theorem lexes_spelled {token : Token} {part : List Char} (h : Spells token part) :
    LexesAs token.mode token.nextMode part (Stops token) (IsToken token) := by
  cases h with
  | text hne h => exact lexes_text hne h
  | tagOpen => exact lexes_tagOpen
  | closeOpen => exact lexes_closeOpen
  | name h => exact lexes_name h
  | equals => exact lexes_equals
  | quoted hq h => exact lexes_quoted hq h
  | tagEnd => exact lexes_tagEnd
  | selfClose => exact lexes_selfClose

/-- What may come after a token is told by its first character. -/
theorem Stops.of_append {token : Token} {cs others : List Char} (h : Stops token (cs ++ others))
    (hne : cs ≠ []) (rest : List Char) : Stops token (cs ++ rest) := by
  obtain ⟨c, cs, rfl⟩ := List.exists_cons_of_ne_nil hne
  cases token with
  | text | tagOpen | name => exact fun x hx => h x hx
  | closeOpen | equals | quoted | tagEnd | selfClose => trivial

theorem Stops.append {token : Token} {cs : List Char} (h : Stops token cs) (hne : cs ≠ [])
    (rest : List Char) : Stops token (cs ++ rest) := by
  rw [← List.append_nil cs] at h
  exact h.of_append hne rest

/-- The tokens stand in the characters, which start at byte `offset`, one after the other, with
nothing but blanks inside tags between them. -/
inductive Laid : Mode → Nat → List Char → List Lexeme → Prop
  | done (offset : Nat) : Laid .content offset [] []
  | blank {offset : Nat} {c : Char} {cs : List Char} {xs : List Lexeme} (hc : isTagBlank c = true)
    (h : Laid .tag (offset + 1) cs xs) : Laid .tag offset (c :: cs) xs
  | token {token : Token} (part : List Char) {offset stop : Nat} {cs : List Char}
    {xs : List Lexeme} (hs : Spells token part) (hf : Stops token cs)
    (he : stop = offset + byteLength part) (h : Laid token.nextMode stop cs xs) :
    Laid token.mode offset (part ++ cs) (⟨token, offset, stop⟩ :: xs)

theorem before_dropWhile (p : Char → Bool) (cs : List Char) : before (!p ·) (cs.dropWhile p) := by
  intro c hc
  have hb := List.head?_dropWhile_not p cs
  rw [Option.mem_def.1 hc] at hb
  simpa using hb

theorem cons_takeWhile_append_dropWhile (p : Char → Bool) (c : Char) (rest : List Char) :
    c :: rest = (c :: rest.takeWhile p) ++ rest.dropWhile p :=
  congrArg (c :: ·) List.takeWhile_append_dropWhile.symm

theorem laid_text {offset : Nat} {c : Char} (hc : c ≠ '<') {rest : List Char} {xs : List Lexeme}
    (h : Laid .content (offset + byteLength (c :: rest.takeWhile (· != '<')))
      (rest.dropWhile (· != '<')) xs) :
    Laid .content offset (c :: rest)
      (⟨.text (String.ofList (c :: rest.takeWhile (· != '<'))), offset,
        offset + byteLength (c :: rest.takeWhile (· != '<'))⟩ :: xs) := by
  have hrun : '<' ∉ c :: rest.takeWhile (· != '<') := by
    intro hm
    rcases List.mem_cons.1 hm with rfl | hm
    · exact hc rfl
    · exact absurd (List.mem_takeWhile_imp hm) (by decide)
  have hstops : before (· == '<') (rest.dropWhile (· != '<')) := fun x hx => by
    have hb := before_dropWhile (· != '<') rest x hx
    simpa using hb
  rw [cons_takeWhile_append_dropWhile (· != '<') c rest]
  exact .token _ (.text (List.cons_ne_nil _ _) hrun) hstops rfl h

theorem laid_name {offset : Nat} {c : Char} (hc : isNameStart c = true) {rest : List Char}
    {xs : List Lexeme}
    (h : Laid .tag (offset + byteLength (c :: rest.takeWhile isNameChar))
      (rest.dropWhile isNameChar) xs) :
    Laid .tag offset (c :: rest)
      (⟨.name (String.ofList (c :: rest.takeWhile isNameChar)), offset,
        offset + byteLength (c :: rest.takeWhile isNameChar)⟩ :: xs) := by
  have hname : IsName (c :: rest.takeWhile isNameChar) :=
    ⟨hc, List.all_eq_true.2 fun x hx => List.mem_takeWhile_imp hx⟩
  rw [cons_takeWhile_append_dropWhile isNameChar c rest]
  exact .token _ (.name hname) (before_dropWhile isNameChar rest) rfl h

theorem utf8Size_of_isQuote {c : Char} (h : isQuote c = true) : c.utf8Size = 1 := by
  simp only [isQuote, Bool.or_eq_true, beq_iff_eq] at h
  rcases h with rfl | rfl <;> rfl

/-- What comes after a quote is cut where the same quote comes again. -/
theorem quoted_split {c quote : Char} {rest after : List Char}
    (hd : rest.dropWhile (· != c) = quote :: after) :
    c :: rest = (c :: (rest.takeWhile (· != c) ++ [c])) ++ after := by
  have hquote : quote = c := by
    have hb := before_dropWhile (· != c) rest
    rw [hd] at hb
    simpa using hb quote rfl
  subst hquote
  rw [List.cons_append, List.append_assoc, List.singleton_append, ← hd,
    List.takeWhile_append_dropWhile]

theorem byteLength_quoted {c : Char} (hc : isQuote c = true) (value : List Char) :
    byteLength (c :: (value ++ [c])) = byteLength value + 2 := by
  simp only [byteLength_cons, byteLength_append, byteLength_nil, utf8Size_of_isQuote hc]
  omega

theorem laid_quoted {offset : Nat} {c quote : Char} (hc : isQuote c = true)
    {rest after : List Char} (hd : rest.dropWhile (· != c) = quote :: after) {xs : List Lexeme}
    (h : Laid .tag (offset + byteLength (rest.takeWhile (· != c)) + 2) after xs) :
    Laid .tag offset (c :: rest)
      (⟨.quoted (String.ofList (rest.takeWhile (· != c))), offset,
        offset + byteLength (rest.takeWhile (· != c)) + 2⟩ :: xs) := by
  have hvalue : c ∉ rest.takeWhile (· != c) := fun hm => by
    simpa using List.mem_takeWhile_imp hm
  rw [quoted_split hd]
  refine .token _ (.quoted hc hvalue) trivial ?_ h
  rw [byteLength_quoted hc, Nat.add_assoc]

/-- The tokens of what the lexer accepts are laid out in it. -/
theorem laid_of_lexFrom {mode : Mode} {offset : Nat} {cs : List Char} {xs : List Lexeme}
    (h : lexFrom mode offset cs = .ok xs) : Laid mode offset cs xs := by
  -- the cases are the rules of the lexer in their order; those that fail accept nothing
  fun_induction lexFrom mode offset cs generalizing xs with
  | case1 offset =>
    cases h
    exact .done offset
  | case2 offset rest ih =>
    obtain ⟨ys, hy, rfl⟩ := map_eq_ok h
    exact .token ['<', '/'] .closeOpen trivial rfl (ih hy)
  | case3 offset rest hne ih =>
    obtain ⟨ys, hy, rfl⟩ := map_eq_ok h
    refine .token ['<'] .tagOpen (fun c hc => ?_) rfl (ih hy)
    obtain ⟨others, rfl⟩ := List.head?_eq_some_iff.1 hc
    rw [bne_iff_ne]
    rintro rfl
    exact hne others rfl
  | case4 offset c rest _ hc run stop =>
    rename_i ih
    obtain ⟨ys, hy, rfl⟩ := map_eq_ok h
    exact laid_text hc (ih hy)
  | case5 => cases h
  | case6 offset rest ih =>
    obtain ⟨ys, hy, rfl⟩ := map_eq_ok h
    exact .token ['='] .equals trivial rfl (ih hy)
  | case7 offset rest ih =>
    obtain ⟨ys, hy, rfl⟩ := map_eq_ok h
    exact .token ['>'] .tagEnd trivial rfl (ih hy)
  | case8 offset rest ih =>
    obtain ⟨ys, hy, rfl⟩ := map_eq_ok h
    exact .token ['/', '>'] .selfClose trivial rfl (ih hy)
  | case9 offset c rest _ _ _ hb ih => exact .blank hb (ih h)
  | case10 offset c rest _ _ _ _ hs name stop =>
    rename_i ih
    obtain ⟨ys, hy, rfl⟩ := map_eq_ok h
    exact laid_name hs (ih hy)
  | case11 => cases h
  | case12 offset c rest _ _ _ _ _ hq quote after hd value stop =>
    rename_i ih
    obtain ⟨ys, hy, rfl⟩ := map_eq_ok h
    exact laid_quoted hq hd (ih hy)
  | case13 => cases h

end TermMarkup.Token

namespace TermMarkup.Tag

open Token Item

/-! ## Written tags -/

/-- How a written attribute is read: its value stays escaped. -/
structure ReadAs (a : String × String) (w : WrittenAttribute) : Prop where
  name : w.name = a.1
  value : w.value = some (Entity.escapeValue a.2)

theorem toList_writtenAttribute (a : String × String) :
    (writtenAttribute a).toList =
      [' '] ++ (a.1.toList ++ (['='] ++ ('\x22' :: ((Entity.escapeValue a.2).toList ++ ['\x22'])))) := by
  simp [writtenAttribute]

theorem toList_writtenAttributes_cons (a : String × String) (as : List (String × String)) :
    (writtenAttributes (a :: as)).toList = (writtenAttribute a).toList ++ (writtenAttributes as).toList := by
  simp [writtenAttributes]

theorem before_cons {p : Char → Bool} {c : Char} (h : p c = true) (rest : List Char) :
    before p (c :: rest) := by
  intro x hx
  cases Option.some.inj hx
  exact h

theorem lexes_writtenAttribute {a : String × String} (hn : IsName a.1.toList) :
    LexesAs .tag .tag (writtenAttribute a).toList anything
      fun xs => ∃ w, ReadAs a w ∧ Attributes xs [w] := by
  have hname := lexes_name hn
  have hquoted := lexes_quoted (by decide) (Entity.quote_notMem_escapeValue a.2)
  rw [String.ofList_toList] at hname hquoted
  have hvalue := lexes_equals.append (R := fun xs => ∃ equals quoted,
      xs = [⟨.equals, equals⟩, ⟨.quoted (Entity.escapeValue a.2), quoted⟩]) hquoted
    (fun _ _ => trivial) (by
      rintro _ _ ⟨equals, rfl⟩ ⟨quoted, rfl⟩
      exact ⟨equals, quoted, rfl⟩)
  have hpair := hname.append (R := fun xs => ∃ w, ReadAs a w ∧ Attributes xs [w]) hvalue
    (fun _ _ => before_cons (by decide) _) (by
      rintro _ _ ⟨span, rfl⟩ ⟨equals, quoted, rfl⟩
      exact ⟨_, ⟨rfl, rfl⟩, .valued ⟨a.1, span⟩ equals _ quoted .nil⟩)
  rw [toList_writtenAttribute]
  refine (lexes_blank (by decide)).append hpair (fun _ _ => trivial) ?_
  rintro _ xs rfl h
  exact h

theorem lexes_writtenAttributes {as : List (String × String)}
    (hn : ∀ a ∈ as, IsName a.1.toList) :
    LexesAs .tag .tag (writtenAttributes as).toList anything
      fun xs => ∃ ws, List.Forall₂ ReadAs as ws ∧ Attributes xs ws := by
  induction as with
  | nil => exact (lexes_nil .tag).imp fun xs h => ⟨[], .nil, h ▸ .nil⟩
  | cons a as ih =>
    obtain ⟨ha, has⟩ := List.forall_mem_cons.1 hn
    rw [toList_writtenAttributes_cons]
    refine (lexes_writtenAttribute ha).append (ih has) (fun _ _ => trivial) ?_
    rintro xs ys ⟨w, hw, hx⟩ ⟨ws, hws, hy⟩
    exact ⟨w :: ws, .cons hw hws, hx.append hy⟩

/-- The tokens are those of an opening tag with the given name and attributes. -/
def OpensAs (name : String) (as : List (String × String)) (xs : List Lexeme) (tag : OpenTag) : Prop :=
  Opening xs tag ∧ tag.name.text = name ∧ List.Forall₂ ReadAs as tag.attributes

section

variable {name : String} {as : List (String × String)}

theorem before_writtenAttributes {rest : List Char} (h : before (!isNameChar ·) rest) :
    before (!isNameChar ·) ((writtenAttributes as).toList ++ rest) := by
  cases as with
  | nil => exact h
  | cons a as =>
    rw [toList_writtenAttributes_cons, toList_writtenAttribute]
    exact before_cons (by decide) _

theorem before_name (hn : IsName name.toList) (rest : List Char) :
    before (· != '/') (name.toList ++ rest) := by
  obtain ⟨c, cs, he, hc, -⟩ := hn.exists_cons
  rw [he]
  refine before_cons ?_ _
  rw [bne_iff_ne]
  rintro rfl
  exact absurd hc (by decide)

theorem lexes_tagStart (hn : IsName name.toList) (has : ∀ a ∈ as, IsName a.1.toList) :
    LexesAs .content .tag (['<'] ++ (name.toList ++ (writtenAttributes as).toList))
      (before (!isNameChar ·)) fun xs => ∃ tag, OpensAs name as xs tag := by
  have hname := lexes_name hn
  rw [String.ofList_toList] at hname
  have hrest := hname.append (R := fun xs => ∃ span ys ws, xs = ⟨.name name, span⟩ :: ys ∧
      List.Forall₂ ReadAs as ws ∧ Attributes ys ws)
    ((lexes_writtenAttributes has).restrict fun _ _ => trivial)
    (fun _ hr => before_writtenAttributes hr) (by
      rintro _ ys ⟨span, rfl⟩ ⟨ws, hws, hy⟩
      exact ⟨span, ys, ws, rfl, hws, hy⟩)
  refine lexes_tagOpen.append hrest (fun rest _ => ?_) ?_
  · rw [List.append_assoc]
    exact before_name hn _
  · rintro _ _ ⟨start, rfl⟩ ⟨span, ys, ws, rfl, hws, hy⟩
    exact ⟨_, .intro start ⟨name, span⟩ hy, rfl, hws⟩

theorem toList_opening :
    (opening name as).toList =
      (['<'] ++ (name.toList ++ (writtenAttributes as).toList)) ++ ['>'] := by
  simp [opening]

theorem toList_selfClosing :
    (selfClosing name as).toList =
      (['<'] ++ (name.toList ++ (writtenAttributes as).toList)) ++ ['/', '>'] := by
  simp [selfClosing]

theorem toList_closing : (closing name).toList = ['<', '/'] ++ (name.toList ++ ['>']) := by
  simp [closing]

/-- The lexer reads a written opening tag. -/
theorem lexes_opening (hn : IsName name.toList) (has : ∀ a ∈ as, IsName a.1.toList) :
    LexesAs .content .content (opening name as).toList anything
      fun xs => ∃ ys tag stop, xs = ys ++ [⟨.tagEnd, stop⟩] ∧ OpensAs name as ys tag := by
  rw [toList_opening]
  refine (lexes_tagStart hn has).append lexes_tagEnd (fun _ _ => before_cons (by decide) _) ?_
  rintro ys _ ⟨tag, ht⟩ ⟨stop, rfl⟩
  exact ⟨ys, tag, stop, rfl, ht⟩

/-- The lexer reads a written self-closing tag. -/
theorem lexes_selfClosing (hn : IsName name.toList) (has : ∀ a ∈ as, IsName a.1.toList) :
    LexesAs .content .content (selfClosing name as).toList anything
      fun xs => ∃ ys tag stop, xs = ys ++ [⟨.selfClose, stop⟩] ∧ OpensAs name as ys tag := by
  rw [toList_selfClosing]
  refine (lexes_tagStart hn has).append lexes_selfClose (fun _ _ => before_cons (by decide) _) ?_
  rintro ys _ ⟨tag, ht⟩ ⟨stop, rfl⟩
  exact ⟨ys, tag, stop, rfl, ht⟩

/-- The lexer reads a written closing tag. -/
theorem lexes_closing (hn : IsName name.toList) :
    LexesAs .content .content (closing name).toList anything
      fun xs => ∃ start span stop,
        xs = [⟨.closeOpen, start⟩, ⟨.name name, span⟩, ⟨.tagEnd, stop⟩] := by
  have hname := lexes_name hn
  rw [String.ofList_toList] at hname
  have hrest := hname.append (R := fun xs => ∃ span stop, xs = [⟨.name name, span⟩, ⟨.tagEnd, stop⟩])
    lexes_tagEnd (fun _ _ => before_cons (by decide) _) (by
      rintro _ _ ⟨span, rfl⟩ ⟨stop, rfl⟩
      exact ⟨span, stop, rfl⟩)
  rw [toList_closing]
  refine lexes_closeOpen.append hrest (fun _ _ => trivial) ?_
  rintro _ _ ⟨start, rfl⟩ ⟨span, stop, rfl⟩
  exact ⟨start, span, stop, rfl⟩

end

end TermMarkup.Tag
