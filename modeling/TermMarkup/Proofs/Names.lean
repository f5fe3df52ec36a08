/-
Names of attributes and their camel case. A name is written as words with dashes and underscores
between them, and perhaps after the last. Camel case keeps the words alone, and of their first
letters not the case, so all ways to write the same words give the same name. Every name that the
lexer reads is written in such a way; its camel case is one word, and in camel case already.
-/
import TermMarkup.Text.Camel
import TermMarkup.Proofs.Lossless

namespace TermMarkup.Text

/-! ## Words and how they are written -/

/-- One or more ASCII letters and digits. -/
structure IsWord (cs : List Char) : Prop where
  ne_nil : cs ≠ []
  alphanum : ∀ c ∈ cs, c.isAlphanum = true

/-- Nothing but dashes and underscores. -/
def IsGap (cs : List Char) : Prop :=
  ∀ c ∈ cs, c = '-' ∨ c = '_'

/-- The characters are those of the word, but for the case of the first letter. -/
def WrittenAs (word cs : List Char) : Prop :=
  cs.modifyHead Char.toLower = word.modifyHead Char.toLower

/-- The characters are the words in their order, with gaps between them and perhaps a gap after the
last; the first letter of each word is in either case. -/
inductive Spelled : List (List Char) → List Char → Prop
  | last {word cs trail : List Char} (hw : IsWord word) (hc : WrittenAs word cs)
    (ht : IsGap trail) : Spelled [word] (cs ++ trail)
  | next {word cs gap rest : List Char} {words : List (List Char)} (hw : IsWord word)
    (hc : WrittenAs word cs) (hne : gap ≠ []) (hg : IsGap gap) (h : Spelled words rest) :
    Spelled (word :: words) (cs ++ (gap ++ rest))

/-- The words as one name: the first begins in lower case and each later one in upper case. -/
def joinWords : List (List Char) → List Char
  | [] => []
  | word :: words => word.modifyHead Char.toLower ++ words.flatMap (List.modifyHead Char.toUpper)

/-! ## Letters in either case -/

theorem toNat_lt_of_isAlphanum {c : Char} (h : c.isAlphanum = true) : c.toNat < 128 := by
  -- each of the three classes has a greatest character
  have hlt {top : Char} (htop : top.toNat < 128) (hc : c.val ≤ top.val) : c.toNat < 128 :=
    Nat.lt_of_le_of_lt (UInt32.le_iff_toNat_le.1 hc) htop
  obtain h | h := Bool.or_eq_true_iff.1 h
  · obtain h | h := Bool.or_eq_true_iff.1 h
    · exact hlt (by decide) (of_decide_eq_true h).2
    · exact hlt (by decide) (of_decide_eq_true (Bool.and_eq_true_iff.1 h).2)
  · exact hlt (by decide) (of_decide_eq_true (Bool.and_eq_true_iff.1 h).2)

theorem lower_of_isAlphanum {c : Char} (h : c.isAlphanum = true) : lower c = [c.toLower] :=
  if_pos (toNat_lt_of_isAlphanum h)

theorem upper_of_isAlphanum {c : Char} (h : c.isAlphanum = true) : upper c = [c.toUpper] :=
  if_pos (toNat_lt_of_isAlphanum h)

/-- Case is a matter of ASCII: whatever is true of its characters, and of those that have no case, is
true of all. -/
theorem ascii_or_caseless (c : Char) :
    (∃ n : Fin 128, c = Char.ofNat n) ∨ (c.toLower = c ∧ c.toUpper = c) := by
  by_cases h : c.toNat < 128
  · exact .inl ⟨⟨c.toNat, h⟩, (Char.ofNat_toNat c).symm⟩
  · have hc : 128 ≤ c.val.toNat := Nat.le_of_not_lt h
    refine .inr ⟨dif_neg ?_, dif_neg ?_⟩
    · rw [UInt32.le_iff_toNat_le, ge_iff_le, UInt32.le_iff_toNat_le]
      change ¬ (65 ≤ c.val.toNat ∧ c.val.toNat ≤ 90)
      omega
    · rw [UInt32.le_iff_toNat_le, UInt32.le_iff_toNat_le]
      change ¬ (97 ≤ c.val.toNat ∧ c.val.toNat ≤ 122)
      omega

theorem isAlphanum_toLower (c : Char) : c.toLower.isAlphanum = c.isAlphanum := by
  obtain ⟨n, rfl⟩ | ⟨hl, -⟩ := ascii_or_caseless c
  · revert n
    decide +kernel
  · rw [hl]

theorem isAlphanum_toUpper (c : Char) : c.toUpper.isAlphanum = c.isAlphanum := by
  obtain ⟨n, rfl⟩ | ⟨-, hu⟩ := ascii_or_caseless c
  · revert n
    decide +kernel
  · rw [hu]

theorem toLower_toLower (c : Char) : c.toLower.toLower = c.toLower := by
  obtain ⟨n, rfl⟩ | ⟨hl, -⟩ := ascii_or_caseless c
  · revert n
    decide +kernel
  · rw [hl, hl]

theorem toUpper_toLower (c : Char) : c.toLower.toUpper = c.toUpper := by
  obtain ⟨n, rfl⟩ | ⟨hl, -⟩ := ascii_or_caseless c
  · revert n
    decide +kernel
  · rw [hl]
theorem not_gap_of_isAlphanum {c : Char} (h : c.isAlphanum = true) : ¬ (c = '-' ∨ c = '_') := by
  rintro (rfl | rfl) <;> exact absurd h (by decide)

theorem isWord_cons {c : Char} {cs : List Char} :
    IsWord (c :: cs) ↔ c.isAlphanum = true ∧ ∀ x ∈ cs, x.isAlphanum = true :=
  ⟨fun h => List.forall_mem_cons.1 h.alphanum,
    fun h => ⟨List.cons_ne_nil c cs, List.forall_mem_cons.2 h⟩⟩

/-- A word stays one when its first letter changes its case. -/
theorem isWord_modifyHead {f : Char → Char} (hf : ∀ c, (f c).isAlphanum = c.isAlphanum)
    {cs : List Char} : IsWord (cs.modifyHead f) ↔ IsWord cs := by
  cases cs with
  | nil => rfl
  | cons c cs => rw [List.modifyHead_cons, isWord_cons, isWord_cons, hf]

namespace IsWord

variable {word : List Char}

theorem append {cs : List Char} (h : IsWord word) (hcs : ∀ c ∈ cs, c.isAlphanum = true) :
    IsWord (word ++ cs) :=
  ⟨List.append_ne_nil_of_left_ne_nil h.ne_nil cs, List.forall_mem_append.2 ⟨h.alphanum, hcs⟩⟩

theorem notMem_of_gap (h : IsWord word) {c : Char} (hc : c = '-' ∨ c = '_') : c ∉ word :=
  fun hm => not_gap_of_isAlphanum (h.alphanum c hm) hc

end IsWord

namespace WrittenAs

variable {word cs : List Char}

/-- The case of the first letter is lost when it is put in upper case, too. -/
theorem toUpper_eq (h : WrittenAs word cs) :
    cs.modifyHead Char.toUpper = word.modifyHead Char.toUpper := by
  have hcomp : Char.toUpper ∘ Char.toLower = Char.toUpper := funext toUpper_toLower
  rw [← hcomp, ← List.modifyHead_modifyHead, h, List.modifyHead_modifyHead]

theorem isWord (h : WrittenAs word cs) (hw : IsWord word) : IsWord cs := by
  rw [← isWord_modifyHead isAlphanum_toLower, h, isWord_modifyHead isAlphanum_toLower]
  exact hw

end WrittenAs

/-! ## Camel case along a spelling -/

section

variable {word gap : List Char}

theorem not_isWordBreak_of_isAlphanum {c : Char} (h : c.isAlphanum = true) :
    ¬ isWordBreak c = true := by
  rw [isWordBreak, Bool.or_eq_true, beq_iff_eq, beq_iff_eq]
  exact not_gap_of_isAlphanum h

theorem camelChars_gap_cons {c : Char} (hc : c = '-' ∨ c = '_') (started atWord : Bool)
    (cs : List Char) : camelChars started atWord (c :: cs) = camelChars started started cs := by
  rcases hc with rfl | rfl <;> rfl

theorem camelChars_gap (hg : IsGap gap) (hne : gap ≠ []) (atWord : Bool) (rest : List Char) :
    camelChars true atWord (gap ++ rest) = camelChars true true rest := by
  induction gap generalizing atWord with
  | nil => exact absurd rfl hne
  | cons c gap ih =>
    obtain ⟨hc, hg⟩ := List.forall_mem_cons.1 hg
    rw [List.cons_append, camelChars_gap_cons hc]
    cases gap with
    | nil => rfl
    | cons d gap => exact ih hg (List.cons_ne_nil d gap) true

theorem camelChars_trail (hg : IsGap gap) (atWord : Bool) : camelChars true atWord gap = [] := by
  cases gap with
  | nil => rfl
  | cons c gap =>
    have hend := camelChars_gap hg (List.cons_ne_nil c gap) atWord []
    rwa [List.append_nil] at hend

/-- The first character of a name is put in lower case. -/
theorem camelChars_start {c : Char} (hc : c.isAlphanum = true) (atWord : Bool) (cs : List Char) :
    camelChars false atWord (c :: cs) = c.toLower :: camelChars true false cs := by
  rw [camelChars, if_neg (not_isWordBreak_of_isAlphanum hc), lower_of_isAlphanum hc]
  rfl

/-- The first character after a gap is put in upper case. -/
theorem camelChars_later {c : Char} (hc : c.isAlphanum = true) (cs : List Char) :
    camelChars true true (c :: cs) = c.toUpper :: camelChars true false cs := by
  rw [camelChars, if_neg (not_isWordBreak_of_isAlphanum hc), upper_of_isAlphanum hc]
  rfl

theorem camelChars_inside {c : Char} (hc : c.isAlphanum = true) (cs : List Char) :
    camelChars true false (c :: cs) = c :: camelChars true false cs := by
  rw [camelChars, if_neg (not_isWordBreak_of_isAlphanum hc)]
  rfl

theorem camelChars_inside_append {cs : List Char} (hcs : ∀ c ∈ cs, c.isAlphanum = true)
    (rest : List Char) : camelChars true false (cs ++ rest) = cs ++ camelChars true false rest := by
  induction cs with
  | nil => rfl
  | cons c cs ih =>
    obtain ⟨hc, hcs⟩ := List.forall_mem_cons.1 hcs
    rw [List.cons_append, camelChars_inside hc, ih hcs, List.cons_append]

/-- A word is kept, but for its first character, which becomes what `f` makes of it. -/
theorem camelChars_word {started atWord : Bool} {f : Char → Char}
    (hf : ∀ c, c.isAlphanum = true → ∀ cs,
      camelChars started atWord (c :: cs) = f c :: camelChars true false cs)
    (hw : IsWord word) (rest : List Char) :
    camelChars started atWord (word ++ rest) = word.modifyHead f ++ camelChars true false rest := by
  cases word with
  | nil => exact absurd rfl hw.ne_nil
  | cons c cs =>
    obtain ⟨hc, hcs⟩ := isWord_cons.1 hw
    rw [List.cons_append, hf c hc, camelChars_inside_append hcs, List.modifyHead_cons,
      List.cons_append]

theorem camelChars_first_word (hw : IsWord word) (rest : List Char) :
    camelChars false false (word ++ rest) =
      word.modifyHead Char.toLower ++ camelChars true false rest :=
  camelChars_word (fun _ hc => camelChars_start hc false) hw rest

theorem camelChars_later_word (hw : IsWord word) (rest : List Char) :
    camelChars true true (word ++ rest) =
      word.modifyHead Char.toUpper ++ camelChars true false rest :=
  camelChars_word (fun _ hc => camelChars_later hc) hw rest

end

namespace Spelled

variable {words : List (List Char)} {cs : List Char}

theorem isWord (h : Spelled words cs) : ∀ word ∈ words, IsWord word := by
  induction h with
  | last hw _ _ => exact List.forall_mem_singleton.2 hw
  | next hw _ _ _ _ ih => exact List.forall_mem_cons.2 ⟨hw, ih⟩

theorem camelChars_words (h : Spelled words cs) :
    camelChars true true cs = words.flatMap (List.modifyHead Char.toUpper) := by
  induction h with
  | last hw hc ht =>
    rw [camelChars_later_word (hc.isWord hw), camelChars_trail ht, hc.toUpper_eq,
      List.flatMap_singleton, List.append_nil]
  | next hw hc hne hg _ ih =>
    rw [camelChars_later_word (hc.isWord hw), camelChars_gap hg hne, hc.toUpper_eq, ih,
      List.flatMap_cons]

/-- Camel case depends on the words alone, not on the way they are written. -/
theorem camelChars_eq (h : Spelled words cs) : camelChars false false cs = joinWords words := by
  cases h with
  | last hw hc ht =>
    rw [camelChars_first_word (hc.isWord hw), camelChars_trail ht, hc]
    rfl
  | next hw hc hne hg h =>
    rw [camelChars_first_word (hc.isWord hw), camelChars_gap hg hne, hc, h.camelChars_words]
    rfl

/-- The words as one name are one word. -/
theorem isWord_joinWords (h : Spelled words cs) : IsWord (joinWords words) := by
  have hwords := h.isWord
  cases words with
  | nil => cases h
  | cons word words =>
    obtain ⟨hw, hwords⟩ := List.forall_mem_cons.1 hwords
    refine ((isWord_modifyHead isAlphanum_toLower).2 hw).append fun c hc => ?_
    obtain ⟨later, hm, hc⟩ := List.mem_flatMap.1 hc
    exact ((isWord_modifyHead isAlphanum_toUpper).2 (hwords later hm)).alphanum c hc

theorem joinWords_joinWords (h : Spelled words cs) :
    joinWords [joinWords words] = joinWords words := by
  have hwords := h.isWord
  cases words with
  | nil => cases h
  | cons word words =>
    obtain ⟨hne, -⟩ := (List.forall_mem_cons.1 hwords).1
    cases word with
    | nil => exact absurd rfl hne
    | cons c word =>
      simp only [joinWords, List.modifyHead_cons, List.cons_append, toLower_toLower,
        List.flatMap_nil, List.append_nil]

end Spelled

theorem camelCase_of_spelled {words : List (List Char)} {name : String}
    (h : Spelled words name.toList) : camelCase name = String.ofList (joinWords words) := by
  rw [camelCase, h.camelChars_eq]

/-! ## Names that the lexer reads -/

/-- A letter or digit in front of a spelling begins its first word. -/
theorem Spelled.cons {words : List (List Char)} {cs : List Char} (h : Spelled words cs) {c : Char}
    (hc : c.isAlphanum = true) : ∃ words, Spelled words (c :: cs) := by
  have hword {written : List Char} (hw : IsWord written) : IsWord (c :: written) :=
    isWord_cons.2 ⟨hc, hw.alphanum⟩
  cases h with
  | @last word written trail hw hc ht =>
    exact ⟨[c :: written], .last (hword (hc.isWord hw)) rfl ht⟩
  | @next word written gap rest words hw hc hne hg h =>
    exact ⟨(c :: written) :: words, .next (hword (hc.isWord hw)) rfl hne hg h⟩

/-- Letters, digits, dashes and underscores are a gap, which may be empty, and a spelling after it
unless they end there. -/
theorem exists_gap_spelled {cs : List Char} (h : ∀ c ∈ cs, Token.isNameChar c = true) :
    ∃ gap rest, cs = gap ++ rest ∧ IsGap gap ∧ (rest = [] ∨ ∃ words, Spelled words rest) := by
  induction cs with
  | nil => exact ⟨[], [], rfl, List.forall_mem_nil _, Or.inl rfl⟩
  | cons c cs ih =>
    obtain ⟨hc, hcs⟩ := List.forall_mem_cons.1 h
    obtain ⟨gap, rest, rfl, hg, hrest⟩ := ih hcs
    by_cases ha : c.isAlphanum = true
    · -- the character begins a word: all of a word, or the front of the one that comes next
      have hword : IsWord [c] := isWord_cons.2 ⟨ha, List.forall_mem_nil _⟩
      refine ⟨[], c :: (gap ++ rest), rfl, List.forall_mem_nil _, Or.inr ?_⟩
      rcases hrest with rfl | ⟨words, hrest⟩
      · rw [List.append_nil]
        exact ⟨[[c]], .last hword rfl hg⟩
      · cases gap with
        | nil => exact hrest.cons ha
        | cons d gap => exact ⟨[c] :: words, .next hword rfl (List.cons_ne_nil d gap) hg hrest⟩
    · have hgap : c = '-' ∨ c = '_' := by
        simp only [Token.isNameChar, ha, Bool.false_or, Bool.or_eq_true, beq_iff_eq] at hc
        exact hc.symm
      exact ⟨c :: gap, rest, rfl, List.forall_mem_cons.2 ⟨hgap, hg⟩, hrest⟩

theorem exists_spelled_of_isName {cs : List Char} (h : Token.IsName cs) :
    ∃ words, Spelled words cs := by
  obtain ⟨c, cs, rfl, hc, hcs⟩ := h.exists_cons
  have ha : c.isAlphanum = true := by
    rw [Char.isAlphanum, show c.isAlpha = true from hc, Bool.true_or]
  have hall : ∀ x ∈ c :: cs, Token.isNameChar x = true := by
    refine List.forall_mem_cons.2 ⟨?_, hcs⟩
    rw [Token.isNameChar, ha, Bool.true_or, Bool.true_or]
  obtain ⟨gap, rest, he, hg, hrest⟩ := exists_gap_spelled hall
  cases gap with
  | nil =>
    rw [List.nil_append] at he
    subst he
    exact hrest.resolve_left (List.cons_ne_nil c cs)
  | cons d gap =>
    -- a name does not begin with a gap
    cases he
    exact absurd (hg c List.mem_cons_self) (not_gap_of_isAlphanum ha)

theorem isName_of_lex {source : String} {xs : List Lexeme} (h : Token.lex source = .ok xs)
    {x : Lexeme} (hx : x ∈ xs) {name : String} (hname : x.token = .name name) :
    Token.IsName name.toList := by
  obtain ⟨before, part, after, -, hs, -⟩ := (Token.laid_of_lexFrom h).placed hx
  rw [hname] at hs
  cases hs with
  | name h => rwa [String.toList_ofList]

/-- Camel case settles every name that the lexer reads. The result is not empty, has no dash and no
underscore and is its own camel case. The name is written as some words, which the result has
joined; and of whatever words the name is a spelling, each other spelling has the same result. -/
theorem camelCase_of_lexed_name {source : String} {xs : List Lexeme} {x : Lexeme} {name : String}
    (hlex : Token.lex source = .ok xs) (hx : x ∈ xs) (hname : x.token = .name name) :
    camelCase name ≠ "" ∧ '-' ∉ (camelCase name).toList ∧ '_' ∉ (camelCase name).toList ∧
      camelCase (camelCase name) = camelCase name ∧
      (∃ words, Spelled words name.toList ∧ camelCase name = String.ofList (joinWords words)) ∧
      ∀ words, Spelled words name.toList → ∀ other : String, Spelled words other.toList →
        camelCase other = camelCase name := by
  obtain ⟨words, hs⟩ := exists_spelled_of_isName (isName_of_lex hlex hx hname)
  have hcamel := camelCase_of_spelled hs
  have hword : IsWord (camelCase name).toList := by
    rw [hcamel, String.toList_ofList]
    exact hs.isWord_joinWords
  refine ⟨?_, hword.notMem_of_gap (Or.inl rfl), hword.notMem_of_gap (Or.inr rfl), ?_,
    ⟨words, hs, hcamel⟩, ?_⟩
  · intro he
    exact hword.ne_nil (congrArg String.toList he)
  · -- the result is a spelling of itself as one word
    have hself : Spelled [(camelCase name).toList] (camelCase name).toList := by
      have hlast := Spelled.last hword rfl (List.forall_mem_nil _)
      rwa [List.append_nil] at hlast
    rw [camelCase_of_spelled hself, hcamel, String.toList_ofList, hs.joinWords_joinWords]
  · intro words hs other ho
    rw [camelCase_of_spelled hs, camelCase_of_spelled ho]

/-- A name of three words, the last a digit, and the same words with capitals, longer gaps and a gap
at the end. -/
theorem camelCase_of_lexed_name_spellings :
    Token.lex "<p my-a_2/>" =
        .ok [⟨.tagOpen, 0, 1⟩, ⟨.name "p", 1, 2⟩, ⟨.name "my-a_2", 3, 9⟩, ⟨.selfClose, 9, 11⟩] ∧
      Spelled [['m', 'y'], ['a'], ['2']] "my-a_2".toList ∧
      Spelled [['m', 'y'], ['a'], ['2']] "My__A-2_-".toList ∧
      camelCase "my-a_2" = "myA2" ∧ camelCase "my-a_2" ≠ "" ∧
      camelCase (camelCase "my-a_2") = camelCase "my-a_2" ∧
      camelCase "My__A-2_-" = camelCase "my-a_2" := by
  have hlex : Token.lex "<p my-a_2/>" =
      .ok [⟨.tagOpen, 0, 1⟩, ⟨.name "p", 1, 2⟩, ⟨.name "my-a_2", 3, 9⟩, ⟨.selfClose, 9, 11⟩] := by
    decide +kernel
  have hmy : IsWord ['m', 'y'] := ⟨by simp, List.all_eq_true.1 rfl⟩
  have ha : IsWord ['a'] := ⟨by simp, List.all_eq_true.1 rfl⟩
  have htwo : IsWord ['2'] := ⟨by simp, List.all_eq_true.1 rfl⟩
  have hname : Spelled [['m', 'y'], ['a'], ['2']]
      (['m', 'y'] ++ (['-'] ++ (['a'] ++ (['_'] ++ (['2'] ++ []))))) :=
    .next hmy rfl (by simp) (by simp [IsGap]) (.next ha rfl (by simp) (by simp [IsGap])
      (.last htwo rfl (by simp [IsGap])))
  have hother : Spelled [['m', 'y'], ['a'], ['2']]
      (['M', 'y'] ++ (['_', '_'] ++ (['A'] ++ (['-'] ++ (['2'] ++ ['_', '-']))))) :=
    .next hmy rfl (by simp) (by simp [IsGap]) (.next ha rfl (by simp) (by simp [IsGap])
      (.last htwo rfl (by simp [IsGap])))
  obtain ⟨hne, -, -, hself, -, hsame⟩ :=
    camelCase_of_lexed_name hlex (x := ⟨.name "my-a_2", 3, 9⟩) (by simp) rfl
  exact ⟨hlex, hname, hother, by decide, hne, hself, hsame _ hname "My__A-2_-" hother⟩

end TermMarkup.Text
