/-
Escaping and decoding: decoding undoes both ways of escaping, escaped text holds no `<` and an
escaped value no double quote, and both go through a text character by character, so that writing
two texts one after the other writes their concatenation.
-/
import TermMarkup.Entity
import Mathlib.Data.List.Basic

namespace TermMarkup.Entity

/-! ## Decoding -/

theorem decodeChars_cons {c : Char} (hc : c ≠ '&') (cs : List Char) :
    decodeChars (c :: cs) = c :: decodeChars cs := by
  rw [decodeChars.eq_def]
  split <;> simp_all

/-- Every reference stands for a character, so decoding leaves something of any text. -/
theorem decode_ne_empty {text : String} (h : text ≠ "") : decode text ≠ "" := by
  have hchars : ∀ cs : List Char, decodeChars cs = [] → cs = [] := by
    intro cs hcs
    rw [decodeChars.eq_def] at hcs
    split at hcs
    case h_7 => rfl
    all_goals cases hcs
  intro he
  exact h (String.toList_eq_nil_iff.1 (hchars _ (String.ofList_eq_empty_iff.1 he)))

theorem decodeChars_escapeTextChar (c : Char) (cs : List Char) :
    decodeChars (escapeTextChar c ++ cs) = c :: decodeChars cs := by
  unfold escapeTextChar
  split
  · rename_i h
    rw [beq_iff_eq] at h
    subst h; rfl
  · rename_i hamp
    rw [beq_iff_eq] at hamp
    split
    · rename_i h
      rw [beq_iff_eq] at h
      subst h; rfl
    · exact decodeChars_cons hamp cs

theorem decodeChars_escapeValueChar (c : Char) (cs : List Char) :
    decodeChars (escapeValueChar c ++ cs) = c :: decodeChars cs := by
  unfold escapeValueChar
  split
  · rename_i h
    rw [beq_iff_eq] at h
    subst h; rfl
  · exact decodeChars_escapeTextChar c cs

/-- Decoding undoes an escape that it undoes one character at a time. -/
theorem decodeChars_flatMap {escape : Char → List Char}
    (h : ∀ c cs, decodeChars (escape c ++ cs) = c :: decodeChars cs) (cs : List Char) :
    decodeChars (cs.flatMap escape) = cs := by
  induction cs with
  | nil => rfl
  | cons c cs ih => rw [List.flatMap_cons, h, ih]

/-- Decoding an escaped text gives the text. -/
theorem decode_escapeText (text : String) : decode (escapeText text) = text := by
  unfold decode escapeText
  rw [String.toList_ofList, decodeChars_flatMap decodeChars_escapeTextChar, String.ofList_toList]

/-- Decoding an escaped value gives the value. -/
theorem decode_escapeValue (value : String) : decode (escapeValue value) = value := by
  unfold decode escapeValue
  rw [String.toList_ofList, decodeChars_flatMap decodeChars_escapeValueChar, String.ofList_toList]

/-! ## What escaped characters are -/

theorem toList_escapeText (text : String) :
    (escapeText text).toList = text.toList.flatMap escapeTextChar :=
  String.toList_ofList

theorem toList_escapeValue (value : String) :
    (escapeValue value).toList = value.toList.flatMap escapeValueChar :=
  String.toList_ofList

theorem lt_notMem_escapeTextChar (c : Char) : '<' ∉ escapeTextChar c := by
  unfold escapeTextChar
  split
  · decide
  · split
    · decide
    · rename_i h
      rw [beq_iff_eq] at h
      simpa using Ne.symm h

theorem quote_notMem_escapeValueChar (c : Char) : '\x22' ∉ escapeValueChar c := by
  unfold escapeValueChar escapeTextChar
  split
  · decide
  · rename_i h
    rw [beq_iff_eq] at h
    split
    · decide
    · split
      · decide
      · simpa using Ne.symm h

theorem lt_notMem_escapeText (text : String) : '<' ∉ (escapeText text).toList := by
  rw [toList_escapeText, List.mem_flatMap]
  rintro ⟨c, -, hc⟩
  exact lt_notMem_escapeTextChar c hc

theorem quote_notMem_escapeValue (value : String) : '\x22' ∉ (escapeValue value).toList := by
  rw [toList_escapeValue, List.mem_flatMap]
  rintro ⟨c, -, hc⟩
  exact quote_notMem_escapeValueChar c hc

/-! ## Texts in a row -/

theorem escapeText_empty : escapeText "" = "" := rfl

theorem escapeText_append (a b : String) : escapeText (a ++ b) = escapeText a ++ escapeText b := by
  unfold escapeText
  rw [String.toList_append, List.flatMap_append, String.ofList_append]

theorem escapeTextChar_ne_nil (c : Char) : escapeTextChar c ≠ [] := by
  unfold escapeTextChar
  split
  · decide
  · split
    · decide
    · exact List.cons_ne_nil _ _

theorem toList_escapeText_ne_nil {text : String} (h : text ≠ "") :
    (escapeText text).toList ≠ [] := by
  rw [toList_escapeText]
  intro he
  rw [List.flatMap_eq_nil_iff] at he
  cases ht : text.toList with
  | nil => exact h (String.toList_eq_nil_iff.1 ht)
  | cons c cs =>
    have hc : c ∈ text.toList := by rw [ht]; exact List.mem_cons_self
    exact escapeTextChar_ne_nil c (he c hc)

end TermMarkup.Entity
