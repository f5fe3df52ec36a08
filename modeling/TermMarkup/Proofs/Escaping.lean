/-
What escaping promises to those who write markup: decoding gives back the text or the value that was
escaped, and the lexer cannot take any part of it for markup. An escaped text is one token, and an
escaped value between double quotes is one token of its tag, whatever comes after it.
-/
import TermMarkup.Proofs.Lexing
import TermMarkup.Proofs.Lossless

namespace TermMarkup.Entity

open Token

theorem lex_escapeText {text : String} (h : text ≠ "") :
    lex (escapeText text) =
      .ok [⟨.text (escapeText text), 0, (escapeText text).utf8ByteSize⟩] := by
  have hend : before (· == '<') [] := fun _ hc => (by cases hc)
  have hrun := lexFrom_text (toList_escapeText_ne_nil h) (lt_notMem_escapeText text) 0 hend
  rw [List.append_nil, String.ofList_toList, ← utf8ByteSize_eq, Nat.zero_add, lexFrom] at hrun
  exact hrun

theorem lexFrom_escapeValue (value : String) (offset : Nat) (rest : List Char) :
    let stop := offset + (escapeValue value).utf8ByteSize + 2
    lexFrom .tag offset ('\x22' :: (escapeValue value).toList ++ '\x22' :: rest) =
      (lexFrom .tag stop rest).map (⟨.quoted (escapeValue value), offset, stop⟩ :: ·) := by
  have hrun := lexFrom_quoted (by decide) (quote_notMem_escapeValue value) offset rest
  rw [String.ofList_toList, ← utf8ByteSize_eq, List.cons_append, List.append_assoc,
    List.singleton_append] at hrun
  exact hrun

/-- Decoding undoes both ways of escaping. An escaped text, unless it is empty, is lexed as the one
token that holds it; inside a tag an escaped value between double quotes is lexed as the one token
that holds it, and the lexer goes on behind it with whatever follows. -/
theorem escaped_is_inert (v : String) :
    decode (escapeText v) = v ∧ decode (escapeValue v) = v ∧
      (v ≠ "" → lex (escapeText v) =
        .ok [⟨.text (escapeText v), 0, (escapeText v).utf8ByteSize⟩]) ∧
      ∀ (offset : Nat) (rest : List Char),
        let stop := offset + (escapeValue v).utf8ByteSize + 2
        lexFrom .tag offset ('\x22' :: (escapeValue v).toList ++ '\x22' :: rest) =
          (lexFrom .tag stop rest).map (⟨.quoted (escapeValue v), offset, stop⟩ :: ·) :=
  ⟨decode_escapeText v, decode_escapeValue v, lex_escapeText, lexFrom_escapeValue v⟩

/-- A text that is a reference itself, with an ampersand and a quote behind it. -/
theorem escaped_is_inert_reference :
    "&lt;&\"" ≠ "" ∧
      lex "&amp;lt;&amp;\"" = .ok [⟨.text "&amp;lt;&amp;\"", 0, 14⟩] ∧
      decode "&amp;lt;&amp;&quot;" = "&lt;&\"" ∧
      lexFrom .tag 9 "\"&amp;lt;&amp;&quot;\"/>".toList =
        .ok [⟨.quoted "&amp;lt;&amp;&quot;", 9, 30⟩, ⟨.selfClose, 30, 32⟩] := by
  have hne : "&lt;&\"" ≠ "" := by decide
  obtain ⟨-, hvalue, htext, htag⟩ := escaped_is_inert "&lt;&\""
  have hrest : lexFrom .tag 30 "/>".toList = .ok [⟨.selfClose, 30, 32⟩] := by
    show lexFrom .tag 30 ['/', '>'] = _
    rw [lexFrom, lexFrom]
    rfl
  refine ⟨hne, htext hne, hvalue, (htag 9 "/>".toList).trans ?_⟩
  exact congrArg _ hrest

end TermMarkup.Entity
