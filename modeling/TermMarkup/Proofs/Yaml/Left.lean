/-
What is left of a YAML text once a part of it has been read. Reading never gives anything back, and
whatever makes a token takes at least one character.
-/
import TermMarkup.Yaml.Token.Tag
import TermMarkup.Proofs.Meaning

namespace TermMarkup.Yaml

namespace Cursor

variable (c : Cursor)

theorem length_skip (n : Nat) : (c.skip n).rest.length = c.rest.length - n := List.length_drop

theorem length_skip_le (n : Nat) : (c.skip n).rest.length ≤ c.rest.length := by
  rw [length_skip]
  omega

theorem length_skip_lt {c : Cursor} {x : Char} (h : c.head = some x) {n : Nat} (hn : 0 < n) :
    (c.skip n).rest.length < c.rest.length := by
  have hpos := List.length_pos_of_mem (List.mem_of_head? h)
  rw [length_skip]
  omega

theorem length_skipBreak_le : c.skipBreak.rest.length ≤ c.rest.length := by
  unfold skipBreak
  split
  · rename_i h
    simp only [h, List.length_cons]
    omega
  · rename_i h
    simp only [h, List.length_cons]
    omega
  · exact Nat.le_refl _

theorem length_takeWhile_le (p : Char → Bool) : (c.takeWhile p).2.rest.length ≤ c.rest.length :=
  c.length_skip_le _

theorem length_skipWhile_le (p : Char → Bool) : (c.skipWhile p).rest.length ≤ c.rest.length :=
  c.length_takeWhile_le p

theorem length_skipComment_le : c.skipComment.rest.length ≤ c.rest.length := by
  unfold skipComment
  split
  · exact c.length_skipWhile_le _
  · exact Nat.le_refl _

theorem length_readBreak_le : c.readBreak.2.rest.length ≤ c.rest.length := by
  unfold readBreak
  split
  · split
    · exact c.length_skipBreak_le
    · exact Nat.le_refl _
  · exact Nat.le_refl _

end Cursor

open Cursor

/-! ## Scalars -/

theorem readGap_le {indent : Nat} {problem : Mark → Malformed} {fuel : Nat} {g g' : Gap}
    {c c' : Cursor} (h : readGap indent problem fuel g c = .ok (g', c')) :
    c'.rest.length ≤ c.rest.length := by
  induction fuel generalizing g c with
  | zero =>
    cases h
    exact Nat.le_refl _
  | succ fuel ih =>
    have hskip := c.length_skip_le 1
    have hbreak := c.length_readBreak_le
    unfold readGap at h
    split at h
    · split at h
      · split at h
        · split at h
          · cases h
          · exact Nat.le_trans (ih h) hskip
        · exact Nat.le_trans (ih h) hskip
      · split at h
        · simp only at h
          split at h
          · exact Nat.le_trans (ih h) hbreak
          · exact Nat.le_trans (ih h) hbreak
        · cases h
          exact Nat.le_refl _
    · cases h
      exact Nat.le_refl _

theorem plainFrom_le {flow : Bool} {indent : Nat} {start : Mark} {fuel : Nat} {gap : Gap}
    {c : Cursor} {r : ReadScalar} (h : plainFrom flow indent start fuel gap c = .ok r) :
    r.cursor.rest.length ≤ c.rest.length := by
  induction fuel generalizing gap c r with
  | zero =>
    cases h
    exact Nat.le_refl _
  | succ fuel ih =>
    unfold plainFrom at h
    split at h
    · cases h
      exact Nat.le_refl _
    · split at h
      · cases h
      · cases h
        exact Nat.le_refl _
      · rename_i length _ _
        have hskip := c.length_skip_le length
        simp only at h
        split at h
        · split at h
          · cases h
          · rename_i gap' c' hgap
            have hgap := readGap_le hgap
            split at h
            · cases h
              exact Nat.le_trans hgap hskip
            · obtain ⟨r', hr, rfl⟩ := map_eq_ok h
              have hr := ih hr
              exact Nat.le_trans hr (Nat.le_trans hgap hskip)
        · cases h
          exact hskip

theorem readEscape_le {start : Mark} {c c' : Cursor} {x : Char}
    (h : readEscape start c = .ok (x, c')) : c'.rest.length ≤ c.rest.length := by
  unfold readEscape at h
  simp only at h
  split at h
  · cases h
  · split at h
    · cases h
      exact c.length_skip_le _
    · cases h
    · split at h
      · cases h
      · split at h
        · cases h
        · cases h
          exact c.length_skip_le _

theorem readQuotedWord_le {single : Bool} {start : Mark} {fuel : Nat} {done word : List Char}
    {joined : Bool} {c c' : Cursor}
    (h : readQuotedWord single start fuel done c = .ok (word, joined, c')) :
    c'.rest.length ≤ c.rest.length := by
  induction fuel generalizing done c with
  | zero =>
    unfold readQuotedWord at h
    cases h
    exact c.length_takeWhile_le _
  | succ fuel ih =>
    unfold readQuotedWord at h
    have htake := c.length_takeWhile_le (isOrdinary single)
    generalize c.takeWhile (isOrdinary single) = taken at h htake
    obtain ⟨run, d⟩ := taken
    simp only at h htake
    refine Nat.le_trans ?_ htake
    cases hx : d.head with
    | none =>
      rw [hx] at h
      cases h
      exact Nat.le_refl _
    | some x =>
      rw [hx] at h
      simp only at h
      split at h
      · exact Nat.le_trans (ih h) (d.length_skip_le 2)
      · split at h
        · split at h
          · cases h
            exact Nat.le_trans (d.skip 1).length_skipBreak_le (d.length_skip_le 1)
          · split at h
            · cases h
            · rename_i he
              exact Nat.le_trans (ih h) (readEscape_le he)
        · cases h
          exact Nat.le_refl _

theorem quotedFrom_le {single : Bool} {start : Mark} {fuel : Nat} {c : Cursor} {r : ReadScalar}
    (h : quotedFrom single start fuel c = .ok r) : r.cursor.rest.length ≤ c.rest.length := by
  induction fuel generalizing c r with
  | zero => cases h
  | succ fuel ih =>
    unfold quotedFrom at h
    simp only at h
    split at h
    · cases h
    · split at h
      · cases h
      · split at h
        · cases h
        · rename_i word joined d hword
          have hword := readQuotedWord_le hword
          refine Nat.le_trans ?_ hword
          by_cases hquote : (d.head == some (if single then '\x27' else '\x22')) = true
          · rw [if_pos hquote] at h
            cases h
            exact d.length_skip_le 1
          · rw [if_neg hquote] at h
            split at h
            · cases h
            · rename_i hgap
              obtain ⟨r', hr, rfl⟩ := map_eq_ok h
              have hr := ih hr
              exact Nat.le_trans hr (readGap_le hgap)

theorem readBlockHeader_le {start : Mark} {c c' : Cursor} {chomping : Chomping} {digit : Option Nat}
    (h : readBlockHeader start c = .ok (chomping, digit, c')) :
    c'.rest.length ≤ c.rest.length := by
  have hone := c.length_skip_le 1
  have htwo := Nat.le_trans ((c.skip 1).length_skip_le 1) hone
  unfold readBlockHeader at h
  simp only at h
  split at h
  · split at h
    · cases h
    · cases h
      exact htwo
    · cases h
      exact hone
  · split at h
    · cases h
    · split at h
      · cases h
        exact htwo
      · cases h
        exact hone
    · cases h
      exact Nat.le_refl _

theorem readBlankLines_le {indent : Option Nat} {start : Mark} {fuel : Nat}
    {breaks breaks' : List Char} {widest widest' : Nat} {c c' : Cursor}
    (h : readBlankLines indent start fuel breaks widest c = .ok (breaks', widest', c')) :
    c'.rest.length ≤ c.rest.length := by
  induction fuel generalizing breaks widest c with
  | zero =>
    cases h
    exact Nat.le_refl _
  | succ fuel ih =>
    unfold readBlankLines at h
    simp only at h
    generalize hd : c.skip _ = d at h
    have hskip : d.rest.length ≤ c.rest.length := hd ▸ c.length_skip_le _
    refine Nat.le_trans ?_ hskip
    split at h
    · cases h
    · split at h
      · exact Nat.le_trans (ih h) d.length_readBreak_le
      · cases h
        exact Nat.le_refl _

theorem readBlockLines_le {folds : Bool} {chomping : Chomping} {indent : Nat} {start : Mark}
    {fuel : Nat} {last breaks : List Char} {indented : Bool} {c : Cursor} {r : ReadScalar}
    (h : readBlockLines folds chomping indent start fuel last breaks indented c = .ok r) :
    r.cursor.rest.length ≤ c.rest.length := by
  induction fuel generalizing last breaks indented c r with
  | zero =>
    cases h
    exact Nat.le_refl _
  | succ fuel ih =>
    unfold readBlockLines at h
    split at h
    · simp only at h
      split at h
      · cases h
      · rename_i hblank
        obtain ⟨r', hr, rfl⟩ := map_eq_ok h
        have hr := ih hr
        refine Nat.le_trans hr (Nat.le_trans (readBlankLines_le hblank) ?_)
        exact Nat.le_trans (length_readBreak_le _) (c.length_takeWhile_le _)
    · cases h
      exact Nat.le_refl _

/-! ## Tokens take something -/

variable {c : Cursor} {x : Char}

theorem readQuoted_lt (hx : c.head = some x) {single : Bool} {r : ReadScalar}
    (h : readQuoted single c = .ok r) : r.cursor.rest.length < c.rest.length :=
  Nat.lt_of_le_of_lt (quotedFrom_le h) (length_skip_lt hx Nat.one_pos)

theorem readBlock_lt (hx : c.head = some x) {folds : Bool} {parent : Option Nat} {r : ReadScalar}
    (h : readBlock folds parent c = .ok r) : r.cursor.rest.length < c.rest.length := by
  unfold readBlock at h
  obtain ⟨⟨chomping, digit, d⟩, hheader, h⟩ := bind_eq_ok h
  simp only at h
  split at h
  · cases h
  · obtain ⟨⟨breaks, widest, e⟩, hblank, h⟩ := bind_eq_ok h
    have hheader := readBlockHeader_le hheader
    have hbreak := length_skipBreak_le (d.skipWhile isBlankChar).skipComment
    have hcomment := length_skipComment_le (d.skipWhile isBlankChar)
    have hblanks := d.length_skipWhile_le isBlankChar
    have hblank := readBlankLines_le hblank
    have hlines : r.cursor.rest.length ≤ e.rest.length := readBlockLines_le h
    have hfirst := length_skip_lt hx Nat.one_pos
    omega

theorem plainWord_ne_zero {flow : Bool} {rest : List Char} (hx : isGapOrEnd (some x) = false)
    (hends : endsPlain flow x rest.head? = false) : plainWord flow (x :: rest) ≠ some 0 := by
  have hx : ¬ (isBlankChar x || isBreakChar x) = true := by
    rw [show (isBlankChar x || isBreakChar x) = false from hx]
    exact Bool.false_ne_true
  rw [plainWord, if_neg hx, hends]
  split <;> simp

/-- A plain scalar takes the character it starts with. -/
theorem readPlain_lt (hx : c.head = some x) (hword : isGapOrEnd (some x) = false)
    (hmark : c.atDocumentMark = false) (hsharp : x ≠ '#')
    (hcolon : x = ':' → isGapOrEnd (c.ahead 1) = false)
    (hflow : x ∉ [',', '[', ']', '\x7b', '\x7d']) {flow : Bool} {indent : Nat} {r : ReadScalar}
    (h : readPlain flow indent c = .ok r) : r.cursor.rest.length < c.rest.length := by
  have hstart : ¬ (c.atDocumentMark || c.head == some '#') = true := by
    rw [hmark, hx]
    simpa using hsharp
  have hpos : plainWord flow c.rest ≠ some 0 := by
    obtain ⟨rest, hrest⟩ := List.head?_eq_some_iff.1 hx
    rw [ahead, hrest, List.getElem?_cons_succ, ← List.head?_eq_getElem?] at hcolon
    rw [hrest]
    refine plainWord_ne_zero hword ?_
    simp only [List.mem_cons, List.not_mem_nil, or_false, not_or] at hflow
    simp_all [endsPlain]
  unfold readPlain plainFrom at h
  rw [if_neg hstart] at h
  split at h
  · cases h
  · rename_i hzero
    exact absurd hzero hpos
  · rename_i length hne _
    have hskip := length_skip_lt hx (Nat.pos_of_ne_zero hne)
    simp only at h
    split at h
    · split at h
      · cases h
      · rename_i hgap
        have hgap := readGap_le hgap
        split at h
        · cases h
          exact Nat.lt_of_le_of_lt hgap hskip
        · obtain ⟨r', hr, rfl⟩ := map_eq_ok h
          have hr := plainFrom_le hr
          exact Nat.lt_of_le_of_lt hr (Nat.lt_of_le_of_lt hgap hskip)
    · cases h
      exact hskip

/-! ## Anchors, tags and directives -/

theorem readAnchor_lt (hx : c.head = some x) {isAlias : Bool} {sign : Sign} {c' : Cursor}
    (h : readAnchor isAlias c = .ok (sign, c')) : c'.rest.length < c.rest.length := by
  unfold readAnchor at h
  simp only at h
  split at h
  · cases h
  · cases h
    exact Nat.lt_of_le_of_lt (length_takeWhile_le _ _) (length_skip_lt hx Nat.one_pos)

theorem readTagText_le {full : Bool} {context : String} {start : Mark} {before : List Char}
    {text : List UInt8} {c c' : Cursor}
    (h : readTagText full context start before c = .ok (text, c')) :
    c'.rest.length ≤ c.rest.length := by
  unfold readTagText at h
  simp only at h
  split at h
  · cases h
  · split at h
    · cases h
    · cases h
      exact c.length_takeWhile_le _

theorem readHandle_lt {context : String} {start : Mark} {handle : List Char} {c c' : Cursor}
    (h : readHandle context start c = .ok (handle, c')) : c'.rest.length < c.rest.length := by
  unfold readHandle at h
  split at h
  · cases h
  · rename_i hne
    have hx : c.head = some '!' := by simpa using hne
    have hword := (c.skip 1).length_takeWhile_le isWordChar
    have hfirst := length_skip_lt hx Nat.one_pos
    simp only at h
    split at h
    · cases h
      have hlast := ((c.skip 1).takeWhile isWordChar).2.length_skip_le 1
      omega
    · cases h
      omega

theorem readTag_lt (hx : c.head = some x) {flow : Bool} {sign : Sign} {c' : Cursor}
    (h : readTag flow c = .ok (sign, c')) : c'.rest.length < c.rest.length := by
  -- however the tag is written, what follows it is looked at and left
  have hend {problem : Malformed} {sign' : Sign} {d : Cursor} (hd : d.rest.length < c.rest.length)
      (h : (if isGapOrEnd d.head || flow && d.head == some ',' then pure (sign', d)
        else throw problem : Except Malformed (Sign × Cursor)) = .ok (sign, c')) :
      c'.rest.length < c.rest.length := by
    split at h
    · cases h
      exact hd
    · cases h
  unfold readTag at h
  simp only at h
  split at h
  · obtain ⟨⟨text, d⟩, htext, h⟩ := bind_eq_ok h
    have htext := readTagText_le htext
    have hfirst := length_skip_lt hx Nat.two_pos
    have hlast := d.length_skip_le 1
    simp only at h
    split at h
    · cases h
    · exact hend (show (d.skip 1).rest.length < _ by omega) h
  · obtain ⟨⟨handle, d⟩, hhandle, h⟩ := bind_eq_ok h
    have hhandle := readHandle_lt hhandle
    simp only at h
    split at h
    · obtain ⟨⟨text, e⟩, htext, h⟩ := bind_eq_ok h
      have htext := readTagText_le htext
      exact hend (Nat.lt_of_le_of_lt htext hhandle) h
    · obtain ⟨⟨text, e⟩, htext, h⟩ := bind_eq_ok h
      have htext := readTagText_le htext
      exact hend (Nat.lt_of_le_of_lt htext hhandle) h

theorem readVersionNumber_le {start : Mark} {n : Nat} {c c' : Cursor}
    (h : readVersionNumber start c = .ok (n, c')) : c'.rest.length ≤ c.rest.length := by
  unfold readVersionNumber at h
  simp only at h
  split at h
  · cases h
  · split at h
    · cases h
    · cases h
      exact c.length_takeWhile_le _

theorem readVersion_le {start : Mark} {sign : Sign} {c c' : Cursor}
    (h : readVersion start c = .ok (sign, c')) : c'.rest.length ≤ c.rest.length := by
  unfold readVersion at h
  obtain ⟨⟨major, d⟩, hmajor, h⟩ := bind_eq_ok h
  simp only at h
  split at h
  · cases h
  · obtain ⟨⟨minor, e⟩, hminor, h⟩ := bind_eq_ok h
    cases h
    have hblanks := c.length_skipWhile_le isBlankChar
    have hmajor := readVersionNumber_le hmajor
    have hdot := d.length_skip_le 1
    have hminor := readVersionNumber_le hminor
    simp only
    omega

theorem readHandleMeaning_le {start : Mark} {sign : Sign} {c c' : Cursor}
    (h : readHandleMeaning start c = .ok (sign, c')) : c'.rest.length ≤ c.rest.length := by
  unfold readHandleMeaning at h
  simp only at h
  obtain ⟨⟨handle, d⟩, hhandle, h⟩ := bind_eq_ok h
  simp only at h
  split at h
  · cases h
  · split at h
    · cases h
    · obtain ⟨⟨meaning, e⟩, hmeaning, h⟩ := bind_eq_ok h
      simp only at h
      split at h
      · cases h
      · cases h
        have hblanks := c.length_skipWhile_le isBlankChar
        have hhandle := readHandle_lt hhandle
        have hgap := d.length_skipWhile_le isBlankChar
        have hmeaning : c'.rest.length ≤ _ := readTagText_le hmeaning
        omega

theorem readDirective_lt (hx : c.head = some x) {sign : Sign} {c' : Cursor}
    (h : readDirective c = .ok (sign, c')) : c'.rest.length < c.rest.length := by
  have hfirst := length_skip_lt hx Nat.one_pos
  have hname := (c.skip 1).length_takeWhile_le isWordChar
  unfold readDirective at h
  generalize (c.skip 1).takeWhile isWordChar = taken at h hname
  obtain ⟨name, d⟩ := taken
  simp only at h hname
  split at h
  · cases h
  · split at h
    · cases h
    · have hend {stop : Cursor} {problem : Malformed} {sign' : Sign}
          (hstop : stop.rest.length ≤ d.rest.length)
          (h : (if !isBreakOrEnd (stop.skipWhile isBlankChar).skipComment.head then throw problem
            else pure (sign', (stop.skipWhile isBlankChar).skipComment.skipBreak) :
            Except Malformed (Sign × Cursor)) = .ok (sign, c')) :
          c'.rest.length < c.rest.length := by
        split at h
        · cases h
        · cases h
          have hblanks := stop.length_skipWhile_le isBlankChar
          have hcomment := length_skipComment_le (stop.skipWhile isBlankChar)
          have hbreak := length_skipBreak_le (stop.skipWhile isBlankChar).skipComment
          omega
      split at h
      · obtain ⟨⟨sign', stop⟩, hread, h⟩ := bind_eq_ok h
        exact hend (readVersion_le hread) h
      · obtain ⟨⟨sign', stop⟩, hread, h⟩ := bind_eq_ok h
        exact hend (readHandleMeaning_le hread) h
      · cases h

end TermMarkup.Yaml
