/-
Shortcodes in a text. The scan from left to right cuts a text into candidates `:name:` and single
characters, and no two candidates share a colon; substitution shows the emoji of the known candidates
and everything else as it stands. What it shows is cut in the same places again, but for the emoji,
so a second substitution changes nothing. A known shortcode is left where an unknown candidate right
before it has taken its first colon, and nowhere else.
-/
import TermMarkup.Emoji
import TermMarkup.Proofs.Fields
import TermMarkup.Proofs.Lexing

namespace TermMarkup.Emoji

/-! ## Names and emoji -/

/-- The characters between the colons of a candidate, whether an emoji has this name or not. -/
def IsCode (name : List Char) : Prop :=
  name ≠ [] ∧ ∀ c ∈ name, isNameChar c = true

theorem isCode_iff {name : List Char} :
    IsCode name ↔ (!name.isEmpty && name.all isNameChar) = true := by
  simp [IsCode]

instance : DecidablePred IsCode := fun _ => decidable_of_iff _ isCode_iff.symm

theorem isCode_table : ∀ row ∈ table, IsCode row.1.toList := by
  decide +kernel

theorem emoji_table : ∀ row ∈ table, (!row.2.toList.isEmpty &&
    row.2.toList.all fun c => c != ':' && !isNameChar c) = true := by
  decide +kernel

theorem isCode_of_lookup {name emoji : String} (h : lookup name = some emoji) :
    IsCode name.toList :=
  isCode_table _ (mem_of_lookup h)

/-- An emoji is not empty, and has no character that a candidate can have. -/
theorem emoji_of_lookup {name emoji : String} (h : lookup name = some emoji) :
    emoji.toList ≠ [] ∧ ∀ c ∈ emoji.toList, c ≠ ':' ∧ isNameChar c = false := by
  have hrow := emoji_table _ (mem_of_lookup h)
  simpa using hrow

theorem colon_notMem_emoji {name emoji : String} (h : lookup name = some emoji) :
    ':' ∉ emoji.toList :=
  fun hm => ((emoji_of_lookup h).2 ':' hm).1 rfl

theorem colon_notMem {name : List Char} (h : ∀ c ∈ name, isNameChar c = true) : ':' ∉ name :=
  fun hm => absurd (h ':' hm) (by decide)

/-- The characters up to the first colon are the same, if they are those of a name. -/
theorem name_unique {a b r s : List Char} (ha : ∀ c ∈ a, isNameChar c = true)
    (hb : ∀ c ∈ b, isNameChar c = true) (h : a ++ ':' :: r = b ++ ':' :: s) : a = b ∧ r = s := by
  have hstop (rest : List Char) : Token.before (!isNameChar ·) (':' :: rest) :=
    Tag.before_cons (by decide) rest
  have hab : a = b := by
    rw [← Token.takeWhile_run ha (hstop r), h, Token.takeWhile_run hb (hstop s)]
  subst hab
  exact ⟨rfl, (List.cons.inj (List.append_cancel_left h)).2⟩

/-- A colon that is not among the first characters comes after them. -/
theorem split_of_notMem {l r before after : List Char} (hl : ':' ∉ l)
    (h : l ++ r = before ++ ':' :: after) :
    ∃ others, before = l ++ others ∧ r = others ++ ':' :: after := by
  rcases List.append_eq_append_iff.1 h with ⟨others, hb, hr⟩ | ⟨others, rfl, hr⟩
  · exact ⟨others, hb, hr⟩
  · cases others with
    | nil => exact ⟨[], by simp, hr.symm⟩
    | cons c others =>
      obtain ⟨rfl, -⟩ := List.cons.inj hr
      exact absurd (by simp) hl

/-! ## The scan -/

/-- A candidate begins here. -/
def Opens (cs : List Char) : Prop :=
  ∃ name rest, IsCode name ∧ cs = ':' :: (name ++ ':' :: rest)

/-- What the scan cuts a text into. -/
inductive Part where
  | char (c : Char)
  | candidate (name : List Char)

/-- What substitution makes of a part. -/
def Part.shown : Part → List Char
  | char c => [c]
  | candidate name => replacement name

/-- The scan of a text: a candidate is taken whole where it begins, and the scan goes on after its
second colon. -/
inductive Scan : List Char → List Part → Prop
  | done : Scan [] []
  | candidate {name rest : List Char} {ps : List Part} (hn : IsCode name) (h : Scan rest ps) :
    Scan (':' :: (name ++ ':' :: rest)) (.candidate name :: ps)
  | char {c : Char} {cs : List Char} {ps : List Part} (hc : ¬ Opens (c :: cs)) (h : Scan cs ps) :
    Scan (c :: cs) (.char c :: ps)

theorem opens_cons_iff {c : Char} {cs : List Char} :
    Opens (c :: cs) ↔ c = ':' ∧ cs.takeWhile isNameChar ≠ [] ∧
      ∃ rest, cs.dropWhile isNameChar = ':' :: rest := by
  constructor
  · rintro ⟨name, rest, ⟨hne, hname⟩, he⟩
    obtain ⟨rfl, rfl⟩ := List.cons.inj he
    have hstop : Token.before (!isNameChar ·) (':' :: rest) := Tag.before_cons (by decide) rest
    rw [Token.takeWhile_run hname hstop, Token.dropWhile_run hname hstop]
    exact ⟨rfl, hne, rest, rfl⟩
  · rintro ⟨rfl, hne, rest, hd⟩
    refine ⟨_, rest, ⟨hne, fun c hc => List.mem_takeWhile_imp hc⟩, ?_⟩
    rw [← hd, List.takeWhile_append_dropWhile]

theorem exists_scan_char {c : Char} {cs shown : List Char} (hc : ¬ Opens (c :: cs))
    (h : ∃ ps, Scan cs ps ∧ shown = ps.flatMap Part.shown) :
    ∃ ps, Scan (c :: cs) ps ∧ c :: shown = ps.flatMap Part.shown := by
  obtain ⟨ps, hs, rfl⟩ := h
  exact ⟨.char c :: ps, .char hc hs, rfl⟩

/-- Every text has a scan, and substitution shows its parts. -/
theorem exists_scan (cs : List Char) :
    ∃ ps, Scan cs ps ∧ substituteChars cs = ps.flatMap Part.shown := by
  fun_induction substituteChars cs with
  | case1 => exact ⟨[], .done, rfl⟩
  | case2 c cs hc rest hd hn ih =>
    cases beq_iff_eq.1 hc
    exact exists_scan_char (fun ho => (opens_cons_iff.1 ho).2.1 hn) ih
  | case3 c cs hc rest hd hn ih =>
    obtain ⟨ps, hs, he⟩ := ih
    have hcode : IsCode (cs.takeWhile isNameChar) := ⟨hn, fun c hc => List.mem_takeWhile_imp hc⟩
    have hcs : c :: cs = ':' :: (cs.takeWhile isNameChar ++ ':' :: rest) := by
      rw [← hd, List.takeWhile_append_dropWhile, beq_iff_eq.1 hc]
    rw [hcs, he]
    exact ⟨_, .candidate hcode hs, rfl⟩
  | case4 c cs hc hd ih =>
    cases beq_iff_eq.1 hc
    refine exists_scan_char (fun ho => ?_) ih
    obtain ⟨-, -, rest, hr⟩ := opens_cons_iff.1 ho
    exact hd rest hr
  | case5 c cs hc ih =>
    exact exists_scan_char (fun ho => hc (beq_iff_eq.2 (opens_cons_iff.1 ho).1)) ih

namespace Scan

variable {cs : List Char} {ps qs : List Part}

theorem unique (h : Scan cs ps) (h' : Scan cs qs) : ps = qs := by
  induction h generalizing qs with
  | done =>
    cases h'
    rfl
  | @candidate name rest ps hn _ ih =>
    generalize hcs : ':' :: (name ++ ':' :: rest) = cs at h'
    cases h' with
    | done => cases hcs
    | candidate hn' h' =>
      obtain ⟨rfl, rfl⟩ := name_unique hn.2 hn'.2 (List.cons.inj hcs).2
      rw [ih h']
    | char hc => exact absurd ⟨name, rest, hn, hcs.symm⟩ hc
  | @char c cs ps hc _ ih =>
    generalize hcs : c :: cs = ds at h'
    cases h' with
    | done => cases hcs
    | @candidate name rest _ hn => exact absurd ⟨name, rest, hn, hcs⟩ hc
    | char _ h' =>
      obtain ⟨rfl, rfl⟩ := List.cons.inj hcs
      rw [ih h']

/-- Substitution shows the parts of the scan. -/
theorem substituteChars_eq (h : Scan cs ps) : substituteChars cs = ps.flatMap Part.shown := by
  obtain ⟨qs, hs, he⟩ := exists_scan cs
  rw [he, h.unique hs]

end Scan

/-! ## What is shown -/

theorem replacement_known {name : List Char} {emoji : String}
    (h : lookup (String.ofList name) = some emoji) : replacement name = emoji.toList := by
  unfold replacement
  rw [h]

theorem replacement_unknown {name : List Char} (h : lookup (String.ofList name) = none) :
    replacement name = ':' :: (name ++ [':']) := by
  unfold replacement
  rw [h]
  rfl

/-- What is shown for a candidate does not go on with a name before it. -/
theorem exists_replacement_eq_cons (name : List Char) :
    ∃ c cs, replacement name = c :: cs ∧ isNameChar c = false := by
  cases h : lookup (String.ofList name) with
  | none => exact ⟨':', _, replacement_unknown h, by decide⟩
  | some emoji =>
    obtain ⟨hne, hmark⟩ := emoji_of_lookup h
    obtain ⟨c, cs, he⟩ := List.exists_cons_of_ne_nil hne
    refine ⟨c, cs, (replacement_known h).trans he, (hmark c ?_).2⟩
    rw [he]
    exact List.mem_cons_self

namespace Scan

variable {cs : List Char} {ps : List Part}

/-- Where a name and a colon are shown, they are what stands in the text. -/
theorem name_colon (h : Scan cs ps) {name after : List Char}
    (hname : ∀ c ∈ name, isNameChar c = true)
    (he : ps.flatMap Part.shown = name ++ ':' :: after) :
    ∃ rest qs, cs = name ++ ':' :: rest ∧ ps = name.map .char ++ qs ∧
      qs.flatMap Part.shown = ':' :: after := by
  induction name generalizing cs ps with
  | nil =>
    -- a colon is shown for a colon alone, or is the first of an unknown candidate
    cases h with
    | done => cases he
    | candidate => exact ⟨_, _, rfl, rfl, he⟩
    | char =>
      obtain ⟨rfl, -⟩ := List.cons.inj he
      exact ⟨_, _, rfl, rfl, he⟩
  | cons d name ih =>
    obtain ⟨hd, htail⟩ := List.forall_mem_cons.1 hname
    cases h with
    | done => cases he
    | @candidate other =>
      obtain ⟨c, shown, hshown, hc⟩ := exists_replacement_eq_cons other
      rw [List.flatMap_cons, Part.shown, hshown] at he
      obtain ⟨rfl, -⟩ := List.cons.inj he
      rw [hd] at hc
      cases hc
    | char _ h =>
      obtain ⟨hcd, hrest⟩ := List.cons.inj he
      obtain ⟨rest, qs, rfl, rfl, hq⟩ := ih h htail hrest
      exact ⟨rest, qs, by rw [hcd]; rfl, by rw [hcd]; rfl, hq⟩

theorem not_opens (h : Scan cs ps) {c : Char} (hc : ¬ Opens (c :: cs)) :
    ¬ Opens (c :: ps.flatMap Part.shown) := by
  rintro ⟨name, after, hn, he⟩
  obtain ⟨rfl, hshown⟩ := List.cons.inj he
  obtain ⟨rest, -, rfl, -⟩ := h.name_colon hn.2 hshown
  exact hc ⟨name, rest, hn, rfl⟩

/-- Characters other than colons are scanned one by one. -/
theorem chars (h : Scan cs ps) {front : List Char} (hf : ':' ∉ front) :
    Scan (front ++ cs) (front.map .char ++ ps) := by
  induction front with
  | nil => exact h
  | cons c front ih =>
    obtain ⟨hc, hf⟩ := not_or.1 (mt List.mem_cons.2 hf)
    exact .char (fun ho => hc (opens_cons_iff.1 ho).1.symm) (ih hf)

end Scan

/-! ## A second substitution -/

/-- The parts that the scan cuts what is shown for a part into. -/
def Part.settled : Part → List Part
  | char c => [char c]
  | candidate name =>
    match lookup (String.ofList name) with
    | some emoji => emoji.toList.map char
    | none => [candidate name]

theorem flatMap_shown_char (cs : List Char) : (cs.map Part.char).flatMap Part.shown = cs := by
  induction cs with
  | nil => rfl
  | cons c cs ih => rw [List.map_cons, List.flatMap_cons, ih, Part.shown, List.singleton_append]

/-- What is shown is shown again. -/
theorem Part.flatMap_shown_settled (p : Part) : p.settled.flatMap shown = p.shown := by
  cases p with
  | char c => rfl
  | candidate name =>
    rw [settled, shown]
    cases h : lookup (String.ofList name) with
    | none => exact List.append_nil _
    | some emoji => exact (flatMap_shown_char _).trans (replacement_known h).symm

/-- What is shown is cut where the text was cut, with the emoji now characters. -/
theorem Scan.settled {cs : List Char} {ps : List Part} (h : Scan cs ps) :
    Scan (ps.flatMap Part.shown) (ps.flatMap Part.settled) := by
  induction h with
  | done => exact .done
  | @candidate name rest ps hn _ ih =>
    rw [List.flatMap_cons, List.flatMap_cons, Part.shown, Part.settled]
    cases hl : lookup (String.ofList name) with
    | none =>
      rw [replacement_unknown hl, List.cons_append, List.append_assoc]
      exact .candidate hn ih
    | some emoji =>
      rw [replacement_known hl]
      exact ih.chars (colon_notMem_emoji hl)
  | char hc h ih => exact .char (h.not_opens hc) ih

/-- A second substitution changes nothing. -/
theorem substitute_substitute (text : String) : substitute (substitute text) = substitute text := by
  obtain ⟨ps, hs, he⟩ := exists_scan text.toList
  unfold substitute
  rw [String.toList_ofList, he, hs.settled.substituteChars_eq, List.flatMap_assoc]
  simp only [Part.flatMap_shown_settled]

/-! ## Known shortcodes that are left -/

/-- Among the parts an unknown candidate, the characters of the name and a colon that is shown follow
each other. -/
def BehindUnknown (name : List Char) (ps : List Part) : Prop :=
  ∃ front other back, ps = front ++ .candidate other :: (name.map .char ++ back) ∧
    lookup (String.ofList other) = none ∧ (back.flatMap Part.shown).head? = some ':'

theorem BehindUnknown.cons {name : List Char} {ps : List Part} (h : BehindUnknown name ps)
    (p : Part) : BehindUnknown name (p :: ps) := by
  obtain ⟨front, other, back, rfl, hother⟩ := h
  exact ⟨p :: front, other, back, rfl, hother⟩

/-- A known shortcode in what is shown has an unknown candidate right before it. -/
theorem Scan.behindUnknown {cs : List Char} {ps : List Part} (h : Scan cs ps)
    {name before after : List Char} (hname : IsCode name)
    (hk : lookup (String.ofList name) ≠ none)
    (he : ps.flatMap Part.shown = before ++ ':' :: (name ++ ':' :: after)) :
    BehindUnknown name ps := by
  -- along the scan, the first colon of the shortcode is looked for in what each part shows
  induction h generalizing before with
  | done =>
    rw [List.flatMap_nil] at he
    exact absurd he.symm (by simp)
  | @candidate other rest ps hn h ih =>
    rw [List.flatMap_cons, Part.shown] at he
    cases hl : lookup (String.ofList other) with
    | some emoji =>
      rw [replacement_known hl] at he
      obtain ⟨before, -, he⟩ := split_of_notMem (colon_notMem_emoji hl) he
      exact (ih he).cons _
    | none =>
      rw [replacement_unknown hl, List.cons_append, List.append_assoc] at he
      cases before with
      | nil =>
        -- the candidate itself is unknown
        obtain ⟨rfl, -⟩ := name_unique hn.2 hname.2 (List.cons.inj he).2
        exact absurd hl hk
      | cons c before =>
        obtain ⟨before, -, he⟩ := split_of_notMem (colon_notMem hn.2) (List.cons.inj he).2
        cases before with
        | nil =>
          -- the second colon of the candidate is the first of the shortcode
          obtain ⟨-, back, -, rfl, hback⟩ := h.name_colon hname.2 (List.cons.inj he).2
          exact ⟨[], other, back, rfl, hl, by rw [hback]; rfl⟩
        | cons d before => exact (ih (List.cons.inj he).2).cons _
  | @char c cs ps hc h ih =>
    rw [List.flatMap_cons, Part.shown, List.singleton_append] at he
    cases before with
    | nil =>
      obtain ⟨rfl, hshown⟩ := List.cons.inj he
      obtain ⟨rest, -, rfl, -⟩ := h.name_colon hname.2 hshown
      exact absurd ⟨name, rest, hname, rfl⟩ hc
    | cons d before => exact (ih (List.cons.inj he).2).cons _

/-- A known shortcode is left in a text exactly where the scan takes an unknown candidate, then the
characters of the name, and then a colon that does not begin a known candidate. -/
theorem known_left_iff {text name : String} (hk : (lookup name).isSome = true) :
    (∃ before after, substitute text = before ++ ":" ++ name ++ ":" ++ after) ↔
      ∃ ps, Scan text.toList ps ∧ BehindUnknown name.toList ps := by
  constructor
  · rintro ⟨before, after, h⟩
    obtain ⟨emoji, hl⟩ := Option.isSome_iff_exists.1 hk
    obtain ⟨ps, hs, he⟩ := exists_scan text.toList
    have hshown : ps.flatMap Part.shown =
        before.toList ++ ':' :: (name.toList ++ ':' :: after.toList) := by
      rw [← he, ← String.toList_ofList (l := substituteChars _)]
      show (substitute text).toList = _
      rw [h]
      simp
    have hne : lookup (String.ofList name.toList) ≠ none := by
      rw [String.ofList_toList, hl]
      exact Option.some_ne_none emoji
    exact ⟨ps, hs, hs.behindUnknown (isCode_of_lookup hl) hne hshown⟩
  · rintro ⟨_, hs, front, other, back, rfl, hl, hback⟩
    obtain ⟨after, hafter⟩ := List.head?_eq_some_iff.1 hback
    refine ⟨.ofList (front.flatMap Part.shown ++ ':' :: other), .ofList after, ?_⟩
    unfold substitute
    rw [hs.substituteChars_eq, List.flatMap_append, List.flatMap_cons, List.flatMap_append,
      flatMap_shown_char, hafter, Part.shown, replacement_unknown hl]
    apply String.toList_injective
    simp

/-- The first colon of `:heart:` is the second of the unknown candidate `:foo:`. -/
theorem known_left_heart :
    (lookup "heart").isSome = true ∧
      ∃ before after, substitute ":foo:heart:" = before ++ ":" ++ "heart" ++ ":" ++ after := by
  have hk : (lookup "heart").isSome = true := by decide +kernel
  have hcolon : ¬ Opens [':'] := fun ho => (opens_cons_iff.1 ho).2.1 rfl
  have hheart : Scan ("heart".toList ++ [':']) ("heart".toList.map .char ++ [.char ':']) :=
    (Scan.char hcolon .done).chars (by decide)
  have hs : Scan ":foo:heart:".toList
      (.candidate "foo".toList :: ("heart".toList.map .char ++ [.char ':'])) :=
    @Scan.candidate "foo".toList _ _ (by decide) hheart
  exact ⟨hk, (known_left_iff hk).2 ⟨_, hs, [], _, _, rfl, by decide +kernel, rfl⟩⟩

/-- Not every known shortcode is replaced. -/
theorem heart_not_replaced :
    ¬ ∀ name before after : String, (lookup name).isSome = true →
      substitute ":foo:heart:" ≠ before ++ ":" ++ name ++ ":" ++ after :=
  fun h => h "heart" ":foo" "" (by decide +kernel) (by decide +kernel)

end TermMarkup.Emoji
