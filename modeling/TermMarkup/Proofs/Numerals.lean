/-
The integers that texts say: a numeral is an optional sign and at least one decimal digit, and a text
says the integer of a numeral if it has just blanks around it and the integer fits into 64 bits. The
value of a numeric attribute is read from exactly these texts. A character reference is no part of
such a text, so it makes no difference whether references are decoded first.
-/
import Mathlib.Algebra.Ring.Int.Defs
import Mathlib.Data.List.TakeWhile
import TermMarkup.Proofs.Entity
import TermMarkup.Proofs.Setting

namespace TermMarkup

/-! ## Trimming -/

namespace Text

theorem dropWhile_blanks {before core : List Char} (hb : ∀ c ∈ before, isBlank c = true)
    (hc : ∀ c ∈ core, isBlank c = false) (hne : core ≠ []) (rest : List Char) :
    (before ++ (core ++ rest)).dropWhile isBlank = core ++ rest := by
  rw [List.dropWhile_append_of_pos hb]
  cases core with
  | nil => exact absurd rfl hne
  | cons c core =>
    apply List.dropWhile_cons_of_neg
    rw [hc c List.mem_cons_self]
    exact Bool.false_ne_true

/-- Trimming takes the blanks around a text that has none itself. -/
theorem trimChars_blanks {before core after : List Char} (hb : ∀ c ∈ before, isBlank c = true)
    (hc : ∀ c ∈ core, isBlank c = false) (hne : core ≠ []) (ha : ∀ c ∈ after, isBlank c = true) :
    trimChars (before ++ core ++ after) = core := by
  have hafter : ∀ c ∈ after.reverse, isBlank c = true := fun c hm => ha c (List.mem_reverse.1 hm)
  have hcore : ∀ c ∈ core.reverse, isBlank c = false := fun c hm => hc c (List.mem_reverse.1 hm)
  have hend := dropWhile_blanks hafter hcore (mt List.reverse_eq_nil_iff.1 hne) []
  rw [List.append_nil] at hend
  unfold trimChars
  rw [List.append_assoc, dropWhile_blanks hb hc hne, List.reverse_append, hend, List.reverse_reverse]

/-- What trimming takes is blank. -/
theorem exists_blanks (cs : List Char) : ∃ before after, cs = before ++ trimChars cs ++ after ∧
    (∀ c ∈ before, isBlank c = true) ∧ ∀ c ∈ after, isBlank c = true := by
  refine ⟨cs.takeWhile isBlank, ((cs.dropWhile isBlank).reverse.takeWhile isBlank).reverse, ?_,
    fun c hc => List.mem_takeWhile_imp hc,
    fun c hc => List.mem_takeWhile_imp (List.mem_reverse.1 hc)⟩
  unfold trimChars
  rw [List.append_assoc, ← List.reverse_append, List.takeWhile_append_dropWhile,
    List.reverse_reverse, List.takeWhile_append_dropWhile]

end Text

namespace Attribute

/-! ## Numerals -/

/-- A run of at least one decimal digit. -/
def IsDigits (ds : List Char) : Prop :=
  ds ≠ [] ∧ ∀ d ∈ ds, d.isDigit = true

/-- The integer that a numeral stands for. -/
inductive Numeral : List Char → Int → Prop
  | plain {ds : List Char} (h : IsDigits ds) : Numeral ds (Nat.ofDigitChars 10 ds 0)
  | plus {ds : List Char} (h : IsDigits ds) : Numeral ('+' :: ds) (Nat.ofDigitChars 10 ds 0)
  | minus {ds : List Char} (h : IsDigits ds) : Numeral ('-' :: ds) (-(Nat.ofDigitChars 10 ds 0 : Int))

/-- The text says the integer: it is a numeral with any blanks around it, for an integer of 64
bits. -/
structure Says (text : String) (n : Int) : Prop where
  numeral : ∃ before core after, text.toList = before ++ core ++ after ∧ Numeral core n ∧
    (∀ c ∈ before, Text.isBlank c = true) ∧ ∀ c ∈ after, Text.isBlank c = true
  lower : -2 ^ 63 ≤ n
  upper : n < 2 ^ 63

theorem readDigits?_eq_some_iff {ds : List Char} {m : Nat} :
    readDigits? ds = some m ↔ IsDigits ds ∧ m = Nat.ofDigitChars 10 ds 0 := by
  have hdigits : (!ds.isEmpty && ds.all Char.isDigit) = true ↔ IsDigits ds := by
    simp [IsDigits]
  unfold readDigits? Number.ofDigits
  rw [← Nat.ofDigitChars_eq_foldl]
  split
  · rename_i h
    exact ⟨fun he => ⟨hdigits.1 h, (Option.some.inj he).symm⟩, fun he => congrArg some he.2.symm⟩
  · rename_i h
    exact ⟨fun he => (by cases he), fun he => absurd (hdigits.2 he.1) h⟩

/-- Neither sign is a digit. -/
theorem IsDigits.not_sign {c : Char} {ds : List Char} (h : IsDigits (c :: ds)) :
    c ≠ '+' ∧ c ≠ '-' := by
  have hd := h.2 c List.mem_cons_self
  constructor
  · rintro rfl
    cases hd
  · rintro rfl
    cases hd

/-- Integers are read from the numerals of those that fit into 64 bits. -/
theorem readInt?_eq_some_iff {cs : List Char} {n : Int} :
    readInt? cs = some n ↔ Numeral cs n ∧ -2 ^ 63 ≤ n ∧ n < 2 ^ 63 := by
  unfold readInt?
  simp only
  rw [Option.filter_eq_some_iff]
  refine and_congr ?_ (by simp)
  split
  all_goals
    simp only [Option.map_eq_some_iff, Option.bind_eq_bind, Option.bind_eq_some_iff,
      Option.pure_def, Option.some.injEq, readDigits?_eq_some_iff]
  · constructor
    · rintro ⟨_, ⟨m, ⟨hd, rfl⟩, rfl⟩, rfl⟩
      exact .plus hd
    · intro h
      cases h with
      | plain hd => exact absurd rfl hd.not_sign.1
      | plus hd => exact ⟨_, ⟨_, ⟨hd, rfl⟩, rfl⟩, rfl⟩
  · constructor
    · rintro ⟨_, ⟨m, ⟨hd, rfl⟩, rfl⟩, rfl⟩
      exact .minus hd
    · intro h
      cases h with
      | plain hd => exact absurd rfl hd.not_sign.2
      | minus hd => exact ⟨_, ⟨_, ⟨hd, rfl⟩, rfl⟩, rfl⟩
  · rename_i hplus hminus
    constructor
    · rintro ⟨_, ⟨m, ⟨hd, rfl⟩, rfl⟩, rfl⟩
      exact .plain hd
    · intro h
      cases h with
      | plain hd => exact ⟨_, ⟨_, ⟨hd, rfl⟩, rfl⟩, rfl⟩
      | plus hd => exact absurd rfl (hplus _)
      | minus hd => exact absurd rfl (hminus _)

/-! ## Characters of numerals -/

/-- The characters of a numeral are signs and digits. -/
theorem Numeral.mem {cs : List Char} {n : Int} (h : Numeral cs n) {c : Char} (hc : c ∈ cs) :
    c = '+' ∨ c = '-' ∨ c.isDigit = true := by
  cases h with
  | plain hd => exact .inr (.inr (hd.2 c hc))
  | plus hd =>
    rcases List.mem_cons.1 hc with rfl | hc
    · exact .inl rfl
    · exact .inr (.inr (hd.2 c hc))
  | minus hd =>
    rcases List.mem_cons.1 hc with rfl | hc
    · exact .inr (.inl rfl)
    · exact .inr (.inr (hd.2 c hc))

theorem Numeral.ne_nil {cs : List Char} {n : Int} (h : Numeral cs n) : cs ≠ [] := by
  cases h with
  | plain hd => exact hd.1
  | plus hd => exact List.cons_ne_nil _ _
  | minus hd => exact List.cons_ne_nil _ _

theorem Numeral.not_blank {cs : List Char} {n : Int} (h : Numeral cs n) :
    ∀ c ∈ cs, Text.isBlank c = false := by
  intro c hc
  rcases h.mem hc with rfl | rfl | hd
  · rfl
  · rfl
  · exact Text.isBlank_of_isDigit hd

theorem says_iff {text : String} {n : Int} :
    Says text n ↔ Numeral (Text.trimChars text.toList) n ∧ -2 ^ 63 ≤ n ∧ n < 2 ^ 63 := by
  constructor
  · rintro ⟨⟨before, core, after, he, hn, hb, ha⟩, hlo, hhi⟩
    rw [he, Text.trimChars_blanks hb hn.not_blank hn.ne_nil ha]
    exact ⟨hn, hlo, hhi⟩
  · rintro ⟨hn, hlo, hhi⟩
    obtain ⟨before, after, he, hb, ha⟩ := Text.exists_blanks text.toList
    exact ⟨⟨before, _, after, he, hn, hb, ha⟩, hlo, hhi⟩

/-- A numeric attribute takes the texts that say an integer, and gives this integer. -/
theorem coerce_number_iff {text : String} {raw : Raw} :
    coerce .number (some text) = .ok raw ↔ ∃ n, Says text n ∧ raw = .int n := by
  unfold coerce
  simp only [says_iff, ← readInt?_eq_some_iff]
  cases readInt? (Text.trimChars text.toList) with
  | none => exact ⟨fun h => (by cases h), fun ⟨_, h, _⟩ => (by cases h)⟩
  | some m =>
    constructor
    · intro h
      exact ⟨m, rfl, (Except.ok.inj h).symm⟩
    · rintro ⟨n, hn, rfl⟩
      cases hn
      rfl

theorem Says.unique {text : String} {n m : Int} (h : Says text n) (h' : Says text m) : n = m := by
  rw [says_iff, ← readInt?_eq_some_iff] at h h'
  exact Option.some.inj (h.symm.trans h')

/-- Every count is said by the text that markup writes for it. -/
theorem says_written (c : Count) : Says (Setting.count c).written c.val := by
  obtain ⟨n, hn, he⟩ := coerce_number_iff.1 (coerce_written (.count c))
  cases he
  exact hn

/-! ## References -/

/-- A text that says an integer has none of the characters that references stand for. -/
theorem Says.not_mem {text : String} {n : Int} (h : Says text n) {c : Char}
    (hc : c ∈ ['&', '<', '>', '\x22', '\x27']) : c ∉ text.toList := by
  obtain ⟨before, core, after, he, hn, hb, ha⟩ := h.numeral
  have hother : Text.isBlank c = false ∧ ¬ (c = '+' ∨ c = '-' ∨ c.isDigit = true) := by
    simp only [List.mem_cons, List.not_mem_nil, or_false] at hc
    rcases hc with rfl | rfl | rfl | rfl | rfl <;> decide
  have hblank : ¬ Text.isBlank c = true := by
    rw [hother.1]
    exact Bool.false_ne_true
  rw [he, List.mem_append, List.mem_append]
  rintro ((hm | hm) | hm)
  · exact hblank (hb c hm)
  · exact hother.2 (hn.mem hm)
  · exact hblank (ha c hm)

end Attribute

namespace Entity

theorem decodeChars_eq_self {cs : List Char} (h : '&' ∉ cs) : decodeChars cs = cs := by
  induction cs with
  | nil => rfl
  | cons c cs ih =>
    rw [List.mem_cons, not_or] at h
    rw [decodeChars_cons (Ne.symm h.1), ih h.2]

/-- A reference leaves the character it stands for. -/
theorem eq_decodeChars {cs : List Char}
    (h : ∀ c ∈ ['&', '<', '>', '\x22', '\x27'], c ∉ decodeChars cs) : cs = decodeChars cs := by
  fun_induction decodeChars cs with
  | case1 rest | case2 rest | case3 rest | case4 rest | case5 rest =>
    exact absurd List.mem_cons_self (h _ (by decide))
  | case6 c rest _ _ _ _ _ ih =>
    have hrest := ih fun x hx => (List.not_mem_of_not_mem_cons (h x hx))
    rw [← hrest]
  | case7 => rfl

end Entity

namespace Attribute

/-- It makes no difference to what a text says whether its references are decoded. -/
theorem says_decode_iff {text : String} {n : Int} :
    Says (Entity.decode text) n ↔ Says text n := by
  constructor
  · intro h
    have he : text.toList = (Entity.decode text).toList := by
      rw [Entity.decode, String.toList_ofList]
      refine Entity.eq_decodeChars fun c hc => ?_
      have hm := h.not_mem hc
      rwa [Entity.decode, String.toList_ofList] at hm
    rwa [String.toList_inj.1 he]
  · intro h
    have he : Entity.decode text = text := by
      rw [Entity.decode, Entity.decodeChars_eq_self (h.not_mem List.mem_cons_self),
        String.ofList_toList]
    rwa [he]

end Attribute

end TermMarkup
