/-
What the parsers built from others do, by what their parts do. In a sequence, the failure of the
second part and what the first missed meet in one of three ways: the second fails further on, at the
same token, or before. What a parser missed is passed when it lies before the tokens that are left;
it then has no part in any later failure.
-/
import TermMarkup.Token.Parser

namespace TermMarkup

namespace Token.Parser

variable {α β : Type} {p : Parser α} {q : Parser β} {ts : List Lexeme}

/-! ## Failures -/

theorem Failure.furthest_of_lt {e f : Failure} (h : e.rest.length < f.rest.length) :
    e.furthest f = e :=
  if_pos h

theorem Failure.furthest_of_gt {e f : Failure} (h : f.rest.length < e.rest.length) :
    e.furthest f = f := by
  rw [furthest, if_neg (by omega), if_pos h]

theorem Failure.furthest_same (ts : List Lexeme) (es fs : List Expected) :
    furthest ⟨ts, es⟩ ⟨ts, fs⟩ = ⟨ts, es ++ fs⟩ := by
  rw [furthest, if_neg (Nat.lt_irrefl _), if_neg (Nat.lt_irrefl _)]

/-- What was missed lies before the tokens that are left. -/
def Passed (rest : List Lexeme) (missed : Option Failure) : Prop :=
  ∀ e ∈ missed, rest.length < e.rest.length

theorem passed_none (rest : List Lexeme) : Passed rest none :=
  fun _ h => (by cases h)

theorem passed_some {rest : List Lexeme} {e : Failure} (h : rest.length < e.rest.length) :
    Passed rest (some e) := by
  rintro _ ⟨⟩
  exact h

theorem Passed.mono {rest rest' : List Lexeme} {missed : Option Failure} (h : Passed rest missed)
    (hle : rest'.length ≤ rest.length) : Passed rest' missed :=
  fun e he => Nat.lt_of_le_of_lt hle (h e he)

theorem Passed.merge {missed : Option Failure} {f : Failure} (h : Passed f.rest missed) :
    missed.merge Failure.furthest (some f) = some f := by
  cases missed with
  | none => rfl
  | some e => exact congrArg some (Failure.furthest_of_gt (h e rfl))

theorem Passed.elim {missed : Option Failure} {f : Failure} (h : Passed f.rest missed) :
    missed.elim f f.furthest = f := by
  cases missed with
  | none => rfl
  | some e => exact Failure.furthest_of_lt (h e rfl)

theorem Passed.merge_passed {rest : List Lexeme} {missed missed' : Option Failure}
    (h : Passed rest missed) (h' : Passed rest missed') :
    Passed rest (missed.merge Failure.furthest missed') := by
  cases missed with
  | none =>
    cases missed' with
    | none => exact h
    | some f => exact h'
  | some e =>
    cases missed' with
    | none => exact h
    | some f =>
      rintro _ ⟨⟩
      unfold Failure.furthest
      split
      · exact h e rfl
      · split
        · exact h' f rfl
        · exact h e rfl

/-! ## One token or another -/

theorem just_cases (token : Token) (ts : List Lexeme) :
    (∃ span rest, ts = ⟨token, span⟩ :: rest) ∨
    (∀ x ∈ ts.head?, x.token ≠ token) ∧ just token ts = .error ⟨ts, [.token token]⟩ := by
  cases ts with
  | nil => exact .inr ⟨fun x hx => (by cases hx), rfl⟩
  | cons x xs =>
    by_cases h : x.token = token
    · exact .inl ⟨x.span, xs, by rw [← h]⟩
    · refine .inr ⟨fun y hy => ?_, if_neg h⟩
      cases hy
      exact h

theorem just_cons (token : Token) (span : Span) (rest : List Lexeme) :
    just token (⟨token, span⟩ :: rest) = .ok ⟨(), none, rest⟩ :=
  if_pos rfl

theorem andThen_error {e : Failure} (h : p ts = .error e) : p.andThen q ts = .error e := by
  rw [andThen, h]

theorem andThen_ok {a : α} {b : β} {missed missed' : Option Failure} {rest rest' : List Lexeme}
    (h : p ts = .ok ⟨a, missed, rest⟩) (h' : q rest = .ok ⟨b, missed', rest'⟩) :
    p.andThen q ts = .ok ⟨(a, b), missed.merge Failure.furthest missed', rest'⟩ := by
  rw [andThen, h]
  simp only [h']

/-- The second parser fails further on than all that the first missed. -/
theorem andThen_passed {a : α} {missed : Option Failure} {rest : List Lexeme} {e : Failure}
    (h : p ts = .ok ⟨a, missed, rest⟩) (h' : q rest = .error e) (hm : Passed e.rest missed) :
    p.andThen q ts = .error e := by
  rw [andThen, h]
  simp only [h']
  exact congrArg Except.error hm.elim

/-- The second parser fails where the first could not go on. -/
theorem andThen_same {a : α} {rest : List Lexeme} {es fs : List Expected}
    (h : p ts = .ok ⟨a, some ⟨rest, fs⟩, rest⟩) (h' : q rest = .error ⟨rest, es⟩) :
    p.andThen q ts = .error ⟨rest, es ++ fs⟩ := by
  rw [andThen, h]
  simp only [h']
  exact congrArg Except.error (Failure.furthest_same rest es fs)

/-- The second parser fails before what the first missed. -/
theorem andThen_missed {a : α} {rest : List Lexeme} {e f : Failure}
    (h : p ts = .ok ⟨a, some f, rest⟩) (h' : q rest = .error e)
    (hlt : f.rest.length < e.rest.length) : p.andThen q ts = .error f := by
  rw [andThen, h]
  simp only [h']
  exact congrArg Except.error (Failure.furthest_of_gt hlt)

theorem andThen_congr {p' : Parser α} {us : List Lexeme} (h : p ts = p' us) :
    p.andThen q ts = p'.andThen q us := by
  rw [andThen, andThen, h]

theorem map_error {e : Failure} (f : α → β) (h : p ts = .error e) : p.map f ts = .error e := by
  rw [map, h]
  rfl

theorem map_ok {s : Success α} (f : α → β) (h : p ts = .ok s) :
    p.map f ts = .ok { s with value := f s.value } := by
  rw [map, h]
  rfl

theorem ignoreThen_cons (token : Token) (q : Parser β) (span : Span) (rest : List Lexeme) :
    (just token).ignoreThen q (⟨token, span⟩ :: rest) = q rest := by
  unfold ignoreThen
  cases h : q rest with
  | error e => exact map_error _ (andThen_passed (just_cons token span rest) h (passed_none _))
  | ok s =>
    obtain ⟨b, missed, us⟩ := s
    rw [map_ok _ (andThen_ok (just_cons token span rest) h)]
    cases missed <;> rfl

theorem ignoreThen_error {e : Failure} (h : p ts = .error e) :
    p.ignoreThen q ts = .error e :=
  map_error _ (andThen_error h)

theorem or_ok {p' : Parser α} {s : Success α} (h : p ts = .ok s) : p.or p' ts = .ok s := by
  rw [or, h]

theorem or_error_ok {p' : Parser α} {e : Failure} {s : Success α} (h : p ts = .error e)
    (h' : p' ts = .ok s) : p.or p' ts = .ok s := by
  rw [or, h]
  simp only [h']

theorem or_error_error {p' : Parser α} {e f : Failure} (h : p ts = .error e)
    (h' : p' ts = .error f) : p.or p' ts = .error (e.furthest f) := by
  rw [or, h]
  simp only [h']

/-- A choice is its second parser where the first fails, and fails before the second. -/
theorem or_of_further {p' : Parser α} {e : Failure} (h : p ts = .error e)
    (hlt : ∀ f, p' ts = .error f → f.rest.length < e.rest.length) : p.or p' ts = p' ts := by
  cases h' : p' ts with
  | ok s => exact or_error_ok h h'
  | error f => rw [or_error_error h h', Failure.furthest_of_gt (hlt f h')]

theorem repeatedFrom_error {e : Failure} (h : p ts = .error e) :
    p.repeatedFrom ts = ⟨[], some e, ts⟩ := by
  rw [repeatedFrom, h]

theorem repeatedFrom_ok {s : Success α} (h : p ts = .ok s) (hlt : s.rest.length < ts.length) :
    p.repeatedFrom ts = ⟨s.value :: (p.repeatedFrom s.rest).value,
      s.missed.merge Failure.furthest (p.repeatedFrom s.rest).missed,
      (p.repeatedFrom s.rest).rest⟩ := by
  rw [repeatedFrom, h]
  exact if_pos hlt

/-- Either a token that carries a value is first, or the selection fails there. -/
theorem select_cases {value? : Token → Option String} {make : String → Token}
    (h : ∀ token value, value? token = some value → token = make value) (ts : List Lexeme) :
    (∃ value span rest, ts = ⟨make value, span⟩ :: rest) ∨
    (∀ x ∈ ts.head?, value? x.token = none) ∧ select value? ts = .error ⟨ts, []⟩ := by
  cases ts with
  | nil => exact .inr ⟨fun x hx => (by cases hx), rfl⟩
  | cons x xs =>
    cases hv : value? x.token with
    | some value => exact .inl ⟨value, x.span, xs, by rw [← h _ _ hv]⟩
    | none =>
      refine .inr ⟨fun y hy => ?_, ?_⟩
      · cases hy
        exact hv
      · rw [select, hv]

theorem mapWithSpan_ok (xs : List Lexeme) {rest : List Lexeme} {a : α} {missed : Option Failure}
    (h : p (xs ++ rest) = .ok ⟨a, missed, rest⟩) (f : α → Span → β) :
    p.mapWithSpan f (xs ++ rest) = .ok ⟨f a (spanOf xs), missed, rest⟩ := by
  have htaken : (xs ++ rest).take ((xs ++ rest).length - rest.length) = xs := by
    rw [List.length_append, Nat.add_sub_cancel, List.take_left]
  unfold mapWithSpan
  rw [h]
  simp only [Except.map, htaken]

theorem mapWithSpan_error {e : Failure} (h : p ts = .error e) (f : α → Span → β) :
    p.mapWithSpan f ts = .error e := by
  unfold mapWithSpan
  rw [h]
  rfl

end Token.Parser

end TermMarkup
