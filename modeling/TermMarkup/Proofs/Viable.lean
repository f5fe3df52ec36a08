/-
Where reading fails, and what it says. Tokens are viable if some document begins with them. The
reader goes on exactly as long as its tokens are viable, so it stops at the first token that no
document has there, or at the end of tokens that need more. What it expects is then every fixed
token that can come next, and the end where the tokens are a document already.
-/
import Mathlib.Data.List.Induction
import TermMarkup.Proofs.Derivation

namespace TermMarkup

/-- The tokens that are written in one way only. -/
def Token.fixed : List Token :=
  [.tagOpen, .closeOpen, .tagEnd, .selfClose, .equals]

/-- Some document begins with the tokens. -/
def Grammar.Viable (ts : List Token) : Prop :=
  ∃ rest, IsDocument (ts ++ rest)

namespace Item.Reader

open Grammar

/-! ## Token after token -/

/-- The reader after the tokens, unless one of them cannot stand where it does. -/
def steps (r : Reader) (xs : List Lexeme) : Option Reader :=
  xs.foldlM step r

theorem steps_cons (r : Reader) (x : Lexeme) (xs : List Lexeme) :
    r.steps (x :: xs) = (r.step x).bind (·.steps xs) :=
  List.foldlM_cons

theorem steps_append (r : Reader) (xs ys : List Lexeme) :
    r.steps (xs ++ ys) = (r.steps xs).bind (·.steps ys) :=
  List.foldlM_append

theorem steps_singleton (r : Reader) (x : Lexeme) : r.steps [x] = r.step x := by
  rw [steps_cons]
  cases r.step x <;> rfl

/-- What each step keeps, of the tokens so far and the reader after them, holds after all steps. -/
theorem steps_induction {P : List Lexeme → Reader → Prop} (nil : P [] start)
    (step : ∀ {xs r x next}, P xs r → r.step x = some next → P (xs ++ [x]) next)
    {xs : List Lexeme} {r : Reader} (h : start.steps xs = some r) : P xs r := by
  induction xs using List.reverseRecOn generalizing r with
  | nil =>
    cases h
    exact nil
  | append_singleton xs x ih =>
    rw [steps_append] at h
    obtain ⟨middle, hm, hx⟩ := Option.bind_eq_some_iff.1 h
    rw [steps_singleton] at hx
    exact step (ih hm) hx

theorem run_of_steps {size : Nat} {r next : Reader} {xs : List Lexeme} (h : r.steps xs = some next)
    (rest : List Lexeme) : r.run size (xs ++ rest) = next.run size rest := by
  induction xs generalizing r with
  | nil =>
    cases h
    rfl
  | cons x xs ih =>
    rw [steps_cons] at h
    obtain ⟨middle, hx, hs⟩ := Option.bind_eq_some_iff.1 h
    rw [List.cons_append, run_of_step size hx, ih hs]

/-- A run that fails goes over some tokens and stops at the next of them, or at their end. -/
theorem run_eq_error {size : Nat} {r : Reader} {xs : List Lexeme} {e : ParseError}
    (h : r.run size xs = .error e) :
    ∃ before after next, xs = before ++ after ∧ r.steps before = some next ∧
      (∀ x ∈ after.head?, next.step x = none) ∧
      e = ⟨.unexpectedToken (after.head?.map Lexeme.token) next.expected,
        (after.head?.map Lexeme.span).getD ⟨size, size⟩⟩ := by
  induction xs generalizing r with
  | nil =>
    unfold run at h
    split at h
    · cases h
    · cases h
      exact ⟨[], [], r, rfl, rfl, fun x hx => (by cases hx), rfl⟩
  | cons x xs ih =>
    unfold run at h
    split at h
    · rename_i middle hx
      obtain ⟨before, after, next, rfl, hs, hstop, he⟩ := ih h
      refine ⟨x :: before, after, next, rfl, ?_, hstop, he⟩
      rw [steps_cons, hx]
      exact hs
    · rename_i hx
      cases h
      refine ⟨[], x :: xs, r, rfl, rfl, fun y hy => ?_, rfl⟩
      cases hy
      exact hx

/-- A run that succeeds goes over all tokens. -/
theorem steps_of_run {size : Nat} {r : Reader} {xs : List Lexeme} {items : List Item}
    (h : r.run size xs = .ok items) : ∃ next, r.steps xs = some next ∧ next.finish = some items := by
  induction xs generalizing r with
  | nil =>
    unfold run at h
    split at h
    · rename_i hf
      cases h
      exact ⟨r, rfl, hf⟩
    · cases h
  | cons x xs ih =>
    unfold run at h
    split at h
    · rename_i middle hx
      obtain ⟨next, hs, hf⟩ := ih h
      refine ⟨next, ?_, hf⟩
      rw [steps_cons, hx]
      exact hs
    · cases h

/-! ## Closing tags -/

/-- A closing tag is begun only where a body is open. -/
def Closable (r : Reader) : Prop :=
  match r.phase with
  | .closeName | .closeEnd _ => r.frames ≠ []
  | _ => True

theorem closable_continueTag {r next : Reader} {name : Name} {attributes : List WrittenAttribute}
    {x : Lexeme} (h : r.continueTag name attributes x = some next) : next.Closable := by
  obtain ⟨token, span⟩ := x
  unfold continueTag at h
  cases token with
  | name _ | tagEnd | selfClose =>
    cases h
    trivial
  | tagOpen | closeOpen | text _ | equals | quoted _ => cases h

theorem closable_step {r next : Reader} {x : Lexeme} (hr : r.Closable) (h : r.step x = some next) :
    next.Closable := by
  obtain ⟨frames, items, phase⟩ := r
  obtain ⟨token, span⟩ := x
  cases phase with
  | items =>
    cases token with
    | text _ | tagOpen =>
      cases h
      trivial
    | closeOpen =>
      cases frames with
      | nil => cases h
      | cons frame frames =>
        cases h
        exact List.cons_ne_nil frame frames
    | name _ | equals | quoted _ | tagEnd | selfClose => cases h
  | openName =>
    cases token with
    | name _ =>
      cases h
      trivial
    | tagOpen | closeOpen | text _ | equals | quoted _ | tagEnd | selfClose => cases h
  | inTag name attributes => exact closable_continueTag h
  | afterName name attributes key =>
    by_cases he : token = .equals
    · subst he
      cases h
      trivial
    · rw [step_afterName he] at h
      exact closable_continueTag h
  | value name attributes key =>
    cases token with
    | quoted _ =>
      cases h
      trivial
    | tagOpen | closeOpen | text _ | name _ | equals | tagEnd | selfClose => cases h
  | closeName =>
    cases token with
    | name _ =>
      cases h
      exact hr
    | tagOpen | closeOpen | text _ | equals | quoted _ | tagEnd | selfClose => cases h
  | closeEnd close =>
    cases token with
    | tagEnd =>
      cases frames with
      | nil => cases h
      | cons frame frames =>
        cases h
        trivial
    | tagOpen | closeOpen | text _ | name _ | equals | quoted _ | selfClose => cases h

theorem closable_steps {r : Reader} {xs : List Lexeme} (h : start.steps xs = some r) :
    r.Closable := by
  have hstart : start.Closable := trivial
  exact steps_induction (P := fun _ r => r.Closable) hstart closable_step h

/-! ## Reading on -/

/-- Tokens that end the tag a reader is in. -/
def restOfTag : Phase → List Token
  | .items => []
  | .openName => [.name "a", .selfClose]
  | .inTag _ _ | .afterName _ _ _ => [.selfClose]
  | .value _ _ _ => [.quoted "", .selfClose]
  | .closeName => [.name "a", .tagEnd]
  | .closeEnd _ => [.tagEnd]

theorem steps_restOfTag {r : Reader} (hr : r.Closable) :
    ∃ frames items,
      r.steps ((restOfTag r.phase).map Lexeme.ofToken) = some ⟨frames, items, .items⟩ := by
  obtain ⟨frames, items, phase⟩ := r
  cases phase with
  | items | openName | inTag _ _ | afterName _ _ _ | value _ _ _ => exact ⟨_, _, rfl⟩
  | closeName | closeEnd _ =>
    cases frames with
    | nil => exact absurd rfl hr
    | cons frame frames => exact ⟨_, _, rfl⟩

/-- Between items, as many closing tags as bodies are open complete the document. -/
theorem exists_closing (frames : List Frame) (items : List Item) :
    ∃ (ts : List Token) (all : List Item),
      run 0 ⟨frames, items, .items⟩ (ts.map Lexeme.ofToken) = .ok all := by
  induction frames generalizing items with
  | nil => exact ⟨[], _, rfl⟩
  | cons frame frames ih =>
    obtain ⟨ts, all, h⟩ := ih (.element frame.tag items.reverse ⟨"a", .nowhere⟩ :: frame.before)
    exact ⟨.closeOpen :: .name "a" :: .tagEnd :: ts, all, h⟩

/-- The tokens that a reader has gone over can be completed. -/
theorem exists_completion {r : Reader} (hr : r.Closable) :
    ∃ (ts : List Token) (items : List Item), r.run 0 (ts.map Lexeme.ofToken) = .ok items := by
  obtain ⟨frames, items, hs⟩ := steps_restOfTag hr
  obtain ⟨ts, all, h⟩ := exists_closing frames items
  refine ⟨restOfTag r.phase ++ ts, all, ?_⟩
  rw [List.map_append, run_of_steps hs, h]

theorem map_token_append (xs : List Lexeme) (ts : List Token) :
    (xs ++ ts.map Lexeme.ofToken).map Lexeme.token = xs.map Lexeme.token ++ ts := by
  rw [List.map_append, List.map_map]
  exact congrArg (xs.map Lexeme.token ++ ·) (List.map_id ts)

/-- The reader goes over the tokens exactly when they are viable. -/
theorem viable_iff_steps {xs : List Lexeme} :
    Viable (xs.map Lexeme.token) ↔ ∃ r, start.steps xs = some r := by
  constructor
  · rintro ⟨ts, h⟩
    rw [← map_token_append, isDocument_iff_read 0] at h
    obtain ⟨items, h⟩ := h
    obtain ⟨next, hs, -⟩ := steps_of_run h
    rw [steps_append] at hs
    obtain ⟨r, hr, -⟩ := Option.bind_eq_some_iff.1 hs
    exact ⟨r, hr⟩
  · rintro ⟨r, hr⟩
    obtain ⟨ts, items, h⟩ := exists_completion (closable_steps hr)
    refine ⟨ts, ?_⟩
    rw [← map_token_append, isDocument_iff_read 0]
    exact ⟨items, (run_of_steps hr _).trans h⟩

section

variable {xs : List Lexeme} {r : Reader} (hr : start.steps xs = some r)

include hr

theorem viable_append_iff (x : Lexeme) :
    Viable (xs.map Lexeme.token ++ [x.token]) ↔ (r.step x).isSome := by
  have hmap : xs.map Lexeme.token ++ [x.token] = (xs ++ [x]).map Lexeme.token := by
    rw [List.map_append, List.map_singleton]
  rw [hmap, viable_iff_steps, steps_append, hr, Option.isSome_iff_exists]
  exact exists_congr fun next => by rw [Option.bind_some, steps_singleton]

theorem isDocument_iff_finish : IsDocument (xs.map Lexeme.token) ↔ r.finish.isSome := by
  rw [isDocument_iff_read 0, Option.isSome_iff_exists]
  refine exists_congr fun items => ?_
  have hrun : start.run 0 (xs ++ []) = r.run 0 [] := run_of_steps hr []
  rw [List.append_nil] at hrun
  unfold read
  rw [hrun, run]
  cases r.finish with
  | none => exact ⟨fun h => (by cases h), fun h => (by cases h)⟩
  | some found =>
    exact ⟨fun h => congrArg some (Except.ok.inj h), fun h => congrArg Except.ok (Option.some.inj h)⟩

end

/-! ## What is expected -/

/-- The reader expects the fixed tokens that it would take. -/
theorem token_mem_expected {r : Reader} (hr : r.Closable) (x : Lexeme) :
    .token x.token ∈ r.expected ↔ x.token ∈ Token.fixed ∧ (r.step x).isSome := by
  obtain ⟨frames, items, phase⟩ := r
  obtain ⟨token, span⟩ := x
  cases phase with
  | items =>
    cases frames with
    | nil => cases token <;> simp [expected, Token.fixed, step]
    | cons frame frames => cases token <;> simp [expected, Token.fixed, step]
  | openName | value _ _ _ => cases token <;> simp [expected, Token.fixed, step]
  | inTag _ _ | afterName _ _ _ => cases token <;> simp [expected, Token.fixed, step, continueTag]
  | closeName => cases token <;> simp [expected, Token.fixed, step]
  | closeEnd close =>
    cases frames with
    | nil => exact absurd rfl hr
    | cons frame frames => cases token <;> simp [expected, Token.fixed, step]

theorem endOfInput_mem_expected (r : Reader) : .endOfInput ∈ r.expected ↔ r.finish.isSome := by
  obtain ⟨frames, items, phase⟩ := r
  cases frames <;> cases phase <;> simp [expected, finish]

end Item.Reader

namespace Item

open Grammar Reader

/-- How reading fails: some document begins with the tokens before the fault, none goes on with the
token at the fault, which is the end if no token comes after. The fault is placed there, and expects
the fixed tokens that can come there in a document, and the end if a document can end there. -/
structure Refused (size : Nat) (before after : List Lexeme) (expected : List Expected) : Prop where
  viable : Viable (before.map Lexeme.token)
  unviable : ∀ x ∈ after.head?, ¬ Viable (before.map Lexeme.token ++ [x.token])
  fault : read size (before ++ after) =
    .error ⟨.unexpectedToken (after.head?.map Lexeme.token) expected,
      (after.head?.map Lexeme.span).getD ⟨size, size⟩⟩
  expectsToken : ∀ t, .token t ∈ expected ↔
    t ∈ Token.fixed ∧ Viable (before.map Lexeme.token ++ [t])
  expectsEnd : .endOfInput ∈ expected ↔ IsDocument (before.map Lexeme.token)

/-- Tokens that are no document are refused at the first of them with which no document goes on
from those before it, or at the end if there is none, and what is expected there is exactly what can
come there in a document. -/
theorem read_error_at_first_unviable {size : Nat} {xs : List Lexeme}
    (h : ¬ IsDocument (xs.map Lexeme.token)) :
    ∃ before after expected, xs = before ++ after ∧ Refused size before after expected := by
  have herror : ∃ e, read size xs = .error e := by
    cases hread : read size xs with
    | ok items => exact absurd ((isDocument_iff_read size).2 ⟨items, hread⟩) h
    | error e => exact ⟨e, rfl⟩
  obtain ⟨e, he⟩ := herror
  obtain ⟨before, after, r, rfl, hr, hstop, rfl⟩ := run_eq_error he
  have hclosable := closable_steps hr
  refine ⟨before, after, r.expected, rfl, viable_iff_steps.2 ⟨r, hr⟩, fun x hx => ?_, he,
    fun t => ?_, ?_⟩
  · rw [viable_append_iff hr, hstop x hx]
    exact Bool.false_ne_true
  · have hviable := viable_append_iff hr (.ofToken t)
    exact (token_mem_expected hclosable (.ofToken t)).trans (and_congr_right' hviable.symm)
  · rw [endOfInput_mem_expected, isDocument_iff_finish hr]

/-- In `<p x='1' =>` the second equals sign stands where the tag could end. -/
theorem read_error_at_second_equals :
    let xs : List Lexeme := [⟨.tagOpen, 0, 1⟩, ⟨.name "p", 1, 2⟩, ⟨.name "x", 3, 4⟩,
      ⟨.equals, 4, 5⟩, ⟨.quoted "1", 5, 8⟩, ⟨.equals, 9, 10⟩, ⟨.tagEnd, 10, 11⟩]
    ¬ IsDocument (xs.map Lexeme.token) ∧
      ∃ before after, xs = before ++ after ∧ after.head?.map Lexeme.span = some ⟨9, 10⟩ ∧
        Refused 11 before after [.token .selfClose, .token .tagEnd] := by
  intro xs
  have hread : read 11 xs =
      .error ⟨.unexpectedToken (some .equals) [.token .selfClose, .token .tagEnd], 9, 10⟩ := rfl
  have h : ¬ IsDocument (xs.map Lexeme.token) := by
    rw [isDocument_iff_read 11, hread]
    rintro ⟨items, hi⟩
    cases hi
  obtain ⟨before, after, expected, he, hr⟩ := @read_error_at_first_unviable 11 xs h
  have hfault := hr.fault
  rw [← he, hread] at hfault
  cases after with
  | nil => cases hfault
  | cons x after =>
    simp only [List.head?_cons, Option.map_some, Option.getD_some, Except.error.injEq,
      ParseError.mk.injEq, ParseFault.unexpectedToken.injEq] at hfault
    obtain ⟨⟨-, rfl⟩, hspan⟩ := hfault
    exact ⟨h, before, x :: after, he, congrArg some hspan.symm, hr⟩

end Item

end TermMarkup
