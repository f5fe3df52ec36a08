/-
The nesting guard, exactly. On a document it refuses the first element with a body that stands in
64 others, and nothing else. On other tokens it counts right as far as they are viable, and what it
accepts there never has more than 64 bodies open, so the reader never holds more frames than that.
-/
import TermMarkup.Proofs.Viable

namespace TermMarkup.Item

open Token Grammar Reader

/-! ## Open bodies -/

/-- Tokens after which `n` bodies are open and no tag is begun: items, and one in another `n` opening
tags, each with the items that its body has so far. -/
inductive Unclosed : Nat → List Lexeme → Prop where
  | document {xs : List Lexeme} {items : List Item} : Document xs items → Unclosed 0 xs
  | body (stop : Span) {n : Nat} {xs ys zs : List Lexeme} {tag : OpenTag} {items : List Item} :
    Unclosed n xs → Opening ys tag → Document zs items →
    Unclosed (n + 1) (xs ++ (ys ++ ⟨.tagEnd, stop⟩ :: zs))

/-- The beginning of a tag, without the token that ends it. -/
def BegunTag (xs : List Lexeme) : Prop :=
  (∃ ys tag, Opening ys tag ∧ xs <+: ys) ∨
    ∃ start close span, xs <+: [⟨.closeOpen, start⟩, ⟨.name close, span⟩]

/-- Tokens after which `n` bodies are open; a body is open until its closing tag has ended. -/
def OpenBodies (n : Nat) (xs : List Lexeme) : Prop :=
  ∃ ys zs, xs = ys ++ zs ∧ Unclosed n ys ∧ BegunTag zs

theorem unclosed_of_behind {xs : List Lexeme} {frames : List Frame} {items : List Item}
    (h : Behind xs frames items) : Unclosed frames.length xs := by
  induction h with
  | top hd => exact .document hd
  | body stop _ ho hd ih => exact .body stop ih ho hd

theorem begunTag_of_partial {xs : List Lexeme} {phase : Phase} (h : Partial xs phase) :
    BegunTag xs := by
  cases phase with
  | items =>
    cases (show xs = [] from h)
    exact Or.inr ⟨.nowhere, "", .nowhere, List.nil_prefix⟩
  | openName =>
    obtain ⟨start, rfl⟩ := h
    exact Or.inl ⟨_, _, .intro start ⟨"", .nowhere⟩ .nil, [_], rfl⟩
  | inTag name attributes => exact Or.inl ⟨xs, _, h, List.prefix_refl xs⟩
  | afterName name attributes key =>
    obtain ⟨ys, rfl, ho⟩ := h
    exact Or.inl ⟨_, _, opening_bare ho, List.prefix_refl _⟩
  | value name attributes key =>
    -- any value would end the attribute
    obtain ⟨ys, equals, rfl, ho⟩ := h
    refine Or.inl ⟨_, _, @opening_valued ys name key attributes equals .nowhere "" ho, ?_⟩
    exact ⟨[⟨.quoted "", .nowhere⟩], by simp⟩
  | closeName =>
    obtain ⟨start, rfl⟩ := h
    exact Or.inr ⟨start, "", .nowhere, [_], rfl⟩
  | closeEnd close =>
    obtain ⟨start, rfl⟩ := h
    exact Or.inr ⟨start, close.text, close.span, List.prefix_refl _⟩

/-- As many bodies are open as the reader holds frames. -/
theorem openBodies_of_steps {xs : List Lexeme} {r : Reader} (h : start.steps xs = some r) :
    OpenBodies r.frames.length xs := by
  have hstart : HasRead [] start := ⟨[], [], rfl, .top .nil, rfl⟩
  obtain ⟨ys, zs, rfl, hb, hp⟩ := steps_induction hstart hasRead_step h
  exact ⟨ys, zs, rfl, unclosed_of_behind hb, begunTag_of_partial hp⟩

/-! ## The guard where bodies are open -/

theorem checkNestingFrom_document {xs rest : List Lexeme} {items : List Item} {depth : Nat}
    (h : Document xs items) (hg : checkNestingFrom depth none (xs ++ rest) = .ok ()) :
    checkNestingFrom depth none rest = .ok () := by
  obtain ⟨opened, ho, -⟩ := opens_of_document h depth
  rw [checkNestingFrom_opens ho, refuse] at hg
  split at hg
  · cases hg
  · exact hg

theorem checkNestingFrom_body {ys rest : List Lexeme} {tag : OpenTag} {depth : Nat} {stop : Span}
    (h : Opening ys tag)
    (hg : checkNestingFrom depth none (ys ++ ⟨.tagEnd, stop⟩ :: rest) = .ok ()) :
    depth < maxNesting ∧ checkNestingFrom (depth + 1) none rest = .ok () := by
  cases h with
  | intro start name ha =>
    have htag := checkNestingFrom_attributes ha depth (some start.start) (⟨.tagEnd, stop⟩ :: rest)
    rw [checkNestingFrom_tagEnd] at htag
    replace hg := htag.symm.trans hg
    split at hg
    · rename_i hd
      exact ⟨hd, hg⟩
    · cases hg

/-- Where the guard comes past open bodies, it has counted them and there are not too many. -/
theorem Unclosed.counted {n : Nat} {xs : List Lexeme} (h : Unclosed n xs) {rest : List Lexeme}
    (hg : checkNesting (xs ++ rest) = .ok ()) :
    n ≤ maxNesting ∧ checkNestingFrom n none rest = .ok () := by
  induction h generalizing rest with
  | document hd => exact ⟨Nat.zero_le _, checkNestingFrom_document hd hg⟩
  | body stop _ ho hd ih =>
    rw [List.append_assoc, List.append_assoc, List.cons_append] at hg
    obtain ⟨-, hg⟩ := ih hg
    obtain ⟨hlt, hg⟩ := checkNestingFrom_body ho hg
    exact ⟨hlt, checkNestingFrom_document hd hg⟩

theorem OpenBodies.le_maxNesting {n : Nat} {ps xs : List Lexeme} (h : OpenBodies n ps)
    (hp : ps <+: xs) (hg : checkNesting xs = .ok ()) : n ≤ maxNesting := by
  obtain ⟨ys, zs, rfl, hu, -⟩ := h
  obtain ⟨rest, rfl⟩ := hp
  rw [List.append_assoc] at hg
  exact (hu.counted hg).1

/-- The guard refuses the tokens of a document exactly when an element with a body stands in 64
others, with the opening tag of the first such element. Tokens that it accepts, a document or not,
have at most 64 bodies open after any part of them that is viable, and the reader holds no more
frames there. -/
theorem checkNesting_exact (xs : List Lexeme) :
    (IsDocument (xs.map Lexeme.token) → ∃ opened, Opens 0 xs opened) ∧
    (∀ opened, Opens 0 xs opened →
      (checkNesting xs ≠ .ok () ↔ ∃ o ∈ opened, 64 ≤ o.depth) ∧
      ∀ o, opened.find? (fun o => 64 ≤ o.depth) = some o →
        checkNesting xs = .error ⟨.tooDeep, o.tag⟩) ∧
    (checkNesting xs = .ok () → ∀ ps, ps <+: xs → Viable (ps.map Lexeme.token) →
      (∃ n, OpenBodies n ps) ∧ (∀ n, OpenBodies n ps → n ≤ 64) ∧
      ∀ r, start.steps ps = some r → r.frames.length ≤ 64) := by
  refine ⟨fun h => ?_, fun opened ho => ⟨?_, fun o hf => ?_⟩, fun hg ps hp hv => ?_⟩
  · obtain ⟨items, hr⟩ := (isDocument_iff_read 0).1 h
    obtain ⟨opened, ho, -⟩ := opens_of_document (read_eq_ok_iff.1 hr) 0
    exact ⟨opened, ho⟩
  · rw [checkNesting_opens ho, ne_eq, refuse_eq_ok_iff]
    push Not
    rfl
  · have hfirst : opened.find? (fun o => maxNesting ≤ o.depth) = some o := hf
    rw [checkNesting_opens ho, refuse, hfirst]
  · obtain ⟨r, hr⟩ := viable_iff_steps.1 hv
    have hlimit : ∀ n, OpenBodies n ps → n ≤ 64 := fun n hn => hn.le_maxNesting hp hg
    refine ⟨⟨_, openBodies_of_steps hr⟩, hlimit, fun r hr => hlimit _ (openBodies_of_steps hr)⟩

/-- Of 65 elements one in another the guard refuses the innermost, by its opening tag; 64 open bodies
are accepted, and the reader holds a frame for each. -/
theorem checkNesting_exact_nested :
    let opening : Nat → List Lexeme := fun n =>
      [⟨.tagOpen, 3 * n, 3 * n + 1⟩, ⟨.name "b", 3 * n + 1, 3 * n + 2⟩,
        ⟨.tagEnd, 3 * n + 2, 3 * n + 3⟩]
    let closing : Nat → List Lexeme := fun n =>
      [⟨.closeOpen, 4 * n + 195, 4 * n + 197⟩, ⟨.name "b", 4 * n + 197, 4 * n + 198⟩,
        ⟨.tagEnd, 4 * n + 198, 4 * n + 199⟩]
    let ps := (List.range 64).flatMap opening
    let xs := (List.range 65).flatMap opening ++ (List.range 65).flatMap closing
    (IsDocument (xs.map Lexeme.token) ∧ ∃ opened o, Opens 0 xs opened ∧
      opened.find? (fun o => 64 ≤ o.depth) = some o ∧ o.tag = ⟨192, 195⟩) ∧
    checkNesting ps = .ok () ∧ Viable (ps.map Lexeme.token) ∧ (∃ n, OpenBodies n ps ∧ n ≤ 64) ∧
    ∃ r, start.steps ps = some r ∧ r.frames.length = 64 ∧ r.frames.length ≤ 64 := by
  intro opening closing ps xs
  refine ⟨?_, ?_⟩
  · have hdoc : IsDocument (xs.map Lexeme.token) := by
      have hread : (read 0 xs).isOk = true := by decide +kernel
      rw [isDocument_iff_read 0]
      cases h : read 0 xs with
      | ok items => exact ⟨items, rfl⟩
      | error e =>
        rw [h] at hread
        cases hread
    have hrefused : checkNesting xs = .error ⟨.tooDeep, 192, 195⟩ := by decide +kernel
    obtain ⟨hopens, hdeep, -⟩ := checkNesting_exact xs
    obtain ⟨opened, ho⟩ := hopens hdoc
    obtain ⟨hiff, hfirst⟩ := hdeep opened ho
    have hsome : (opened.find? fun o => 64 ≤ o.depth).isSome = true := by
      simpa using hiff.1 (by rw [hrefused]; rintro ⟨⟩)
    obtain ⟨o, hf⟩ := Option.isSome_iff_exists.1 hsome
    have htag := hfirst o hf
    rw [hrefused, Except.error.injEq, ParseError.mk.injEq] at htag
    exact ⟨hdoc, opened, o, ho, hf, htag.2.symm⟩
  · have hok : checkNesting ps = .ok () := by decide +kernel
    have hframes : (start.steps ps).map (·.frames.length) = some 64 := by decide +kernel
    obtain ⟨r, hr, hlength⟩ := Option.map_eq_some_iff.1 hframes
    have hv := viable_iff_steps.2 ⟨r, hr⟩
    obtain ⟨⟨n, hn⟩, hlimit, hheld⟩ :=
      (checkNesting_exact ps).2.2 hok ps (List.prefix_refl ps) hv
    exact ⟨hok, hv, ⟨n, hn, hlimit n hn⟩, r, hr, hlength, hheld r hr⟩

end TermMarkup.Item
