/-
The rules of documents and the reader give the same result for all tokens: the same items, or the
same error at the same token with the same expectations. The rules go back when a choice, an
optional value or a repetition fails, while the reader never does. Going back loses nothing, since
the failure is kept: either it lies before the tokens that are left and a later failure replaces it,
or it stands at the first of them and its expectations join those of the rule that is tried next, or
it lies further on and is the error that the reader stops with.
-/
import TermMarkup.Item.Rules
import TermMarkup.Proofs.Combinators
import TermMarkup.Proofs.Grammar

namespace TermMarkup

namespace Item

open Token.Parser Reader

variable {size : Nat} {frames : List Frame} {before : List Item} {ts : List Lexeme}

/-- The reader refuses a first token of a kind it has no step for, or the end. -/
theorem Reader.run_refused {r : Reader} {es : List Expected} {p : Token → Prop}
    (h : ∀ x ∈ ts.head?, p x.token) (hstep : ∀ token span, p token → r.step ⟨token, span⟩ = none)
    (hend : ts = [] → r.finish = none) (he : es.foldr Expected.insert [] = r.expected) :
    r.run size ts = .error (Failure.report size ⟨ts, es⟩) := by
  unfold Failure.report
  rw [he]
  cases ts with
  | nil =>
    rw [run, hend rfl]
    rfl
  | cons x xs =>
    rw [run, hstep x.token x.span (h x rfl)]
    rfl

namespace Rules

/-! ## Names, values and attributes -/

theorem eq_name (token : Token) (word : String) (h : token.name? = some word) :
    token = .name word := by
  cases token <;> cases h
  rfl

theorem eq_quoted (token : Token) (value : String) (h : token.quoted? = some value) :
    token = .quoted value := by
  cases token <;> cases h
  rfl

theorem eq_text (token : Token) (value : String) (h : token.text? = some value) :
    token = .text value := by
  cases token <;> cases h
  rfl

theorem name_cons (key : Name) (rest : List Lexeme) :
    name (⟨.name key.text, key.span⟩ :: rest) = .ok ⟨key, none, rest⟩ :=
  mapWithSpan_ok (p := select Token.name?) [⟨.name key.text, key.span⟩] rfl Name.mk

theorem name_cases (ts : List Lexeme) :
    (∃ (key : Name) (rest : List Lexeme), ts = ⟨.name key.text, key.span⟩ :: rest) ∨
    (∀ x ∈ ts.head?, x.token.name? = none) ∧ name ts = .error ⟨ts, []⟩ := by
  obtain ⟨word, span, rest, rfl⟩ | ⟨hn, he⟩ := select_cases eq_name ts
  · exact .inl ⟨⟨word, span⟩, rest, rfl⟩
  · exact .inr ⟨hn, mapWithSpan_error he Name.mk⟩

theorem run_name_refused {phase : Phase} (hphase : phase = .openName ∨ phase = .closeName)
    (h : ∀ x ∈ ts.head?, x.token.name? = none) :
    run size ⟨frames, before, phase⟩ ts = .error (Failure.report size ⟨ts, []⟩) := by
  obtain rfl | rfl := hphase
  all_goals
    refine run_refused (p := (·.name? = none)) h (fun token span hn => ?_) (fun _ => ?_) rfl
    · cases token <;> first | rfl | cases hn
    · cases frames <;> rfl

theorem value_cases (ts : List Lexeme) :
    (∃ equals written quoted rest, ts = ⟨.equals, equals⟩ :: ⟨.quoted written, quoted⟩ :: rest ∧
      value ts = .ok ⟨written, none, rest⟩) ∨
    (∃ equals rest, ts = ⟨.equals, equals⟩ :: rest ∧ (∀ x ∈ rest.head?, x.token.quoted? = none) ∧
      value ts = .error ⟨rest, []⟩) ∨
    (∀ x ∈ ts.head?, x.token ≠ .equals) ∧ value ts = .error ⟨ts, [.token .equals]⟩ := by
  unfold value
  obtain ⟨equals, rest, rfl⟩ | ⟨hn, he⟩ := just_cases .equals ts
  · rw [ignoreThen_cons]
    obtain ⟨written, quoted, rest, rfl⟩ | ⟨hq, he⟩ := select_cases eq_quoted rest
    · exact .inl ⟨equals, written, quoted, rest, rfl, rfl⟩
    · exact .inr (.inl ⟨equals, rest, rfl, hq, he⟩)
  · exact .inr (.inr ⟨hn, ignoreThen_error he⟩)

theorem run_value_refused {name key : Name} {done : List WrittenAttribute}
    (h : ∀ x ∈ ts.head?, x.token.quoted? = none) :
    run size ⟨frames, before, .value name done key⟩ ts = .error (Failure.report size ⟨ts, []⟩) := by
  refine run_refused (p := (·.quoted? = none)) h (fun token span hq => ?_) (fun _ => ?_) rfl
  · cases token <;> first | rfl | cases hq
  · cases frames <;> rfl

theorem writtenAttribute_error (h : select Token.name? ts = .error ⟨ts, []⟩) :
    writtenAttribute ts = .error ⟨ts, []⟩ :=
  mapWithSpan_error (andThen_error h) _

/-- A name alone is an attribute; what its value failed with is kept. -/
theorem writtenAttribute_bare (key : Name) {rest : List Lexeme} {e : Failure}
    (h : value rest = .error e) :
    writtenAttribute (⟨.name key.text, key.span⟩ :: rest) = .ok ⟨bare key, some e, rest⟩ := by
  have hs : select Token.name? (⟨.name key.text, key.span⟩ :: rest) =
      .ok ⟨key.text, none, rest⟩ := rfl
  have hn : value.orNot rest = .ok ⟨none, some e, rest⟩ := by rw [orNot, h]
  have hboth := andThen_ok hs hn
  exact mapWithSpan_ok [⟨.name key.text, key.span⟩] hboth _

theorem writtenAttribute_valued (key : Name) (equals : Span) (written : String) (quoted : Span)
    (rest : List Lexeme) :
    writtenAttribute
        (⟨.name key.text, key.span⟩ :: ⟨.equals, equals⟩ :: ⟨.quoted written, quoted⟩ :: rest) =
      .ok ⟨⟨key.text, some written, key.span.start, quoted.stop⟩, none, rest⟩ := by
  refine mapWithSpan_ok
    [⟨.name key.text, key.span⟩, ⟨.equals, equals⟩, ⟨.quoted written, quoted⟩]
    (a := (key.text, some written)) ?_ _
  rfl

/-- A reader in a tag with these attributes, latest first, and what it expects besides the end of
the tag: after an attribute without a value, that is an equals sign. -/
inductive InTag (frames : List Frame) (before : List Item) (name : Name) :
    List WrittenAttribute → List Expected → Reader → Prop where
  | complete (attributes : List WrittenAttribute) :
    InTag frames before name attributes [] ⟨frames, before, .inTag name attributes⟩
  | bare (key : Name) (attributes : List WrittenAttribute) :
    InTag frames before name (bare key :: attributes) [.token .equals]
      ⟨frames, before, .afterName name attributes key⟩

/-- What the attributes at the front of tokens can be, to the reader that comes to them in a tag. -/
inductive TagRead (size : Nat) (frames : List Frame) (before : List Item) (name : Name)
    (done : List WrittenAttribute) (ts : List Lexeme) : Success (List WrittenAttribute) → Prop where
  /-- They end where no attribute begins. -/
  | upTo {attributes : List WrittenAttribute} {also : List Expected} {r : Reader}
    {rest : List Lexeme} :
    InTag frames before name (attributes.reverse ++ done) also r →
    rest <:+ ts →
    (∀ x ∈ rest.head?, x.token.name? = none ∧ (x.token = .equals → also = [])) →
    run size ⟨frames, before, .inTag name done⟩ ts = r.run size rest →
    TagRead size frames before name done ts ⟨attributes, some ⟨rest, also⟩, rest⟩
  /-- The last has an equals sign and no value. -/
  | unvalued {attributes : List WrittenAttribute} {equals : Span} {rest : List Lexeme} :
    rest.length < ts.length →
    run size ⟨frames, before, .inTag name done⟩ ts = .error (Failure.report size ⟨rest, []⟩) →
    TagRead size frames before name done ts
      ⟨attributes, some ⟨rest, []⟩, ⟨.equals, equals⟩ :: rest⟩

/-- One more attribute in front, if what it missed is passed. -/
theorem TagRead.cons {name : Name} {done : List WrittenAttribute} {a : WrittenAttribute}
    {us : List Lexeme} {s : Success (List WrittenAttribute)} {missed : Option Failure}
    (h : TagRead size frames before name (a :: done) us s) (hus : us <:+ ts)
    (hrun : run size ⟨frames, before, .inTag name done⟩ ts =
      run size ⟨frames, before, .inTag name (a :: done)⟩ us)
    (hm : ∀ e ∈ s.missed, Passed e.rest missed) :
    TagRead size frames before name done ts
      ⟨a :: s.value, missed.merge Failure.furthest s.missed, s.rest⟩ := by
  cases h with
  | @upTo attributes also r rest hin hrest hhead hr =>
    rw [(hm ⟨rest, also⟩ rfl).merge]
    refine .upTo ?_ (hrest.trans hus) hhead (hrun.trans hr)
    rwa [List.reverse_cons, List.append_assoc]
  | @unvalued attributes equals rest hlt hr =>
    rw [(hm ⟨rest, []⟩ rfl).merge]
    exact .unvalued (Nat.lt_of_lt_of_le hlt hus.length_le) (hrun.trans hr)

theorem TagRead.lt_of_name {name : Name} {done : List WrittenAttribute} {word : String}
    {span : Span} {us : List Lexeme} {s : Success (List WrittenAttribute)}
    (h : TagRead size frames before name done (⟨.name word, span⟩ :: us) s) :
    ∀ e ∈ s.missed, e.rest.length < us.length + 1 := by
  cases h with
  | @upTo attributes also r rest hin hrest hhead hr =>
    rintro e ⟨⟩
    refine Nat.lt_of_le_of_ne hrest.length_le fun hlen => ?_
    cases hrest.eq_of_length hlen
    cases (hhead _ rfl).1
  | unvalued hlt hr =>
    rintro e ⟨⟩
    exact hlt

/-- Attributes are read as far as they go, with the reader that comes to them in a tag. -/
theorem tagRead (name : Name) (done : List WrittenAttribute) (ts : List Lexeme) :
    TagRead size frames before name done ts (writtenAttribute.repeatedFrom ts) := by
  obtain ⟨word, span, rest, rfl⟩ | ⟨hn, he⟩ := select_cases eq_name ts
  · have hlt : rest.length < (⟨.name word, span⟩ :: rest : List Lexeme).length := Nat.lt_succ_self _
    obtain ⟨equals, written, quoted, us, rfl, he⟩ | ⟨equals, us, rfl, hq, he⟩ | ⟨hne, he⟩ :=
      value_cases rest
    · have hlt : us.length < us.length + 3 := Nat.lt_add_of_pos_right (by decide)
      have ha := writtenAttribute_valued ⟨word, span⟩ equals written quoted us
      rw [repeatedFrom_ok ha hlt]
      exact (tagRead name _ us).cons (List.suffix_append [_, _, _] us) rfl
        fun _ _ _ h => (by cases h)
    · -- the equals sign is given back, but not the place where a value was missing
      rw [repeatedFrom_ok (writtenAttribute_bare ⟨word, span⟩ he) hlt,
        repeatedFrom_error (writtenAttribute_error rfl)]
      have hfar : Failure.furthest ⟨us, []⟩ ⟨⟨.equals, equals⟩ :: us, []⟩ = ⟨us, []⟩ :=
        Failure.furthest_of_lt (Nat.lt_succ_self _)
      show TagRead size frames before name done _ ⟨_, some (Failure.furthest _ _), _⟩
      rw [hfar]
      refine .unvalued ?_ (run_value_refused hq)
      exact Nat.lt_trans (Nat.lt_succ_self _) (Nat.lt_succ_self _)
    · rw [repeatedFrom_ok (writtenAttribute_bare ⟨word, span⟩ he) hlt]
      obtain ⟨word', span', us, rfl⟩ | ⟨hn, hs⟩ := select_cases eq_name rest
      · have hmore := tagRead name (bare ⟨word, span⟩ :: done) (⟨.name word', span'⟩ :: us)
        refine hmore.cons (List.suffix_cons _ _) rfl ?_
        rintro e he _ ⟨⟩
        exact hmore.lt_of_name e he
      · rw [repeatedFrom_error (writtenAttribute_error hs)]
        show TagRead size frames before name done _ ⟨_, some (Failure.furthest _ _), _⟩
        rw [Failure.furthest_same]
        refine .upTo (.bare ⟨word, span⟩ done) (List.suffix_cons _ _) (fun x hx => ?_) rfl
        exact ⟨hn x hx, fun h => absurd h (hne x hx)⟩
  · rw [repeatedFrom_error (writtenAttribute_error he)]
    exact .upTo (.complete done) (List.suffix_refl ts) (fun x hx => ⟨hn x hx, fun _ => rfl⟩) rfl
termination_by ts.length

/-! ## Parsers that follow the reader -/

/-- How the result of a parser that takes tokens stands to the reader on the same tokens: it comes
to the tokens left with the value, or to the same error. -/
inductive Follows {α : Type} (size : Nat) (r : Reader) (next : α → Reader) (ts : List Lexeme) :
    Except Failure (Success α) → Prop where
  | ok {a : α} {missed : Option Failure} {rest : List Lexeme} :
    rest.length < ts.length → Passed rest missed → r.run size ts = (next a).run size rest →
    Follows size r next ts (.ok ⟨a, missed, rest⟩)
  | error {e : Failure} :
    e.rest.length ≤ ts.length → r.run size ts = .error (e.report size) →
    Follows size r next ts (.error e)

theorem Follows.of_run {α : Type} {r r' : Reader} {next : α → Reader} {us : List Lexeme}
    {result : Except Failure (Success α)} (h : Follows size r next us result)
    (hle : us.length ≤ ts.length) (hrun : r'.run size ts = r.run size us) :
    Follows size r' next ts result := by
  cases h with
  | ok hlt hm hr => exact .ok (Nat.lt_of_lt_of_le hlt hle) hm (hrun.trans hr)
  | error hle' hr => exact .error (Nat.le_trans hle' hle) (hrun.trans hr)

theorem Follows.map {α β : Type} {r : Reader} {next : β → Reader} {f : α → β}
    {p : Token.Parser α} {us : List Lexeme} (h : Follows size r (fun a => next (f a)) ts (p us)) :
    Follows size r next ts (p.map f us) := by
  generalize hres : p us = res at h
  cases h with
  | ok hlt hm hr =>
    rw [map_ok f hres]
    exact .ok hlt hm hr
  | error hle hr =>
    rw [map_error f hres]
    exact .error hle hr

theorem Follows.le_of_error {α : Type} {r : Reader} {next : α → Reader} {e : Failure}
    (h : Follows size r next ts (.error e)) : e.rest.length ≤ ts.length := by
  cases h with
  | error hle _ => exact hle

/-- A parser that follows the reader still does so after one whose failures are passed. -/
theorem Follows.andThen {α β : Type} {r : Reader} {next : α × β → Reader} {p : Token.Parser α}
    {q : Token.Parser β} {a : α} {missed : Option Failure} {us vs : List Lexeme}
    (h : Follows size r (fun b => next (a, b)) ts (q vs)) (hp : p us = .ok ⟨a, missed, vs⟩)
    (hm : Passed ts missed) : Follows size r next ts (p.andThen q us) := by
  generalize hres : q vs = res at h
  cases h with
  | ok hlt hm' hr =>
    rw [andThen_ok hp hres]
    exact .ok hlt ((hm.mono (Nat.le_of_lt hlt)).merge_passed hm') hr
  | error hle hr =>
    rw [andThen_passed hp hres (hm.mono hle)]
    exact .error hle hr

/-- What the items at the front of tokens can be, to the reader that comes to them. -/
inductive Stopped (size : Nat) (frames : List Frame) (before : List Item) (ts : List Lexeme) :
    Success (List Item) → Prop where
  /-- They end where no item begins. -/
  | between {items : List Item} {rest : List Lexeme} :
    rest.length ≤ ts.length →
    (∀ x ∈ rest.head?, x.token.text? = none ∧ x.token ≠ .tagOpen) →
    run size ⟨frames, before, .items⟩ ts = run size ⟨frames, items.reverse ++ before, .items⟩ rest →
    Stopped size frames before ts ⟨items, some ⟨rest, [.token .tagOpen]⟩, rest⟩
  /-- They end at a tag that begins no element. -/
  | inside {items : List Item} {e : Failure} {start : Span} {rest : List Lexeme} :
    e.rest.length ≤ rest.length → rest.length < ts.length →
    run size ⟨frames, before, .items⟩ ts = .error (e.report size) →
    Stopped size frames before ts ⟨items, some e, ⟨.tagOpen, start⟩ :: rest⟩

theorem close_cases (ts : List Lexeme) :
    (∃ (start : Span) (key : Name) (stop : Span) (rest : List Lexeme),
      ts = ⟨.closeOpen, start⟩ :: ⟨.name key.text, key.span⟩ :: ⟨.tagEnd, stop⟩ :: rest ∧
      close ts = .ok ⟨key, none, rest⟩) ∨
    (∃ (start : Span) (key : Name) (rest : List Lexeme),
      ts = ⟨.closeOpen, start⟩ :: ⟨.name key.text, key.span⟩ :: rest ∧
      (∀ x ∈ rest.head?, x.token ≠ .tagEnd) ∧ close ts = .error ⟨rest, [.token .tagEnd]⟩) ∨
    (∃ (start : Span) (rest : List Lexeme), ts = ⟨.closeOpen, start⟩ :: rest ∧
      (∀ x ∈ rest.head?, x.token.name? = none) ∧ close ts = .error ⟨rest, []⟩) ∨
    (∀ x ∈ ts.head?, x.token ≠ .closeOpen) ∧ close ts = .error ⟨ts, [.token .closeOpen]⟩ := by
  unfold close thenIgnore
  obtain ⟨start, us, rfl⟩ | ⟨hne, he⟩ := just_cases .closeOpen ts
  · have hname := ignoreThen_cons .closeOpen name start us
    obtain ⟨key, vs, rfl⟩ | ⟨hn, he⟩ := name_cases us
    · rw [name_cons] at hname
      obtain ⟨stop, rest, rfl⟩ | ⟨hne, he⟩ := just_cases .tagEnd vs
      · have hend := just_cons .tagEnd stop rest
        exact .inl ⟨start, key, stop, rest, rfl, map_ok _ (andThen_ok hname hend)⟩
      · have hfail := andThen_passed hname he (passed_none _)
        exact .inr (.inl ⟨start, key, vs, rfl, hne, map_error _ hfail⟩)
    · rw [he] at hname
      exact .inr (.inr (.inl ⟨start, us, rfl, hn, map_error _ (andThen_error hname)⟩))
  · exact .inr (.inr (.inr ⟨hne, map_error _ (andThen_error (ignoreThen_error he))⟩))

/-! ## Bodies -/

theorem run_closeEnd_refused {key : Name} (h : ∀ x ∈ ts.head?, x.token ≠ .tagEnd) :
    run size ⟨frames, before, .closeEnd key⟩ ts =
      .error (Failure.report size ⟨ts, [.token .tagEnd]⟩) := by
  refine run_refused (p := (· ≠ .tagEnd)) h (fun token span hne => ?_) (fun _ => ?_) rfl
  · cases token <;> first | rfl | exact absurd rfl hne
  · cases frames <;> rfl

theorem run_body_refused {frame : Frame}
    (h : ∀ x ∈ ts.head?, x.token.text? = none ∧ x.token ≠ .tagOpen)
    (h' : ∀ x ∈ ts.head?, x.token ≠ .closeOpen) :
    run size ⟨frame :: frames, before, .items⟩ ts =
      .error (Failure.report size ⟨ts, [.token .closeOpen, .token .tagOpen]⟩) := by
  have he : List.foldr Expected.insert [] [.token .closeOpen, .token .tagOpen] =
      [.token .closeOpen, .token .tagOpen] := by decide +kernel
  refine run_refused
    (p := fun token => (token.text? = none ∧ token ≠ .tagOpen) ∧ token ≠ .closeOpen)
    (fun x hx => ⟨h x hx, h' x hx⟩) (fun token span ⟨⟨ht, ho⟩, hc⟩ => ?_) (fun _ => rfl) he
  cases token with
  | text _ => cases ht
  | tagOpen => exact absurd rfl ho
  | closeOpen => exact absurd rfl hc
  | name _ | quoted _ | equals | tagEnd | selfClose => rfl

theorem run_closed {tag : OpenTag} {items : List Item} {start stop : Span} {key : Name}
    {rest : List Lexeme} :
    run size ⟨⟨tag, before⟩ :: frames, items.reverse ++ [], .items⟩
        (⟨.closeOpen, start⟩ :: ⟨.name key.text, key.span⟩ :: ⟨.tagEnd, stop⟩ :: rest) =
      run size ⟨frames, .element tag items key :: before, .items⟩ rest := by
  show run size ⟨frames, .element tag (items.reverse ++ []).reverse key :: before, .items⟩ rest = _
  rw [List.append_nil, List.reverse_reverse]

/-- The items of a body and its closing tag follow the reader. -/
theorem follows_closed {tag : OpenTag} {nodes : Token.Parser (List Item)} {s : Success (List Item)}
    (hs : nodes ts = .ok s) (h : Stopped size (⟨tag, before⟩ :: frames) [] ts s) :
    Follows size ⟨⟨tag, before⟩ :: frames, [], .items⟩
      (fun (items, key) => ⟨frames, .element tag items key :: before, .items⟩) ts
      (nodes.andThen close ts) := by
  cases h with
  | @between items rest hle hhead hrun =>
    obtain ⟨start, key, stop, us, rfl, hc⟩ | ⟨start, key, us, rfl, hne, hc⟩ |
      ⟨start, us, rfl, hn, hc⟩ | ⟨hne, hc⟩ := close_cases rest
    · rw [andThen_ok hs hc]
      have hlt : us.length < us.length + 3 := Nat.lt_add_of_pos_right (by decide)
      exact .ok (Nat.lt_of_lt_of_le hlt hle) (passed_some hlt) (hrun.trans run_closed)
    · have hlt : us.length < us.length + 2 := Nat.lt_add_of_pos_right (by decide)
      rw [andThen_passed hs hc (passed_some hlt)]
      have hlt' := Nat.lt_of_lt_of_le hlt hle
      exact .error (Nat.le_of_lt hlt') (hrun.trans (run_closeEnd_refused hne))
    · have hlt : us.length < us.length + 1 := Nat.lt_succ_self _
      rw [andThen_passed hs hc (passed_some hlt)]
      have hlt' := Nat.lt_of_lt_of_le hlt hle
      exact .error (Nat.le_of_lt hlt') (hrun.trans (run_name_refused (.inr rfl) hn))
    · rw [andThen_same hs hc]
      exact .error hle (hrun.trans (run_body_refused hhead hne))
  | @inside items e start rest hle hlt hrun =>
    have hc : close (⟨.tagOpen, start⟩ :: rest) =
        .error ⟨⟨.tagOpen, start⟩ :: rest, [.token .closeOpen]⟩ := rfl
    rw [andThen_missed hs hc (Nat.lt_succ_of_le hle)]
    exact .error (Nat.le_trans hle (Nat.le_of_lt hlt)) hrun

/-! ## Elements -/

section

variable {name : Name} {attributes : List WrittenAttribute} {also : List Expected} {r : Reader}

theorem InTag.run_selfClose (h : InTag frames before name attributes also r) (size : Nat)
    (span : Span) (rest : List Lexeme) :
    r.run size (⟨.selfClose, span⟩ :: rest) =
      run size ⟨frames, .selfClosing (openTag name attributes) :: before, .items⟩ rest := by
  cases h <;> rfl

theorem InTag.run_tagEnd (h : InTag frames before name attributes also r) (size : Nat)
    (span : Span) (rest : List Lexeme) :
    r.run size (⟨.tagEnd, span⟩ :: rest) =
      run size ⟨⟨openTag name attributes, before⟩ :: frames, [], .items⟩ rest := by
  cases h <;> rfl

theorem InTag.run_refused (h : InTag frames before name attributes also r)
    (hhead : ∀ x ∈ ts.head?, x.token.name? = none ∧ (x.token = .equals → also = []))
    (hs : ∀ x ∈ ts.head?, x.token ≠ .selfClose) (he : ∀ x ∈ ts.head?, x.token ≠ .tagEnd) :
    r.run size ts =
      .error (Failure.report size ⟨ts, [.token .selfClose, .token .tagEnd] ++ also⟩) := by
  refine Reader.run_refused
    (p := fun token => (token.name? = none ∧ (token = .equals → also = [])) ∧
      token ≠ .selfClose ∧ token ≠ .tagEnd) (fun x hx => ⟨hhead x hx, hs x hx, he x hx⟩) ?_ ?_ ?_
  · rintro token span ⟨⟨hn, hq⟩, hs, he⟩
    cases token with
    | name _ => cases hn
    | selfClose => exact absurd rfl hs
    | tagEnd => exact absurd rfl he
    | equals =>
      cases h with
      | complete _ => rfl
      | bare _ _ => cases hq rfl
    | tagOpen | closeOpen | text _ | quoted _ => cases h <;> rfl
  · intro _
    cases h <;> cases frames <;> rfl
  · have hend : List.foldr Expected.insert [] [.token .selfClose, .token .tagEnd] =
        [.token .selfClose, .token .tagEnd] := by decide +kernel
    have hequals : List.foldr Expected.insert []
          [.token .selfClose, .token .tagEnd, .token .equals] =
        [.token .selfClose, .token .equals, .token .tagEnd] := by decide +kernel
    cases h with
    | complete _ => exact hend
    | bare _ _ => exact hequals

theorem body_refused {nodes : Token.Parser (List Item)}
    (hs : just .selfClose ts = .error ⟨ts, [.token .selfClose]⟩)
    (he : just .tagEnd ts = .error ⟨ts, [.token .tagEnd]⟩) :
    body nodes ts = .error ⟨ts, [.token .selfClose, .token .tagEnd]⟩ := by
  unfold body
  rw [or_error_error (map_error _ hs) (map_error _ (andThen_error (ignoreThen_error he))),
    Failure.furthest_same]
  rfl

/-- On fewer than `n` tokens, the parser reads the items at the front. -/
def ReadsBodies (size : Nat) (nodes : Token.Parser (List Item)) (n : Nat) : Prop :=
  ∀ us : List Lexeme, us.length < n →
    ∃ s, nodes us = .ok s ∧ ∀ frames before, Stopped size frames before us s

theorem ReadsBodies.mono {nodes : Token.Parser (List Item)} {m n : Nat}
    (h : ReadsBodies size nodes n) (hle : m ≤ n) : ReadsBodies size nodes m :=
  fun us hus => h us (Nat.lt_of_lt_of_le hus hle)

/-- What stands after the attributes of a tag follows the reader. -/
theorem follows_tag {p : Token.Parser (Name × List WrittenAttribute)}
    {nodes : Token.Parser (List Item)} {us : List Lexeme}
    (hp : p us = .ok ⟨(name, attributes), some ⟨ts, also⟩, ts⟩)
    (hin : InTag frames before name attributes.reverse also r)
    (hhead : ∀ x ∈ ts.head?, x.token.name? = none ∧ (x.token = .equals → also = []))
    (hnodes : ReadsBodies size nodes ts.length) :
    Follows size r (fun tag => ⟨frames, item tag :: before, .items⟩) ts
      (p.andThen (body nodes) us) := by
  have htag : openTag name attributes.reverse = ⟨name, attributes⟩ :=
    openTag_reverse ⟨name, attributes⟩
  obtain ⟨span, rest, rfl⟩ | ⟨hns, hs⟩ := just_cases .selfClose ts
  · have hb : body nodes (⟨.selfClose, span⟩ :: rest) = .ok ⟨none, none, rest⟩ :=
      or_ok (map_ok _ (just_cons .selfClose span rest))
    have hlt : rest.length < rest.length + 1 := Nat.lt_succ_self _
    have hrun := hin.run_selfClose size span rest
    rw [htag] at hrun
    rw [andThen_ok hp hb]
    exact .ok hlt (passed_some hlt) hrun
  · obtain ⟨span, rest, rfl⟩ | ⟨hne, he⟩ := just_cases .tagEnd ts
    · have hlt : rest.length < rest.length + 1 := Nat.lt_succ_self _
      have hopen := hin.run_tagEnd size span rest
      rw [htag] at hopen
      obtain ⟨s, hs', hstop⟩ := hnodes rest hlt
      have hclosed := follows_closed hs' (hstop (⟨⟨name, attributes⟩, before⟩ :: frames) [])
      rw [← andThen_congr (ignoreThen_cons .tagEnd nodes span rest)] at hclosed
      have hsome : Follows size ⟨⟨⟨name, attributes⟩, before⟩ :: frames, [], .items⟩
          (fun b => ⟨frames, item ((name, attributes), b) :: before, .items⟩) rest
          ((((just .tagEnd).ignoreThen nodes).andThen close).map some (⟨.tagEnd, span⟩ :: rest)) :=
        hclosed.map
      have hbody : body nodes (⟨.tagEnd, span⟩ :: rest) = _ :=
        or_of_further (map_error _ hs) fun f hf =>
          Nat.lt_succ_of_le (hf ▸ hsome).le_of_error
      rw [← hbody] at hsome
      exact (hsome.andThen hp (passed_some hlt)).of_run (Nat.le_of_lt hlt) hopen
    · rw [andThen_same hp (body_refused hs he)]
      exact .error (Nat.le_refl _) (hin.run_refused hhead hns hne)

end

/-- After `<`, the rest of an element follows the reader. -/
theorem follows_element {nodes : Token.Parser (List Item)} (start : Span)
    (hnodes : ReadsBodies size nodes ts.length) :
    Follows size ⟨frames, before, .openName⟩ (fun item => ⟨frames, item :: before, .items⟩) ts
      (element nodes (⟨.tagOpen, start⟩ :: ts)) := by
  refine Follows.map ?_
  have hname := ignoreThen_cons .tagOpen name start ts
  obtain ⟨key, us, rfl⟩ | ⟨hn, he⟩ := name_cases ts
  · rw [name_cons] at hname
    have htag : TagRead size frames before key [] us (writtenAttribute.repeatedFrom us) :=
      tagRead key [] us
    generalize hs : writtenAttribute.repeatedFrom us = s at htag
    have hattributes : writtenAttribute.repeated us = .ok s := congrArg Except.ok hs
    cases htag with
    | @upTo attributes also r rest hin hrest hhead hrun =>
      rw [List.append_nil] at hin
      have hle : rest.length ≤ us.length + 1 := Nat.le_succ_of_le hrest.length_le
      have hopen := andThen_ok hname hattributes
      exact (follows_tag hopen hin hhead (hnodes.mono hle)).of_run hle hrun
    | @unvalued attributes equals rest hlt hrun =>
      rw [andThen_missed (andThen_ok hname hattributes) (body_refused rfl rfl) (Nat.lt_succ_self _)]
      exact .error (Nat.le_succ_of_le (Nat.le_of_lt hlt)) hrun
  · rw [he] at hname
    rw [andThen_error (andThen_error hname)]
    exact .error (Nat.le_refl _) (run_name_refused (.inl rfl) hn)

/-! ## Items and documents -/

/-- One more item in front, if what it missed is passed. -/
theorem Stopped.cons {item : Item} {us : List Lexeme} {s : Success (List Item)}
    {missed : Option Failure} (h : Stopped size frames (item :: before) us s)
    (hlt : us.length < ts.length) (hm : Passed us missed)
    (hrun : run size ⟨frames, before, .items⟩ ts = run size ⟨frames, item :: before, .items⟩ us) :
    Stopped size frames before ts
      ⟨item :: s.value, missed.merge Failure.furthest s.missed, s.rest⟩ := by
  cases h with
  | @between items rest hle hhead hr =>
    have hp : Passed (⟨rest, [.token .tagOpen]⟩ : Failure).rest missed := hm.mono hle
    rw [hp.merge]
    refine .between (Nat.le_trans hle (Nat.le_of_lt hlt)) hhead (hrun.trans ?_)
    rwa [List.reverse_cons, List.append_assoc]
  | @inside items e start rest hle hlt' hr =>
    have hp : Passed e.rest missed := hm.mono (Nat.le_trans hle (Nat.le_of_lt hlt'))
    rw [hp.merge]
    exact .inside hle (Nat.lt_trans hlt' hlt) (hrun.trans hr)

/-- Items are read as far as they go, with the reader that comes to them. -/
theorem stopped_repeatedFrom {nodes : Token.Parser (List Item)} {n : Nat}
    (hnodes : ReadsBodies size nodes n) (frames : List Frame) (before : List Item)
    (ts : List Lexeme) (hts : ts.length ≤ n) :
    Stopped size frames before ts ((node nodes).repeatedFrom ts) := by
  obtain ⟨value, span, rest, rfl⟩ | ⟨ht, he⟩ := select_cases eq_text ts
  · have hlt : rest.length < rest.length + 1 := Nat.lt_succ_self _
    have hnode : node nodes (⟨.text value, span⟩ :: rest) = .ok ⟨.text value, none, rest⟩ := rfl
    rw [repeatedFrom_ok hnode hlt]
    have hmore := stopped_repeatedFrom hnodes frames (.text value :: before) rest
      (Nat.le_trans (Nat.le_of_lt hlt) hts)
    exact hmore.cons hlt (passed_none rest) rfl
  · obtain ⟨start, rest, rfl⟩ | ⟨ho, hj⟩ := just_cases .tagOpen ts
    · have hlt : rest.length < rest.length + 1 := Nat.lt_succ_self _
      have hbodies : ReadsBodies size nodes rest.length :=
        hnodes.mono (Nat.le_trans (Nat.le_of_lt hlt) hts)
      have hf : Follows size ⟨frames, before, .openName⟩
          (fun item => ⟨frames, item :: before, .items⟩) rest
          (element nodes (⟨.tagOpen, start⟩ :: rest)) := follows_element start hbodies
      have hnode : node nodes (⟨.tagOpen, start⟩ :: rest) =
          element nodes (⟨.tagOpen, start⟩ :: rest) :=
        or_of_further (map_error _ he) fun f hres => Nat.lt_succ_of_le (hres ▸ hf).le_of_error
      rw [← hnode] at hf
      generalize hres : node nodes (⟨.tagOpen, start⟩ :: rest) = res at hf
      cases hf with
      | @ok item missed us hus hm hrun =>
        have hlt' : us.length < rest.length + 1 := Nat.lt_trans hus hlt
        rw [repeatedFrom_ok hres hlt']
        have hmore := stopped_repeatedFrom hnodes frames (item :: before) us
          (Nat.le_trans (Nat.le_of_lt hlt') hts)
        exact hmore.cons hlt' hm hrun
      | @error e hle hrun =>
        rw [repeatedFrom_error hres]
        exact .inside hle hlt hrun
    · have helement : element nodes ts = .error ⟨ts, [.token .tagOpen]⟩ :=
        map_error _ (andThen_error (andThen_error (ignoreThen_error hj)))
      have hnode : node nodes ts = .error ⟨ts, [.token .tagOpen]⟩ := by
        unfold node
        rw [or_error_error (map_error _ he) helement, Failure.furthest_same]
        rfl
      rw [repeatedFrom_error hnode]
      exact .between (Nat.le_refl _) (fun x hx => ⟨ht x hx, ho x hx⟩) rfl
termination_by ts.length

theorem readsBodies_nodes (size n : Nat) : ReadsBodies size nodes n := by
  induction n with
  | zero => exact fun us hus => absurd hus (Nat.not_lt_zero _)
  | succ n ih =>
    intro us hus
    -- inside a body there are fewer tokens, and on those the rule is itself again
    have hself : ReadsBodies size
        (fun vs => if vs.length < us.length then nodes vs else .error ⟨vs, []⟩) us.length := by
      intro vs hvs
      obtain ⟨s, hs, hstop⟩ := ih vs (Nat.lt_of_lt_of_le hvs (Nat.le_of_lt_succ hus))
      exact ⟨s, (if_pos hvs).trans hs, hstop⟩
    refine ⟨_, ?_, fun frames before => stopped_repeatedFrom hself frames before us (Nat.le_refl _)⟩
    show recursive _ us = _
    rw [recursive]
    rfl

theorem run_top_refused {x : Lexeme} {rest : List Lexeme}
    (h : x.token.text? = none ∧ x.token ≠ .tagOpen) :
    run size ⟨[], before, .items⟩ (x :: rest) =
      .error (Failure.report size ⟨x :: rest, [.endOfInput, .token .tagOpen]⟩) := by
  have he : List.foldr Expected.insert [] [.endOfInput, .token .tagOpen] =
      [.token .tagOpen, .endOfInput] := by decide +kernel
  refine run_refused (p := fun token => token.text? = none ∧ token ≠ .tagOpen) ?_
    (fun token span ⟨ht, ho⟩ => ?_) (fun hnil => (by cases hnil)) he
  · rintro _ ⟨⟩
    exact h
  · cases token with
    | text _ => cases ht
    | tagOpen => exact absurd rfl ho
    | closeOpen | name _ | quoted _ | equals | tagEnd | selfClose => rfl

/-- The rules and the reader give the same items, or the same error. -/
theorem parse_document (size : Nat) (ts : List Lexeme) :
    document.parse size ts = read size ts := by
  obtain ⟨s, hs, hstop⟩ := readsBodies_nodes size (ts.length + 1) ts (Nat.lt_succ_self _)
  unfold Token.Parser.parse document thenIgnore read start
  cases hstop [] [] with
  | @between items rest hle hhead hrun =>
    rw [hrun]
    cases rest with
    | nil =>
      have hend : atEnd [] = .ok ⟨(), none, []⟩ := rfl
      rw [map_ok _ (andThen_ok hs hend)]
      show Except.ok items = .ok (items.reverse ++ []).reverse
      rw [List.append_nil, List.reverse_reverse]
    | cons x xs =>
      have hend : atEnd (x :: xs) = .error ⟨x :: xs, [.endOfInput]⟩ := rfl
      rw [map_error _ (andThen_same hs hend), run_top_refused (hhead x rfl)]
      rfl
  | @inside items e span rest hle hlt hrun =>
    have hend : atEnd (⟨.tagOpen, span⟩ :: rest) =
        .error ⟨⟨.tagOpen, span⟩ :: rest, [.endOfInput]⟩ := rfl
    rw [map_error _ (andThen_missed hs hend (Nat.lt_succ_of_le hle)), hrun]

-- The equals sign is given back, and the error still is at the token after it.
example :
    document.parse 6 [⟨.tagOpen, 0, 1⟩, ⟨.name "a", 1, 2⟩, ⟨.name "x", 3, 4⟩, ⟨.equals, 4, 5⟩,
      ⟨.tagEnd, 5, 6⟩] = .error ⟨.unexpectedToken (some .tagEnd) [], 5, 6⟩ := by
  rw [parse_document]
  rfl

end Rules

end Item

end TermMarkup
