/-
The grammar of documents: attributes, opening tags and documents as relations between tokens and
what they stand for. The reader accepts exactly the tokens that the grammar derives, and gives the
items of their derivation.
-/
import TermMarkup.Item.Reader
import Mathlib.Data.List.Basic

namespace TermMarkup.Item

/-! ## The grammar -/

/-- Tokens that stand for a list of attributes. -/
inductive Attributes : List Lexeme → List WrittenAttribute → Prop where
  | nil : Attributes [] []
  | bare (key : Name) {xs : List Lexeme} {attributes : List WrittenAttribute} :
    Attributes xs attributes →
    Attributes (⟨.name key.text, key.span⟩ :: xs) (⟨key.text, none, key.span⟩ :: attributes)
  | valued (key : Name) (equals : Span) (value : String) (quoted : Span) {xs : List Lexeme}
    {attributes : List WrittenAttribute} :
    Attributes xs attributes →
    Attributes (⟨.name key.text, key.span⟩ :: ⟨.equals, equals⟩ :: ⟨.quoted value, quoted⟩ :: xs)
      (⟨key.text, some value, key.span.start, quoted.stop⟩ :: attributes)

/-- Tokens that stand for an opening tag, but for the one that ends it. -/
inductive Opening : List Lexeme → OpenTag → Prop where
  | intro (start : Span) (name : Name) {xs : List Lexeme} {attributes : List WrittenAttribute} :
    Attributes xs attributes →
    Opening (⟨.tagOpen, start⟩ :: ⟨.name name.text, name.span⟩ :: xs) ⟨name, attributes⟩

/-- Tokens that stand for a list of items. -/
inductive Document : List Lexeme → List Item → Prop where
  | nil : Document [] []
  | text (value : String) (span : Span) {xs : List Lexeme} {items : List Item} :
    Document xs items → Document (⟨.text value, span⟩ :: xs) (.text value :: items)
  | selfClosing (stop : Span) {ys xs : List Lexeme} {tag : OpenTag} {items : List Item} :
    Opening ys tag → Document xs items →
    Document (ys ++ ⟨.selfClose, stop⟩ :: xs) (.selfClosing tag :: items)
  | element (stop closeOpen closeStop : Span) (close : Name) {ys body xs : List Lexeme}
    {tag : OpenTag} {inner items : List Item} :
    Opening ys tag → Document body inner → Document xs items →
    Document (ys ++ ⟨.tagEnd, stop⟩ :: (body ++ ⟨.closeOpen, closeOpen⟩ ::
      ⟨.name close.text, close.span⟩ :: ⟨.tagEnd, closeStop⟩ :: xs)) (.element tag inner close :: items)

theorem Attributes.append {xs ys : List Lexeme} {as bs : List WrittenAttribute}
    (h : Attributes xs as) (h' : Attributes ys bs) : Attributes (xs ++ ys) (as ++ bs) := by
  induction h with
  | nil => exact h'
  | bare key _ ih => exact .bare key ih
  | valued key equals value quoted _ ih => exact .valued key equals value quoted ih

theorem Document.append {xs ys : List Lexeme} {items others : List Item} (h : Document xs items)
    (h' : Document ys others) : Document (xs ++ ys) (items ++ others) := by
  induction h with
  | nil => exact h'
  | text value span _ ih => exact .text value span ih
  | selfClosing stop ho _ ih =>
    rw [List.append_assoc]
    exact .selfClosing stop ho ih
  | element stop closeOpen closeStop close ho hb _ _ ih =>
    rw [List.append_assoc, List.cons_append, List.append_assoc]
    exact .element stop closeOpen closeStop close ho hb ih

/-! ## What the reader has read -/

namespace Reader

/-- The tokens behind a reader that is between items: those of the items in its innermost body come
after the opening tags and earlier items of the frames. -/
inductive Behind : List Lexeme → List Frame → List Item → Prop where
  | top {xs : List Lexeme} {items : List Item} : Document xs items.reverse → Behind xs [] items
  | body (stop : Span) {xs ys zs : List Lexeme} {frame : Frame} {frames : List Frame}
    {items : List Item} :
    Behind xs frames frame.before → Opening ys frame.tag → Document zs items.reverse →
    Behind (xs ++ (ys ++ ⟨.tagEnd, stop⟩ :: zs)) (frame :: frames) items

/-- The tokens of a tag that a reader is in the middle of. -/
def Partial (xs : List Lexeme) : Phase → Prop
  | .items => xs = []
  | .openName => ∃ start, xs = [⟨.tagOpen, start⟩]
  | .inTag name attributes => Opening xs (openTag name attributes)
  | .afterName name attributes key =>
    ∃ ys, xs = ys ++ [⟨.name key.text, key.span⟩] ∧ Opening ys (openTag name attributes)
  | .value name attributes key =>
    ∃ ys equals, xs = ys ++ [⟨.name key.text, key.span⟩, ⟨.equals, equals⟩] ∧
      Opening ys (openTag name attributes)
  | .closeName => ∃ start, xs = [⟨.closeOpen, start⟩]
  | .closeEnd close => ∃ start, xs = [⟨.closeOpen, start⟩, ⟨.name close.text, close.span⟩]

/-- The tokens that a reader has read. -/
def HasRead (xs : List Lexeme) (r : Reader) : Prop :=
  ∃ ys zs, xs = ys ++ zs ∧ Behind ys r.frames r.items ∧ Partial zs r.phase

theorem Behind.push {xs ys : List Lexeme} {frames : List Frame} {items : List Item} {item : Item}
    (h : Behind xs frames items) (hd : Document ys [item]) :
    Behind (xs ++ ys) frames (item :: items) := by
  cases h with
  | top hi =>
    refine .top ?_
    rw [List.reverse_cons]
    exact hi.append hd
  | body stop hb ho hi =>
    rw [List.append_assoc, List.append_assoc, List.cons_append]
    refine .body stop hb ho ?_
    rw [List.reverse_cons]
    exact hi.append hd

theorem opening_bare {ys : List Lexeme} {name key : Name} {attributes : List WrittenAttribute}
    (h : Opening ys (openTag name attributes)) :
    Opening (ys ++ [⟨.name key.text, key.span⟩]) (openTag name (bare key :: attributes)) := by
  cases h with
  | intro start _ ha =>
    unfold openTag
    rw [List.reverse_cons]
    exact .intro start name (ha.append (.bare key .nil))

theorem opening_valued {ys : List Lexeme} {name key : Name} {attributes : List WrittenAttribute}
    {equals quoted : Span} {value : String} (h : Opening ys (openTag name attributes)) :
    Opening (ys ++ [⟨.name key.text, key.span⟩, ⟨.equals, equals⟩, ⟨.quoted value, quoted⟩])
      (openTag name (⟨key.text, some value, key.span.start, quoted.stop⟩ :: attributes)) := by
  cases h with
  | intro start _ ha =>
    unfold openTag
    rw [List.reverse_cons]
    exact .intro start name (ha.append (.valued key equals value quoted .nil))

theorem hasRead_continueTag {ys zs : List Lexeme} {r next : Reader} {name : Name}
    {attributes : List WrittenAttribute} {x : Lexeme} (hb : Behind ys r.frames r.items)
    (ho : Opening zs (openTag name attributes)) (h : r.continueTag name attributes x = some next) :
    HasRead (ys ++ (zs ++ [x])) next := by
  obtain ⟨token, span⟩ := x
  unfold continueTag at h
  cases token with
  | name word =>
    cases Option.some.inj h
    exact ⟨ys, zs ++ [⟨.name word, span⟩], rfl, hb, zs, rfl, ho⟩
  | tagEnd =>
    cases Option.some.inj h
    refine ⟨ys ++ (zs ++ [⟨.tagEnd, span⟩]), [], (List.append_nil _).symm, ?_, rfl⟩
    exact .body span hb ho .nil
  | selfClose =>
    cases Option.some.inj h
    refine ⟨ys ++ (zs ++ [⟨.selfClose, span⟩]), [], (List.append_nil _).symm, ?_, rfl⟩
    exact hb.push (.selfClosing span ho .nil)
  | tagOpen | closeOpen | text _ | equals | quoted _ => cases h

theorem step_afterName {frames : List Frame} {items : List Item} {name key : Name}
    {attributes : List WrittenAttribute} {x : Lexeme} (h : x.token ≠ .equals) :
    step ⟨frames, items, .afterName name attributes key⟩ x =
      continueTag ⟨frames, items, .afterName name attributes key⟩ name (bare key :: attributes) x := by
  obtain ⟨token, span⟩ := x
  cases token with
  | equals => exact absurd rfl h
  | tagOpen | closeOpen | text _ | name _ | quoted _ | tagEnd | selfClose => rfl

/-- One more token keeps what the reader has read. -/
theorem hasRead_step {xs : List Lexeme} {r next : Reader} {x : Lexeme} (hr : HasRead xs r)
    (h : r.step x = some next) : HasRead (xs ++ [x]) next := by
  obtain ⟨ys, zs, rfl, hb, hp⟩ := hr
  obtain ⟨frames, items, phase⟩ := r
  obtain ⟨token, span⟩ := x
  rw [List.append_assoc]
  cases phase with
  | items =>
    cases (show zs = [] from hp)
    cases token with
    | text value =>
      cases Option.some.inj h
      exact ⟨_, [], (List.append_nil _).symm, hb.push (.text value span .nil), rfl⟩
    | tagOpen =>
      cases Option.some.inj h
      exact ⟨ys, _, rfl, hb, span, rfl⟩
    | closeOpen =>
      simp only [step] at h
      split at h
      · cases h
      · cases Option.some.inj h
        exact ⟨ys, _, rfl, hb, span, rfl⟩
    | name _ | equals | quoted _ | tagEnd | selfClose => cases h
  | openName =>
    obtain ⟨start, rfl⟩ := hp
    cases token with
    | name word =>
      cases Option.some.inj h
      exact ⟨ys, _, rfl, hb, .intro start ⟨word, span⟩ .nil⟩
    | tagOpen | closeOpen | text _ | equals | quoted _ | tagEnd | selfClose => cases h
  | inTag name attributes => exact hasRead_continueTag hb hp h
  | afterName name attributes key =>
    obtain ⟨us, rfl, ho⟩ := hp
    by_cases he : token = .equals
    · subst he
      cases Option.some.inj h
      exact ⟨ys, _, rfl, hb, us, span, List.append_assoc _ _ _, ho⟩
    · -- without an equals sign the name was an attribute without a value
      rw [step_afterName he] at h
      exact hasRead_continueTag hb (opening_bare ho) h
  | value name attributes key =>
    obtain ⟨us, equals, rfl, ho⟩ := hp
    cases token with
    | quoted value =>
      cases Option.some.inj h
      refine ⟨ys, _, rfl, hb, ?_⟩
      rw [List.append_assoc]
      exact opening_valued ho
    | tagOpen | closeOpen | text _ | name _ | equals | tagEnd | selfClose => cases h
  | closeName =>
    obtain ⟨start, rfl⟩ := hp
    cases token with
    | name word =>
      cases Option.some.inj h
      exact ⟨ys, _, rfl, hb, start, rfl⟩
    | tagOpen | closeOpen | text _ | equals | quoted _ | tagEnd | selfClose => cases h
  | closeEnd close =>
    obtain ⟨start, rfl⟩ := hp
    cases token with
    | tagEnd =>
      cases hb with
      | top _ => cases h
      | body stop hb ho hi =>
        -- the innermost frame and its items become one item of the body around it
        cases Option.some.inj h
        refine ⟨_, [], (List.append_nil _).symm, ?_, rfl⟩
        rw [List.append_assoc, List.append_assoc]
        exact hb.push (.element stop start span close ho hi .nil)
    | tagOpen | closeOpen | text _ | name _ | equals | quoted _ | selfClose => cases h

theorem document_of_run {size : Nat} {items : List Item} {xs ys : List Lexeme} {r : Reader}
    (hr : HasRead xs r) (h : r.run size ys = .ok items) : Document (xs ++ ys) items := by
  induction ys generalizing xs r with
  | nil =>
    obtain ⟨us, vs, rfl, hb, hp⟩ := hr
    obtain ⟨frames, before, phase⟩ := r
    unfold run at h
    split at h
    · rename_i hf
      cases h
      unfold finish at hf
      split at hf
      · -- no body is open and no tag is begun, so the items account for every token
        rename_i hframes hphase
        simp only at hframes hphase
        subst hframes hphase
        cases (show vs = [] from hp)
        cases Option.some.inj hf
        cases hb with
        | top hd => rwa [List.append_nil, List.append_nil]
      · cases hf
    · cases h
  | cons y ys ih =>
    unfold run at h
    split at h
    · rename_i hs
      have hd := ih (hasRead_step hr hs) h
      rwa [List.append_assoc] at hd
    · cases h

/-! ## The reader on tokens of the grammar -/

section

variable (size : Nat) (frames : List Frame) (before : List Item)

theorem run_of_step {r next : Reader} {x : Lexeme} (h : r.step x = some next) (rest : List Lexeme) :
    r.run size (x :: rest) = next.run size rest := by
  rw [run, h]

/-- Whether a token can come after a tag's name or an attribute without a value. -/
def continues (x : Lexeme) : Bool :=
  match x.token with
  | .name _ | .tagEnd | .selfClose => true
  | _ => false

theorem run_afterName {name key : Name} {attributes : List WrittenAttribute} {x : Lexeme}
    (h : continues x = true) (rest : List Lexeme) :
    run size ⟨frames, before, .afterName name attributes key⟩ (x :: rest) =
      run size ⟨frames, before, .inTag name (bare key :: attributes)⟩ (x :: rest) := by
  obtain ⟨token, span⟩ := x
  cases token with
  | name _ | tagEnd | selfClose => rfl
  | tagOpen | closeOpen | text _ | equals | quoted _ => cases h

theorem continues_head {xs : List Lexeme} {attributes : List WrittenAttribute}
    (h : Attributes xs attributes) {x : Lexeme} (hx : continues x = true) (rest : List Lexeme) :
    ∃ first others, xs ++ x :: rest = first :: others ∧ continues first = true := by
  cases h with
  | nil => exact ⟨x, rest, rfl, hx⟩
  | bare key _ => exact ⟨_, _, rfl, rfl⟩
  | valued key equals value quoted _ => exact ⟨_, _, rfl, rfl⟩

theorem run_attributes {xs : List Lexeme} {attributes : List WrittenAttribute}
    (h : Attributes xs attributes) (name : Name) (done : List WrittenAttribute) {x : Lexeme}
    (hx : continues x = true) (rest : List Lexeme) :
    run size ⟨frames, before, .inTag name done⟩ (xs ++ x :: rest) =
      run size ⟨frames, before, .inTag name (attributes.reverse ++ done)⟩ (x :: rest) := by
  induction h generalizing done with
  | nil => rfl
  | @bare key xs attributes ha ih =>
    -- only the token after the name shows that no value follows
    obtain ⟨first, others, he, hf⟩ := continues_head ha hx rest
    have hi := ih (bare key :: done)
    rw [he, ← run_afterName size frames before hf, ← he] at hi
    rw [List.reverse_cons, List.append_assoc]
    exact hi
  | @valued key equals value quoted xs attributes ha ih =>
    rw [List.reverse_cons, List.append_assoc]
    exact ih (⟨key.text, some value, key.span.start, quoted.stop⟩ :: done)

theorem run_opening {xs : List Lexeme} {tag : OpenTag} (h : Opening xs tag) {x : Lexeme}
    (hx : continues x = true) (rest : List Lexeme) :
    run size ⟨frames, before, .items⟩ (xs ++ x :: rest) =
      run size ⟨frames, before, .inTag tag.name tag.attributes.reverse⟩ (x :: rest) := by
  cases h with
  | intro start name ha =>
    have hr := run_attributes size frames before ha name [] hx rest
    rw [List.append_nil] at hr
    exact hr

theorem openTag_reverse (tag : OpenTag) : openTag tag.name tag.attributes.reverse = tag := by
  unfold openTag
  rw [List.reverse_reverse]

/-- The reader goes over the tokens of a document and keeps its items. -/
theorem run_document {xs : List Lexeme} {items : List Item} (h : Document xs items)
    (rest : List Lexeme) :
    run size ⟨frames, before, .items⟩ (xs ++ rest) =
      run size ⟨frames, items.reverse ++ before, .items⟩ rest := by
  induction h generalizing frames before rest with
  | nil => rfl
  | text value span _ ih =>
    rw [List.reverse_cons, List.append_assoc]
    exact ih frames (.text value :: before) rest
  | @selfClosing stop ys xs tag items ho _ ih =>
    have hs : step ⟨frames, before, .inTag tag.name tag.attributes.reverse⟩ ⟨.selfClose, stop⟩ =
        some ⟨frames, .selfClosing (openTag tag.name tag.attributes.reverse) :: before, .items⟩ := rfl
    rw [openTag_reverse] at hs
    rw [List.append_assoc, List.cons_append, run_opening size frames before ho rfl,
      run_of_step size hs, ih, List.reverse_cons, List.append_assoc]
    rfl
  | @element stop closeOpen closeStop close ys body xs tag inner items ho _ _ ihb ih =>
    have hs : step ⟨frames, before, .inTag tag.name tag.attributes.reverse⟩ ⟨.tagEnd, stop⟩ =
        some ⟨⟨openTag tag.name tag.attributes.reverse, before⟩ :: frames, [], .items⟩ := rfl
    rw [openTag_reverse] at hs
    -- the three tokens of the closing tag put the element behind the items before it
    have hclose : run size ⟨⟨tag, before⟩ :: frames, inner.reverse ++ [], .items⟩
        (⟨.closeOpen, closeOpen⟩ :: ⟨.name close.text, close.span⟩ :: ⟨.tagEnd, closeStop⟩ ::
          (xs ++ rest)) =
        run size ⟨frames, .element tag (inner.reverse ++ []).reverse close :: before, .items⟩
          (xs ++ rest) := rfl
    rw [List.append_nil, List.reverse_reverse] at hclose
    rw [List.append_assoc, List.cons_append, List.append_assoc, List.cons_append, List.cons_append,
      List.cons_append, run_opening size frames before ho rfl, run_of_step size hs, ihb,
      List.append_nil, hclose, ih, List.reverse_cons, List.append_assoc]
    rfl

end

end Reader

/-- The reader accepts exactly the tokens of the grammar, with the items they stand for. -/
theorem read_eq_ok_iff {size : Nat} {xs : List Lexeme} {items : List Item} :
    read size xs = .ok items ↔ Document xs items := by
  constructor
  · intro h
    have hr : Reader.HasRead [] Reader.start := ⟨[], [], rfl, .top .nil, rfl⟩
    exact Reader.document_of_run hr h
  · intro h
    have hr := Reader.run_document size [] [] h []
    rw [List.append_nil, List.append_nil] at hr
    unfold read Reader.start
    rw [hr]
    show Except.ok items.reverse.reverse = _
    rw [List.reverse_reverse]

end TermMarkup.Item
