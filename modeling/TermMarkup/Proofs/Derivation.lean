/-
The grammar on tokens alone, and what a tree keeps of its tokens. Tokens are read exactly when the
grammar derives them, and the tree that is read gives them back: a name keeps its place, an
attribute keeps where its name starts and where its value stops, and all else keeps its token. No
other tree gives back the same tokens, but for the places of its parts.
-/
import TermMarkup.Proofs.Tokens
import Mathlib.Data.List.Forall2

namespace TermMarkup

/-- A token that stands nowhere. -/
def Lexeme.ofToken (token : Token) : Lexeme := ⟨token, .nowhere⟩

/-! ## The grammar -/

namespace Grammar

/-- attribute := name ("=" string)? -/
inductive IsAttribute : List Token → Prop where
  | bare (key : String) : IsAttribute [.name key]
  | valued (key value : String) : IsAttribute [.name key, .equals, .quoted value]

/-- attribute* -/
inductive AreAttributes : List Token → Prop where
  | nil : AreAttributes []
  | cons {us ts : List Token} : IsAttribute us → AreAttributes ts → AreAttributes (us ++ ts)

mutual

/-- element := "<" name attribute* ("/>" | ">" document "</" name ">") -/
inductive IsElement : List Token → Prop where
  | selfClosing (name : String) {us : List Token} :
    AreAttributes us → IsElement (.tagOpen :: .name name :: (us ++ [.selfClose]))
  | body (name close : String) {us ts : List Token} :
    AreAttributes us → IsDocument ts →
    IsElement (.tagOpen :: .name name ::
      (us ++ .tagEnd :: (ts ++ [.closeOpen, .name close, .tagEnd])))

/-- document := (text | element)* -/
inductive IsDocument : List Token → Prop where
  | nil : IsDocument []
  | text (value : String) {ts : List Token} : IsDocument ts → IsDocument (.text value :: ts)
  | element {us ts : List Token} : IsElement us → IsDocument ts → IsDocument (us ++ ts)

end

open Item (Attributes Opening Document)

theorem areAttributes_of_attributes {xs : List Lexeme} {attributes : List WrittenAttribute}
    (h : Attributes xs attributes) : AreAttributes (xs.map Lexeme.token) := by
  induction h with
  | nil => exact .nil
  | bare key _ ih => exact .cons (.bare key.text) ih
  | valued key equals value quoted _ ih => exact .cons (.valued key.text value) ih

theorem isDocument_of_document {xs : List Lexeme} {items : List Item} (h : Document xs items) :
    IsDocument (xs.map Lexeme.token) := by
  induction h with
  | nil => exact .nil
  | text value span _ ih => exact .text value ih
  | selfClosing stop ho _ ih =>
    cases ho with
    | intro start name ha =>
      have he := IsElement.selfClosing name.text (areAttributes_of_attributes ha)
      simpa using IsDocument.element he ih
  | element stop closeOpen closeStop close ho _ _ ihb ih =>
    cases ho with
    | intro start name ha =>
      have he := IsElement.body name.text close.text (areAttributes_of_attributes ha) ihb
      simpa using IsDocument.element he ih

/-! Whether tokens are read does not depend on where they stand, so it is enough to read those of
a derivation nowhere. -/

theorem AreAttributes.exists_attributes {ts : List Token} (h : AreAttributes ts) :
    ∃ attributes, Attributes (ts.map Lexeme.ofToken) attributes := by
  induction h with
  | nil => exact ⟨[], .nil⟩
  | cons ha _ ih =>
    obtain ⟨attributes, hr⟩ := ih
    cases ha with
    | bare key => exact ⟨_, .bare ⟨key, .nowhere⟩ hr⟩
    | valued key value => exact ⟨_, .valued ⟨key, .nowhere⟩ .nowhere value .nowhere hr⟩

theorem AreAttributes.exists_opening {ts : List Token} (h : AreAttributes ts) (name : String) :
    ∃ tag, Opening (.ofToken .tagOpen :: .ofToken (.name name) :: ts.map Lexeme.ofToken) tag := by
  obtain ⟨attributes, ha⟩ := h.exists_attributes
  exact ⟨_, .intro .nowhere ⟨name, .nowhere⟩ ha⟩

mutual

theorem IsElement.exists_item {ts : List Token} :
    IsElement ts → ∃ item, Document (ts.map Lexeme.ofToken) [item]
  | .selfClosing name ha => by
    obtain ⟨tag, ho⟩ := ha.exists_opening name
    exact ⟨_, by simpa [Lexeme.ofToken] using Document.selfClosing .nowhere ho .nil⟩
  | .body name close ha hb => by
    obtain ⟨tag, ho⟩ := ha.exists_opening name
    obtain ⟨inner, hd⟩ := hb.exists_items
    have he := Document.element .nowhere .nowhere .nowhere ⟨close, .nowhere⟩ ho hd .nil
    exact ⟨_, by simpa [Lexeme.ofToken] using he⟩

theorem IsDocument.exists_items {ts : List Token} :
    IsDocument ts → ∃ items, Document (ts.map Lexeme.ofToken) items
  | .nil => ⟨[], .nil⟩
  | .text value h => by
    obtain ⟨items, hd⟩ := h.exists_items
    exact ⟨_, .text value .nowhere hd⟩
  | .element he h => by
    obtain ⟨item, hi⟩ := he.exists_item
    obtain ⟨items, hd⟩ := h.exists_items
    exact ⟨_, by simpa using hi.append hd⟩

end

/-- Tokens are read exactly when they are a document. -/
theorem isDocument_iff_read (size : Nat) {xs : List Lexeme} :
    IsDocument (xs.map Lexeme.token) ↔ ∃ items, Item.read size xs = .ok items := by
  constructor
  · intro h
    obtain ⟨items, hd⟩ := h.exists_items
    have hplace : (xs.map Lexeme.token).map Lexeme.ofToken = xs.map Lexeme.unplaced := by
      rw [List.map_map]
      rfl
    have hread := Item.read_unplaced 0 size xs
    rw [← hplace, Item.read_eq_ok_iff.2 hd] at hread
    obtain ⟨others, ho, -⟩ := Option.map_eq_some_iff.1 hread.symm
    exact ⟨others, toOption_eq_some_iff.1 ho⟩
  · rintro ⟨items, h⟩
    exact isDocument_of_document (Item.read_eq_ok_iff.1 h)

end Grammar

/-! ## What a tree keeps of its tokens -/

/-- A token and what is kept of its place: where it starts and where it stops, if these are kept. -/
structure Trace where
  token : Token
  start : Option Nat
  stop : Option Nat
  deriving DecidableEq, Repr

namespace Trace

/-- The token stands where the trace says. -/
structure Of (t : Trace) (x : Lexeme) : Prop where
  token : x.token = t.token
  start : ∀ n ∈ t.start, x.span.start = n
  stop : ∀ n ∈ t.stop, x.span.stop = n

/-- A token of which only itself is kept. -/
def placeless (token : Token) : Trace := ⟨token, none, none⟩

def ofName (name : Name) : Trace := ⟨.name name.text, some name.span.start, some name.span.stop⟩

/-- An attribute runs from its name to the end of its value, or of the name where it is bare. -/
def ofAttribute (a : WrittenAttribute) : List Trace :=
  match a.value with
  | none => [⟨.name a.name, some a.span.start, some a.span.stop⟩]
  | some value =>
    [⟨.name a.name, some a.span.start, none⟩, placeless .equals,
      ⟨.quoted value, none, some a.span.stop⟩]

def ofOpenTag (tag : OpenTag) : List Trace :=
  placeless .tagOpen :: ofName tag.name :: tag.attributes.flatMap ofAttribute

theorem of_placeless {token : Token} {x : Lexeme} : (placeless token).Of x ↔ x.token = token :=
  ⟨Of.token, fun h => ⟨h, fun _ hn => (by cases hn), fun _ hn => (by cases hn)⟩⟩

theorem of_ofName {name : Name} {x : Lexeme} :
    (ofName name).Of x ↔ x = ⟨.name name.text, name.span⟩ := by
  obtain ⟨token, start, stop⟩ := x
  obtain ⟨text, first, last⟩ := name
  constructor
  · rintro ⟨ht, hs, he⟩
    have hstart : start = first := hs first rfl
    have hstop : stop = last := he last rfl
    cases ht
    rw [hstart, hstop]
  · intro h
    cases h
    exact ⟨rfl, fun _ hn => Option.some.inj hn, fun _ hn => Option.some.inj hn⟩

theorem forall₂_append_left {α β : Type} {R : α → β → Prop} {as bs : List α} {xs : List β} :
    List.Forall₂ R (as ++ bs) xs ↔
      ∃ ys zs, List.Forall₂ R as ys ∧ List.Forall₂ R bs zs ∧ xs = ys ++ zs := by
  induction as generalizing xs with
  | nil => simp
  | cons a as ih =>
    rw [List.cons_append, List.forall₂_cons_left_iff]
    constructor
    · rintro ⟨x, us, hx, hu, rfl⟩
      obtain ⟨ys, zs, hy, hz, rfl⟩ := ih.1 hu
      exact ⟨x :: ys, zs, .cons hx hy, hz, rfl⟩
    · rintro ⟨ys, zs, hy, hz, rfl⟩
      obtain ⟨x, us, hx, hu, rfl⟩ := List.forall₂_cons_left_iff.1 hy
      exact ⟨x, us ++ zs, hx, ih.2 ⟨us, zs, hu, hz, rfl⟩, rfl⟩

/-- A token that stands where the trace says. -/
def lexeme (t : Trace) : Lexeme := ⟨t.token, t.start.getD 0, t.stop.getD 0⟩

theorem of_lexeme (t : Trace) : t.Of t.lexeme := by
  refine ⟨rfl, fun n hn => ?_, fun n hn => ?_⟩
  · simp [lexeme, Option.mem_def.1 hn]
  · simp [lexeme, Option.mem_def.1 hn]

theorem map_token {ts : List Trace} {xs : List Lexeme} (h : List.Forall₂ Of ts xs) :
    ts.map Trace.token = xs.map Lexeme.token := by
  induction h with
  | nil => rfl
  | cons hx _ ih => rw [List.map_cons, List.map_cons, hx.token, ih]

end Trace

namespace Item

open Trace

mutual

/-- The tokens of an item, as far as it keeps them. -/
def traces : Item → List Trace
  | .text value => [placeless (.text value)]
  | .selfClosing tag => ofOpenTag tag ++ [placeless .selfClose]
  | .element tag body close =>
    ofOpenTag tag ++ placeless .tagEnd ::
      (allTraces body ++ [placeless .closeOpen, ofName close, placeless .tagEnd])

def allTraces : List Item → List Trace
  | [] => []
  | item :: items => traces item ++ allTraces items

end

/-- The tokens of a list of items. -/
def flatten (items : List Item) : List Token :=
  (allTraces items).map Trace.token

theorem traces_of_attributes {xs : List Lexeme} {attributes : List WrittenAttribute}
    (h : Attributes xs attributes) : List.Forall₂ Of (attributes.flatMap ofAttribute) xs := by
  have keeps : ∀ (n : Nat), ∀ m ∈ some n, n = m := fun n m hm => Option.some.inj hm
  induction h with
  | nil => exact .nil
  | bare key _ ih => exact .cons ⟨rfl, keeps _, keeps _⟩ ih
  | valued key equals value quoted _ ih =>
    refine .cons ⟨rfl, keeps _, fun _ hn => (by cases hn)⟩ (.cons (of_placeless.2 rfl) (.cons ?_ ih))
    exact ⟨rfl, fun _ hn => (by cases hn), keeps _⟩

theorem attributes_of_traces {attributes : List WrittenAttribute} {xs : List Lexeme}
    (h : List.Forall₂ Of (attributes.flatMap ofAttribute) xs) : Attributes xs attributes := by
  induction attributes generalizing xs with
  | nil =>
    cases h
    exact .nil
  | cons a attributes ih =>
    obtain ⟨name, value, start, stop⟩ := a
    rw [List.flatMap_cons] at h
    cases value with
    | none =>
      obtain ⟨x, ys, hx, hy, rfl⟩ := List.forall₂_cons_left_iff.1 h
      have hname : (ofName ⟨name, start, stop⟩).Of x := hx
      cases of_ofName.1 hname
      exact .bare ⟨name, start, stop⟩ (ih hy)
    | some value =>
      obtain ⟨⟨_, key⟩, _, hkey, hrest, rfl⟩ := List.forall₂_cons_left_iff.1 h
      obtain ⟨⟨_, equals⟩, _, hequals, hvalue, rfl⟩ := List.forall₂_cons_left_iff.1 hrest
      obtain ⟨⟨_, quoted⟩, _, hquoted, hothers, rfl⟩ := List.forall₂_cons_left_iff.1 hvalue
      have hstart : key.start = start := hkey.start start rfl
      have hstop : quoted.stop = stop := hquoted.stop stop rfl
      cases hkey.token
      cases hequals.token
      cases hquoted.token
      rw [← hstart, ← hstop]
      exact .valued ⟨name, key⟩ equals value quoted (ih hothers)

theorem opening_iff_traces {xs : List Lexeme} {tag : OpenTag} :
    Opening xs tag ↔ List.Forall₂ Of (ofOpenTag tag) xs := by
  constructor
  · rintro ⟨start, name, ha⟩
    exact .cons (of_placeless.2 rfl) (.cons (of_ofName.2 rfl) (traces_of_attributes ha))
  · intro h
    obtain ⟨⟨_, start⟩, _, hstart, hrest, rfl⟩ := List.forall₂_cons_left_iff.1 h
    obtain ⟨_, _, hname, ha, rfl⟩ := List.forall₂_cons_left_iff.1 hrest
    cases of_placeless.1 hstart
    cases of_ofName.1 hname
    exact .intro start tag.name (attributes_of_traces ha)

theorem traces_of_document {xs : List Lexeme} {items : List Item} (h : Document xs items) :
    List.Forall₂ Of (allTraces items) xs := by
  induction h with
  | nil => exact .nil
  | text value span _ ih => exact .cons (of_placeless.2 rfl) ih
  | selfClosing stop ho _ ih =>
    rw [allTraces, traces, List.append_assoc]
    exact List.rel_append (opening_iff_traces.1 ho) (.cons (of_placeless.2 rfl) ih)
  | element stop closeOpen closeStop close ho _ _ ihb ih =>
    rw [allTraces, traces, List.append_assoc, List.cons_append, List.append_assoc]
    refine List.rel_append (opening_iff_traces.1 ho) (.cons (of_placeless.2 rfl) ?_)
    refine List.rel_append ihb (.cons (of_placeless.2 rfl) ?_)
    exact .cons (of_ofName.2 rfl) (.cons (of_placeless.2 rfl) ih)

theorem document_of_traces {items : List Item} {xs : List Lexeme}
    (h : List.Forall₂ Of (allTraces items) xs) : Document xs items := by
  induction items using itemInduction generalizing xs with
  | nil =>
    cases h
    exact .nil
  | text value items ih =>
    obtain ⟨⟨_, span⟩, ys, hx, hy, rfl⟩ := List.forall₂_cons_left_iff.1 h
    cases of_placeless.1 hx
    exact .text value span (ih hy)
  | selfClosing tag items ih =>
    rw [allTraces, traces, List.append_assoc] at h
    obtain ⟨_, _, ho, hrest, rfl⟩ := forall₂_append_left.1 h
    obtain ⟨⟨_, stop⟩, _, hstop, hi, rfl⟩ := List.forall₂_cons_left_iff.1 hrest
    cases of_placeless.1 hstop
    exact .selfClosing stop (opening_iff_traces.2 ho) (ih hi)
  | element tag body close items ihb ih =>
    rw [allTraces, traces, List.append_assoc, List.cons_append, List.append_assoc] at h
    obtain ⟨_, _, ho, h1, rfl⟩ := forall₂_append_left.1 h
    obtain ⟨⟨_, stop⟩, _, hstop, h2, rfl⟩ := List.forall₂_cons_left_iff.1 h1
    obtain ⟨_, _, hb, h3, rfl⟩ := forall₂_append_left.1 h2
    obtain ⟨⟨_, closeOpen⟩, _, hopen, h4, rfl⟩ := List.forall₂_cons_left_iff.1 h3
    obtain ⟨_, _, hname, h5, rfl⟩ := List.forall₂_cons_left_iff.1 h4
    obtain ⟨⟨_, closeStop⟩, _, hclose, hi, rfl⟩ := List.forall₂_cons_left_iff.1 h5
    cases of_placeless.1 hstop
    cases of_placeless.1 hopen
    cases of_ofName.1 hname
    cases of_placeless.1 hclose
    exact .element stop closeOpen closeStop close (opening_iff_traces.2 ho) (ihb hb) (ih hi)

/-- Items stand for tokens exactly when the tokens are where the items say. -/
theorem read_eq_ok_iff_traces {size : Nat} {xs : List Lexeme} {items : List Item} :
    read size xs = .ok items ↔ List.Forall₂ Of (allTraces items) xs :=
  read_eq_ok_iff.trans ⟨traces_of_document, document_of_traces⟩

theorem flatten_of_read {size : Nat} {xs : List Lexeme} {items : List Item}
    (h : read size xs = .ok items) : flatten items = xs.map Lexeme.token :=
  map_token (read_eq_ok_iff_traces.1 h)

/-- Every list of items is read from some tokens. -/
theorem exists_read (items : List Item) : ∃ xs, read 0 xs = .ok items := by
  refine ⟨(allTraces items).map Trace.lexeme, read_eq_ok_iff_traces.2 ?_⟩
  rw [List.forall₂_map_right_iff, List.forall₂_same]
  exact fun t _ => of_lexeme t

/-- Items with the same tokens differ only in their places. -/
theorem unplaced_of_flatten {items others : List Item} (h : flatten items = flatten others) :
    items.map unplaced = others.map unplaced := by
  obtain ⟨xs, hx⟩ := exists_read items
  obtain ⟨ys, hy⟩ := exists_read others
  rw [flatten_of_read hx, flatten_of_read hy] at h
  have hxs := read_unplaced 0 0 xs
  have hys := read_unplaced 0 0 ys
  rw [map_unplaced h, hys, hx, hy] at hxs
  exact (Option.some.inj hxs).symm

end Item

/-- Tokens are read exactly when the grammar derives them. The items that are read have these
tokens, no other items have the same, but for their places, and of all items they alone have every
name where it stands and every attribute from its name to its value. -/
theorem Item.read_iff_isDocument (size : Nat) (xs : List Lexeme) :
    ((∃ items, Item.read size xs = .ok items) ↔ Grammar.IsDocument (xs.map Lexeme.token)) ∧
    ∀ items, Item.read size xs = .ok items →
      Item.flatten items = xs.map Lexeme.token ∧
      (∀ others, Item.flatten others = xs.map Lexeme.token →
        others.map Item.unplaced = items.map Item.unplaced) ∧
      ∀ others, List.Forall₂ Trace.Of (Item.allTraces others) xs ↔ others = items := by
  refine ⟨(Grammar.isDocument_iff_read size).symm, fun items h => ?_⟩
  have hflat := Item.flatten_of_read h
  refine ⟨hflat, fun others ho => Item.unplaced_of_flatten (ho.trans hflat.symm), fun others => ?_⟩
  rw [← @Item.read_eq_ok_iff_traces size, h]
  exact ⟨fun he => (Except.ok.inj he).symm, fun he => by rw [he]⟩

/-- The tokens of `<b x='1' y>c</b>`, with the places of both attributes. -/
theorem Item.read_iff_isDocument_element :
    let xs : List Lexeme := [⟨.tagOpen, 0, 1⟩, ⟨.name "b", 1, 2⟩, ⟨.name "x", 3, 4⟩, ⟨.equals, 4, 5⟩,
      ⟨.quoted "1", 5, 8⟩, ⟨.name "y", 9, 10⟩, ⟨.tagEnd, 10, 11⟩, ⟨.text "c", 11, 12⟩,
      ⟨.closeOpen, 12, 14⟩, ⟨.name "b", 14, 15⟩, ⟨.tagEnd, 15, 16⟩]
    let items : List Item := [.element ⟨⟨"b", 1, 2⟩, [⟨"x", some "1", 3, 8⟩, ⟨"y", none, 9, 10⟩]⟩
      [.text "c"] ⟨"b", 14, 15⟩]
    Item.read 16 xs = .ok items ∧ Grammar.IsDocument (xs.map Lexeme.token) ∧
      Item.flatten items = xs.map Lexeme.token ∧
      (∀ others, Item.flatten others = xs.map Lexeme.token →
        others.map Item.unplaced = items.map Item.unplaced) ∧
      ∀ others, List.Forall₂ Trace.Of (Item.allTraces others) xs ↔ others = items := by
  intro xs items
  have h : Item.read 16 xs = .ok items := rfl
  obtain ⟨hderived, hread⟩ := Item.read_iff_isDocument 16 xs
  exact ⟨h, hderived.1 ⟨items, h⟩, hread items h⟩

end TermMarkup
