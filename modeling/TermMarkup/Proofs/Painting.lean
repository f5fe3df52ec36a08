/-
How a rendered document looks on a terminal. Each element switches a font on before its content and
off after it, among layout that holds no codes. A document leaves the terminal with the pen it had
at the start, whatever its elements do to each other's colors; and where only color elements set a
channel, every text is shown in the color that the innermost of them around it sets.
-/
import TermMarkup.Proofs.Rendering
import TermMarkup.Proofs.Shortcodes
import TermMarkup.Proofs.Terminal

namespace TermMarkup

open Node Render

/-! ## Texts without codes -/

theorem esc_notMem_append {a b : String} :
    esc ∉ (a ++ b).toList ↔ esc ∉ a.toList ∧ esc ∉ b.toList := by
  rw [String.toList_append, List.mem_append, not_or]

theorem esc_notMem_replicate {c : Char} (hc : esc ≠ c) (n : Nat) :
    esc ∉ (String.ofList (List.replicate n c)).toList := by
  rw [String.toList_ofList]
  exact fun h => hc (List.eq_of_mem_replicate h)

theorem esc_notMem_spaces (n : Count) : esc ∉ (spaces n).toList :=
  esc_notMem_replicate (by decide) n

theorem esc_notMem_newlines (n : Count) : esc ∉ (newlines n).toList :=
  esc_notMem_replicate (by decide) n

namespace Emoji

theorem esc_notMem_table : ∀ row ∈ table, esc ∉ row.2.toList := by
  decide +kernel

theorem esc_notMem_replacement {name : List Char} (h : esc ∉ name) : esc ∉ replacement name := by
  unfold replacement
  split
  · rename_i emoji hl
    exact esc_notMem_table _ (mem_of_lookup hl)
  · have hcolon : esc ≠ ':' := by decide
    simp [h, hcolon]

theorem esc_notMem_substituteChars {cs : List Char} (h : esc ∉ cs) : esc ∉ substituteChars cs := by
  obtain ⟨ps, hs, he⟩ := exists_scan cs
  rw [he]
  clear he
  induction hs with
  | done => exact h
  | candidate _ _ ih =>
    simp only [List.mem_cons, List.mem_append, not_or] at h
    obtain ⟨-, hname, -, hrest⟩ := h
    simp [Part.shown, esc_notMem_replacement hname, ih hrest]
  | char _ _ ih =>
    obtain ⟨hne, hcs⟩ := not_or.1 (mt List.mem_cons.2 h)
    simp [Part.shown, hne, ih hcs]

theorem esc_notMem_substitute {text : String} (h : esc ∉ text.toList) :
    esc ∉ (substitute text).toList := by
  unfold substitute
  rw [String.toList_ofList]
  exact esc_notMem_substituteChars h

end Emoji

/-! ## Colors -/

/-- The color a font sets on a channel. -/
def Font.color? (f : Font) (channel : Channel) : Option Color :=
  channel.select f.fg f.bg

/-- The color a color element sets on a channel. -/
def Node.color? (channel : Channel) : Node → Option Color
  | .element (.color fg bg) _ => channel.select fg bg
  | _ => none

/-- The color of a channel inside the nodes `above`, innermost first: that of the nearest color
element that sets the channel, or the default of the terminal. -/
def inherited (channel : Channel) (above : List Node) : Color :=
  (above.filterMap (Node.color? channel)).head?.getD .terminal

theorem enclosing_eq (channel : Channel) (above : List Node) :
    enclosing channel.select above = (above.filterMap (Node.color? channel)).head? := by
  rw [List.head?_filterMap]
  unfold enclosing
  congr 1

theorem fgCode_inherited (above : List Node) :
    ((enclosing (fun fg _ => fg) above).map Color.fgCode).getD Sgr.fgDefault =
      (inherited .fg above).fgCode := by
  have h : enclosing (fun fg _ => fg) above = _ := enclosing_eq .fg above
  unfold inherited
  rw [h]
  cases (above.filterMap (Node.color? .fg)).head? <;> rfl

theorem bgCode_inherited (above : List Node) :
    ((enclosing (fun _ bg => bg) above).map Color.bgCode).getD Sgr.bgDefault =
      (inherited .bg above).bgCode := by
  have h : enclosing (fun _ bg => bg) above = _ := enclosing_eq .bg above
  unfold inherited
  rw [h]
  cases (above.filterMap (Node.color? .bg)).head? <;> rfl

theorem inherited_cons (channel : Channel) (node : Node) (above : List Node) :
    inherited channel (node :: above) = (node.color? channel).getD (inherited channel above) := by
  unfold inherited
  cases h : node.color? channel with
  | none => rw [List.filterMap_cons_none h]; rfl
  | some color => rw [List.filterMap_cons_some h]; rfl

namespace Pen

theorem color_on (p : Pen) (f : Font) (channel : Channel) :
    (p.on f).color channel = (f.color? channel).getD (p.color channel) := by
  cases channel <;> rfl

theorem color_off (p : Pen) (f : Font) (back : Channel → Color) (channel : Channel) :
    (p.off f back).color channel =
      if (f.color? channel).isSome then back channel else p.color channel := by
  cases channel <;> rfl

end Pen

/-! ## Codes and layout of an element -/

namespace Element

/-- The font an element switches on. -/
def font (theme : Theme) : Element → Font
  | .bold => { bold := some true }
  | .italics => { italics := some true }
  | .underline style => { underline := some style }
  | .color fg bg => { fg, bg }
  | .styled kind own => (effective theme kind own).font

/-- The codes that switch the font of an element off again. -/
def codesOff (theme : Theme) (above : List Node) : Element → List Nat
  | .color fg bg => colorOff fg bg above
  | e => Sgr.fontOff (e.font theme)

/-- The color an element leaves a channel that it set. -/
def back (e : Element) (above : List Node) (channel : Channel) : Color :=
  match e with
  | .color _ _ => inherited channel above
  | _ => .terminal

/-- What an element shows besides its codes: outside them and inside them, before its content and
after it. -/
structure Layout where
  top : String := ""
  left : String := ""
  right : String := ""
  bottom : String := ""

def layout (theme : Theme) : Element → Layout
  | .styled kind own =>
    let style := effective theme kind own
    { top := (if kind.isBlock then "\n" else "") ++ newlines style.spacing.margins.top
      left := spaces style.spacing.margins.left ++
        (if kind = .listItem then bullet style.list else "")
      right := spaces style.spacing.margins.right
      bottom := newlines style.spacing.margins.bottom }
  | _ => {}

/-- Whether an element does no more than set a font. -/
def isWrapper : Element → Bool
  | .styled _ _ => false
  | _ => true

theorem layout_of_isWrapper {e : Element} (h : e.isWrapper = true) (theme : Theme) :
    e.layout theme = {} := by
  cases e with
  | styled kind own => cases h
  | bold | italics | underline style | color fg bg => rfl

/-- The layout of a styled element comes from its spacing and, of a list item, its list section. -/
theorem layout_styled_congr {theme theme' : Theme} {kind : StyledKind} {own own' : Style}
    (hs : (effective theme kind own).spacing = (effective theme' kind own').spacing)
    (hl : kind = .listItem → (effective theme kind own).list = (effective theme' kind own').list) :
    (Element.styled kind own).layout theme = (Element.styled kind own').layout theme' := by
  unfold layout
  by_cases hk : kind = .listItem
  · simp only [hs, hl hk]
  · simp only [hs, if_neg hk]

theorem back_eq (e : Element) (above : List Node) (channel : Channel) :
    e.back above channel = inherited channel above ∨ e.back above channel = .terminal := by
  cases e with
  | color fg bg => exact Or.inl rfl
  | bold | italics | underline style | styled kind own => exact Or.inr rfl

theorem foldl_codesOff (theme : Theme) (above : List Node) (e : Element) (p : Pen) :
    (e.codesOff theme above).foldl Pen.apply p = p.off (e.font theme) (e.back above) := by
  cases e with
  | bold | italics | underline style | styled kind own => exact Pen.foldl_fontOff p _
  | color fg bg =>
    show (colorOff fg bg above).foldl Pen.apply p = _
    unfold colorOff
    rw [fgCode_inherited, bgCode_inherited, List.foldl_append, Pen.foldl_fgBack, Pen.foldl_bgBack]
    rfl

/-- The codes after an element see the elements around it by the colors they set. -/
theorem codesOff_congr (theme : Theme) (e : Element) {above above' : List Node}
    (h : ∀ channel, inherited channel above = inherited channel above') :
    e.codesOff theme above = e.codesOff theme above' := by
  cases e with
  | bold | italics | underline style | styled kind own => rfl
  | color fg bg =>
    show colorOff fg bg above = colorOff fg bg above'
    unfold colorOff
    rw [fgCode_inherited, bgCode_inherited, fgCode_inherited, bgCode_inherited, h, h]

end Element

section

variable (theme : Theme) (above : List Node) (e : Element) (content : Content Node)

/-- An element whose font leaves a channel alone is no color element that sets it. -/
theorem color?_of_font {theme : Theme} {e : Element} {content : Content Node} {channel : Channel}
    (h : (e.font theme).color? channel = none) : (Node.element e content).color? channel = none := by
  cases e with
  | color fg bg => exact h
  | bold | italics | underline style | styled kind own => rfl

theorem text_opening :
    (Mark.opening ⟨.ansi, theme⟩ above (.element e content)).text =
      (e.layout theme).top ++ Sgr.sequence (Sgr.fontOn (e.font theme)) ++ (e.layout theme).left := by
  cases e with
  | bold => rfl
  | italics => rfl
  | underline style => cases style <;> rfl
  | color fg bg =>
    have hnone : Sgr.sequence [] = "" := rfl
    cases fg <;> cases bg <;>
      simp [Mark.opening, Mark.text, before, kind, Element.kind, colorOn, Element.layout, Element.font,
        Sgr.fontOn, hnone]
  | styled kind own =>
    show ansiBefore kind (effective theme kind own) = _
    simp [ansiBefore, Element.layout, Element.font, String.append_assoc]

theorem text_closing :
    (Mark.closing ⟨.ansi, theme⟩ above (.element e content)).text =
      (e.layout theme).right ++ Sgr.sequence (e.codesOff theme above) ++ (e.layout theme).bottom := by
  cases e with
  | bold => rfl
  | italics => rfl
  | underline style => cases style <;> rfl
  | color fg bg =>
    show Sgr.sequence (colorOff fg bg above) = "" ++ Sgr.sequence (colorOff fg bg above) ++ ""
    simp
  | styled kind own => rfl

end

/-! ## Documents without codes in their texts -/

/-- No bullet of the listing holds an escape character. -/
def Listing.Plain (l : Listing) : Prop :=
  ∀ text ∈ l.bullet, esc ∉ text.toList

/-- No part of the layout holds an escape character. -/
structure Element.Layout.Plain (l : Element.Layout) : Prop where
  top : esc ∉ l.top.toList
  left : esc ∉ l.left.toList
  right : esc ∉ l.right.toList
  bottom : esc ∉ l.bottom.toList

/-- No bullet of the theme holds an escape character. -/
def Theme.Plain (theme : Theme) : Prop :=
  ∀ kind, (theme.styled kind).list.Plain

/-- Neither the text of the node nor a bullet of its own holds an escape character. -/
def Node.Plain : Node → Prop
  | .text value => esc ∉ value.toList
  | .element (.styled _ own) _ => own.list.Plain
  | _ => True

/-- Neither the text that the node shows nor its bullet holds an escape character. -/
def Node.ShownPlain (theme : Theme) : Node → Prop
  | .text value => esc ∉ value.toList
  | .element (.styled kind own) _ => kind = .listItem → (effective theme kind own).list.Plain
  | _ => True

theorem Listing.plain_merge {base upper : Listing} (hb : base.Plain) (hu : upper.Plain) :
    (base.merge upper).Plain := by
  intro text ht
  rcases Option.or_eq_some_iff.1 ht with ht | ⟨-, ht⟩
  · exact hu text ht
  · exact hb text ht

theorem Theme.plain_builtin : Theme.builtin.Plain := by
  intro kind text ht
  cases kind with
  | listItem =>
    cases ht
    decide
  | h1 | h2 | h3 | body | paragraph | span | div => cases ht

theorem Listing.Plain.esc_notMem_bullet {l : Listing} (h : l.Plain) :
    esc ∉ (Render.bullet l).toList := by
  refine esc_notMem_append.2 ⟨esc_notMem_spaces _, ?_⟩
  cases hb : l.bullet with
  | none => exact List.not_mem_nil
  | some text => exact h text hb

section

variable {theme : Theme} {e : Element} {content : Content Node}

theorem plain_effective (ht : theme.Plain) {kind : StyledKind} {own : Style} (ho : own.list.Plain) :
    (effective theme kind own).list.Plain :=
  Listing.plain_merge (Listing.plain_merge (Theme.plain_builtin kind) (ht kind)) ho

theorem Node.ShownPlain.layout (h : (Node.element e content).ShownPlain theme) :
    (e.layout theme).Plain := by
  cases e with
  | bold | italics | underline style | color fg bg =>
    exact ⟨List.not_mem_nil, List.not_mem_nil, List.not_mem_nil, List.not_mem_nil⟩
  | styled kind own =>
    refine ⟨?_, ?_, esc_notMem_spaces _, esc_notMem_newlines _⟩
    · refine esc_notMem_append.2 ⟨?_, esc_notMem_newlines _⟩
      split <;> decide
    · refine esc_notMem_append.2 ⟨esc_notMem_spaces _, ?_⟩
      split
      · rename_i hk
        exact (h hk).esc_notMem_bullet
      · exact List.not_mem_nil

theorem plain_layout (ht : theme.Plain) (he : (Node.element e content).Plain) :
    (e.layout theme).Plain := by
  have hshown : (Node.element e content).ShownPlain theme := by
    cases e with
    | bold | italics | underline style | color fg bg => trivial
    | styled kind own => exact fun _ => plain_effective ht he
  exact hshown.layout

/-- Before its content an element switches its font on. -/
theorem write_opening (ht : theme.Plain) (he : (Node.element e content).Plain) (above : List Node)
    (p : Pen) :
    Terminal.write ⟨p, .plain⟩ (Mark.opening ⟨.ansi, theme⟩ above (.element e content)).text =
      ⟨p.on (e.font theme), .plain⟩ := by
  have hl := plain_layout ht he
  rw [text_opening, Terminal.write_append, Terminal.write_append,
    Terminal.write_of_notMem p hl.top, Terminal.write_sequence, Pen.foldl_fontOn,
    Terminal.write_of_notMem _ hl.left]

/-- After its content an element switches its font off. -/
theorem write_closing (ht : theme.Plain) (he : (Node.element e content).Plain) (above : List Node)
    (p : Pen) :
    Terminal.write ⟨p, .plain⟩ (Mark.closing ⟨.ansi, theme⟩ above (.element e content)).text =
      ⟨p.off (e.font theme) (e.back above), .plain⟩ := by
  have hl := plain_layout ht he
  rw [text_closing, Terminal.write_append, Terminal.write_append,
    Terminal.write_of_notMem p hl.right, Terminal.write_sequence, Element.foldl_codesOff,
    Terminal.write_of_notMem _ hl.bottom]

theorem write_text {value : String} (h : (Node.text value).Plain) (above : List Node) (p : Pen) :
    Terminal.write ⟨p, .plain⟩ (Mark.opening ⟨.ansi, theme⟩ above (.text value)).text =
      ⟨p, .plain⟩ :=
  Terminal.write_of_notMem p (Emoji.esc_notMem_substitute h)

theorem write_lineBreak (above : List Node) (p : Pen) :
    Terminal.write ⟨p, .plain⟩ (Mark.opening ⟨.ansi, theme⟩ above .lineBreak).text = ⟨p, .plain⟩ := by
  have hbreak : esc ∉ "\n".toList := by decide
  exact Terminal.write_of_notMem p hbreak

end

/-! ## The pen after a document -/

/-- The value is what it was, or back at rest. -/
def Rests {α : Type} (rest before after : α) : Prop :=
  after = before ∨ after = rest

theorem Rests.trans {α : Type} {rest a b c : α} (hb : Rests rest a b) (hc : Rests rest b c) :
    Rests rest a c := by
  rcases hc with rfl | h
  · exact hb
  · exact Or.inr h

theorem Rests.around {set a b : Bool} (h : Rests false (set || a) b) : Rests false a (!set && b) := by
  cases set with
  | true => exact Or.inr rfl
  | false => exact h

/-- What nodes that stand in the nodes `above` can do to the pen: switch a font off, and give a
channel the color around them or the default. -/
structure Settles (above : List Node) (p q : Pen) : Prop where
  color : ∀ channel, q.color channel = inherited channel above ∨
    Rests .terminal (p.color channel) (q.color channel)
  bold : Rests false p.bold q.bold
  underline : Rests .off p.underline q.underline
  italics : Rests false p.italics q.italics

namespace Settles

variable {above : List Node} {p q s : Pen}

theorem refl (above : List Node) (p : Pen) : Settles above p p :=
  ⟨fun _ => Or.inr (Or.inl rfl), Or.inl rfl, Or.inl rfl, Or.inl rfl⟩

theorem trans (hq : Settles above p q) (hs : Settles above q s) : Settles above p s where
  color channel := by
    rcases hs.color channel with h | h | h
    · exact Or.inl h
    · rw [h]
      exact hq.color channel
    · exact Or.inr (Or.inr h)
  bold := hq.bold.trans hs.bold
  underline := hq.underline.trans hs.underline
  italics := hq.italics.trans hs.italics

/-- An element whose content settles leaves the pen settled around it. -/
theorem around {theme : Theme} {e : Element} {content : Content Node}
    (h : Settles (.element e content :: above) (p.on (e.font theme)) q) :
    Settles above p (q.off (e.font theme) (e.back above)) where
  color channel := by
    rw [Pen.color_off]
    cases hf : (e.font theme).color? channel with
    | some color => exact (e.back_eq above channel).imp_right Or.inr
    | none =>
      -- neither the element nor the nodes in it see another color around them
      have hq := h.color channel
      rw [Pen.color_on, hf, inherited_cons, color?_of_font hf] at hq
      exact hq
  bold := h.bold.around
  underline := by
    have hq := h.underline
    unfold Pen.on at hq
    unfold Pen.off
    cases hf : ((e.font theme).underline.bind Underline.code?).isSome with
    | true => exact Or.inr rfl
    | false => simpa [hf] using hq
  italics := h.italics.around

/-- A pen that settles from the default, outside all elements, is the default again. -/
theorem eq_default (h : Settles [] {} q) : q = {} := by
  have hcolor : ∀ channel, q.color channel = .terminal := fun channel => by
    rcases h.color channel with hc | hc | hc
    · exact hc
    · cases channel <;> exact hc
    · exact hc
  obtain ⟨fg, bg, bold, underline, italics⟩ := q
  cases hcolor .fg
  cases hcolor .bg
  cases or_self_iff.1 h.bold
  cases or_self_iff.1 h.underline
  cases or_self_iff.1 h.italics
  rfl

end Settles

/-- Nodes leave the pen settled. -/
theorem settles_marks {theme : Theme} (ht : theme.Plain) {nodes : List Node} {depth : Nat}
    (hn : Throughout (fun _ node => node.Plain) depth nodes) (above : List Node) (p : Pen) :
    ∃ q, Terminal.write ⟨p, .plain⟩ (output (marks ⟨.ansi, theme⟩ above nodes)) = ⟨q, .plain⟩ ∧
      Settles above p q := by
  induction nodes using documentInduction generalizing depth above p with
  | nil => exact ⟨p, rfl, .refl above p⟩
  | text value nodes ih =>
    obtain ⟨hv, hn⟩ := throughout_text.1 hn
    rw [marks_text, output_cons, Terminal.write_append, write_text hv]
    exact ih hn above p
  | lineBreak nodes ih =>
    rw [marks_lineBreak, output_cons, Terminal.write_append, write_lineBreak]
    exact ih (throughout_lineBreak.1 hn).2 above p
  | element e content nodes ihc ih =>
    obtain ⟨he, hc, hn⟩ := throughout_element.1 hn
    -- the content starts with the font on, and what it leaves of the font the element takes off
    obtain ⟨q, hq, hsq⟩ := ihc hc (.element e content :: above) (p.on (e.font theme))
    obtain ⟨s, hs, hss⟩ := ih hn above (q.off (e.font theme) (e.back above))
    refine ⟨s, ?_, hsq.around.trans hss⟩
    rw [marks_element, output_cons, output_append, output_cons, Terminal.write_append,
      write_opening ht he, Terminal.write_append, hq, Terminal.write_append, write_closing ht he, hs]

/-- On the terminal, a document without escape characters in its texts and bullets that renders
leaves the default pen after each of its outermost nodes, under every theme without escape
characters in its bullets: the output divides there, and its first part ends as it began. -/
theorem default_pen_after_nodes {theme : Theme} {nodes : List Node} {r : Rendering}
    (hr : ({ theme } : Compiler).render .ansi nodes = .ok r) (ht : theme.Plain)
    (hn : ∀ o ∈ occurrences nodes, o.node.Plain) (xs ys : List Node) (hs : nodes = xs ++ ys) :
    ∃ first last : Rendering,
      ({ theme } : Compiler).render .ansi xs = .ok first ∧
      ({ theme } : Compiler).render .ansi ys = .ok last ∧
      r.output = first.output ++ last.output ∧ Terminal.write {} first.output = {} := by
  subst hs
  obtain ⟨hd, rfl⟩ := Compiler.render_eq_ok_iff.1 hr
  have happend : occurrences (xs ++ ys) = occurrences xs ++ occurrences ys :=
    occurrencesBelow_append [] xs ys
  rw [happend] at hd hn
  obtain ⟨hdx, hdy⟩ := List.forall_mem_append.1 hd
  obtain ⟨hx, -⟩ := List.forall_mem_append.1 hn
  obtain ⟨q, hq, hsq⟩ := settles_marks ht (throughout_zero.2 hx) [] {}
  refine ⟨_, _, Compiler.render_eq_ok_iff.2 ⟨hdx, rfl⟩, Compiler.render_eq_ok_iff.2 ⟨hdy, rfl⟩,
    ?_, ?_⟩
  · rw [marks_append]
    exact output_append _ _
  · rw [hsq.eq_default] at hq
    exact hq

/-- A list item of a theme between texts, in a color element and with another in it. -/
theorem default_pen_after_nodes_item :
    let theme : Theme :=
      { li := { font := { fg := some .green }, list := { bullet := some "- " } } }
    let item := Node.element (.styled .listItem { font := { bg := some .blue } })
      (.many [.element (.color (some .yellow) none) (.single (.text "b")), .text "c"])
    let first := Node.element (.color (some .red) (some .white)) (.many [.text "a", item, .text "d"])
    let second := Node.element .bold (.single (.text "e"))
    theme.Plain ∧ (∀ o ∈ occurrences [first, second], o.node.Plain) ∧
    ∃ r before after : Rendering,
      ({ theme } : Compiler).render .ansi [first, second] = .ok r ∧
      ({ theme } : Compiler).render .ansi [first] = .ok before ∧
      ({ theme } : Compiler).render .ansi [second] = .ok after ∧
      r.output = before.output ++ after.output ∧ Terminal.write {} before.output = {} := by
  intro theme item first second
  have hr : ∃ r, ({ theme } : Compiler).render .ansi [first, second] = .ok r :=
    ⟨_, Compiler.render_eq_ok_iff.2 ⟨by decide, rfl⟩⟩
  have ht : theme.Plain := by
    intro kind
    cases kind <;> rintro text ⟨⟩
    decide
  have hn : ∀ o ∈ occurrences [first, second], o.node.Plain := by
    simp [occurrences, first, second, item, Node.Plain, Listing.Plain, esc]
  obtain ⟨r, hr⟩ := hr
  obtain ⟨before, after, h⟩ := default_pen_after_nodes hr ht hn [first] [second] rfl
  exact ⟨ht, hn, r, before, after, hr, h⟩

/-! ## The color of a text -/

/-- The style that the node is shown in, if it has one, leaves the channel alone. -/
def Node.Spares (theme : Theme) (channel : Channel) : Node → Prop
  | .element (.styled kind own) _ => (effective theme kind own).font.color? channel = none
  | _ => True

theorem color?_font {theme : Theme} {channel : Channel} {e : Element} {content : Content Node}
    (h : (Node.element e content).Spares theme channel) :
    (e.font theme).color? channel = (Node.element e content).color? channel := by
  cases e with
  | color fg bg => rfl
  | styled kind own => exact h
  | bold | italics | underline style => cases channel <;> rfl

theorem split_append {α : Type} {ms ns xs ys : List α} {m : α} (h : ms ++ ns = xs ++ m :: ys) :
    (∃ zs, ms = xs ++ m :: zs) ∨ ∃ zs, xs = ms ++ zs ∧ ns = zs ++ m :: ys := by
  rcases List.append_eq_append_iff.1 h with ⟨zs, hx, hn⟩ | ⟨zs, hm, hy⟩
  · exact Or.inr ⟨zs, hx, hn⟩
  · cases zs with
    | nil => exact Or.inr ⟨[], by simp [hm], hy.symm⟩
    | cons z zs =>
      cases hy
      exact Or.inl ⟨zs, hm⟩

/-- From a pen with the color `a` on a channel the marks lead to one with the color `b`, and each
text among them meets a pen with the color that the nodes around it give the channel. -/
structure Paints (channel : Channel) (ms : List Mark) (a b : Color) : Prop where
  last : ∀ p : Pen, p.color channel = a →
    ∃ q : Pen, Terminal.write ⟨p, .plain⟩ (output ms) = ⟨q, .plain⟩ ∧ q.color channel = b
  texts : ∀ p : Pen, p.color channel = a → ∀ xs m ys, ms = xs ++ m :: ys →
    ∀ value, m.place.node = .text value →
      ∃ q : Pen, Terminal.write ⟨p, .plain⟩ (output xs) = ⟨q, .plain⟩ ∧
        q.color channel = inherited channel m.place.above

namespace Paints

variable {channel : Channel} {a b c : Color}

theorem nil (channel : Channel) (a : Color) : Paints channel [] a a where
  last p hp := ⟨p, rfl, hp⟩
  texts p hp xs m ys h := by simp at h

theorem append {ms ns : List Mark} (hm : Paints channel ms a b) (hn : Paints channel ns b c) :
    Paints channel (ms ++ ns) a c where
  last p hp := by
    obtain ⟨q, hq, hqb⟩ := hm.last p hp
    rw [output_append, Terminal.write_append, hq]
    exact hn.last q hqb
  texts p hp xs m ys h value hv := by
    rcases split_append h with ⟨zs, hzs⟩ | ⟨zs, rfl, hzs⟩
    · exact hm.texts p hp xs m zs hzs value hv
    · obtain ⟨q, hq, hqb⟩ := hm.last p hp
      rw [output_append, Terminal.write_append, hq]
      exact hn.texts q hqb zs m ys hzs value hv

/-- One mark that is no text and moves the color of the pen. -/
theorem single {m : Mark} (hm : ∀ value, m.place.node ≠ .text value)
    (h : ∀ p : Pen, p.color channel = a →
      ∃ q : Pen, Terminal.write ⟨p, .plain⟩ m.text = ⟨q, .plain⟩ ∧ q.color channel = b) :
    Paints channel [m] a b where
  last p hp := by
    rw [output_cons, output_nil, String.append_empty]
    exact h p hp
  texts p hp xs m' ys hs value hv := by
    rcases List.singleton_eq_append_iff.1 hs with ⟨-, hs⟩ | ⟨-, hs⟩
    · cases hs
      exact absurd hv (hm value)
    · cases hs

theorem text {theme : Theme} {value : String} (h : (Node.text value).Plain) (above : List Node) :
    Paints channel [.opening ⟨.ansi, theme⟩ above (.text value)] (inherited channel above)
      (inherited channel above) where
  last p hp := by
    refine ⟨p, ?_, hp⟩
    rw [output_cons, output_nil, String.append_empty, write_text h]
  texts p hp xs m ys hs value hv := by
    rcases List.singleton_eq_append_iff.1 hs with ⟨rfl, hs⟩ | ⟨-, hs⟩
    · cases hs
      exact ⟨p, rfl, hp⟩
    · cases hs

theorem lineBreak (theme : Theme) (above : List Node) (a : Color) :
    Paints channel [.opening ⟨.ansi, theme⟩ above .lineBreak] a a :=
  single (fun _ h => by cases h) fun p hp => ⟨p, write_lineBreak above p, hp⟩

section

variable {theme : Theme} {e : Element} {content : Content Node}

theorem opening (ht : theme.Plain) (he : (Node.element e content).Plain)
    (hs : (Node.element e content).Spares theme channel) (above : List Node) :
    Paints channel [.opening ⟨.ansi, theme⟩ above (.element e content)]
      (inherited channel above) (inherited channel (.element e content :: above)) := by
  refine single (fun _ h => by cases h) fun p hp => ⟨_, write_opening ht he above p, ?_⟩
  rw [Pen.color_on, color?_font hs, inherited_cons, hp]

theorem closing (ht : theme.Plain) (he : (Node.element e content).Plain)
    (hs : (Node.element e content).Spares theme channel) (above : List Node) :
    Paints channel [.closing ⟨.ansi, theme⟩ above (.element e content)]
      (inherited channel (.element e content :: above)) (inherited channel above) := by
  refine single (fun _ h => by cases h) fun p hp => ⟨_, write_closing ht he above p, ?_⟩
  rw [Pen.color_off, color?_font hs]
  rw [inherited_cons] at hp
  cases hc : (Node.element e content).color? channel with
  | none =>
    rw [hc] at hp
    exact hp
  | some color =>
    -- only a color element sets the channel, and it knows the color around it
    cases e with
    | color fg bg => rfl
    | bold | italics | underline style | styled kind own => cases hc

end

end Paints

/-- What is asked of a node for its channel to show what color elements set. -/
def Node.Painted (theme : Theme) (channel : Channel) (_ : Nat) (node : Node) : Prop :=
  node.Plain ∧ node.Spares theme channel

theorem paints_marks {theme : Theme} {channel : Channel} (ht : theme.Plain) {nodes : List Node}
    {depth : Nat} (hn : Throughout (Node.Painted theme channel) depth nodes) (above : List Node) :
    Paints channel (marks ⟨.ansi, theme⟩ above nodes) (inherited channel above)
      (inherited channel above) := by
  induction nodes using documentInduction generalizing depth above with
  | nil => exact .nil channel _
  | text value nodes ih =>
    obtain ⟨hv, hn⟩ := throughout_text.1 hn
    exact (Paints.text hv.1 above).append (ih hn above)
  | lineBreak nodes ih =>
    exact (Paints.lineBreak theme above _).append (ih (throughout_lineBreak.1 hn).2 above)
  | element e content nodes ihc ih =>
    obtain ⟨he, hc, hn⟩ := throughout_element.1 hn
    rw [marks_element]
    -- into the color of the element, through its content, and back to the color around it
    exact (Paints.opening ht he.1 he.2 above).append
      ((ihc hc _).append ((Paints.closing ht he.1 he.2 above).append (ih hn above)))

/-- The marks of texts are what the renderer answers for the texts of the document, in order. -/
theorem filter_isText_marks (context : Context) (above nodes : List Node) :
    (marks context above nodes).filter (·.place.node.isText) =
      ((occurrencesBelow above nodes).filter (·.node.isText)).map fun o =>
        .opening context o.above o.node := by
  induction nodes using documentInduction generalizing above with
  | nil => rfl
  | text value nodes ih => simp [List.filter_cons, ih]
  | lineBreak nodes ih => simp [ih]
  | element e content nodes ihc ih => simp [ihc, ih]

theorem text_of_mem_marks {context : Context} {nodes : List Node} {m : Mark} {value : String}
    (h : m ∈ marks context [] nodes) (hv : m.place.node = .text value) :
    ⟨m.place.above, .text value⟩ ∈ occurrences nodes ∧
      m = .opening context m.place.above (.text value) := by
  have hm : m ∈ (marks context [] nodes).filter (·.place.node.isText) :=
    List.mem_filter.2 ⟨h, by rw [hv]; rfl⟩
  rw [filter_isText_marks] at hm
  obtain ⟨o, ho, rfl⟩ := List.mem_map.1 hm
  obtain ⟨above, node⟩ := o
  cases hv
  exact ⟨(List.mem_filter.1 ho).1, rfl⟩

/-- Where no style sets a channel, every text is shown in the color of the nearest color element
around it that sets the channel, or in the default of the terminal. The output is that of the
marks, whose texts are those of the document in their order, and at each character of each of them
the terminal shows what it gets in that color. -/
theorem text_shown_in_inherited_color {theme : Theme} {channel : Channel} {nodes : List Node}
    {r : Rendering} (hr : ({ theme } : Compiler).render .ansi nodes = .ok r) (ht : theme.Plain)
    (hn : ∀ o ∈ occurrences nodes, o.node.Plain)
    (hs : ∀ o ∈ occurrences nodes, o.node.Spares theme channel) :
    let ms := marks ⟨.ansi, theme⟩ [] nodes
    r.output = output ms ∧
    (ms.filter (·.place.node.isText)).map Mark.place =
      (occurrences nodes).filter (·.node.isText) ∧
    ∀ before m after value, ms = before ++ m :: after → m.place.node = .text value →
      m.text = Emoji.substitute value ∧
      ∀ us c vs, m.text.toList = us ++ c :: vs →
        c ≠ esc ∧ ∃ pen, Terminal.write {} (output before ++ String.ofList us) = ⟨pen, .plain⟩ ∧
          pen.color channel = inherited channel m.place.above := by
  intro ms
  obtain ⟨-, rfl⟩ := Compiler.render_eq_ok_iff.1 hr
  refine ⟨rfl, ?_, fun before m after value hm hv => ?_⟩
  · rw [filter_isText_marks, List.map_map]
    exact List.map_id _
  · obtain ⟨ho, he⟩ := text_of_mem_marks (hm ▸ List.mem_append_right _ List.mem_cons_self) hv
    have htext : m.text = Emoji.substitute value := by
      rw [he]
      rfl
    have hplain := Emoji.esc_notMem_substitute (hn _ ho)
    have hpaint := paints_marks ht (throughout_zero.2 fun o ho => ⟨hn o ho, hs o ho⟩) []
    obtain ⟨pen, hw, hpen⟩ := hpaint.texts {} (by cases channel <;> rfl) before m after hm value hv
    refine ⟨htext, fun us c vs hc => ?_⟩
    rw [← htext, hc] at hplain
    obtain ⟨hus, hcvs⟩ := not_or.1 (mt List.mem_append.2 hplain)
    refine ⟨fun h => hcvs (h ▸ List.mem_cons_self), pen, ?_, hpen⟩
    -- what comes before in the text leaves the pen as it is
    have hw : Terminal.write {} (output before) = ⟨pen, .plain⟩ := hw
    rw [Terminal.write_append, hw, Terminal.write_of_notMem pen]
    rwa [String.toList_ofList]

/-- After a color element inside a list item, the rest of the item is shown in the color around
the item again. -/
theorem text_shown_in_inherited_color_item :
    let theme : Theme :=
      { li := { font := { bg := some .green }, list := { bullet := some "- " } } }
    let inner := Node.element (.color (some .yellow) none) (.single (.text "b"))
    let item := Node.element (.styled .listItem {}) (.many [inner, .text "c"])
    let outer := Node.element (.color (some .red) none) (.many [.text "a", item])
    let nodes := [outer]
    theme.Plain ∧ (∀ o ∈ occurrences nodes, o.node.Plain) ∧
    (∀ o ∈ occurrences nodes, o.node.Spares theme .fg) ∧
    ∃ r before after pen, ({ theme } : Compiler).render .ansi nodes = .ok r ∧
      r.output = before ++ "c" ++ after ∧
      Terminal.write {} before = ⟨pen, .plain⟩ ∧ pen.fg = .red := by
  intro theme inner item outer nodes
  have hr : ∃ r, ({ theme } : Compiler).render .ansi nodes = .ok r :=
    ⟨_, Compiler.render_eq_ok_iff.2 ⟨by decide, rfl⟩⟩
  have ht : theme.Plain := by
    intro kind
    cases kind <;> rintro text ⟨⟩
    decide
  have hn : ∀ o ∈ occurrences nodes, o.node.Plain := by
    simp [occurrences, nodes, outer, item, inner, Node.Plain, Listing.Plain, esc]
  have hs : ∀ o ∈ occurrences nodes, o.node.Spares theme .fg := by
    simp [occurrences, nodes, outer, item, inner, Node.Spares]
    rfl
  obtain ⟨r, hr⟩ := hr
  obtain ⟨ho, -, hc⟩ := text_shown_in_inherited_color hr ht hn hs
  -- before it come the outer element and its text, the item, and the whole inner element
  let ms := marks ⟨.ansi, theme⟩ [] nodes
  have hsplit : ms = ms.take 6 ++ .opening ⟨.ansi, theme⟩ [item, outer] (.text "c") :: ms.drop 7 :=
    rfl
  obtain ⟨htext, hc⟩ := hc _ _ _ "c" hsplit rfl
  have hone : Emoji.substitute "c" = "c" := by
    simp [Emoji.substitute, Emoji.substituteChars]
  rw [hone] at htext
  obtain ⟨-, pen, hw, hpen⟩ := hc [] 'c' [] (by rw [htext]; rfl)
  refine ⟨ht, hn, hs, r, _, output (ms.drop 7), pen, hr, ?_, hw, hpen⟩
  have hout := congrArg output hsplit
  rw [output_append, output_cons, htext, ← String.append_assoc] at hout
  rw [ho, hout, String.ofList_nil, String.append_empty]

end TermMarkup
