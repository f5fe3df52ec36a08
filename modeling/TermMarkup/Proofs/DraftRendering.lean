/-
How drafts render. To markup, the nodes of a draft render as the markup that the draft writes. To a
terminal, a draft that is given a theme writes the styles of the theme into its nodes and renders
them under the built-in theme; that shows what its nodes with their own settings show under the
theme, since a style that is written out has the built-in one in it already.
-/
import TermMarkup.Proofs.Draft
import TermMarkup.Proofs.Layering
import TermMarkup.Proofs.Painting

namespace TermMarkup

open Node Render

/-! ## Documents that look alike -/

/-- Elements that look alike under two themes. -/
inductive Element.Alike (theme theme' : Theme) : Element → Element → Prop
  | wrapper {e : Element} (h : e.isWrapper = true) : Alike theme theme' e e
  | styled (kind : StyledKind) {own own' : Style}
    (hf : (effective theme kind own).font = (effective theme' kind own').font)
    (hl : (Element.styled kind own).layout theme = (Element.styled kind own').layout theme') :
    Alike theme theme' (.styled kind own) (.styled kind own')

/-- Documents with the same texts in elements that look alike under two themes. -/
inductive AllAlike (theme theme' : Theme) : List Node → List Node → Prop
  | nil : AllAlike theme theme' [] []
  | text (value : String) {xs ys : List Node} (h : AllAlike theme theme' xs ys) :
    AllAlike theme theme' (.text value :: xs) (.text value :: ys)
  | lineBreak {xs ys : List Node} (h : AllAlike theme theme' xs ys) :
    AllAlike theme theme' (.lineBreak :: xs) (.lineBreak :: ys)
  | element {e e' : Element} (he : e.Alike theme theme' e') {content content' : Content Node}
    (hc : AllAlike theme theme' content.children content'.children) {xs ys : List Node}
    (h : AllAlike theme theme' xs ys) :
    AllAlike theme theme' (.element e content :: xs) (.element e' content' :: ys)

theorem render_map_eq_ok_iff {theme : Theme} {format : Format} {nodes : List Node}
    {shown : String} :
    (({ theme } : Compiler).render format nodes).map (·.output) = .ok shown ↔
      (∀ o ∈ occurrences nodes, o.depth ≤ maxNesting) ∧
        output (marks ⟨format, theme⟩ [] nodes) = shown := by
  constructor
  · intro h
    obtain ⟨r, hr, rfl⟩ := map_eq_ok h
    obtain ⟨hd, rfl⟩ := Compiler.render_eq_ok_iff.1 hr
    exact ⟨hd, rfl⟩
  · rintro ⟨hd, rfl⟩
    rw [Compiler.render_eq_ok_iff.2 ⟨hd, rfl⟩]
    rfl

section

variable {theme theme' : Theme}

namespace Element.Alike

variable {e e' : Element}

theorem refl (theme : Theme) (e : Element) : e.Alike theme theme e := by
  cases e with
  | styled kind own => exact .styled kind rfl rfl
  | bold | italics | underline style | color fg bg => exact .wrapper rfl

theorem layout_eq (h : e.Alike theme theme' e') : e.layout theme = e'.layout theme' := by
  cases h with
  | wrapper h => rw [layout_of_isWrapper h, layout_of_isWrapper h]
  | styled kind hf hl => exact hl

theorem font_eq (h : e.Alike theme theme' e') : e.font theme = e'.font theme' := by
  cases h with
  | wrapper h =>
    cases e with
    | styled kind own => cases h
    | bold | italics | underline style | color fg bg => rfl
  | styled kind hf hl => exact hf

theorem color?_eq (h : e.Alike theme theme' e') (content content' : Content Node)
    (channel : Channel) :
    (Node.element e content).color? channel = (Node.element e' content').color? channel := by
  cases h with
  | wrapper h => cases e <;> rfl
  | styled kind hf hl => rfl

/-- Elements that look alike are switched off by the same codes, in the same colors. -/
theorem codesOff_eq (h : e.Alike theme theme' e') {above above' : List Node}
    (ha : ∀ channel, inherited channel above = inherited channel above') :
    e.codesOff theme above = e'.codesOff theme' above' := by
  cases h with
  | wrapper h =>
    rw [codesOff_congr theme e ha]
    cases e with
    | styled kind own => cases h
    | bold | italics | underline style | color fg bg => rfl
  | styled kind hf _ => exact congrArg Sgr.fontOff hf

end Element.Alike

namespace AllAlike

variable {xs ys xs' ys' : List Node}

theorem append (h : AllAlike theme theme' xs ys) (h' : AllAlike theme theme' xs' ys') :
    AllAlike theme theme' (xs ++ xs') (ys ++ ys') := by
  induction h with
  | nil => exact h'
  | text value _ ih => exact .text value ih
  | lineBreak _ ih => exact .lineBreak ih
  | element he hc _ _ ih => exact .element he hc ih

theorem joinText (h : AllAlike theme theme' xs ys) :
    AllAlike theme theme' (joinText xs) (joinText ys) := by
  induction h with
  | nil => exact .nil
  | lineBreak _ ih => exact .lineBreak ih
  | element he hc _ _ ih => exact .element he hc ih
  | @text value xs ys _ ih =>
    by_cases hv : value.isEmpty = true
    · rw [Node.joinText, Node.joinText, if_pos hv, if_pos hv]
      exact ih
    · rw [Node.joinText, Node.joinText, if_neg hv, if_neg hv]
      -- what follows starts with the same text on both sides, or with no text on either
      generalize Node.joinText xs = joined at ih
      generalize Node.joinText ys = joined' at ih
      cases ih with
      | nil => exact .text value .nil
      | text next h => exact .text (value ++ next) h
      | lineBreak h => exact .text value (.lineBreak h)
      | element he hc h => exact .text value (.element he hc h)

theorem throughout_depth (h : AllAlike theme theme' xs ys) (n depth : Nat) :
    Throughout (fun d _ => d ≤ n) depth xs ↔ Throughout (fun d _ => d ≤ n) depth ys := by
  induction h generalizing depth with
  | nil => exact Iff.rfl
  | text value _ ih => rw [throughout_text, throughout_text, ih]
  | lineBreak _ ih => rw [throughout_lineBreak, throughout_lineBreak, ih]
  | element _ _ _ ihc ih => rw [throughout_element, throughout_element, ihc, ih]

theorem output_eq (h : AllAlike theme theme' xs ys) {above above' : List Node}
    (ha : ∀ channel, inherited channel above = inherited channel above') :
    output (marks ⟨.ansi, theme⟩ above xs) = output (marks ⟨.ansi, theme'⟩ above' ys) := by
  induction h generalizing above above' with
  | nil => rfl
  | text value _ ih =>
    rw [marks_text, marks_text, output_cons, output_cons, ih ha]
    rfl
  | lineBreak _ ih =>
    rw [marks_lineBreak, marks_lineBreak, output_cons, output_cons, ih ha]
    rfl
  | @element e e' he content content' _ xs ys _ ihc ih =>
    have hinside : ∀ channel, inherited channel (.element e content :: above) =
        inherited channel (.element e' content' :: above') := fun channel => by
      rw [inherited_cons, inherited_cons, he.color?_eq content content', ha]
    simp only [marks_element, output_cons, output_append, text_opening, text_closing, he.layout_eq,
      he.font_eq, he.codesOff_eq ha, ihc hinside, ih ha]

/-- Documents that look alike both fail to render to a terminal, or give the same output. -/
theorem render_iff (h : AllAlike theme theme' xs ys) (shown : String) :
    (({ theme } : Compiler).render .ansi xs).map (·.output) = .ok shown ↔
      (({ theme := theme' } : Compiler).render .ansi ys).map (·.output) = .ok shown := by
  have hdepth := h.throughout_depth maxNesting 0
  rw [throughout_zero, throughout_zero] at hdepth
  rw [render_map_eq_ok_iff, render_map_eq_ok_iff, hdepth, h.output_eq fun _ => rfl]

end AllAlike

end

namespace Draft

/-! ## Nodes with other elements -/

section

variable (f : Look → Group → Option Element)

mutual

/-- The nodes a draft stands for, if its groups write the elements that are given. -/
def piecesBy : Draft → List Node
  | .text value _ => [.text value]
  | .lineBreak _ => [.lineBreak]
  | .group g look children =>
    match f look g with
    | none => allPiecesBy children
    | some e => [.element e (.ofChildren (joinText (allPiecesBy children)))]

def allPiecesBy : List Draft → List Node
  | [] => []
  | draft :: drafts => piecesBy draft ++ allPiecesBy drafts

end

end

section

variable {f : Look → Group → Option Element} {g : Group} {look : Look}
  {children drafts : List Draft}

theorem allPiecesBy_group_none (h : f look g = none) :
    allPiecesBy f (.group g look children :: drafts) =
      allPiecesBy f children ++ allPiecesBy f drafts := by
  rw [allPiecesBy, piecesBy, h]

theorem allPiecesBy_group_some {e : Element} (h : f look g = some e) :
    allPiecesBy f (.group g look children :: drafts) =
      .element e (.ofChildren (joinText (allPiecesBy f children))) :: allPiecesBy f drafts := by
  rw [allPiecesBy, piecesBy, h]
  rfl

end

theorem allPiecesBy_element? (drafts : List Draft) :
    allPiecesBy element? drafts = allPieces drafts := by
  induction drafts using draftInduction with
  | nil => rfl
  | text value look drafts ih => rw [allPiecesBy, allPieces, ih, piecesBy, pieces]
  | lineBreak look drafts ih => rw [allPiecesBy, allPieces, ih, piecesBy, pieces]
  | group g look children drafts ihc ih =>
    cases he : element? look g with
    | none => rw [allPiecesBy_group_none he, allPieces_group_none _ _ _ _ he, ihc, ih]
    | some e => rw [allPiecesBy_group_some he, allPieces_group_some _ _ _ _ he, ihc, ih]

/-- Groups whose elements look alike make documents that do. -/
theorem allAlike_allPiecesBy {theme theme' : Theme} {f f' : Look → Group → Option Element}
    (hf : ∀ look g, Option.Rel (Element.Alike theme theme') (f look g) (f' look g))
    (drafts : List Draft) :
    AllAlike theme theme' (allPiecesBy f drafts) (allPiecesBy f' drafts) := by
  induction drafts using draftInduction with
  | nil => exact .nil
  | text value look drafts ih => exact .text value ih
  | lineBreak look drafts ih => exact .lineBreak ih
  | group g look children drafts ihc ih =>
    have hrel := hf look g
    cases he : f look g with
    | none =>
      cases he' : f' look g with
      | none =>
        rw [allPiecesBy_group_none he, allPiecesBy_group_none he']
        exact ihc.append ih
      | some e' =>
        rw [he, he'] at hrel
        cases hrel
    | some e =>
      cases he' : f' look g with
      | none =>
        rw [he, he'] at hrel
        cases hrel
      | some e' =>
        rw [he, he'] at hrel
        cases hrel with
        | some halike =>
          rw [allPiecesBy_group_some he, allPiecesBy_group_some he']
          refine .element halike ?_ ih
          rw [Content.children_ofChildren, Content.children_ofChildren]
          exact ihc.joinText

/-! ## Themes -/

/-- The element a group writes under a theme. -/
def themedElement? (theme : Theme) (look : Look) (g : Group) : Option Element :=
  element? { look with theme := some theme } g

/-- The element a group writes if a styled one keeps to its own settings. -/
def ownElement? (look : Look) : Group → Option Element
  | .styled kind => some (.styled kind look.overrides)
  | g => element? look g

/-- The nodes of a draft in which styled elements have no more than their own settings. -/
def ownNodes (draft : Draft) : List Node :=
  joinText (piecesBy ownElement? draft)

theorem inheritThemes_cons (theme : Theme) {draft : Draft} (h : draft.look.theme = none)
    (drafts : List Draft) :
    inheritThemes theme (draft :: drafts) = draft.withTheme theme :: inheritThemes theme drafts := by
  rw [inheritThemes, h]
  rfl

theorem allPiecesBy_inheritThemes (theme : Theme) {drafts above : List Draft}
    (h : ∀ o ∈ occurrencesBelow above drafts, o.draft.look.theme = none) :
    allPiecesBy element? (inheritThemes theme drafts) =
      allPiecesBy (themedElement? theme) drafts := by
  induction drafts using draftInduction generalizing above with
  | nil => rfl
  | text value look drafts ih =>
    obtain ⟨hd, hrest⟩ := List.forall_mem_cons.1 h
    rw [inheritThemes_cons theme hd]
    exact congrArg (_ :: ·) (ih hrest)
  | lineBreak look drafts ih =>
    obtain ⟨hd, hrest⟩ := List.forall_mem_cons.1 h
    rw [inheritThemes_cons theme hd]
    exact congrArg (_ :: ·) (ih hrest)
  | group g look children drafts ihc ih =>
    obtain ⟨hd, hbelow⟩ := List.forall_mem_cons.1 h
    obtain ⟨hc, hrest⟩ := List.forall_mem_append.1 hbelow
    rw [inheritThemes_cons theme hd, withTheme, allPiecesBy, allPiecesBy, piecesBy, piecesBy,
      ihc hc, ih hrest]
    rfl

/-- A style that is written out under a theme looks as the own settings do under the theme. -/
theorem alike_styledLook (theme : Theme) (kind : StyledKind) (look : Look) :
    Element.Alike .builtin theme
      (.styled kind (styledLook kind { look with theme := some theme }))
      (.styled kind look.overrides) := by
  have hstyle := effective_builtin_effective theme kind look.overrides
  have hlook : styledLook kind { look with theme := some theme } =
      if kind = .listItem then effective theme kind look.overrides
      else { effective theme kind look.overrides with list := {} } := rfl
  rw [hlook]
  by_cases hk : kind = .listItem
  · rw [if_pos hk]
    exact .styled kind (congrArg Style.font hstyle)
      (Element.layout_styled_congr (congrArg Style.spacing hstyle) fun _ => congrArg Style.list hstyle)
  · -- the list section is dropped, but no other kind shows it
    have hfont := congrArg Style.font hstyle
    have hspacing := congrArg Style.spacing hstyle
    rw [if_neg hk]
    exact .styled kind hfont (Element.layout_styled_congr hspacing fun h => absurd h hk)

theorem alike_themedElement? (theme : Theme) (look : Look) (g : Group) :
    Option.Rel (Element.Alike .builtin theme) (themedElement? theme look g) (ownElement? look g) := by
  cases g with
  | bundle => exact .none
  | bold | italics | color => exact .some (.wrapper rfl)
  | styled kind => exact .some (alike_styledLook theme kind look)
  | underline =>
    show Option.Rel _ (element? look .underline) (element? look .underline)
    unfold element?
    rcases look.overrides.font.underline with _ | _ | _ | _
    · exact .some (.wrapper rfl)
    · exact .some (.wrapper rfl)
    · exact .some (.wrapper rfl)
    · exact .none

/-- A draft without themes that is given one renders to a terminal under the built-in theme as its
nodes with their own settings do under that theme: both fail, or both give the same output. -/
theorem compile_withTheme {draft : Draft} (h : ∀ o ∈ draft.occurrences, o.draft.look.theme = none)
    (theme : Theme) (shown : String) :
    (draft.withTheme theme).compile .ansi = .ok shown ↔
      (({ theme } : Compiler).render .ansi draft.ownNodes).map (·.output) = .ok shown := by
  have hroot : draft.look.theme = none := h ⟨[], draft⟩ (by cases draft <;> exact List.mem_cons_self)
  have hbelow : ∀ o ∈ occurrencesBelow [] [draft], o.draft.look.theme = none := by
    rw [occurrencesBelow, occurrencesBelow, List.append_nil]
    exact h
  have hthemed : (draft.withTheme theme).pieces = allPiecesBy (themedElement? theme) [draft] := by
    rw [← allPiecesBy_inheritThemes theme hbelow, inheritThemes_cons theme hroot,
      allPiecesBy_element?]
    exact (allPieces_singleton _).symm
  have hown : piecesBy ownElement? draft = allPiecesBy ownElement? [draft] := by
    rw [allPiecesBy, allPiecesBy, List.append_nil]
  have halike := (allAlike_allPiecesBy (alike_themedElement? theme) [draft]).joinText
  rw [← hthemed, ← hown] at halike
  exact halike.render_iff shown

/-- A heading with a list item in it and a color around a span, under a theme with margins, a bullet
and colors for them. -/
theorem compile_withTheme_list :
    let theme : Theme :=
      { h1 := { font := { fg := some .red, underline := some .off }, spacing := .uniform 2 }
        span := { font := { bg := some .white }, list := { bullet := some "+" } }
        li := { spacing := { left := some 3 }, list := { bullet := some "- " } } }
    let item := group (.styled .listItem) { overrides := { list := { indent := some 4 } } }
      [ofText "a", ofText "b"]
    let heading := group (.styled .h1)
      { overrides := { font := { bold := some false }, spacing := { top := some 0 } } } [item]
    let span := group .color { overrides := { font := { fg := some .blue } } }
      [group (.styled .span) {} [underlined .off [ofText "c"]], newline]
    let draft := bundleOf [heading, span]
    (∀ o ∈ draft.occurrences, o.draft.look.theme = none) ∧
    ∃ shown, (draft.withTheme theme).compile .ansi = .ok shown ∧
      (({ theme } : Compiler).render .ansi draft.ownNodes).map (·.output) = .ok shown := by
  intro theme item heading span draft
  have h : ∀ o ∈ draft.occurrences, o.draft.look.theme = none := by decide
  have hc : ∃ shown, (draft.withTheme theme).compile .ansi = .ok shown :=
    ⟨_, render_map_eq_ok_iff.2 ⟨by decide, rfl⟩⟩
  obtain ⟨shown, hc⟩ := hc
  exact ⟨h, shown, hc, (compile_withTheme h theme shown).1 hc⟩

/-! ## Markup -/

/-- The nodes of a draft render to markup, under any theme, exactly when none has more than 64
ancestors, and then as the markup that the draft writes, without warnings. -/
theorem render_markup_toNodes (draft : Draft) (theme : Theme) (r : Rendering) :
    ({ theme } : Compiler).render .markup draft.toNodes = .ok r ↔
      (∀ o ∈ Node.occurrences draft.toNodes, o.depth ≤ 64) ∧ r = ⟨draft.toMarkup, []⟩ := by
  rw [Compiler.render_eq_ok_iff, Compiler.rendering_markup, toMarkup_eq]
  rfl

end Draft

end TermMarkup
