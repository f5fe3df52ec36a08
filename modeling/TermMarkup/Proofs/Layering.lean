/-
Layering of styles. Layering is associative, and a style that is layered over itself adds nothing;
so a style a node is shown in can be written into the node, and the node is still shown in it. Of a
chain of styles each field comes from the last one that sets it, where a margin sets every direction
that its style leaves unset, and however the chain is put together it gives the same style.
-/
import Mathlib.Data.List.Induction
import TermMarkup.Render.Marks

namespace TermMarkup

namespace Font

theorem merge_assoc (a b c : Font) : (a.merge b).merge c = a.merge (b.merge c) := by
  simp [merge, Option.or_assoc]

theorem merge_merge_self (a b : Font) : a.merge (a.merge b) = a.merge b := by
  simp [merge, Option.or_assoc]

end Font

namespace Spacing

/-- Margins are layered in each direction on its own. -/
theorem directions_merge (a b : Spacing) :
    (a.merge b).directions =
      { top := b.directions.top.or a.directions.top
        right := b.directions.right.or a.directions.right
        bottom := b.directions.bottom.or a.directions.bottom
        left := b.directions.left.or a.directions.left } := by
  simp [merge, directions]

theorem merge_assoc (a b c : Spacing) : (a.merge b).merge c = a.merge (b.merge c) := by
  simp [merge, directions, Option.or_assoc]

theorem merge_merge_self (a b : Spacing) : a.merge (a.merge b) = a.merge b := by
  rw [merge, directions_merge, merge]
  simp [Option.or_assoc]

end Spacing

namespace Listing

theorem merge_assoc (a b c : Listing) : (a.merge b).merge c = a.merge (b.merge c) := by
  simp [merge, Option.or_assoc]

theorem merge_merge_self (a b : Listing) : a.merge (a.merge b) = a.merge b := by
  simp [merge, Option.or_assoc]

end Listing

namespace Style

theorem merge_assoc (a b c : Style) : (a.merge b).merge c = a.merge (b.merge c) := by
  simp [merge, Font.merge_assoc, Spacing.merge_assoc, Listing.merge_assoc]

theorem merge_merge_self (a b : Style) : a.merge (a.merge b) = a.merge b := by
  simp [merge, Font.merge_merge_self, Spacing.merge_merge_self, Listing.merge_merge_self]

end Style

namespace Render

/-- The style of a node is layered over that of the theme, and this over the built-in one. -/
theorem effective_eq (theme : Theme) (kind : StyledKind) (own : Style) :
    effective theme kind own =
      (Theme.builtin.styled kind).merge ((theme.styled kind).merge own) :=
  Style.merge_assoc _ _ _

/-- A node with the style it is shown in under a theme is shown in it under the built-in one. -/
theorem effective_builtin_effective (theme : Theme) (kind : StyledKind) (own : Style) :
    effective .builtin kind (effective theme kind own) = effective theme kind own := by
  rw [effective_eq .builtin, effective_eq theme, Style.merge_merge_self, Style.merge_merge_self]

end Render

/-! ## Chains of styles -/

namespace Style

instance : Std.Associative merge := ⟨merge_assoc⟩

/-- The styles layered in their order over the empty style. -/
def layered (styles : List Style) : Style :=
  styles.foldl merge {}

theorem layered_concat (styles : List Style) (s : Style) :
    layered (styles ++ [s]) = (layered styles).merge s :=
  List.foldl_append

section

variable {α : Type} {field : Style → Option α}

/-- The value is that of the last style that sets the field, and none where no style sets it. -/
def LastSet (field : Style → Option α) (styles : List Style) : Option α → Prop
  | some value => ∃ before s after, styles = before ++ s :: after ∧ field s = some value ∧
      ∀ t ∈ after, field t = none
  | none => ∀ s ∈ styles, field s = none

theorem LastSet.concat {styles : List Style} {value : Option α} (h : LastSet field styles value)
    (s : Style) : LastSet field (styles ++ [s]) ((field s).or value) := by
  cases hs : field s with
  | some set => exact ⟨styles, s, [], rfl, hs, fun t ht => (by cases ht)⟩
  | none =>
    cases value with
    | none => exact List.forall_mem_append.2 ⟨h, List.forall_mem_singleton.2 hs⟩
    | some set =>
      obtain ⟨before, last, after, rfl, hlast, hafter⟩ := h
      refine ⟨before, last, after ++ [s], by simp, hlast, ?_⟩
      exact List.forall_mem_append.2 ⟨hafter, List.forall_mem_singleton.2 hs⟩

/-- A field that is layered on its own comes from the last style that sets it. -/
theorem lastSet_layered (hempty : field {} = none)
    (hmerge : ∀ base upper : Style, field (base.merge upper) = (field upper).or (field base))
    (styles : List Style) : LastSet field styles (field (layered styles)) := by
  induction styles using List.reverseRecOn with
  | nil =>
    show LastSet field [] (field {})
    rw [hempty]
    exact List.forall_mem_nil _
  | append_singleton styles s ih =>
    rw [layered_concat, hmerge]
    exact ih.concat s

end

theorem margin_layered (styles : List Style) : (layered styles).spacing.margin = none := by
  cases styles using List.reverseRecOn with
  | nil => rfl
  | append_singleton styles s =>
    rw [layered_concat]
    rfl

/-- The margins of a chain are set by direction. -/
theorem directions_layered (styles : List Style) :
    (layered styles).spacing.directions =
      ⟨(layered styles).spacing.top, (layered styles).spacing.right,
        (layered styles).spacing.bottom, (layered styles).spacing.left⟩ := by
  simp [Spacing.directions, margin_layered]

/-- A side of the margins comes from the last style that sets it, by itself or by the margin. -/
theorem lastSet_side (side : Margins (Option Count) → Option Count)
    (hempty : side ({} : Spacing).directions = none)
    (hmerge : ∀ base upper : Spacing,
      side (base.merge upper).directions = (side upper.directions).or (side base.directions))
    (styles : List Style) :
    LastSet (fun s => side s.spacing.directions) styles
      (side ⟨(layered styles).spacing.top, (layered styles).spacing.right,
        (layered styles).spacing.bottom, (layered styles).spacing.left⟩) := by
  rw [← directions_layered]
  exact lastSet_layered hempty (fun base upper => hmerge base.spacing upper.spacing) styles

/-- Each field of the result comes from the last of the styles that sets it. Inside a style a
direction comes before the margin, and the result has directions only. -/
structure LastWins (styles : List Style) (result : Style) : Prop where
  fg : LastSet (·.font.fg) styles result.font.fg
  bg : LastSet (·.font.bg) styles result.font.bg
  bold : LastSet (·.font.bold) styles result.font.bold
  underline : LastSet (·.font.underline) styles result.font.underline
  italics : LastSet (·.font.italics) styles result.font.italics
  bullet : LastSet (·.list.bullet) styles result.list.bullet
  indent : LastSet (·.list.indent) styles result.list.indent
  top : LastSet (fun s => s.spacing.top.or s.spacing.margin) styles result.spacing.top
  right : LastSet (fun s => s.spacing.right.or s.spacing.margin) styles result.spacing.right
  bottom : LastSet (fun s => s.spacing.bottom.or s.spacing.margin) styles result.spacing.bottom
  left : LastSet (fun s => s.spacing.left.or s.spacing.margin) styles result.spacing.left
  margin : result.spacing.margin = none

theorem lastWins_layered (styles : List Style) : LastWins styles (layered styles) where
  fg := lastSet_layered rfl (fun _ _ => rfl) styles
  bg := lastSet_layered rfl (fun _ _ => rfl) styles
  bold := lastSet_layered rfl (fun _ _ => rfl) styles
  underline := lastSet_layered rfl (fun _ _ => rfl) styles
  italics := lastSet_layered rfl (fun _ _ => rfl) styles
  bullet := lastSet_layered rfl (fun _ _ => rfl) styles
  indent := lastSet_layered rfl (fun _ _ => rfl) styles
  top := lastSet_side (·.top) rfl (fun _ _ => by rw [Spacing.directions_merge]) styles
  right := lastSet_side (·.right) rfl (fun _ _ => by rw [Spacing.directions_merge]) styles
  bottom := lastSet_side (·.bottom) rfl (fun _ _ => by rw [Spacing.directions_merge]) styles
  left := lastSet_side (·.left) rfl (fun _ _ => by rw [Spacing.directions_merge]) styles
  margin := margin_layered styles

/-- A way to put a chain of styles together. -/
inductive Grouping where
  | style (s : Style)
  | merge (base upper : Grouping)

namespace Grouping

/-- The styles that are put together, in their order. -/
def styles : Grouping → List Style
  | style s => [s]
  | merge base upper => base.styles ++ upper.styles

def result : Grouping → Style
  | style s => s
  | merge base upper => base.result.merge upper.result

theorem exists_result_eq_foldl (g : Grouping) :
    ∃ s others, g.styles = s :: others ∧ g.result = others.foldl Style.merge s := by
  induction g with
  | style s => exact ⟨s, [], rfl, rfl⟩
  | merge base upper ihb ihu =>
    obtain ⟨s, others, hb, hrb⟩ := ihb
    obtain ⟨t, more, hu, hru⟩ := ihu
    refine ⟨s, others ++ t :: more, by rw [styles, hb, hu, List.cons_append], ?_⟩
    rw [result, hrb, hru, List.foldl_append, List.foldl_cons, List.foldl_assoc]

end Grouping

/-- Styles layered in order over the empty style: each field is that of the last style that sets it,
each margin that of the last style that sets its direction or the margin of all, and the margin of
all is unset; and the styles may be grouped in any way, as layering is associative. -/
theorem layered_last_wins (styles : List Style) :
    LastWins styles (layered styles) ∧
    (∀ g : Grouping, g.styles = {} :: styles → g.result = layered styles) ∧
    ∀ a b c : Style, (a.merge b).merge c = a.merge (b.merge c) := by
  refine ⟨lastWins_layered styles, fun g hg => ?_, merge_assoc⟩
  obtain ⟨s, others, hs, hr⟩ := g.exists_result_eq_foldl
  obtain ⟨rfl, rfl⟩ := List.cons.inj (hs.symm.trans hg)
  exact hr

/-- The margin of a style comes before a direction of the style below, also where the two are put
together first. -/
theorem layered_last_wins_uniform :
    let base : Style := { spacing := { top := some 1 } }
    let upper : Style := { spacing := .uniform 3 }
    LastWins [base, upper] (layered [base, upper]) ∧
    (layered [base, upper]).spacing.top = some 3 ∧
    (Grouping.merge (.style {}) (.merge (.style base) (.style upper))).result =
      layered [base, upper] := by
  intro base upper
  obtain ⟨hlast, hgroup, -⟩ := layered_last_wins [base, upper]
  exact ⟨hlast, rfl, hgroup _ rfl⟩

end Style

end TermMarkup
