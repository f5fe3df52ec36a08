/-
Themes of drafts. A theme that is given to a draft goes to everything below that has none, and stops
where it meets another theme. It still reaches every draft without one, since below a draft with a
theme every draft has one: builders put drafts without a theme around others, styles and colors leave
themes alone, and a theme is handed down when it is given.
-/
import TermMarkup.Proofs.Draft

namespace TermMarkup.Draft

/-! ## Drafts in a draft -/

/-- The draft that a path leads to, which says at each step which child to go to. -/
def at? (draft : Draft) : List Nat → Option Draft
  | [] => some draft
  | i :: path => draft.children[i]?.bind fun child => child.at? path

@[simp] theorem at?_nil (draft : Draft) : draft.at? [] = some draft := rfl

theorem at?_cons (draft : Draft) (i : Nat) (path : List Nat) :
    draft.at? (i :: path) = draft.children[i]?.bind fun child => child.at? path := rfl

theorem at?_append (draft : Draft) (path more : List Nat) :
    draft.at? (path ++ more) = (draft.at? path).bind fun d => d.at? more := by
  induction path generalizing draft with
  | nil => rfl
  | cons i path ih =>
    rw [List.cons_append, at?_cons, at?_cons]
    cases draft.children[i]? with
    | none => rfl
    | some child => exact ih child

/-- `P` holds of the draft and of every draft below it. -/
def Everywhere (P : Draft → Prop) (draft : Draft) : Prop :=
  ∀ path d, draft.at? path = some d → P d

theorem everywhere_iff {P : Draft → Prop} {draft : Draft} :
    Everywhere P draft ↔ P draft ∧ ∀ child ∈ draft.children, Everywhere P child := by
  constructor
  · intro h
    refine ⟨h [] draft rfl, fun child hc path d hd => ?_⟩
    obtain ⟨i, hi⟩ := List.mem_iff_getElem?.1 hc
    refine h (i :: path) d ?_
    rw [at?_cons, hi]
    exact hd
  · rintro ⟨hroot, hbelow⟩ path d hd
    cases path with
    | nil =>
      cases hd
      exact hroot
    | cons i path =>
      rw [at?_cons] at hd
      obtain ⟨child, hi, hd⟩ := Option.bind_eq_some_iff.1 hd
      exact hbelow child (List.mem_of_getElem? hi) path d hd

/-! ## Building drafts -/

/-- Drafts that are put together with builders, styles, colors and themes. -/
inductive Built : Draft → Prop
  | ofText (value : String) : Built (ofText value)
  | newline : Built newline
  | group (g : Group) {children : List Draft} (h : ∀ child ∈ children, Built child) :
    Built (.group g {} children)
  | bundleOf {children : List Draft} (h : ∀ child ∈ children, Built child) :
    Built (bundleOf children)
  | underlined (style : Underline) {children : List Draft} (h : ∀ child ∈ children, Built child) :
    Built (underlined style children)
  | listOf (style : Style) {items : List Draft} (h : ∀ item ∈ items, Built item) :
    Built (listOf style items)
  | withStyle (style : Style) {draft : Draft} (h : Built draft) : Built (draft.withStyle style)
  | withFg (color : Color) {draft : Draft} (h : Built draft) : Built (draft.withFg color)
  | withBg (color : Color) {draft : Draft} (h : Built draft) : Built (draft.withBg color)
  | withTheme (theme : Theme) {draft : Draft} (h : Built draft) : Built (draft.withTheme theme)

@[simp] theorem look_mapLook (f : Look → Look) (draft : Draft) :
    (draft.mapLook f).look = f draft.look := by
  cases draft <;> rfl

@[simp] theorem children_mapLook (f : Look → Look) (draft : Draft) :
    (draft.mapLook f).children = draft.children := by
  cases draft <;> rfl

/-- What a draft becomes when the draft around it is given a theme. -/
def inheritTheme (theme : Theme) (draft : Draft) : Draft :=
  if draft.look.theme.isSome then draft else draft.withTheme theme

theorem inheritThemes_eq (theme : Theme) (drafts : List Draft) :
    inheritThemes theme drafts = drafts.map (inheritTheme theme) := by
  induction drafts with
  | nil => rfl
  | cons draft drafts ih =>
    rw [inheritThemes, ih]
    rfl

@[simp] theorem look_withTheme (theme : Theme) (draft : Draft) :
    (draft.withTheme theme).look = { draft.look with theme := some theme } := by
  cases draft <;> rfl

@[simp] theorem children_withTheme (theme : Theme) (draft : Draft) :
    (draft.withTheme theme).children = draft.children.map (inheritTheme theme) := by
  cases draft with
  | text value look => rfl
  | lineBreak look => rfl
  | group g look children => exact inheritThemes_eq theme children

/-! ## What every draft that is built keeps -/

/-- The draft and every draft below it has a theme. -/
def Themed (draft : Draft) : Prop :=
  Everywhere (fun d => d.look.theme.isSome = true) draft

/-- Below a draft with a theme, every draft has one. -/
def HandsDown (draft : Draft) : Prop :=
  Everywhere (fun d => d.look.theme.isSome = true → Themed d) draft

theorem themed_iff {draft : Draft} :
    Themed draft ↔ draft.look.theme.isSome = true ∧ ∀ child ∈ draft.children, Themed child :=
  everywhere_iff

theorem handsDown_iff {draft : Draft} :
    HandsDown draft ↔ (draft.look.theme.isSome = true → Themed draft) ∧
      ∀ child ∈ draft.children, HandsDown child :=
  everywhere_iff

theorem Themed.handsDown {draft : Draft} (h : Themed draft) : HandsDown draft := by
  intro path d hd _ more d' hd'
  refine h (path ++ more) d' ?_
  rw [at?_append, hd]
  exact hd'

theorem handsDown_of_theme_eq_none {draft : Draft} (hnone : draft.look.theme = none)
    (h : ∀ child ∈ draft.children, HandsDown child) : HandsDown draft := by
  refine handsDown_iff.2 ⟨fun hs => ?_, h⟩
  rw [hnone] at hs
  cases hs

/-- A change of look that leaves the theme alone keeps themes handed down. -/
theorem HandsDown.mapLook {f : Look → Look} (hf : ∀ look, (f look).theme = look.theme)
    {draft : Draft} (h : HandsDown draft) : HandsDown (draft.mapLook f) := by
  obtain ⟨hroot, hbelow⟩ := handsDown_iff.1 h
  rw [handsDown_iff, themed_iff, look_mapLook, children_mapLook, hf]
  exact ⟨fun hs => themed_iff.1 (hroot hs), hbelow⟩

theorem themed_withTheme_of_children {theme : Theme} {draft : Draft} (h : HandsDown draft)
    (hc : ∀ child ∈ draft.children, HandsDown child → Themed (child.withTheme theme)) :
    Themed (draft.withTheme theme) := by
  rw [themed_iff, look_withTheme, children_withTheme, List.forall_mem_map]
  refine ⟨rfl, fun child hm => ?_⟩
  have hchild := (handsDown_iff.1 h).2 child hm
  unfold inheritTheme
  split
  · -- the theme stops here, but everything below has a theme already
    rename_i hs
    exact (handsDown_iff.1 hchild).1 hs
  · exact hc child hm hchild

/-- A theme that is given reaches every draft that has none. -/
theorem themed_withTheme (theme : Theme) (drafts : List Draft) :
    ∀ draft ∈ drafts, HandsDown draft → Themed (draft.withTheme theme) := by
  induction drafts using draftInduction with
  | nil => exact List.forall_mem_nil _
  | text value look drafts ih =>
    refine List.forall_mem_cons.2 ⟨fun h => ?_, ih⟩
    exact themed_withTheme_of_children h (List.forall_mem_nil _)
  | lineBreak look drafts ih =>
    refine List.forall_mem_cons.2 ⟨fun h => ?_, ih⟩
    exact themed_withTheme_of_children h (List.forall_mem_nil _)
  | group g look children drafts ihc ih =>
    refine List.forall_mem_cons.2 ⟨fun h => ?_, ih⟩
    exact themed_withTheme_of_children h ihc

theorem HandsDown.withTheme (theme : Theme) {draft : Draft} (h : HandsDown draft) :
    HandsDown (draft.withTheme theme) :=
  (themed_withTheme theme [draft] draft List.mem_cons_self h).handsDown

theorem handsDown_group (g : Group) {children : List Draft}
    (h : ∀ child ∈ children, HandsDown child) : HandsDown (.group g {} children) :=
  handsDown_of_theme_eq_none rfl h

theorem HandsDown.withStyle (style : Style) {draft : Draft} (h : HandsDown draft) :
    HandsDown (draft.withStyle style) := by
  refine HandsDown.mapLook ?_ h
  exact fun _ => rfl

/-- Every draft that is built hands its themes down. -/
theorem Built.handsDown {draft : Draft} (h : Built draft) : HandsDown draft := by
  induction h with
  | ofText value => exact handsDown_of_theme_eq_none rfl (List.forall_mem_nil _)
  | newline => exact handsDown_of_theme_eq_none rfl (List.forall_mem_nil _)
  | group g _ ih => exact handsDown_group g ih
  | bundleOf _ ih => exact handsDown_group .bundle ih
  | underlined style _ ih => exact (handsDown_group .underline ih).withStyle _
  | listOf style _ ih =>
    refine handsDown_group .bundle (List.forall_mem_map.2 fun item hm => ?_)
    have hitem := (handsDown_group (.styled .listItem)
      (List.forall_mem_singleton.2 (ih item hm))).withStyle style
    exact (handsDown_group (.styled .div) (List.forall_mem_singleton.2 hitem)).withStyle _
  | withStyle style _ ih => exact ih.withStyle style
  | withFg color _ ih =>
    refine HandsDown.mapLook ?_ ih
    exact fun _ => rfl
  | withBg color _ ih =>
    refine HandsDown.mapLook ?_ ih
    exact fun _ => rfl
  | withTheme theme _ ih => exact ih.withTheme theme

/-! ## Giving a theme -/

/-- The drafts differ in nothing but their themes and what is below them. -/
structure Kept (d d' : Draft) : Prop where
  kind : d'.kind? = d.kind?
  value : d'.value? = d.value?
  overrides : d'.look.overrides = d.look.overrides
  children : d'.children.length = d.children.length

/-- The second draft is the first with a theme for itself and for everything below that had none;
all else is as it was, wherever it stands. -/
structure Rethemed (theme : Theme) (draft draft' : Draft) : Prop where
  root : draft'.look.theme = some theme
  below : ∀ path d d', path ≠ [] → draft.at? path = some d → draft'.at? path = some d' →
    d'.look.theme = d.look.theme.or (some theme)
  kept : ∀ path, Option.Rel Kept (draft.at? path) (draft'.at? path)

theorem Kept.refl (d : Draft) : Kept d d :=
  ⟨rfl, rfl, rfl, rfl⟩

theorem kept_withTheme (theme : Theme) (draft : Draft) : Kept draft (draft.withTheme theme) := by
  refine ⟨?_, ?_, by rw [look_withTheme], by rw [children_withTheme, List.length_map]⟩
  · cases draft <;> rfl
  · cases draft <;> rfl

theorem at?_withTheme_cons (theme : Theme) (draft : Draft) (i : Nat) (path : List Nat) :
    (draft.withTheme theme).at? (i :: path) =
      draft.children[i]?.bind fun child => (inheritTheme theme child).at? path := by
  rw [at?_cons, children_withTheme, List.getElem?_map, Option.bind_map]
  rfl

theorem rel_kept_withTheme (theme : Theme) (draft : Draft) (path : List Nat) :
    Option.Rel Kept (draft.at? path) ((draft.withTheme theme).at? path) := by
  induction path generalizing draft with
  | nil => exact .some (kept_withTheme theme draft)
  | cons i path ih =>
    rw [at?_withTheme_cons, at?_cons]
    cases draft.children[i]? with
    | none => exact .none
    | some child =>
      simp only [Option.bind_some]
      unfold inheritTheme
      split
      · cases child.at? path with
        | none => exact .none
        | some d => exact .some (.refl d)
      · exact ih child

/-- A draft that is handed a theme keeps the themes that are in it already. -/
theorem theme_inheritTheme (theme : Theme) {draft : Draft} (h : HandsDown draft) {path : List Nat}
    {d d' : Draft} (hd : draft.at? path = some d)
    (hd' : (inheritTheme theme draft).at? path = some d') :
    d'.look.theme = d.look.theme.or (some theme) := by
  induction path generalizing draft with
  | nil =>
    cases hd
    cases hd'
    unfold inheritTheme
    cases hs : d.look.theme with
    | none => simp
    | some own => simp [hs]
  | cons i path ih =>
    obtain ⟨hroot, hbelow⟩ := handsDown_iff.1 h
    unfold inheritTheme at hd'
    split at hd'
    · rename_i hs
      have hsome := hroot hs _ _ hd
      rw [hd, Option.some.injEq] at hd'
      obtain ⟨own, ho⟩ := Option.isSome_iff_exists.1 hsome
      rw [← hd', ho]
      rfl
    · rw [at?_cons] at hd
      rw [at?_withTheme_cons] at hd'
      obtain ⟨child, hi, hd⟩ := Option.bind_eq_some_iff.1 hd
      rw [hi, Option.bind_some] at hd'
      exact ih (hbelow child (List.mem_of_getElem? hi)) hd hd'

/-- In a draft that is built, below a draft with a theme every draft has one. Giving such a draft a
theme sets it at the root, leaves the themes of other drafts, sets it where there was none, and
changes nothing else: kinds, texts, settings and children stay the same everywhere. -/
theorem themes_handed_down {draft : Draft} (h : Built draft) :
    (∀ path d, draft.at? path = some d → d.look.theme.isSome = true →
      ∀ more d', d.at? more = some d' → d'.look.theme.isSome = true) ∧
    ∀ theme, Rethemed theme draft (draft.withTheme theme) := by
  have hdown := h.handsDown
  refine ⟨hdown, fun theme => ⟨by rw [look_withTheme], ?_, rel_kept_withTheme theme draft⟩⟩
  intro path d d' hne hd hd'
  cases path with
  | nil => exact absurd rfl hne
  | cons i path =>
    rw [at?_cons] at hd
    rw [at?_withTheme_cons] at hd'
    obtain ⟨child, hi, hd⟩ := Option.bind_eq_some_iff.1 hd
    rw [hi, Option.bind_some] at hd'
    exact theme_inheritTheme theme ((handsDown_iff.1 hdown).2 child (List.mem_of_getElem? hi)) hd hd'

/-- A heading with a theme of its own in a group of another: the theme of the group goes to the
text beside the heading, and the text in the heading keeps that of the heading. -/
theorem themes_handed_down_heading :
    let red : Theme := { h1 := { font := { fg := some .red } } }
    let heading := (group (.styled .h1) {} [ofText "a"]).withTheme red
    let draft := (group .bold {} [heading, ofText "b"]).withFg .blue
    Built draft ∧ Rethemed .builtin draft (draft.withTheme .builtin) ∧
    ((draft.withTheme .builtin).at? [0, 0]).map (·.look.theme) = some (some red) ∧
    ((draft.withTheme .builtin).at? [1]).map (·.look.theme) = some (some .builtin) := by
  intro red heading draft
  have hheading : Built heading :=
    .withTheme red (.group _ (List.forall_mem_singleton.2 (.ofText "a")))
  have h : Built draft := .withFg .blue (.group _ (List.forall_mem_cons.2
    ⟨hheading, List.forall_mem_singleton.2 (.ofText "b")⟩))
  exact ⟨h, (themes_handed_down h).2 .builtin, rfl, rfl⟩

end TermMarkup.Draft
