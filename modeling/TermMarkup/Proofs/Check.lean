/-
What the check of an untyped tree does, part by part: each attribute value is read as its shape
says, the attributes of a node give back an element by its keys, and content is followed as deep as
nesting may go. With its issues left aside, the check of a node is the check of its kind, its keys,
its attributes and its content, in this order.
-/
import TermMarkup.Proofs.Setting
import TermMarkup.Proofs.Tree

namespace TermMarkup

namespace Checked

variable {α β : Type}

theorem ext {x y : Checked α} (hv : x.value = y.value) (hi : x.issues = y.issues) : x = y := by
  cases x
  cases y
  exact Checked.mk.injEq .. |>.mpr ⟨hv, hi⟩

@[simp] theorem value_pure (a : α) : (pure a : Checked α).value = a := rfl

@[simp] theorem issues_pure (a : α) : (pure a : Checked α).issues = [] := rfl

@[simp] theorem value_bind (x : Checked α) (f : α → Checked β) :
    (x >>= f).value = (f x.value).value := rfl

@[simp] theorem issues_bind (x : Checked α) (f : α → Checked β) :
    (x >>= f).issues = x.issues ++ (f x.value).issues := rfl

@[simp] theorem value_report (a : α) (path : Path) (cause : Issue.Cause) (found : Option Raw) :
    (report a path cause found).value = a := rfl

theorem issues_report_ne_nil (a : α) (path : Path) (cause : Issue.Cause) (found : Option Raw) :
    (report a path cause found).issues ≠ [] :=
  List.cons_ne_nil _ _

end Checked

namespace Node

open Checked

/-! ## Attribute values -/

/-- A check that gives the setting an untyped value stands for, and an issue exactly where it stands
for none. -/
structure Reads {α : Type} (f : α → Setting) (shape : Attribute.Shape) (raw : Raw)
    (c : Checked (Option α)) : Prop where
  value : c.value.map f = Attribute.read? shape raw
  issues : c.issues = [] ↔ (Attribute.read? shape raw).isSome

section

variable {α : Type} {f : α → Setting} {shape : Attribute.Shape} {raw : Raw}

theorem reads_pure {a : α} (h : Attribute.read? shape raw = some (f a)) :
    Reads f shape raw (pure (some a)) := by
  constructor
  · rw [h]; rfl
  · rw [h]; exact ⟨fun _ => rfl, fun _ => rfl⟩

theorem reads_report {path : Path} {cause : Issue.Cause} {found : Option Raw}
    (h : Attribute.read? shape raw = none) : Reads f shape raw (report none path cause found) := by
  constructor
  · rw [h]; rfl
  · rw [h]
    exact ⟨fun h => absurd h (issues_report_ne_nil _ _ _ _), fun h => absurd h Bool.false_ne_true⟩

end

theorem checkColor_reads (path : Path) (raw : Raw) :
    Reads .color .color raw (checkColor path raw) := by
  cases raw with
  | string name =>
    unfold checkColor
    simp only
    split
    · rename_i color h
      exact reads_pure (by simp [Attribute.read?, h])
    · rename_i h
      exact reads_report (by simp [Attribute.read?, h])
  | null => exact reads_report rfl
  | bool flag => exact reads_report rfl
  | number n => exact reads_report rfl
  | array items => exact reads_report rfl
  | object fields => exact reads_report rfl

theorem checkFlag_reads (path : Path) (raw : Raw) :
    Reads .flag .flag raw (checkFlag path raw) := by
  cases raw with
  | bool flag => exact reads_pure rfl
  | string written =>
    unfold checkFlag
    simp only
    split
    · rename_i flag h
      exact reads_pure (by simp [Attribute.read?, h])
    · rename_i h
      exact reads_report (by simp [Attribute.read?, h])
  | null => exact reads_report rfl
  | number n => exact reads_report rfl
  | array items => exact reads_report rfl
  | object fields => exact reads_report rfl

theorem checkCount_reads (path : Path) (raw : Raw) :
    Reads .count .number raw (checkCount path raw) := by
  unfold checkCount
  split
  · rename_i count h
    exact reads_pure (by simp [Attribute.read?, h])
  · rename_i h
    exact reads_report (by simp [Attribute.read?, h])

theorem checkUnderline_reads (path : Path) (raw : Raw) :
    Reads .underline .underline raw (checkUnderline path raw) := by
  cases raw with
  | bool flag => cases flag <;> exact reads_pure rfl
  | string written =>
    unfold checkUnderline
    simp only
    split
    · rename_i style h
      exact reads_pure (by simp [Attribute.read?, h])
    · rename_i h
      exact reads_report (by simp [Attribute.read?, h])
  | null => exact reads_report rfl
  | number n => exact reads_report rfl
  | array items => exact reads_report rfl
  | object fields => exact reads_report rfl

theorem checkBullet_reads (path : Path) (raw : Raw) :
    Reads .text .text raw (checkBullet path raw) := by
  cases raw with
  | string bullet => exact reads_pure rfl
  | null => exact reads_report rfl
  | bool flag => exact reads_report rfl
  | number n => exact reads_report rfl
  | array items => exact reads_report rfl
  | object fields => exact reads_report rfl

/-! ## The settings of a styled node -/

/-- A check that sets one key of a style to what an untyped value stands for. -/
structure Sets (style : Style) (key : String) (shape : Attribute.Shape) (raw : Raw)
    (c : Checked Style) : Prop where
  held : ∀ k, c.value.held k = if k = key then Attribute.read? shape raw else style.held k
  issues : c.issues = [] ↔ (Attribute.read? shape raw).isSome

theorem Reads.sets {α : Type} {f : α → Setting} {shape : Attribute.Shape} {raw : Raw}
    {c : Checked (Option α)} (hc : Reads f shape raw c) {style : Style} {key : String}
    {set : Option α → Style}
    (hset : ∀ v k, (set v).held k = if k = key then v.map f else style.held k) :
    Sets style key shape raw (c >>= fun v => pure (set v)) := by
  constructor
  · intro k
    rw [value_bind, value_pure, hset, hc.value]
  · rw [issues_bind, issues_pure, List.append_nil, hc.issues]

theorem checkSetting_sets {kind : StyledKind} {key : String} {shape : Attribute.Shape}
    (h : Attribute.styledShape? kind key = some shape) (path : Path) (style : Style) (raw : Raw) :
    Sets style key shape raw (checkSetting kind path style (key, raw)) := by
  have hm := Attribute.mem_styledShapes h
  unfold checkSetting
  simp only [h]
  simp only [Attribute.styledShapes, List.mem_cons, Prod.mk.injEq, List.not_mem_nil,
    or_false] at hm
  rcases hm with ⟨rfl, rfl⟩ | ⟨rfl, rfl⟩ | ⟨rfl, rfl⟩ | ⟨rfl, rfl⟩ | ⟨rfl, rfl⟩ | ⟨rfl, rfl⟩ |
    ⟨rfl, rfl⟩ | ⟨rfl, rfl⟩ | ⟨rfl, rfl⟩ | ⟨rfl, rfl⟩ | ⟨rfl, rfl⟩ | ⟨rfl, rfl⟩
  · exact (checkColor_reads _ raw).sets fun _ => Style.held_set (style.table.take 0) rfl rfl
  · exact (checkColor_reads _ raw).sets fun _ => Style.held_set (style.table.take 1) rfl rfl
  · exact (checkFlag_reads _ raw).sets fun _ => Style.held_set (style.table.take 2) rfl rfl
  · exact (checkFlag_reads _ raw).sets fun _ => Style.held_set (style.table.take 4) rfl rfl
  · exact (checkUnderline_reads _ raw).sets fun _ => Style.held_set (style.table.take 3) rfl rfl
  · exact (checkCount_reads _ raw).sets fun _ => Style.held_set (style.table.take 5) rfl rfl
  · exact (checkCount_reads _ raw).sets fun _ => Style.held_set (style.table.take 6) rfl rfl
  · exact (checkCount_reads _ raw).sets fun _ => Style.held_set (style.table.take 7) rfl rfl
  · exact (checkCount_reads _ raw).sets fun _ => Style.held_set (style.table.take 8) rfl rfl
  · exact (checkCount_reads _ raw).sets fun _ => Style.held_set (style.table.take 9) rfl rfl
  · exact (checkBullet_reads _ raw).sets fun _ => Style.held_set (style.table.take 10) rfl rfl
  · exact (checkCount_reads _ raw).sets fun _ => Style.held_set (style.table.take 11) rfl rfl

theorem checkSetting_other {kind : StyledKind} {key : String}
    (h : Attribute.styledShape? kind key = none) (path : Path) (style : Style) (raw : Raw) :
    checkSetting kind path style (key, raw) = pure style := by
  unfold checkSetting
  simp only [h]

section

variable (kind : StyledKind) (path : Path)

theorem checkSettings_issues (fields : List (String × Raw)) (style : Style) :
    (fields.foldlM (checkSetting kind path) style).issues = [] ↔
      ∀ field ∈ fields, ∀ shape, Attribute.styledShape? kind field.1 = some shape →
        (Attribute.read? shape field.2).isSome := by
  induction fields generalizing style with
  | nil => exact ⟨fun _ _ h => (by cases h), fun _ => rfl⟩
  | cons field fields ih =>
    rw [List.foldlM_cons, issues_bind, List.append_eq_nil_iff, ih, List.forall_mem_cons]
    apply and_congr_left'
    cases h : Attribute.styledShape? kind field.1 with
    | none =>
      rw [checkSetting_other h path style field.2]
      exact ⟨fun _ _ h => (by cases h), fun _ => rfl⟩
    | some shape =>
      rw [(checkSetting_sets h path style field.2).issues]
      exact ⟨fun h _ he => Option.some.inj he ▸ h, fun h => h shape rfl⟩

/-- A key that is not among the fields, or that the kind does not accept, keeps what it held. -/
theorem checkSettings_held_other {k : String} (fields : List (String × Raw)) (style : Style)
    (h : Attribute.styledShape? kind k = none ∨ k ∉ fields.map Prod.fst) :
    (fields.foldlM (checkSetting kind path) style).value.held k = style.held k := by
  induction fields generalizing style with
  | nil => rfl
  | cons field fields ih =>
    have hrest : Attribute.styledShape? kind k = none ∨ k ∉ fields.map Prod.fst :=
      h.imp_right fun hn hm => hn (List.mem_cons_of_mem _ hm)
    rw [List.foldlM_cons, value_bind, ih _ hrest]
    cases hs : Attribute.styledShape? kind field.1 with
    | none => rw [checkSetting_other hs path style field.2]; rfl
    | some shape =>
      have hne : k ≠ field.1 := by
        rintro rfl
        rcases h with h | h
        · rw [hs] at h; cases h
        · exact h List.mem_cons_self
      rw [(checkSetting_sets hs path style field.2).held, if_neg hne]

/-- With ordered fields, an accepted key holds what its field stands for. -/
theorem checkSettings_held {fields : List (String × Raw)} (ho : Raw.Ordered fields) {k : String}
    {raw : Raw} {shape : Attribute.Shape} (hk : fields.lookup k = some raw)
    (hs : Attribute.styledShape? kind k = some shape) (style : Style) :
    (fields.foldlM (checkSetting kind path) style).value.held k = Attribute.read? shape raw := by
  induction fields generalizing style with
  | nil => cases hk
  | cons field fields ih =>
    obtain ⟨key, value⟩ := field
    have hp := List.pairwise_cons.1 ho
    rw [lookup_cons_ite] at hk
    rw [List.foldlM_cons, value_bind]
    by_cases he : k = key
    · subst he
      rw [if_pos rfl, Option.some.injEq] at hk
      subst hk
      -- the keys are ordered, so no later field sets this one again
      have hn : k ∉ fields.map Prod.fst := by
        intro hm
        obtain ⟨other, hother, he⟩ := List.mem_map.1 hm
        exact absurd (hp.1 other hother) (by rw [he]; exact lt_irrefl _)
      rw [checkSettings_held_other kind path fields _ (Or.inr hn),
        (checkSetting_sets hs path style value).held, if_pos rfl]
    · rw [if_neg he] at hk
      exact ih hp.2 hk _

end

/-! ## The element of a node -/

/-- The element that a node with content stands for, from its attributes. -/
def checkElement (kind : Kind) (path : Path) (fields : List (String × Raw)) : Checked Element :=
  match kind with
  | .underline => do return .underline (← checkUnderlineType path fields)
  | .color => do
    let fg ← checkColorField path fields "fg"
    let bg ← checkColorField path fields "bg"
    return .color fg bg
  | .styled kind => do return .styled kind (← fields.foldlM (checkSetting kind path) {})
  | .italics => pure .italics
  | _ => pure .bold

theorem ofTag?_tag (kind : Kind) : Kind.ofTag? kind.tag = some kind := by
  rcases kind with _ | _ | _ | _ | _ | _ | kind
  case styled => cases kind <;> rfl
  all_goals rfl

theorem checkKind_of_lookup {path : Path} {fields : List (String × Raw)} {kind : Kind}
    (h : fields.lookup "node" = some (.string kind.tag)) :
    checkKind path fields = pure (some kind) := by
  unfold checkKind
  simp only [h, ofTag?_tag]

theorem tag_of_ofTag? {tag : String} {kind : Kind} (h : Kind.ofTag? tag = some kind) :
    tag = kind.tag := by
  have := List.find?_some h
  rw [beq_iff_eq] at this
  exact this.symm

/-- A node names a kind, or there is an issue with what it names. -/
theorem checkKind_cases (path : Path) (fields : List (String × Raw)) :
    (∃ kind : Kind, fields.lookup "node" = some (.string kind.tag)) ∨
      ∃ cause found, checkKind path fields = report none (path ++ [.field "node"]) cause found := by
  unfold checkKind
  dsimp only
  split
  · exact Or.inr ⟨_, _, rfl⟩
  · rename_i tag hl
    split
    · rename_i kind hk
      exact Or.inl ⟨kind, by rw [hl, tag_of_ofTag? hk]⟩
    · exact Or.inr ⟨_, _, rfl⟩
  · exact Or.inr ⟨_, _, rfl⟩

theorem checkKind_clean {path : Path} {fields : List (String × Raw)}
    (h : (checkKind path fields).issues = []) :
    ∃ kind : Kind, fields.lookup "node" = some (.string kind.tag) := by
  rcases checkKind_cases path fields with hk | ⟨cause, found, hr⟩
  · exact hk
  · rw [hr] at h
    exact absurd h (issues_report_ne_nil _ _ _ _)

theorem checkFields_text {path : Path} {fields : List (String × Raw)}
    (h : fields.lookup "node" = some (.string "text")) (content : Checked (Content Node)) :
    checkFields path fields content =
      ⟨some (.text (checkText path fields).value),
        (checkKeys .text path fields).issues ++ (checkText path fields).issues⟩ := by
  have hk : fields.lookup "node" = some (.string Kind.text.tag) := h
  unfold checkFields
  rw [checkKind_of_lookup hk]
  exact Checked.ext rfl (by simp)

theorem checkFields_lineBreak {path : Path} {fields : List (String × Raw)}
    (h : fields.lookup "node" = some (.string "br")) (content : Checked (Content Node)) :
    checkFields path fields content =
      ⟨some .lineBreak, (checkKeys .lineBreak path fields).issues⟩ := by
  have hk : fields.lookup "node" = some (.string Kind.lineBreak.tag) := h
  unfold checkFields
  rw [checkKind_of_lookup hk]
  exact Checked.ext rfl (by simp)

theorem checkKeys_issues (kind : Kind) (path : Path) (fields : List (String × Raw)) :
    (checkKeys kind path fields).issues = [] ↔ ∀ field ∈ fields, isKnownKey kind field.1 = true := by
  unfold checkKeys
  simp only [List.filterMap_eq_nil_iff]
  refine forall_congr' fun field => forall_congr' fun _ => ?_
  split <;> simp_all

/-- The check of a node with content: its keys, its attributes, its content. -/
theorem checkFields_element {path : Path} {fields : List (String × Raw)} {kind : Kind}
    (h : fields.lookup "node" = some (.string kind.tag)) (hc : kind.hasContent = true)
    (content : Checked (Content Node)) :
    checkFields path fields content =
      ⟨some (.element (checkElement kind path fields).value content.value),
        (checkKeys kind path fields).issues ++ ((checkElement kind path fields).issues ++
          content.issues)⟩ := by
  unfold checkFields
  rw [checkKind_of_lookup h]
  cases kind with
  | text => cases hc
  | lineBreak => cases hc
  | bold => exact Checked.ext rfl (by simp [checkElement])
  | italics => exact Checked.ext rfl (by simp [checkElement])
  | underline => exact Checked.ext rfl (by simp [checkElement])
  | color => exact Checked.ext rfl (by simp [checkElement])
  | styled kind => exact Checked.ext rfl (by simp [checkElement])

/-! ## Valid attributes -/

/-- A value that an attribute of a kind may have: it stands for a setting of the shape, and the type
of an underline is not to have none. -/
def IsValid (kind : Kind) (shape : Attribute.Shape) (raw : Raw) : Prop :=
  ∃ x, Attribute.read? shape raw = some x ∧ (kind = .underline → x ≠ .underline .off)

/-- Fields in which every attribute has a valid value and an underline has its type. -/
structure Valued (kind : Kind) (fields : List (String × Raw)) : Prop where
  values : ∀ field ∈ fields, ∀ shape, Attribute.shape? kind field.1 = some shape →
    IsValid kind shape field.2
  type : kind = .underline → (fields.lookup "type").isSome

theorem checkUnderlineType_issues (path : Path) (fields : List (String × Raw)) :
    (checkUnderlineType path fields).issues = [] ↔
      ∃ raw style, fields.lookup "type" = some raw ∧
        Attribute.read? .underline raw = some (.underline style) ∧ style ≠ .off := by
  unfold checkUnderlineType
  cases hl : fields.lookup "type" with
  | none =>
    refine ⟨fun h => absurd h (issues_report_ne_nil _ _ _ _), ?_⟩
    rintro ⟨raw, style, h, -⟩
    cases h
  | some raw =>
    have hc := checkUnderline_reads (path ++ [.field "type"]) raw
    have hread := hc.value
    simp only [issues_bind, List.append_eq_nil_iff, hc.issues]
    cases hv : (checkUnderline (path ++ [.field "type"]) raw).value with
    | none =>
      rw [hv] at hread
      simp [← hread]
    | some style =>
      rw [hv] at hread
      cases style with
      | single => simp [← hread]
      | double => simp [← hread]
      | off => simp [← hread, issues_report_ne_nil]

theorem checkUnderlineType_value {path : Path} {fields : List (String × Raw)} {raw : Raw}
    {style : Underline} (hl : fields.lookup "type" = some raw)
    (hr : Attribute.read? .underline raw = some (.underline style)) (hs : style ≠ .off) :
    (checkUnderlineType path fields).value = style := by
  have hc := (checkUnderline_reads (path ++ [.field "type"]) raw).value
  rw [hr] at hc
  unfold checkUnderlineType
  simp only [hl, value_bind]
  cases hv : (checkUnderline (path ++ [.field "type"]) raw).value with
  | none => rw [hv] at hc; cases hc
  | some found =>
    rw [hv, Option.map_some, Option.some.injEq, Setting.underline.injEq] at hc
    subst hc
    cases found with
    | single => rfl
    | double => rfl
    | off => exact absurd rfl hs

theorem checkColorField_value (path : Path) (fields : List (String × Raw)) (key : String) :
    (checkColorField path fields key).value.map .color =
      (fields.lookup key).bind (Attribute.read? .color) := by
  unfold checkColorField
  cases fields.lookup key with
  | none => rfl
  | some raw => exact (checkColor_reads _ raw).value

theorem checkColorField_issues (path : Path) (fields : List (String × Raw)) (key : String) :
    (checkColorField path fields key).issues = [] ↔
      ∀ raw, fields.lookup key = some raw → (Attribute.read? .color raw).isSome := by
  unfold checkColorField
  cases fields.lookup key with
  | none => exact ⟨fun _ _ h => (by cases h), fun _ => rfl⟩
  | some raw =>
    simp only
    rw [(checkColor_reads _ raw).issues]
    exact ⟨fun h _ he => Option.some.inj he ▸ h, fun h => h raw rfl⟩

theorem checkElement_kind {kind : Kind} (hc : kind.hasContent = true) (path : Path)
    (fields : List (String × Raw)) : (checkElement kind path fields).value.kind = kind := by
  cases kind with
  | text => cases hc
  | lineBreak => cases hc
  | bold => rfl
  | italics => rfl
  | underline => rfl
  | color => rfl
  | styled kind => rfl

section

variable {fields : List (String × Raw)}

/-- Only an underline asks more of its attributes than that their values stand for settings. -/
theorem valued_iff {kind : Kind} (hk : kind ≠ .underline) :
    Valued kind fields ↔ ∀ field ∈ fields, ∀ shape, Attribute.shape? kind field.1 = some shape →
      (Attribute.read? shape field.2).isSome := by
  constructor
  · intro h field hf shape hs
    obtain ⟨x, hx, -⟩ := h.values field hf shape hs
    rw [hx]
    rfl
  · intro h
    refine ⟨fun field hf shape hs => ?_, fun he => absurd he hk⟩
    obtain ⟨x, hx⟩ := Option.isSome_iff_exists.1 (h field hf shape hs)
    exact ⟨x, hx, fun he => absurd he hk⟩

theorem valued_underline_iff (ho : Raw.Ordered fields) :
    Valued .underline fields ↔ ∃ raw style, fields.lookup "type" = some raw ∧
      Attribute.read? .underline raw = some (.underline style) ∧ style ≠ .off := by
  constructor
  · intro h
    obtain ⟨raw, hl⟩ := Option.isSome_iff_exists.1 (h.type rfl)
    obtain ⟨x, hr, hx⟩ := h.values _ (mem_of_lookup hl) .underline rfl
    have hread := (checkUnderline_reads [] raw).value
    rw [hr] at hread
    obtain ⟨style, -, rfl⟩ := Option.map_eq_some_iff.1 hread
    exact ⟨raw, style, hl, hr, fun he => hx rfl (by rw [he])⟩
  · rintro ⟨raw, style, hl, hr, hs⟩
    refine ⟨fun field hf shape h => ?_, fun _ => by rw [hl]; rfl⟩
    obtain ⟨hkey, rfl⟩ := Attribute.shape?_underline.1 h
    -- the keys are ordered, so the field is the one that `type` finds
    have hfield := ho.lookup_eq_some hf
    rw [hkey, hl, Option.some.injEq] at hfield
    rw [← hfield]
    exact ⟨_, hr, fun _ he => hs (Setting.underline.inj he)⟩

theorem valued_color_iff (ho : Raw.Ordered fields) :
    Valued .color fields ↔ ∀ key, key = "fg" ∨ key = "bg" → ∀ raw, fields.lookup key = some raw →
      (Attribute.read? .color raw).isSome := by
  rw [valued_iff (by decide)]
  constructor
  · intro h key hk raw hl
    exact h _ (mem_of_lookup hl) .color (Attribute.shape?_color.2 ⟨hk, rfl⟩)
  · intro h field hf shape hs
    obtain ⟨hkey, rfl⟩ := Attribute.shape?_color.1 hs
    exact h field.1 hkey field.2 (ho.lookup_eq_some hf)

/-- The attributes of a node have no issues exactly when they are valid. -/
theorem checkElement_issues {kind : Kind} (hc : kind.hasContent = true) (path : Path)
    (ho : Raw.Ordered fields) :
    (checkElement kind path fields).issues = [] ↔ Valued kind fields := by
  cases kind with
  | text => cases hc
  | lineBreak => cases hc
  | bold => exact ⟨fun _ => ⟨fun _ _ _ h => (by cases h), fun h => (by cases h)⟩, fun _ => rfl⟩
  | italics => exact ⟨fun _ => ⟨fun _ _ _ h => (by cases h), fun h => (by cases h)⟩, fun _ => rfl⟩
  | underline =>
    show (checkUnderlineType path fields).issues ++ [] = [] ↔ _
    rw [List.append_nil, checkUnderlineType_issues, valued_underline_iff ho]
  | color =>
    show (checkColorField path fields "fg").issues ++
      ((checkColorField path fields "bg").issues ++ []) = [] ↔ _
    rw [List.append_nil, List.append_eq_nil_iff, checkColorField_issues, checkColorField_issues,
      valued_color_iff ho]
    constructor
    · rintro ⟨hfg, hbg⟩ key (rfl | rfl)
      · exact hfg
      · exact hbg
    · intro h
      exact ⟨h "fg" (Or.inl rfl), h "bg" (Or.inr rfl)⟩
  | styled kind =>
    show (fields.foldlM (checkSetting kind path) {}).issues ++ [] = [] ↔ _
    rw [List.append_nil, checkSettings_issues, valued_iff (by rintro ⟨⟩)]
    rfl

/-- What the fields say of a key that a kind accepts. -/
def settingOf? (kind : Kind) (fields : List (String × Raw)) (key : String) : Option Setting :=
  (Attribute.shape? kind key).bind fun shape => (fields.lookup key).bind (Attribute.read? shape)

theorem lookup_underline {path : Path} {raw : Raw} {style : Underline}
    (hl : fields.lookup "type" = some raw)
    (hr : Attribute.read? .underline raw = some (.underline style)) (hs : style ≠ .off)
    (key : String) :
    (Element.underline (checkUnderlineType path fields).value).settings.lookup key =
      settingOf? .underline fields key := by
  unfold settingOf?
  show [("type", Setting.underline (checkUnderlineType path fields).value)].lookup key = _
  rw [lookup_cons_ite, checkUnderlineType_value hl hr hs]
  by_cases hk : key = "type"
  · subst hk
    rw [if_pos rfl, Attribute.shape?_underline.2 ⟨rfl, rfl⟩, hl, Option.bind_some, Option.bind_some,
      hr]
  · have hnone : Attribute.shape? .underline key = none := by
      rw [Option.eq_none_iff_forall_ne_some]
      exact fun shape h => hk (Attribute.shape?_underline.1 h).1
    rw [if_neg hk, hnone]
    rfl

theorem lookup_color (path : Path) (key : String) :
    (Element.color (checkColorField path fields "fg").value
      (checkColorField path fields "bg").value).settings.lookup key =
      settingOf? .color fields key := by
  unfold settingOf?
  rw [Element.lookup_settings]
  show ([("fg", (checkColorField path fields "fg").value.map Setting.color),
    ("bg", (checkColorField path fields "bg").value.map Setting.color)].lookup key).join = _
  rw [lookup_cons_ite, lookup_cons_ite, checkColorField_value, checkColorField_value]
  by_cases hfg : key = "fg"
  · subst hfg
    rfl
  · by_cases hbg : key = "bg"
    · subst hbg
      rfl
    · have hnone : Attribute.shape? .color key = none := by
        rw [Option.eq_none_iff_forall_ne_some]
        exact fun shape h => (Attribute.shape?_color.1 h).1.elim hfg hbg
      rw [if_neg hfg, if_neg hbg, hnone]
      rfl

theorem lookup_styled (kind : StyledKind) (path : Path) (ho : Raw.Ordered fields) (key : String) :
    (Element.styled kind (fields.foldlM (checkSetting kind path) {}).value).settings.lookup key =
      settingOf? (.styled kind) fields key := by
  unfold settingOf?
  rw [Element.lookup_settings_styled]
  show _ = (Attribute.styledShape? kind key).bind _
  cases hs : Attribute.styledShape? kind key with
  | none =>
    rw [checkSettings_held_other kind path fields _ (Or.inl hs), Style.held_empty]
    rfl
  | some shape =>
    rw [Option.bind_some]
    cases hl : fields.lookup key with
    | none =>
      have hn : key ∉ fields.map Prod.fst := by
        intro hm
        obtain ⟨field, hf, rfl⟩ := List.mem_map.1 hm
        rw [ho.lookup_eq_some hf] at hl
        cases hl
      rw [checkSettings_held_other kind path fields _ (Or.inr hn), Style.held_empty]
      rfl
    | some raw =>
      rw [checkSettings_held kind path ho hl hs]
      rfl

/-- With valid attributes, a key of the element holds what its field stands for. -/
theorem checkElement_lookup {kind : Kind} (hc : kind.hasContent = true) (path : Path)
    (ho : Raw.Ordered fields) (hv : Valued kind fields) (key : String) :
    (checkElement kind path fields).value.settings.lookup key = settingOf? kind fields key := by
  cases kind with
  | text => cases hc
  | lineBreak => cases hc
  | bold => rfl
  | italics => rfl
  | underline =>
    obtain ⟨raw, style, hl, hr, hs⟩ := (valued_underline_iff ho).1 hv
    exact lookup_underline hl hr hs key
  | color => exact lookup_color path key
  | styled kind => exact lookup_styled kind path ho key

end

/-- The element of a node without issues fits. -/
theorem checkElement_fits {kind : Kind} {path : Path} {fields : List (String × Raw)}
    (h : (checkElement kind path fields).issues = []) :
    (checkElement kind path fields).value.Fits := by
  cases kind with
  | text => trivial
  | lineBreak => trivial
  | bold => trivial
  | italics => trivial
  | color => trivial
  | underline =>
    have hi : (checkUnderlineType path fields).issues = [] := (List.append_eq_nil_iff.1 h).1
    obtain ⟨raw, style, hl, hr, hs⟩ := (checkUnderlineType_issues path fields).1 hi
    show (checkUnderlineType path fields).value ≠ .off
    rw [checkUnderlineType_value hl hr hs]
    exact hs
  | styled kind =>
    intro hk
    have hheld : ∀ key, Attribute.styledShape? kind key = none →
        (fields.foldlM (checkSetting kind path) {}).value.held key = none := by
      intro key hs
      rw [checkSettings_held_other kind path fields _ (Or.inl hs), Style.held_empty]
    have hbullet := hheld "bullet" (Attribute.styledShape?_list hk).1
    have hindent := hheld "indent" (Attribute.styledShape?_list hk).2
    exact Listing.mk.injEq .. |>.mpr
      ⟨Option.map_eq_none_iff.1 hbullet, Option.map_eq_none_iff.1 hindent⟩

/-! ## Content -/

/-- The content of a node is what its `content` field holds, if nesting may go that deep. -/
theorem checkContent_eq (depth : Nat) (path : Path) (fields : List (String × Raw)) :
    checkContent depth path fields =
      match fields.lookup "content" with
      | none => pure .absent
      | some value =>
        if depth < maxNesting then checkContentValue (depth + 1) (path ++ [.field "content"]) value
        else report .absent (path ++ [.field "content"]) .tooDeep (some value) := by
  induction fields with
  | nil => rfl
  | cons field fields ih =>
    obtain ⟨key, value⟩ := field
    unfold checkContent
    rw [lookup_cons_ite]
    by_cases hk : key = "content"
    · subst hk
      rfl
    · rw [if_neg (Ne.symm hk), if_neg (by rwa [beq_iff_eq]), ih]

theorem checkContent_issues (depth : Nat) (path : Path) (fields : List (String × Raw)) :
    (checkContent depth path fields).issues = [] ↔
      ∀ value, fields.lookup "content" = some value → depth < maxNesting ∧
        (checkContentValue (depth + 1) (path ++ [.field "content"]) value).issues = [] := by
  rw [checkContent_eq]
  cases fields.lookup "content" with
  | none => exact ⟨fun _ _ h => (by cases h), fun _ => rfl⟩
  | some value =>
    simp only [Option.some.injEq, forall_eq']
    split
    · rename_i hd
      exact (and_iff_right hd).symm
    · rename_i hd
      exact ⟨fun h => absurd h (issues_report_ne_nil _ _ _ _), fun h => absurd h.1 hd⟩

/-- The check of a node in a document. -/
def checkNode (depth : Nat) (path : Path) : Raw → Checked (Option Node)
  | .object fields => checkFields path fields (checkContent depth path fields)
  | other => report none path .nodeNotObject (some other)

theorem checkNodes_cons (depth : Nat) (path : Path) (index : Nat) (raw : Raw) (raws : List Raw) :
    checkNodes depth path index (raw :: raws) =
      (do
        let node ← checkNode depth (path ++ [.item index]) raw
        let nodes ← checkNodes depth path (index + 1) raws
        return node.toList ++ nodes) := by
  cases raw with
  | object fields => rw [checkNodes]; rfl
  | null | bool _ | number _ | string _ | array _ =>
    rw [checkNodes]
    · exact Checked.ext (by simp [checkNode]) (by simp [checkNode, report])
    · intro fields h; cases h

theorem checkContentValue_object (depth : Nat) (path : Path) (fields : List (String × Raw)) :
    checkContentValue depth path (.object fields) =
      ⟨match (checkNode depth path (.object fields)).value with
        | some node => .single node
        | none => .absent, (checkNode depth path (.object fields)).issues⟩ := by
  have hn : checkNode depth path (.object fields) =
      checkFields path fields (checkContent depth path fields) := rfl
  rw [hn, checkContentValue]
  cases hv : (checkFields path fields (checkContent depth path fields)).value with
  | none => exact Checked.ext (by simp [hv]) (by simp [hv])
  | some node => exact Checked.ext (by simp [hv]) (by simp [hv])

/-- A node without issues is text, a line break, or an element that fits, with content that has no
issues. -/
theorem checkFields_clean {path : Path} {fields : List (String × Raw)}
    {content : Checked (Content Node)} (h : (checkFields path fields content).issues = []) :
    (∃ value, (checkFields path fields content).value = some (.text value)) ∨
    (checkFields path fields content).value = some .lineBreak ∨
    ∃ e, (checkFields path fields content).value = some (.element e content.value) ∧ e.Fits ∧
      content.issues = [] := by
  obtain ⟨kind, hk⟩ := checkKind_clean (List.append_eq_nil_iff.1 h).1
  by_cases hc : kind.hasContent = true
  · rw [checkFields_element hk hc] at h ⊢
    obtain ⟨-, h⟩ := List.append_eq_nil_iff.1 h
    obtain ⟨he, h⟩ := List.append_eq_nil_iff.1 h
    exact Or.inr (Or.inr ⟨_, rfl, checkElement_fits he, h⟩)
  · cases kind with
    | text =>
      rw [checkFields_text hk]
      exact Or.inl ⟨_, rfl⟩
    | lineBreak =>
      rw [checkFields_lineBreak hk]
      exact Or.inr (Or.inl rfl)
    | bold | italics | underline | color | styled kind => exact absurd rfl hc

/-! ## Documents -/

theorem ofRaw_eq_ok_iff {raw : Raw} {nodes : List Node} :
    ofRaw raw = .ok nodes ↔ (checkDocument raw).issues = [] ∧ (checkDocument raw).value = nodes := by
  unfold ofRaw
  simp only
  split
  · rename_i h
    rw [List.isEmpty_iff] at h
    simp [h]
  · rename_i h
    rw [List.isEmpty_iff] at h
    simp [h]

theorem toRaw_text (value : String) :
    toRaw (.text value) = .object [("node", .string "text"), ("value", .string value)] := by
  have hlt : ¬ "value" < "node" := by decide
  rw [toRaw, Raw.ofFields_eq, Raw.insertAll_cons, Raw.insertAll_cons]
  simp [Raw.insertAll, Raw.insert, hlt]

end Node

end TermMarkup
