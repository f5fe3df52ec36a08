/-
The node schema, said on its own: what values stand for, which keys the nodes of a kind have, and
which nodes an untyped tree stands for, one node for each object of a list and in its order. The
check of a document accepts exactly the trees that stand for some nodes, and gives these nodes, so
it passes over nothing that is written in the tree.
-/
import TermMarkup.Proofs.Check
import TermMarkup.Raw.Reader

namespace TermMarkup

namespace Schema

/-! ## Values -/

/-- A word as it is compared: without the blanks around it, and in lower case. -/
def word (written : String) : String :=
  Text.asciiLower (Text.trim written)

/-- A string that names a color; gray has two names. -/
inductive IsColor : Raw → Color → Prop
  | name {written : String} {color : Color} (h : word written = color.name) :
    IsColor (.string written) color
  | grey {written : String} (h : word written = "grey") : IsColor (.string written) .gray

def flagWords : Bool → List String
  | true => ["true", "yes"]
  | false => ["false", "no"]

/-- A flag, or a string with a word for it. -/
inductive IsFlag : Raw → Bool → Prop
  | flag (value : Bool) : IsFlag (.bool value) value
  | word {written : String} {value : Bool} (h : word written ∈ flagWords value) :
    IsFlag (.string written) value

def underlineWords : Underline → List String
  | .single => ["single", "true", "yes"]
  | .double => ["double"]
  | .off => ["none", "off", "false", "no"]

/-- A flag, which means a single underline or none, or a string with a word for the style. -/
inductive IsUnderline : Raw → Underline → Prop
  | on : IsUnderline (.bool true) .single
  | off : IsUnderline (.bool false) .off
  | word {written : String} {style : Underline} (h : word written ∈ underlineWords style) :
    IsUnderline (.string written) style

/-- An integer from 0 to 65535. -/
inductive IsCount : Raw → Count → Prop
  | int (n : Count) : IsCount (.int n.val) n

inductive IsText : Raw → String → Prop
  | string (value : String) : IsText (.string value) value

/-! ## Nodes -/

/-- The keys that nodes of a kind may have. -/
def keys : Kind → List String
  | .text => ["node", "value"]
  | .lineBreak => ["node"]
  | .bold | .italics => ["node", "content"]
  | .underline => ["node", "content", "type"]
  | .color => ["node", "content", "fg", "bg"]
  | .styled kind =>
    ["node", "content", "fg", "bg", "bold", "italics", "underline", "margin", "marginLeft",
      "marginRight", "marginTop", "marginBottom"] ++
      if kind = .listItem then ["bullet", "indent"] else []

/-- Fields of a node of the kind: they name it, and have none but its keys. -/
structure IsKind (kind : Kind) (fields : List (String × Raw)) : Prop where
  tag : fields.lookup "node" = some (.string kind.tag)
  keys : ∀ field ∈ fields, field.1 ∈ keys kind

/-- The style that fields stand for; what has no field is not set. -/
structure IsStyle (fields : List (String × Raw)) (style : Style) : Prop where
  fg : Option.Rel IsColor (fields.lookup "fg") style.font.fg
  bg : Option.Rel IsColor (fields.lookup "bg") style.font.bg
  bold : Option.Rel IsFlag (fields.lookup "bold") style.font.bold
  underline : Option.Rel IsUnderline (fields.lookup "underline") style.font.underline
  italics : Option.Rel IsFlag (fields.lookup "italics") style.font.italics
  margin : Option.Rel IsCount (fields.lookup "margin") style.spacing.margin
  left : Option.Rel IsCount (fields.lookup "marginLeft") style.spacing.left
  right : Option.Rel IsCount (fields.lookup "marginRight") style.spacing.right
  top : Option.Rel IsCount (fields.lookup "marginTop") style.spacing.top
  bottom : Option.Rel IsCount (fields.lookup "marginBottom") style.spacing.bottom
  bullet : Option.Rel IsText (fields.lookup "bullet") style.list.bullet
  indent : Option.Rel IsCount (fields.lookup "indent") style.list.indent

/-- The element that fields stand for. An underline needs its type, which is not to have none. -/
inductive IsElement (fields : List (String × Raw)) : Element → Prop
  | bold : IsElement fields .bold
  | italics : IsElement fields .italics
  | underline {raw : Raw} {style : Underline} (ht : fields.lookup "type" = some raw)
    (hs : IsUnderline raw style) (hne : style ≠ .off) : IsElement fields (.underline style)
  | color {fg bg : Option Color} (hfg : Option.Rel IsColor (fields.lookup "fg") fg)
    (hbg : Option.Rel IsColor (fields.lookup "bg") bg) : IsElement fields (.color fg bg)
  | styled (kind : StyledKind) {style : Style} (hs : IsStyle fields style) :
    IsElement fields (.styled kind style)

mutual

/-- The node that an untyped tree stands for where it has `depth` ancestors. -/
inductive Denotes : Nat → Raw → Node → Prop
  | text {depth : Nat} {fields : List (String × Raw)} {raw : Raw} {value : String}
    (hk : IsKind .text fields) (hl : fields.lookup "value" = some raw) (hv : IsText raw value) :
    Denotes depth (.object fields) (.text value)
  | lineBreak {depth : Nat} {fields : List (String × Raw)} (hk : IsKind .lineBreak fields) :
    Denotes depth (.object fields) .lineBreak
  | element {depth : Nat} {fields : List (String × Raw)} {e : Element} {content : Content Node}
    (hk : IsKind e.kind fields) (he : IsElement fields e)
    (hc : ContentDenotes depth (fields.lookup "content") content) :
    Denotes depth (.object fields) (.element e content)

/-- The content that a field stands for, at a node with `depth` ancestors: none without the field,
else a node or a list of nodes, if the node has at most 63 ancestors. -/
inductive ContentDenotes : Nat → Option Raw → Content Node → Prop
  | absent {depth : Nat} : ContentDenotes depth none .absent
  | single {depth : Nat} {raw : Raw} {node : Node} (hd : depth ≤ 63)
    (h : Denotes (depth + 1) raw node) : ContentDenotes depth (some raw) (.single node)
  | many {depth : Nat} {raws : List Raw} {nodes : List Node} (hd : depth ≤ 63)
    (h : AllDenote (depth + 1) raws nodes) :
    ContentDenotes depth (some (.array raws)) (.ofChildren nodes)

/-- The nodes that a list of untyped trees stands for, one for each of them, in order. -/
inductive AllDenote : Nat → List Raw → List Node → Prop
  | nil {depth : Nat} : AllDenote depth [] []
  | cons {depth : Nat} {raw : Raw} {raws : List Raw} {node : Node} {nodes : List Node}
    (h : Denotes depth raw node) (hs : AllDenote depth raws nodes) :
    AllDenote depth (raw :: raws) (node :: nodes)

end

/-- The nodes that an untyped document stands for. -/
inductive Document : Raw → List Node → Prop
  | array {raws : List Raw} {nodes : List Node} (h : AllDenote 0 raws nodes) :
    Document (.array raws) nodes

/-! ## Values as they are read -/

open Attribute

theorem mem_spellings : ∀ row ∈ Color.spellings, row.1 = row.2.name ∨ row = ("grey", .gray) := by
  decide

theorem lookup_name (color : Color) : Color.spellings.lookup color.name = some color := by
  cases color <;> rfl

theorem ofName?_iff {written : String} {color : Color} :
    Color.ofName? written = some color ↔ IsColor (.string written) color := by
  unfold Color.ofName?
  constructor
  · intro h
    rcases mem_spellings _ (mem_of_lookup h) with hn | hg
    · exact .name hn
    · obtain ⟨hw, hc⟩ := Prod.mk.inj hg
      subst hc
      exact .grey hw
  · intro h
    cases h with
    | name h => rw [← word, h, lookup_name]
    | grey h => rw [← word, h]; rfl

theorem readFlag?_iff {written : String} {value : Bool} :
    readFlag? written = some value ↔ word written ∈ flagWords value := by
  unfold readFlag?
  rw [← word]
  generalize word written = w
  constructor
  · intro h
    split at h <;> cases h <;> decide
  · intro h
    cases value <;> simp only [flagWords, List.mem_cons, List.not_mem_nil, or_false] at h <;>
      rcases h with rfl | rfl <;> rfl

theorem underline_ofName?_iff {written : String} {style : Underline} :
    Underline.ofName? written = some style ↔ word written ∈ underlineWords style := by
  unfold Underline.ofName?
  rw [← word]
  generalize word written = w
  constructor
  · intro h
    split at h <;> cases h <;> decide
  · intro h
    cases style <;> simp only [underlineWords, List.mem_cons, List.not_mem_nil, or_false] at h
    · rcases h with rfl | rfl | rfl <;> rfl
    · subst h
      rfl
    · rcases h with rfl | rfl | rfl | rfl <;> rfl

/-- The values that stand for a setting of the shape are those of the relation. -/
structure Shaped {α : Type} (R : Raw → α → Prop) (f : α → Setting) (shape : Shape) : Prop where
  injective : Function.Injective f
  read : ∀ raw x, read? shape raw = some x ↔ ∃ a, R raw a ∧ f a = x

theorem shaped_color : Shaped IsColor .color .color where
  injective _ _ h := Setting.color.inj h
  read raw x := by
    cases raw with
    | string written =>
      have hread : read? .color (.string written) = (Color.ofName? written).map .color := rfl
      rw [hread, Option.map_eq_some_iff]
      simp only [ofName?_iff]
    | null | bool flag | number n | array items | object fields =>
      exact ⟨fun h => (by cases h), fun ⟨_, h, _⟩ => (by cases h)⟩

theorem shaped_flag : Shaped IsFlag .flag .flag where
  injective _ _ h := Setting.flag.inj h
  read raw x := by
    cases raw with
    | bool flag =>
      constructor
      · intro h
        exact ⟨flag, .flag flag, Option.some.inj h⟩
      · rintro ⟨a, ⟨⟩, rfl⟩
        rfl
    | string written =>
      have hread : read? .flag (.string written) = (readFlag? written).map .flag := rfl
      rw [hread, Option.map_eq_some_iff]
      simp only [readFlag?_iff]
      exact exists_congr fun a => and_congr_left' ⟨.word, fun h => by cases h; assumption⟩
    | null | number n | array items | object fields =>
      exact ⟨fun h => (by cases h), fun ⟨_, h, _⟩ => (by cases h)⟩

theorem shaped_underline : Shaped IsUnderline .underline .underline where
  injective _ _ h := Setting.underline.inj h
  read raw x := by
    cases raw with
    | bool flag =>
      constructor
      · intro h
        cases flag with
        | true => exact ⟨.single, .on, Option.some.inj h⟩
        | false => exact ⟨.off, .off, Option.some.inj h⟩
      · rintro ⟨a, ⟨⟩, rfl⟩ <;> rfl
    | string written =>
      have hread : read? .underline (.string written) =
          (Underline.ofName? written).map .underline := rfl
      rw [hread, Option.map_eq_some_iff]
      simp only [underline_ofName?_iff]
      exact exists_congr fun a => and_congr_left' ⟨.word, fun h => by cases h; assumption⟩
    | null | number n | array items | object fields =>
      exact ⟨fun h => (by cases h), fun ⟨_, h, _⟩ => (by cases h)⟩

theorem shaped_text : Shaped IsText .text .text where
  injective _ _ h := Setting.text.inj h
  read raw x := by
    cases raw with
    | string value =>
      constructor
      · intro h
        exact ⟨value, .string value, Option.some.inj h⟩
      · rintro ⟨a, ⟨⟩, rfl⟩
        rfl
    | null | bool flag | number n | array items | object fields =>
      exact ⟨fun h => (by cases h), fun ⟨_, h, _⟩ => (by cases h)⟩

theorem count?_iff {raw : Raw} {n : Count} : Node.count? raw = some n ↔ IsCount raw n := by
  constructor
  · intro h
    unfold Node.count? at h
    split at h
    · rename_i m
      unfold Count.ofNat? at h
      split at h
      · rename_i hm
        cases h
        exact .int ⟨m, hm⟩
      · cases h
    · cases h
  · intro h
    cases h
    show Count.ofNat? n.val = some n
    unfold Count.ofNat?
    rw [dif_pos n.isLt]

theorem shaped_count : Shaped IsCount .count .number where
  injective _ _ h := Setting.count.inj h
  read raw x := by
    have hread : read? .number raw = (Node.count? raw).map .count := by cases raw <;> rfl
    rw [hread, Option.map_eq_some_iff]
    simp only [count?_iff]

theorem Shaped.rel_iff {α : Type} {R : Raw → α → Prop} {f : α → Setting} {shape : Shape}
    (h : Shaped R f shape) {o : Option Raw} {v : Option α} :
    Option.Rel R o v ↔
      (∀ raw, o = some raw → (read? shape raw).isSome) ∧ v.map f = o.bind (read? shape) := by
  cases o with
  | none =>
    cases v with
    | none => exact ⟨fun _ => ⟨fun _ h => (by cases h), rfl⟩, fun _ => .none⟩
    | some a => exact ⟨fun h => (by cases h), fun h => (by cases h.2)⟩
  | some raw =>
    constructor
    · rintro ⟨ha⟩
      have hread := (h.read raw _).2 ⟨_, ha, rfl⟩
      refine ⟨fun raw' he => ?_, hread.symm⟩
      cases he
      rw [hread]
      rfl
    · rintro ⟨hs, hv⟩
      obtain ⟨x, hx⟩ := Option.isSome_iff_exists.1 (hs raw rfl)
      obtain ⟨a, ha, rfl⟩ := (h.read raw x).1 hx
      rw [Option.bind_some, hx] at hv
      obtain ⟨b, rfl, hb⟩ := Option.map_eq_some_iff.1 hv
      rw [h.injective hb]
      exact .some ha

/-! ## Keys -/

/-- Every key of styled kinds has its shape where the kind has it; the last two are only for list
items. -/
theorem styledShape?_of_mem (kind : StyledKind) : ∀ row ∈ styledShapes,
    styledShape? kind row.1 = some row.2 ∨
      styledShape? kind row.1 = none ∧ row.1 ∉ keys (.styled kind) := by
  cases kind <;> decide

theorem mem_keys_styled {kind : StyledKind} {key : String} :
    key ∈ keys (.styled kind) ↔
      key = "node" ∨ key = "content" ∨ (styledShape? kind key).isSome = true := by
  constructor
  · have hall : ∀ name ∈ keys (.styled kind),
        name = "node" ∨ name = "content" ∨ (styledShape? kind name).isSome = true := by
      cases kind <;> decide
    exact hall key
  · rintro (rfl | rfl | h)
    · exact List.mem_append_left _ (by decide)
    · exact List.mem_append_left _ (by decide)
    · obtain ⟨shape, hs⟩ := Option.isSome_iff_exists.1 h
      by_contra hn
      have hrow : ∀ row ∈ styledShapes, row.1 ∉ keys (.styled kind) →
          styledShape? kind row.1 = none := by
        cases kind <;> decide
      rw [hrow _ (mem_styledShapes hs) hn] at hs
      cases hs

theorem isKnownKey_iff {kind : Kind} {key : String} :
    Node.isKnownKey kind key = true ↔ key ∈ keys kind := by
  cases kind with
  | styled kind =>
    rw [mem_keys_styled]
    simp [Node.isKnownKey, shape?, Kind.hasContent, or_assoc]
  | text | lineBreak | bold | italics | underline | color =>
    simp [Node.isKnownKey, keys, shape?, Kind.hasContent, or_assoc]

end Schema

/-! ## Checks that give a value -/

namespace Checked

variable {α β : Type}

/-- The check gives the value, without issues. -/
def Gives (c : Checked α) (a : α) : Prop :=
  c.issues = [] ∧ c.value = a

theorem gives_pure {a b : α} : (pure a : Checked α).Gives b ↔ a = b :=
  ⟨fun h => h.2, fun h => ⟨rfl, h⟩⟩

theorem gives_bind {x : Checked α} {f : α → Checked β} {b : β} :
    (x >>= f).Gives b ↔ ∃ a, x.Gives a ∧ (f a).Gives b := by
  unfold Gives
  rw [issues_bind, value_bind, List.append_eq_nil_iff]
  constructor
  · rintro ⟨⟨hx, hf⟩, hb⟩
    exact ⟨x.value, ⟨hx, rfl⟩, hf, hb⟩
  · rintro ⟨a, ⟨hx, rfl⟩, hf, hb⟩
    exact ⟨⟨hx, hf⟩, hb⟩

theorem not_gives_report {a b : α} {path : Path} {cause : Issue.Cause} {found : Option Raw} :
    ¬ (report a path cause found).Gives b :=
  fun h => issues_report_ne_nil _ _ _ _ h.1

end Checked

namespace Node

open Checked Schema

section

variable {fields : List (String × Raw)} {path : Path}

/-! ## Elements -/

theorem held_eq_none {key : String} (h : key ∉ Attribute.styledShapes.map Prod.fst) (style : Style) :
    style.held key = none := by
  have hkeys : ∀ name ∈ style.table.map Prod.fst, name ∈ Attribute.styledShapes.map Prod.fst := by
    show ∀ name ∈ ["fg", "bg", "bold", "underline", "italics", "margin", "marginLeft",
      "marginRight", "marginTop", "marginBottom", "bullet", "indent"], _
    decide
  unfold Style.held
  rw [lookup_eq_none_of_notMem (mt (hkeys key) h)]
  rfl

/-- What a style holds under a key is what the fields say of it. -/
structure Holds (kind : StyledKind) (fields : List (String × Raw)) (style : Style) (key : String) :
    Prop where
  read : ∀ shape, Attribute.styledShape? kind key = some shape → ∀ raw,
    fields.lookup key = some raw → (Attribute.read? shape raw).isSome
  held : style.held key = settingOf? (.styled kind) fields key

theorem checkSettings_gives_iff {kind : StyledKind} (ho : Raw.Ordered fields) {style : Style} :
    (fields.foldlM (checkSetting kind path) {}).Gives style ↔ ∀ key, Holds kind fields style key := by
  have hlookup := lookup_styled kind path ho
  simp only [Element.lookup_settings_styled] at hlookup
  unfold Gives
  rw [checkSettings_issues]
  constructor
  · rintro ⟨hi, rfl⟩ key
    exact ⟨fun shape hs raw hl => hi _ (mem_of_lookup hl) shape hs, hlookup key⟩
  · intro h
    refine ⟨fun field hf shape hs => (h field.1).read shape hs _ (ho.lookup_eq_some hf), ?_⟩
    -- no two styles hold the same under every key
    exact Style.eq_of_held fun key => (hlookup key).trans (h key).held.symm

section

variable {kind : StyledKind} {style : Style} {key : String}

theorem holds_of_shape {shape : Attribute.Shape} (h : Attribute.styledShape? kind key = some shape) :
    Holds kind fields style key ↔
      (∀ raw, fields.lookup key = some raw → (Attribute.read? shape raw).isSome) ∧
        style.held key = (fields.lookup key).bind (Attribute.read? shape) := by
  have hsetting : settingOf? (.styled kind) fields key =
      (fields.lookup key).bind (Attribute.read? shape) := by
    show (Attribute.styledShape? kind key).bind _ = _
    rw [h]
    rfl
  constructor
  · intro hh
    exact ⟨hh.read shape h, hh.held.trans hsetting⟩
  · rintro ⟨hread, hheld⟩
    refine ⟨fun shape' h' => ?_, hheld.trans hsetting.symm⟩
    cases h.symm.trans h'
    exact hread

theorem holds_of_no_shape (h : Attribute.styledShape? kind key = none) :
    Holds kind fields style key ↔ style.held key = none := by
  have hsetting : settingOf? (.styled kind) fields key = none := by
    show (Attribute.styledShape? kind key).bind _ = _
    rw [h]
    rfl
  constructor
  · intro hh
    exact hh.held.trans hsetting
  · intro hheld
    refine ⟨fun shape' h' => ?_, hheld.trans hsetting.symm⟩
    rw [h] at h'
    cases h'

end

/-- A key of a style holds what its field stands for, as a relation between the two. -/
theorem holds_iff_rel {kind : StyledKind} (hk : ∀ field ∈ fields, field.1 ∈ keys (.styled kind))
    (style : Style) (key : String) {α : Type} {R : Raw → α → Prop} {f : α → Setting}
    {shape : Attribute.Shape} (hr : Shaped R f shape) (hm : (key, shape) ∈ Attribute.styledShapes)
    {v : Option α} (hv : style.held key = v.map f) :
    Holds kind fields style key ↔ Option.Rel R (fields.lookup key) v := by
  rw [hr.rel_iff, ← hv]
  rcases styledShape?_of_mem kind _ hm with hs | ⟨hs, hn⟩
  · exact holds_of_shape hs
  · -- the kind does not have the key, so neither do the fields
    have hl : fields.lookup key = none :=
      lookup_eq_none_of_notMem fun h => by
        obtain ⟨field, hf, rfl⟩ := List.mem_map.1 h
        exact hn (hk field hf)
    rw [holds_of_no_shape hs, hl]
    exact ⟨fun h => ⟨fun _ h => (by cases h), h⟩, fun h => h.2⟩

theorem holds_iff_isStyle {kind : StyledKind} (hk : ∀ field ∈ fields, field.1 ∈ keys (.styled kind))
    {style : Style} : (∀ key, Holds kind fields style key) ↔ IsStyle fields style := by
  have hfg := holds_iff_rel hk style "fg" shaped_color (by decide) rfl
  have hbg := holds_iff_rel hk style "bg" shaped_color (by decide) rfl
  have hbold := holds_iff_rel hk style "bold" shaped_flag (by decide) rfl
  have hunder := holds_iff_rel hk style "underline" shaped_underline (by decide) rfl
  have hital := holds_iff_rel hk style "italics" shaped_flag (by decide) rfl
  have hmargin := holds_iff_rel hk style "margin" shaped_count (by decide) rfl
  have hleft := holds_iff_rel hk style "marginLeft" shaped_count (by decide) rfl
  have hright := holds_iff_rel hk style "marginRight" shaped_count (by decide) rfl
  have htop := holds_iff_rel hk style "marginTop" shaped_count (by decide) rfl
  have hbottom := holds_iff_rel hk style "marginBottom" shaped_count (by decide) rfl
  have hbullet := holds_iff_rel hk style "bullet" shaped_text (by decide) rfl
  have hindent := holds_iff_rel hk style "indent" shaped_count (by decide) rfl
  constructor
  · intro h
    exact ⟨hfg.1 (h _), hbg.1 (h _), hbold.1 (h _), hunder.1 (h _), hital.1 (h _), hmargin.1 (h _),
      hleft.1 (h _), hright.1 (h _), htop.1 (h _), hbottom.1 (h _), hbullet.1 (h _), hindent.1 (h _)⟩
  · intro h key
    -- a key that no styled kind has is neither read nor held
    by_cases hm : key ∈ Attribute.styledShapes.map Prod.fst
    · simp only [Attribute.styledShapes, List.map_cons, List.map_nil, List.mem_cons,
        List.not_mem_nil, or_false] at hm
      rcases hm with rfl | rfl | rfl | rfl | rfl | rfl | rfl | rfl | rfl | rfl | rfl | rfl
      · exact hfg.2 h.fg
      · exact hbg.2 h.bg
      · exact hbold.2 h.bold
      · exact hital.2 h.italics
      · exact hunder.2 h.underline
      · exact hmargin.2 h.margin
      · exact hleft.2 h.left
      · exact hright.2 h.right
      · exact htop.2 h.top
      · exact hbottom.2 h.bottom
      · exact hbullet.2 h.bullet
      · exact hindent.2 h.indent
    · have hs : Attribute.styledShape? kind key = none := by
        rw [Option.eq_none_iff_forall_ne_some]
        intro shape hs
        exact hm (List.mem_map.2 ⟨_, Attribute.mem_styledShapes hs, rfl⟩)
      exact (holds_of_no_shape hs).2 (held_eq_none hm style)

theorem checkUnderlineType_gives_iff {style : Underline} :
    (checkUnderlineType path fields).Gives style ↔
      ∃ raw, fields.lookup "type" = some raw ∧ IsUnderline raw style ∧ style ≠ .off := by
  have hread {raw : Raw} {found : Underline} :
      Attribute.read? .underline raw = some (.underline found) ↔ IsUnderline raw found := by
    rw [shaped_underline.read]
    exact ⟨fun ⟨a, ha, he⟩ => shaped_underline.injective he ▸ ha, fun h => ⟨found, h, rfl⟩⟩
  unfold Gives
  rw [checkUnderlineType_issues]
  constructor
  · rintro ⟨⟨raw, found, hl, hr, hs⟩, hv⟩
    rw [checkUnderlineType_value hl hr hs] at hv
    subst hv
    exact ⟨raw, hl, hread.1 hr, hs⟩
  · rintro ⟨raw, hl, hr, hs⟩
    exact ⟨⟨raw, style, hl, hread.2 hr, hs⟩, checkUnderlineType_value hl (hread.2 hr) hs⟩

theorem checkColorField_gives_iff {key : String} {color : Option Color} :
    (checkColorField path fields key).Gives color ↔
      Option.Rel IsColor (fields.lookup key) color := by
  unfold Gives
  rw [checkColorField_issues, shaped_color.rel_iff, ← checkColorField_value path]
  refine and_congr_right' ⟨fun h => by rw [h], fun h => ?_⟩
  exact (Option.map_injective shaped_color.injective h).symm

/-- The attributes of a node give the element they stand for. -/
theorem checkElement_gives_iff {kind : Kind} (hc : kind.hasContent = true) (ho : Raw.Ordered fields)
    (hk : ∀ field ∈ fields, field.1 ∈ keys kind) {e : Element} :
    (checkElement kind path fields).Gives e ↔ e.kind = kind ∧ IsElement fields e := by
  cases kind with
  | text => cases hc
  | lineBreak => cases hc
  | bold =>
    constructor
    · rintro ⟨-, rfl⟩
      exact ⟨rfl, .bold⟩
    · rintro ⟨hkind, he⟩
      cases he <;> cases hkind
      exact ⟨rfl, rfl⟩
  | italics =>
    constructor
    · rintro ⟨-, rfl⟩
      exact ⟨rfl, .italics⟩
    · rintro ⟨hkind, he⟩
      cases he <;> cases hkind
      exact ⟨rfl, rfl⟩
  | underline =>
    simp only [checkElement, gives_bind, gives_pure, checkUnderlineType_gives_iff]
    constructor
    · rintro ⟨style, ⟨raw, ht, hs, hne⟩, rfl⟩
      exact ⟨rfl, .underline ht hs hne⟩
    · rintro ⟨hkind, he⟩
      cases he <;> cases hkind
      rename_i raw style ht hs hne
      exact ⟨style, ⟨raw, ht, hs, hne⟩, rfl⟩
  | color =>
    simp only [checkElement, gives_bind, gives_pure, checkColorField_gives_iff]
    constructor
    · rintro ⟨fg, hfg, bg, hbg, rfl⟩
      exact ⟨rfl, .color hfg hbg⟩
    · rintro ⟨hkind, he⟩
      cases he <;> cases hkind
      rename_i fg bg hfg hbg
      exact ⟨fg, hfg, bg, hbg, rfl⟩
  | styled kind =>
    simp only [checkElement, gives_bind, gives_pure, checkSettings_gives_iff ho,
      holds_iff_isStyle hk]
    constructor
    · rintro ⟨style, hs, rfl⟩
      exact ⟨rfl, .styled kind hs⟩
    · rintro ⟨hkind, he⟩
      cases he <;> cases hkind
      rename_i style hs
      exact ⟨style, hs, rfl⟩

/-! ## Nodes -/

theorem checkKeys_iff {kind : Kind} :
    (checkKeys kind path fields).issues = [] ↔ ∀ field ∈ fields, field.1 ∈ keys kind := by
  rw [checkKeys_issues]
  simp only [isKnownKey_iff]

theorem checkText_gives_iff {value : String} :
    (checkText path fields).Gives value ↔
      ∃ raw, fields.lookup "value" = some raw ∧ IsText raw value := by
  unfold checkText
  simp only
  split
  · rename_i found hl
    rw [gives_pure, hl]
    constructor
    · rintro rfl
      exact ⟨_, rfl, .string found⟩
    · rintro ⟨raw, he, hv⟩
      cases he
      cases hv
      rfl
  · rename_i other hne hl
    refine ⟨fun h => absurd h not_gives_report, ?_⟩
    rintro ⟨raw, he, ⟨⟩⟩
    exact absurd (Option.some.inj (hl.symm.trans he)) (hne _)
  · rename_i hl
    refine ⟨fun h => absurd h not_gives_report, ?_⟩
    rintro ⟨raw, he, -⟩
    rw [hl] at he
    cases he

/-- No node is passed over without an issue. -/
theorem not_gives_none {content : Checked (Content Node)} :
    ¬ (checkFields path fields content).Gives none := by
  rintro ⟨hi, hv⟩
  rcases checkFields_clean hi with ⟨value, h⟩ | h | ⟨e, h, -⟩
  all_goals
    rw [hv] at h
    cases h

/-- The fields of an object give the node it stands for, if its content gives what it stands for. -/
theorem checkFields_gives_iff {depth : Nat} {content : Checked (Content Node)}
    (ho : Raw.Ordered fields)
    (hcontent : ∀ c, content.Gives c ↔ ContentDenotes depth (fields.lookup "content") c)
    {node : Node} :
    (checkFields path fields content).Gives (some node) ↔ Denotes depth (.object fields) node := by
  constructor
  · rintro ⟨hi, hv⟩
    obtain ⟨kind, htag⟩ := checkKind_clean (List.append_eq_nil_iff.1 hi).1
    -- the issues of a node are those of its keys, its attributes and its content, in this order
    by_cases hc : kind.hasContent = true
    · rw [checkFields_element htag hc] at hi hv
      obtain ⟨hkeys, hi⟩ := List.append_eq_nil_iff.1 hi
      obtain ⟨he, hi⟩ := List.append_eq_nil_iff.1 hi
      have hkeys := checkKeys_iff.1 hkeys
      obtain ⟨hkind, he⟩ := (checkElement_gives_iff hc ho hkeys).1 ⟨he, rfl⟩
      cases hv
      exact .element ⟨hkind.symm ▸ htag, hkind.symm ▸ hkeys⟩ he ((hcontent _).1 ⟨hi, rfl⟩)
    · cases kind with
      | text =>
        rw [checkFields_text htag] at hi hv
        obtain ⟨hkeys, hi⟩ := List.append_eq_nil_iff.1 hi
        obtain ⟨raw, hl, ht⟩ := checkText_gives_iff.1 ⟨hi, rfl⟩
        cases hv
        exact .text ⟨htag, checkKeys_iff.1 hkeys⟩ hl ht
      | lineBreak =>
        rw [checkFields_lineBreak htag] at hi hv
        cases hv
        exact .lineBreak ⟨htag, checkKeys_iff.1 hi⟩
      | bold | italics | underline | color | styled kind => exact absurd rfl hc
  · intro h
    cases h with
    | text hk hl hv =>
      rw [checkFields_text hk.tag]
      obtain ⟨hi, hv⟩ := checkText_gives_iff.2 ⟨_, hl, hv⟩
      exact ⟨List.append_eq_nil_iff.2 ⟨checkKeys_iff.2 hk.keys, hi⟩, by rw [hv]⟩
    | lineBreak hk =>
      rw [checkFields_lineBreak hk.tag]
      exact ⟨checkKeys_iff.2 hk.keys, rfl⟩
    | @element _ _ e c hk he hc =>
      have hkind : e.kind.hasContent = true := by cases he <;> rfl
      rw [checkFields_element hk.tag hkind]
      obtain ⟨hei, hev⟩ := (checkElement_gives_iff hkind ho hk.keys).2 ⟨rfl, he⟩
      obtain ⟨hci, hcv⟩ := (hcontent c).2 hc
      refine ⟨?_, by rw [hev, hcv]⟩
      exact List.append_eq_nil_iff.2 ⟨checkKeys_iff.2 hk.keys, List.append_eq_nil_iff.2 ⟨hei, hci⟩⟩

end

mutual

theorem checkContent_gives_iff (depth : Nat) (path : Path) : ∀ fields : List (String × Raw),
    (∀ field ∈ fields, field.2.Proper) → ∀ content : Content Node,
      (checkContent depth path fields).Gives content ↔
        ContentDenotes depth (fields.lookup "content") content
  | [], _, content => by
    unfold checkContent
    rw [gives_pure]
    constructor
    · rintro rfl
      exact .absent
    · rintro ⟨⟩
      rfl
  | (key, value) :: fields, ho, content => by
    rw [List.forall_mem_cons] at ho
    unfold checkContent
    rw [lookup_cons_ite]
    by_cases hk : key = "content"
    · rw [if_pos (beq_iff_eq.2 hk), if_pos hk.symm]
      simp only
      split
      · rename_i hd
        exact checkContentValue_gives_iff depth _ (Nat.le_of_lt_succ hd) value ho.1 content
      · rename_i hd
        refine ⟨fun h => absurd h not_gives_report, fun h => absurd ?_ hd⟩
        cases h with
        | single hd => exact Nat.lt_succ_of_le hd
        | many hd => exact Nat.lt_succ_of_le hd
    · rw [if_neg (by rwa [beq_iff_eq]), if_neg (Ne.symm hk)]
      exact checkContent_gives_iff depth path fields ho.2 content

theorem checkContentValue_gives_iff (depth : Nat) (path : Path) (hd : depth ≤ 63) : ∀ raw : Raw,
    raw.Proper → ∀ content : Content Node,
      (checkContentValue (depth + 1) path raw).Gives content ↔
        ContentDenotes depth (some raw) content
  | .object fields, ho, content => by
    rw [Raw.proper_object] at ho
    have hnode (node : Node) :
        (checkFields path fields (checkContent (depth + 1) path fields)).Gives (some node) ↔
          Denotes (depth + 1) (.object fields) node :=
      checkFields_gives_iff ho.1 (checkContent_gives_iff (depth + 1) path fields ho.2)
    unfold checkContentValue
    rw [gives_bind]
    constructor
    · rintro ⟨found, hf, hc⟩
      cases found with
      | none => exact absurd hf not_gives_none
      | some node =>
        cases gives_pure.1 hc
        exact .single hd ((hnode node).1 hf)
    · intro h
      cases h with
      | single _ h => exact ⟨_, (hnode _).2 h, gives_pure.2 rfl⟩
  | .array items, ho, content => by
    rw [Raw.proper_array] at ho
    have hnodes := checkNodes_gives_iff (depth + 1) path 0 items ho
    unfold checkContentValue
    rw [gives_bind]
    constructor
    · rintro ⟨nodes, hn, hc⟩
      cases gives_pure.1 hc
      exact .many hd ((hnodes nodes).1 hn)
    · intro h
      cases h with
      | single _ h => cases h
      | many _ h => exact ⟨_, (hnodes _).2 h, gives_pure.2 rfl⟩
  | .null, _, content | .bool _, _, content | .number _, _, content | .string _, _, content => by
    refine ⟨fun h => absurd h not_gives_report, fun h => ?_⟩
    cases h with
    | single _ h => cases h

theorem checkNodes_gives_iff (depth : Nat) (path : Path) : ∀ (index : Nat) (items : List Raw),
    (∀ raw ∈ items, raw.Proper) → ∀ nodes : List Node,
      (checkNodes depth path index items).Gives nodes ↔ AllDenote depth items nodes
  | _, [], _, nodes => by
    unfold checkNodes
    rw [gives_pure]
    constructor
    · rintro rfl
      exact .nil
    · rintro ⟨⟩
      rfl
  | index, .object fields :: items, ho, nodes => by
    rw [List.forall_mem_cons, Raw.proper_object] at ho
    have hnode (node : Node) :
        (checkFields (path ++ [.item index]) fields
          (checkContent depth (path ++ [.item index]) fields)).Gives (some node) ↔
          Denotes depth (.object fields) node :=
      checkFields_gives_iff ho.1.1 (checkContent_gives_iff depth _ fields ho.1.2)
    have hnodes := checkNodes_gives_iff depth path (index + 1) items ho.2
    unfold checkNodes
    simp only [gives_bind, gives_pure]
    constructor
    · rintro ⟨found, hf, rest, hr, rfl⟩
      cases found with
      | none => exact absurd hf not_gives_none
      | some node => exact .cons ((hnode node).1 hf) ((hnodes rest).1 hr)
    · rintro ⟨⟩
      rename_i node rest h hs
      exact ⟨some node, (hnode node).2 h, rest, (hnodes rest).2 hs, rfl⟩
  | _, .null :: _, _, nodes | _, .bool _ :: _, _, nodes | _, .number _ :: _, _, nodes
  | _, .string _ :: _, _, nodes | _, .array _ :: _, _, nodes => by
    unfold checkNodes
    rw [gives_bind]
    refine ⟨fun ⟨_, h, _⟩ => absurd h not_gives_report, fun h => ?_⟩
    cases h with
    | cons h _ => cases h

end

end Node

/-! ## Trees that are read -/

namespace Raw

mutual

theorem proper_readValue : ∀ (fuel : Nat) {cs rest : List Char} {raw : Raw},
    readValue fuel cs = some (raw, rest) → raw.Proper
  | 0, _, _, _, h => by
    unfold readValue at h
    cases h
  | fuel + 1, cs, rest, raw, h => by
    unfold readValue at h
    split at h
    · cases h
      exact proper_of_objects_eq_nil rfl
    · cases h
      exact proper_of_objects_eq_nil rfl
    · cases h
      exact proper_of_objects_eq_nil rfl
    · obtain ⟨read, -, he⟩ := Option.map_eq_some_iff.1 h
      cases he
      exact proper_of_objects_eq_nil rfl
    · split at h
      · cases h
        exact proper_array.2 fun _ hr => (by cases hr)
      · exact proper_readItems fuel (fun _ hr => (by cases hr)) h
    · split at h
      · cases h
        exact proper_object.2 ⟨ordered_nil, fun _ hf => (by cases hf)⟩
      · exact proper_readFields fuel ordered_nil (fun _ hf => (by cases hf)) h
    · obtain ⟨read, -, he⟩ := Option.map_eq_some_iff.1 h
      cases he
      exact proper_of_objects_eq_nil rfl

theorem proper_readItems : ∀ (fuel : Nat) {done : List Raw} {cs rest : List Char} {raw : Raw},
    (∀ item ∈ done, item.Proper) → readItems fuel done cs = some (raw, rest) → raw.Proper
  | 0, _, _, _, _, _, h => by
    unfold readItems at h
    cases h
  | fuel + 1, done, cs, rest, raw, hd, h => by
    unfold readItems at h
    split at h
    · cases h
    · rename_i item after hv
      have hitems : ∀ raw ∈ item :: done, raw.Proper :=
        List.forall_mem_cons.2 ⟨proper_readValue fuel hv, hd⟩
      split at h
      · exact proper_readItems fuel hitems h
      · cases h
        exact proper_array.2 fun raw hr => hitems raw (List.mem_reverse.1 hr)
      · cases h

theorem proper_readFields : ∀ (fuel : Nat) {done : List (String × Raw)} {cs rest : List Char}
    {raw : Raw}, Ordered done → (∀ field ∈ done, field.2.Proper) →
      readFields fuel done cs = some (raw, rest) → raw.Proper
  | 0, _, _, _, _, _, _, h => by
    unfold readFields at h
    cases h
  | fuel + 1, done, cs, rest, raw, ho, hd, h => by
    unfold readFields at h
    split at h
    · simp only at h
      split at h
      · cases h
      · rename_i key after hs
        split at h
        · split at h
          · cases h
          · rename_i value after hv
            have ho := ordered_insert ho key value
            have hfields : ∀ field ∈ insert key value done, field.2.Proper := by
              intro field hf
              rcases mem_insert hf with rfl | hf
              · exact proper_readValue _ hv
              · exact hd field hf
            split at h
            · exact proper_readFields _ ho hfields h
            · cases h
              exact proper_object.2 ⟨ho, hfields⟩
            · cases h
        · cases h
    · cases h

end

/-- A tree that is read from its text is proper. -/
theorem proper_of_ofText? {text : String} {raw : Raw} (h : ofText? text = some raw) :
    raw.Proper := by
  unfold ofText? at h
  simp only [Option.bind_eq_bind, Option.bind_eq_some_iff] at h
  obtain ⟨⟨read, rest⟩, hv, he⟩ := h
  simp only at he
  split at he
  · cases he
    exact proper_readValue _ hv
  · cases he

end Raw

namespace Node

open Checked

theorem ofRaw_eq_ok_iff_of_proper {raw : Raw} (h : raw.Proper) (nodes : List Node) :
    ofRaw raw = .ok nodes ↔ Schema.Document raw nodes := by
  rw [ofRaw_eq_ok_iff]
  cases raw with
  | array items =>
    have hnodes := checkNodes_gives_iff 0 [] 0 items (Raw.proper_array.1 h) nodes
    constructor
    · intro hc
      exact .array (hnodes.1 hc)
    · rintro ⟨hd⟩
      exact hnodes.2 hd
  | null | bool _ | number _ | string _ | object _ =>
    refine ⟨fun h => absurd h not_gives_report, ?_⟩
    rintro ⟨⟩

/-- Trees that are read are proper, and a proper tree is accepted exactly when it stands for some
nodes, and gives these: one node for each object of a list, at every level, with the values that its
fields stand for. -/
theorem ofRaw_eq_ok_iff_document :
    (∀ text raw, Raw.ofText? text = some raw → raw.Proper) ∧
      ∀ raw : Raw, raw.Proper → ∀ nodes : List Node,
        ofRaw raw = .ok nodes ↔ Schema.Document raw nodes :=
  ⟨fun _ _ => Raw.proper_of_ofText?, fun _ => ofRaw_eq_ok_iff_of_proper⟩

/-- A list item with a double underline in gray, and an underlined text with a line break. -/
theorem document_list_item_underline :
    let item : List (String × Raw) :=
      [("bullet", .string "*"), ("content", .object [("node", .string "br")]),
        ("fg", .string " GREY"), ("indent", .int 65535), ("node", .string "li"),
        ("underline", .string "Double")]
    let underlined : List (String × Raw) :=
      [("content", .array [.object [("node", .string "text"), ("value", .string "a")],
          .object [("node", .string "br")]]),
        ("node", .string "underline"), ("type", .bool true)]
    let raw : Raw := .array [.object item, .object underlined]
    let style : Style :=
      { font := { fg := some .gray, underline := some .double }
        list := { bullet := some "*", indent := some 65535 } }
    raw.Proper ∧ Schema.Document raw
      [.element (.styled .listItem style) (.single .lineBreak),
        .element (.underline .single) (.many [.text "a", .lineBreak])] := by
  intro item underlined raw style
  have hp : raw.Proper := by
    decide
  exact ⟨hp, (ofRaw_eq_ok_iff_document.2 raw hp _).1 rfl⟩

end Node

end TermMarkup
