/-
Settings by key. What an element sets is a table of keys and optional settings, in which each key
stands once; an element is given back by its kind and what its keys hold. A setting of the shape
that its key has is read back from its written text and from its untyped form.
-/
import TermMarkup.Node.Check
import TermMarkup.Text.Camel
import TermMarkup.Proofs.Fields

namespace TermMarkup

/-! ## Tables of settings -/

theorem settingsOf_none (key : String) (table : List (String × Option Setting)) :
    settingsOf ((key, none) :: table) = settingsOf table := rfl

theorem settingsOf_some (key : String) (setting : Setting)
    (table : List (String × Option Setting)) :
    settingsOf ((key, some setting) :: table) = (key, setting) :: settingsOf table := rfl

theorem mem_settingsOf {key : String} {setting : Setting}
    {table : List (String × Option Setting)} :
    (key, setting) ∈ settingsOf table ↔ (key, some setting) ∈ table := by
  induction table with
  | nil => exact ⟨fun h => (by cases h), fun h => (by cases h)⟩
  | cons row table ih =>
    obtain ⟨name, held⟩ := row
    cases held with
    | none => simp [settingsOf_none, ih]
    | some held => simp [settingsOf_some, ih]

theorem keys_settingsOf (table : List (String × Option Setting)) :
    ((settingsOf table).map Prod.fst).Sublist (table.map Prod.fst) := by
  induction table with
  | nil => exact List.Sublist.refl _
  | cons row table ih =>
    obtain ⟨name, held⟩ := row
    cases held with
    | none => exact ih.cons name
    | some held => exact ih.cons_cons name

theorem lookup_settingsOf {table : List (String × Option Setting)}
    (h : (table.map Prod.fst).Nodup) (key : String) :
    (settingsOf table).lookup key = (table.lookup key).join := by
  induction table with
  | nil => rfl
  | cons row table ih =>
    obtain ⟨name, held⟩ := row
    rw [List.map_cons, List.nodup_cons] at h
    rw [lookup_cons_ite]
    cases held with
    | none =>
      rw [settingsOf_none, ih h.2]
      by_cases hk : key = name
      · subst hk
        rw [lookup_eq_none_of_notMem h.1, if_pos rfl]
        rfl
      · rw [if_neg hk]
    | some held =>
      rw [settingsOf_some, lookup_cons_ite, ih h.2]
      by_cases hk : key = name
      · rw [if_pos hk, if_pos hk]
        rfl
      · rw [if_neg hk, if_neg hk]

/-- The keys of a style and what each holds. -/
def Style.table (s : Style) : List (String × Option Setting) :=
  [("fg", s.font.fg.map .color), ("bg", s.font.bg.map .color), ("bold", s.font.bold.map .flag),
    ("underline", s.font.underline.map .underline), ("italics", s.font.italics.map .flag),
    ("margin", s.spacing.margin.map .count), ("marginLeft", s.spacing.left.map .count),
    ("marginRight", s.spacing.right.map .count), ("marginTop", s.spacing.top.map .count),
    ("marginBottom", s.spacing.bottom.map .count), ("bullet", s.list.bullet.map .text),
    ("indent", s.list.indent.map .count)]

theorem Style.settings_eq (s : Style) : s.settings = settingsOf s.table := by
  unfold Style.settings Font.settings Spacing.settings Listing.settings settingsOf
  rw [← List.filterMap_append, ← List.filterMap_append]
  rfl

theorem Style.nodup_table (s : Style) : (s.table.map Prod.fst).Nodup := by
  show ["fg", "bg", "bold", "underline", "italics", "margin", "marginLeft", "marginRight",
    "marginTop", "marginBottom", "bullet", "indent"].Nodup
  decide

/-- What a key of a style holds. -/
def Style.held (s : Style) (key : String) : Option Setting :=
  (s.table.lookup key).join

theorem Style.held_empty (key : String) : ({} : Style).held key = none := by
  unfold held
  cases h : ({} : Style).table.lookup key with
  | none => rfl
  | some held =>
    have hm := mem_of_lookup h
    simp only [table, Option.map_none, List.mem_cons, Prod.mk.injEq, List.not_mem_nil,
      or_false, ← or_and_right] at hm
    rw [hm.2]
    rfl

/-- Styles whose tables differ at one key hold the same elsewhere. -/
theorem Style.held_set {s t : Style} {key : String} {x y : Option Setting}
    (before : List (String × Option Setting)) {after : List (String × Option Setting)}
    (hs : s.table = before ++ (key, y) :: after) (ht : t.table = before ++ (key, x) :: after)
    (k : String) : t.held k = if k = key then x else s.held k := by
  have hkey : key ∉ before.map Prod.fst := by
    have hn := s.nodup_table
    rw [hs, List.map_append, List.map_cons, List.nodup_append] at hn
    exact fun hb => hn.2.2 key hb key List.mem_cons_self rfl
  unfold held
  rw [hs, ht, lookup_replace hkey y x]
  split <;> rfl

theorem map_color_inj {a b : Option Color} (h : a.map Setting.color = b.map Setting.color) :
    a = b :=
  Option.map_injective (fun _ _ h => Setting.color.inj h) h

theorem map_flag_inj {a b : Option Bool} (h : a.map Setting.flag = b.map Setting.flag) : a = b :=
  Option.map_injective (fun _ _ h => Setting.flag.inj h) h

theorem map_count_inj {a b : Option Count} (h : a.map Setting.count = b.map Setting.count) :
    a = b :=
  Option.map_injective (fun _ _ h => Setting.count.inj h) h

/-- A style is given by what its keys hold. -/
theorem Style.eq_of_held {s t : Style} (h : ∀ key, s.held key = t.held key) : s = t := by
  have font : s.font = t.font := by
    have hfg : s.font.fg = t.font.fg := map_color_inj (h "fg")
    have hbg : s.font.bg = t.font.bg := map_color_inj (h "bg")
    have hbold : s.font.bold = t.font.bold := map_flag_inj (h "bold")
    have hunder : s.font.underline = t.font.underline :=
      Option.map_injective (fun _ _ h => Setting.underline.inj h) (h "underline")
    have hital : s.font.italics = t.font.italics := map_flag_inj (h "italics")
    exact Font.mk.injEq .. |>.mpr ⟨hfg, hbg, hbold, hunder, hital⟩
  have spacing : s.spacing = t.spacing := by
    have hmargin : s.spacing.margin = t.spacing.margin := map_count_inj (h "margin")
    have hleft : s.spacing.left = t.spacing.left := map_count_inj (h "marginLeft")
    have hright : s.spacing.right = t.spacing.right := map_count_inj (h "marginRight")
    have htop : s.spacing.top = t.spacing.top := map_count_inj (h "marginTop")
    have hbottom : s.spacing.bottom = t.spacing.bottom := map_count_inj (h "marginBottom")
    exact Spacing.mk.injEq .. |>.mpr ⟨hmargin, hleft, hright, htop, hbottom⟩
  have list : s.list = t.list := by
    have hbullet : s.list.bullet = t.list.bullet :=
      Option.map_injective (fun _ _ h => Setting.text.inj h) (h "bullet")
    have hindent : s.list.indent = t.list.indent := map_count_inj (h "indent")
    exact Listing.mk.injEq .. |>.mpr ⟨hbullet, hindent⟩
  exact Style.mk.injEq .. |>.mpr ⟨font, spacing, list⟩

namespace Element

/-- The keys of an element and what each holds. -/
def table : Element → List (String × Option Setting)
  | bold | italics => []
  | underline style => [("type", some (.underline style))]
  | color fg bg => [("fg", fg.map .color), ("bg", bg.map .color)]
  | styled _ style => style.table

theorem settings_eq (e : Element) : e.settings = settingsOf e.table := by
  cases e with
  | bold => rfl
  | italics => rfl
  | underline style => rfl
  | color fg bg => rfl
  | styled kind style => exact style.settings_eq

theorem nodup_table (e : Element) : (e.table.map Prod.fst).Nodup := by
  cases e with
  | bold => exact List.nodup_nil
  | italics => exact List.nodup_nil
  | underline style => exact List.nodup_singleton _
  | color fg bg =>
    show ["fg", "bg"].Nodup
    decide
  | styled kind style => exact style.nodup_table

theorem nodup_settings (e : Element) : (e.settings.map Prod.fst).Nodup := by
  rw [settings_eq]
  exact (keys_settingsOf e.table).nodup e.nodup_table

/-- What a key of an element holds. -/
theorem lookup_settings (e : Element) (key : String) :
    e.settings.lookup key = (e.table.lookup key).join := by
  rw [settings_eq, lookup_settingsOf e.nodup_table]

theorem lookup_settings_styled (kind : StyledKind) (style : Style) (key : String) :
    (styled kind style).settings.lookup key = style.held key :=
  lookup_settings _ _

/-- An element is given by its kind and what its keys hold. -/
theorem eq_of_lookup {e f : Element} (hk : e.kind = f.kind)
    (h : ∀ key, e.settings.lookup key = f.settings.lookup key) : e = f := by
  simp only [lookup_settings] at h
  cases e <;> cases f <;> simp only [kind, reduceCtorEq, Kind.styled.injEq] at hk
  · rfl
  · rfl
  · rename_i a b
    have ha : some (Setting.underline a) = some (Setting.underline b) := h "type"
    rw [Option.some.injEq, Setting.underline.injEq] at ha
    rw [ha]
  · rename_i fg bg fg' bg'
    have hfg : fg = fg' := map_color_inj (h "fg")
    have hbg : bg = bg' := map_color_inj (h "bg")
    rw [hfg, hbg]
  · rename_i a s b t
    have hs : s = t := Style.eq_of_held h
    rw [hk, hs]

end Element

/-! ## Shapes -/

/-- The shape of the attributes that hold a setting. -/
def Setting.shape : Setting → Attribute.Shape
  | color _ => .color
  | flag _ => .flag
  | underline _ => .underline
  | count _ => .number
  | text _ => .text

namespace Attribute

/-- The keys that styled kinds accept, each with its shape; the last two are for list items. -/
def styledShapes : List (String × Shape) :=
  [("fg", .color), ("bg", .color), ("bold", .flag), ("italics", .flag), ("underline", .underline),
    ("margin", .number), ("marginLeft", .number), ("marginRight", .number), ("marginTop", .number),
    ("marginBottom", .number), ("bullet", .text), ("indent", .number)]

/-- Every key that some kind accepts. -/
def keys : List String :=
  "type" :: styledShapes.map Prod.fst

theorem mem_styledShapes {kind : StyledKind} {key : String} {shape : Shape}
    (h : styledShape? kind key = some shape) : (key, shape) ∈ styledShapes := by
  unfold styledShape? margins at h
  split_ifs at h with h1 h2 h3 h4 h5 h6
  · simp at h h1
    subst h
    rcases h1 with rfl | rfl <;> decide
  · simp at h h2
    subst h
    rcases h2 with rfl | rfl <;> decide
  · simp at h h3
    subst h h3
    decide
  · simp at h h4
    subst h
    rcases h4 with rfl | rfl | rfl | rfl | rfl <;> decide
  · simp at h h5
    obtain ⟨-, rfl⟩ := h5
    subst h
    decide
  · simp at h h6
    obtain ⟨-, rfl⟩ := h6
    subst h
    decide

theorem shape?_underline {key : String} {shape : Shape} :
    shape? .underline key = some shape ↔ key = "type" ∧ shape = .underline := by
  show (if key == "type" then some Shape.underline else none) = some shape ↔ _
  split_ifs with h
  · rw [Option.some.injEq, eq_comm]
    exact ⟨fun hs => ⟨beq_iff_eq.1 h, hs⟩, fun hs => hs.2⟩
  · exact ⟨fun hs => (by cases hs), fun hs => absurd (beq_iff_eq.2 hs.1) h⟩

theorem shape?_color {key : String} {shape : Shape} :
    shape? .color key = some shape ↔ (key = "fg" ∨ key = "bg") ∧ shape = .color := by
  show (if key == "fg" || key == "bg" then some Shape.color else none) = some shape ↔ _
  rw [← beq_iff_eq (a := key), ← beq_iff_eq (a := key), ← Bool.or_eq_true]
  split_ifs with h
  · rw [Option.some.injEq, eq_comm]
    exact ⟨fun hs => ⟨h, hs⟩, fun hs => hs.2⟩
  · exact ⟨fun hs => (by cases hs), fun hs => absurd hs.1 h⟩

theorem mem_keys {kind : Kind} {key : String} {shape : Shape} (h : shape? kind key = some shape) :
    key ∈ keys := by
  cases kind with
  | underline =>
    obtain ⟨rfl, -⟩ := shape?_underline.1 h
    decide
  | color =>
    obtain ⟨rfl | rfl, -⟩ := shape?_color.1 h <;> decide
  | styled kind => exact List.mem_cons_of_mem _ (List.mem_map.2 ⟨_, mem_styledShapes h, rfl⟩)
  | text => cases h
  | lineBreak => cases h
  | bold => cases h
  | italics => cases h

theorem styledShape?_list {kind : StyledKind} (h : kind ≠ .listItem) :
    styledShape? kind "bullet" = none ∧ styledShape? kind "indent" = none := by
  cases kind with
  | listItem => exact absurd rfl h
  | h1 | h2 | h3 | body | paragraph | span | div => exact ⟨rfl, rfl⟩

theorem keys_reserved : ∀ key ∈ keys, key ≠ "node" ∧ key ≠ "content" ∧ key ≠ "value" := by
  decide

/-- The names of attributes are in camel case. -/
theorem camelCase_of_mem_keys : ∀ key ∈ keys, Text.camelCase key = key := by
  decide

end Attribute

namespace Element

theorem mem_keys_of_settings {e : Element} {key : String} (h : key ∈ e.settings.map Prod.fst) :
    key ∈ Attribute.keys := by
  have hm : key ∈ e.table.map Prod.fst := by
    rw [settings_eq] at h
    exact (keys_settingsOf e.table).subset h
  have hall : ∀ name ∈ e.table.map Prod.fst, name ∈ Attribute.keys := by
    cases e with
    | bold => exact fun _ hn => (by cases hn)
    | italics => exact fun _ hn => (by cases hn)
    | underline style =>
      show ∀ name ∈ ["type"], name ∈ Attribute.keys
      decide
    | color fg bg =>
      show ∀ name ∈ ["fg", "bg"], name ∈ Attribute.keys
      decide
    | styled kind style =>
      show ∀ name ∈ ["fg", "bg", "bold", "underline", "italics", "margin", "marginLeft",
        "marginRight", "marginTop", "marginBottom", "bullet", "indent"], name ∈ Attribute.keys
      decide
  exact hall key hm

/-- An element as documents may have it: an underline is one, and only list items say how an item
begins. -/
def Fits : Element → Prop
  | underline style => style ≠ .off
  | styled kind style => kind ≠ .listItem → style.list = {}
  | _ => True

theorem shape_of_map {α : Type} {f : α → Setting} {shape : Attribute.Shape}
    (hf : ∀ a, (f a).shape = shape) {held : Option α} {x : Setting} (h : some x = held.map f) :
    some shape = some x.shape := by
  obtain ⟨a, -, rfl⟩ := Option.map_eq_some_iff.1 h.symm
  rw [hf]

theorem shape_of_mem_styled {kind : StyledKind} {style : Style}
    (hf : kind ≠ .listItem → style.list = {}) {key : String} {x : Setting}
    (h : (key, some x) ∈ style.table) : Attribute.styledShape? kind key = some x.shape := by
  simp only [Style.table, List.mem_cons, Prod.mk.injEq, List.not_mem_nil, or_false] at h
  rcases h with ⟨rfl, h⟩ | ⟨rfl, h⟩ | ⟨rfl, h⟩ | ⟨rfl, h⟩ | ⟨rfl, h⟩ | ⟨rfl, h⟩ | ⟨rfl, h⟩ |
    ⟨rfl, h⟩ | ⟨rfl, h⟩ | ⟨rfl, h⟩ | ⟨rfl, h⟩ | ⟨rfl, h⟩
  · exact shape_of_map (f := .color) (fun _ => rfl) h
  · exact shape_of_map (f := .color) (fun _ => rfl) h
  · exact shape_of_map (f := .flag) (fun _ => rfl) h
  · exact shape_of_map (f := .underline) (fun _ => rfl) h
  · exact shape_of_map (f := .flag) (fun _ => rfl) h
  · exact shape_of_map (f := .count) (fun _ => rfl) h
  · exact shape_of_map (f := .count) (fun _ => rfl) h
  · exact shape_of_map (f := .count) (fun _ => rfl) h
  · exact shape_of_map (f := .count) (fun _ => rfl) h
  · exact shape_of_map (f := .count) (fun _ => rfl) h
  -- only a list item has something to say about its beginning
  · by_cases hk : kind = .listItem
    · subst hk
      exact shape_of_map (f := .text) (fun _ => rfl) h
    · rw [hf hk] at h
      cases h
  · by_cases hk : kind = .listItem
    · subst hk
      exact shape_of_map (f := .count) (fun _ => rfl) h
    · rw [hf hk] at h
      cases h

/-- The keys of an element are those its kind accepts, and hold settings of their shapes. -/
theorem shape_of_mem_settings {e : Element} (hf : e.Fits) {key : String} {x : Setting}
    (h : (key, x) ∈ e.settings) : Attribute.shape? e.kind key = some x.shape := by
  rw [settings_eq, mem_settingsOf] at h
  cases e with
  | bold => cases h
  | italics => cases h
  | underline style =>
    simp only [table, List.mem_singleton, Prod.mk.injEq, Option.some.injEq] at h
    obtain ⟨rfl, rfl⟩ := h
    rfl
  | color fg bg =>
    simp only [table, List.mem_cons, Prod.mk.injEq, List.not_mem_nil, or_false] at h
    rcases h with ⟨rfl, h⟩ | ⟨rfl, h⟩
    · exact shape_of_map (f := .color) (fun _ => rfl) h
    · exact shape_of_map (f := .color) (fun _ => rfl) h
  | styled kind style => exact shape_of_mem_styled hf h

end Element

/-! ## Reading a setting back -/

theorem Text.trimChars_eq_self {cs : List Char} (h : ∀ c ∈ cs, isBlank c = false) :
    trimChars cs = cs := by
  have keep : ∀ ds : List Char, (∀ c ∈ ds, isBlank c = false) → ds.dropWhile isBlank = ds := by
    intro ds hds
    cases ds with
    | nil => rfl
    | cons d ds =>
      apply List.dropWhile_cons_of_neg
      rw [hds d List.mem_cons_self]
      exact Bool.false_ne_true
  unfold trimChars
  rw [keep cs h, keep cs.reverse fun c hc => h c (List.mem_reverse.1 hc), List.reverse_reverse]

theorem Text.isBlank_of_isDigit {c : Char} (h : c.isDigit = true) : isBlank c = false := by
  have hn : 48 ≤ c.toNat ∧ c.toNat ≤ 57 := by
    unfold Char.isDigit at h
    simp only [Bool.and_eq_true, decide_eq_true_eq] at h
    exact h
  unfold isBlank
  simp only [Bool.or_eq_false_iff, Bool.and_eq_false_iff, decide_eq_false_iff_not,
    beq_eq_false_iff_ne]
  omega

namespace Attribute

theorem readDigits?_toDigits (n : Nat) : readDigits? (Nat.toDigits 10 n) = some n := by
  have hall : (Nat.toDigits 10 n).all Char.isDigit = true := by
    rw [List.all_eq_true]
    intro c hc
    exact Nat.isDigit_of_mem_toDigits (by omega) (by omega) hc
  have hne : (Nat.toDigits 10 n).isEmpty = false := by
    rw [List.isEmpty_eq_false_iff]
    exact Nat.toDigits_ne_nil
  unfold readDigits? Number.ofDigits
  rw [hall, hne, ← Nat.ofDigitChars_eq_foldl, Nat.ofDigitChars_ten_toDigits]
  rfl

/-- The decimal digits of a number of 64 bits are read as that number. -/
theorem readInt?_toDigits {n : Nat} (h : n < 2 ^ 63) :
    readInt? (Nat.toDigits 10 n) = some (n : Int) := by
  have hread := readDigits?_toDigits n
  unfold readInt?
  cases hds : Nat.toDigits 10 n with
  | nil => exact absurd hds Nat.toDigits_ne_nil
  | cons d ds =>
    have hd : d.isDigit = true :=
      Nat.isDigit_of_mem_toDigits (n := n) (b := 10) (by omega) (by omega)
        (by rw [hds]; exact List.mem_cons_self)
    rw [hds] at hread
    split
    · rename_i heq
      cases heq
      exact absurd hd (by decide)
    · rename_i heq
      cases heq
      exact absurd hd (by decide)
    · rw [hread]
      simp only [Option.bind_eq_bind, Option.bind_some, Option.pure_def, Option.map_some]
      rw [Option.filter_some, if_pos]
      simp only [Bool.and_eq_true, decide_eq_true_eq, Int.pow_eq]
      omega

theorem coerce_number {written : String} {n : Int}
    (h : readInt? (Text.trimChars written.toList) = some n) :
    coerce .number (some written) = .ok (.int n) := by
  simp only [coerce, h]

/-- The written text of a setting is read as its untyped form. -/
theorem coerce_written (x : Setting) : coerce x.shape (some x.written) = .ok x.toRaw := by
  cases x with
  | color c => rfl
  | flag b => cases b <;> rfl
  | underline u => rfl
  | text s => rfl
  | count n =>
    -- a count is below the limit of integers, and its digits leave nothing to trim
    have hn : n.val < 2 ^ 63 := by have := n.isLt; omega
    have hblank : ∀ c ∈ Nat.toDigits 10 n.val, Text.isBlank c = false := fun c hc =>
      Text.isBlank_of_isDigit (Nat.isDigit_of_mem_toDigits (by omega) (by omega) hc)
    have hread : readInt? (Text.trimChars (Nat.repr n.val).toList) = some (n.val : Int) := by
      rw [Nat.toList_repr, Text.trimChars_eq_self hblank, readInt?_toDigits hn]
    exact coerce_number hread

/-- The setting that an untyped value stands for on an attribute of the given shape. -/
def read? : Shape → Raw → Option Setting
  | .color, .string name => (Color.ofName? name).map .color
  | .flag, .bool flag => some (.flag flag)
  | .flag, .string written => (readFlag? written).map .flag
  | .number, raw => (Node.count? raw).map .count
  | .underline, .bool flag => some (.underline (if flag then .single else .off))
  | .underline, .string written => (Underline.ofName? written).map .underline
  | .text, .string text => some (.text text)
  | _, _ => none

/-- The untyped form of a setting stands for it. -/
theorem read?_toRaw (x : Setting) : read? x.shape x.toRaw = some x := by
  cases x with
  | color c => cases c <;> rfl
  | flag b => rfl
  | underline u => cases u <;> rfl
  | text s => rfl
  | count n =>
    show (Count.ofNat? n.val).map Setting.count = _
    unfold Count.ofNat?
    rw [dif_pos n.isLt]
    rfl

end Attribute

end TermMarkup
