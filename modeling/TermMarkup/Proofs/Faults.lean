/-
What the check can find wrong with the tree of a source. Such a tree has the form that the schema
asks for: its nodes have kinds, keys of their kind, values of the shape of their key, and content
that does not go too deep. On a tree of this form the issues are exactly the faults of its values: a
name that stands for no color or no underline, a count out of range, and an underline node that has
no type or the one for no underline.
-/
import Mathlib.Data.List.Basic
import TermMarkup.Document
import TermMarkup.Proofs.Locality
import TermMarkup.Proofs.Rendering
import TermMarkup.Proofs.Schema
import TermMarkup.Proofs.Tokens

namespace TermMarkup

namespace Schema

open Attribute

/-! ## Faults -/

/-- A value with the form of its shape that stands for nothing, and what is said of it. -/
inductive Unfit : Shape → Raw → Issue.Cause → Prop
  | color {name : String} (h : ∀ color, ¬ IsColor (.string name) color) :
    Unfit .color (.string name) (.unknownColor name)
  | underline {style : String} (h : ∀ found, ¬ IsUnderline (.string style) found) :
    Unfit .underline (.string style) (.unknownUnderline style)
  | count {n : Int} (h : ¬ (0 ≤ n ∧ n ≤ 65535)) : Unfit .number (.int n) .notCount

/-- What is wrong with the attributes of a node of the kind: the key, and what is said of it. -/
inductive Fault (kind : Kind) (fields : List (String × Raw)) : String → Issue.Cause → Prop
  | unfit {key : String} {shape : Shape} {raw : Raw} {cause : Issue.Cause}
    (hs : shape? kind key = some shape) (hl : fields.lookup key = some raw)
    (h : Unfit shape raw cause) : Fault kind fields key cause
  | underlineOff {style : String} (hk : kind = .underline)
    (hl : fields.lookup "type" = some (.string style)) (h : IsUnderline (.string style) .off) :
    Fault kind fields "type" .underlineOff
  | missingUnderline (hk : kind = .underline) (hl : fields.lookup "type" = none) :
    Fault kind fields "type" .missingUnderline

/-- The fields of the node that a path leads to, through content and the items of lists. -/
inductive NodeAt : Raw → Path → List (String × Raw) → Prop
  | here (fields : List (String × Raw)) : NodeAt (.object fields) [] fields
  | item {raws : List Raw} {index : Nat} {raw : Raw} {path : Path} {fields : List (String × Raw)}
    (hi : raws[index]? = some raw) (h : NodeAt raw path fields) :
    NodeAt (.array raws) (.item index :: path) fields
  | content {above : List (String × Raw)} {raw : Raw} {path : Path} {fields : List (String × Raw)}
    (hl : above.lookup "content" = some raw) (h : NodeAt raw path fields) :
    NodeAt (.object above) (.field "content" :: path) fields

/-- The issues that say what is wrong with the attributes of the nodes of a tree. -/
inductive FaultIn (raw : Raw) : Issue → Prop
  | node {path : Path} {fields : List (String × Raw)} {kind : Kind} {key : String}
    {cause : Issue.Cause} (hn : NodeAt raw path fields)
    (hk : fields.lookup "node" = some (.string kind.tag)) (hf : Fault kind fields key cause) :
    FaultIn raw ⟨path ++ [.field key], cause, fields.lookup key⟩

/-- An issue about an attribute of the node itself. -/
def OwnFault (fields : List (String × Raw)) (i : Issue) : Prop :=
  ∃ (kind : Kind) (key : String) (cause : Issue.Cause),
    fields.lookup "node" = some (.string kind.tag) ∧ Fault kind fields key cause ∧
      i = ⟨[.field key], cause, fields.lookup key⟩

theorem faultIn_array {raws : List Raw} {i : Issue} :
    FaultIn (.array raws) i ↔
      ∃ index raw, raws[index]? = some raw ∧ ∃ j, FaultIn raw j ∧ i = j.under [.item index] := by
  constructor
  · rintro ⟨hn, hk, hf⟩
    cases hn with
    | item hi hn => exact ⟨_, _, hi, _, .node hn hk hf, rfl⟩
  · rintro ⟨index, raw, hi, j, ⟨hn, hk, hf⟩, rfl⟩
    exact .node (.item hi hn) hk hf

theorem faultIn_object {fields : List (String × Raw)} {i : Issue} :
    FaultIn (.object fields) i ↔ OwnFault fields i ∨
      ∃ raw, fields.lookup "content" = some raw ∧
        ∃ j, FaultIn raw j ∧ i = j.under [.field "content"] := by
  constructor
  · rintro ⟨hn, hk, hf⟩
    cases hn with
    | here => exact Or.inl ⟨_, _, _, hk, hf, rfl⟩
    | content hl hn => exact Or.inr ⟨_, hl, _, .node hn hk hf, rfl⟩
  · rintro (⟨kind, key, cause, hk, hf, rfl⟩ | ⟨raw, hl, j, ⟨hn, hk, hf⟩, rfl⟩)
    · exact .node (.here fields) hk hf
    · exact .node (.content hl hn) hk hf

/-- Only an underline has faults other than values that stand for nothing. -/
theorem fault_iff {kind : Kind} (hk : kind ≠ .underline) {fields : List (String × Raw)}
    {key : String} {cause : Issue.Cause} :
    Fault kind fields key cause ↔ ∃ shape raw, shape? kind key = some shape ∧
      fields.lookup key = some raw ∧ Unfit shape raw cause := by
  constructor
  · rintro (⟨hs, hl, h⟩ | ⟨he, -, -⟩ | ⟨he, -⟩)
    · exact ⟨_, _, hs, hl, h⟩
    · exact absurd he hk
    · exact absurd he hk
  · rintro ⟨shape, raw, hs, hl, h⟩
    exact .unfit hs hl h

theorem kind_of_lookup {fields : List (String × Raw)} {kind other : Kind}
    (h : fields.lookup "node" = some (.string kind.tag))
    (h' : fields.lookup "node" = some (.string other.tag)) : kind = other := by
  rw [h, Option.some.injEq, Raw.string.injEq] at h'
  have he : some kind = some other := by
    rw [← Node.ofTag?_tag kind, h', Node.ofTag?_tag]
  exact Option.some.inj he

theorem ownFault_iff {kind : Kind} {fields : List (String × Raw)}
    (hk : fields.lookup "node" = some (.string kind.tag)) {i : Issue} :
    OwnFault fields i ↔ ∃ key cause, Fault kind fields key cause ∧
      i = ⟨[.field key], cause, fields.lookup key⟩ := by
  constructor
  · rintro ⟨found, key, cause, hfound, hf, rfl⟩
    cases kind_of_lookup hk hfound
    exact ⟨key, cause, hf, rfl⟩
  · rintro ⟨key, cause, hf, rfl⟩
    exact ⟨kind, key, cause, hk, hf, rfl⟩

/-! ## Trees of the form of the schema -/

/-- The nodes that content is made of. -/
def parts : Raw → List Raw
  | .array raws => raws
  | raw => [raw]

/-- A node, with `depth` elements around it, in which only values of attributes can be wrong. -/
inductive Formed : Nat → Raw → Prop
  | text (depth : Nat) (value : String) :
    Formed depth (.object [("node", .string "text"), ("value", .string value)])
  | lineBreak (depth : Nat) {fields : List (String × Raw)} (hk : IsKind .lineBreak fields)
    (hc : fields.lookup "content" = none) : Formed depth (.object fields)
  | element {depth : Nat} {kind : Kind} {fields : List (String × Raw)}
    (hc : kind.hasContent = true) (hk : IsKind kind fields) (ho : Raw.Ordered fields)
    (hv : ∀ field ∈ fields, ∀ shape, shape? kind field.1 = some shape → HasForm shape field.2)
    (hd : ∀ content, fields.lookup "content" = some content → depth < maxNesting)
    (hs : ∀ content, fields.lookup "content" = some content →
      ∀ part ∈ parts content, Formed (depth + 1) part) : Formed depth (.object fields)

theorem Formed.isObject {depth : Nat} {raw : Raw} (h : Formed depth raw) :
    ∃ fields, raw = .object fields := by
  cases h with
  | text | lineBreak | element => exact ⟨_, rfl⟩

end Schema

namespace Node

open Checked Schema Attribute

/-! ## Issues of values -/

section

variable {α β : Type} {shape : Shape} {raw : Raw} {path : Path}

/-- A check of a value that reports exactly what is wrong with it. -/
def Reports (c : Checked α) (path : Path) (shape : Shape) (raw : Raw) : Prop :=
  ∀ i, i ∈ c.issues ↔ ∃ cause, Unfit shape raw cause ∧ i = ⟨path, cause, some raw⟩

theorem reports_pure {a : α} (h : ∀ cause, ¬ Unfit shape raw cause) :
    Reports (pure a) path shape raw := by
  intro i
  simp [h]

theorem reports_report {a : α} {cause : Issue.Cause}
    (h : ∀ found, Unfit shape raw found ↔ found = cause) :
    Reports (report a path cause (some raw)) path shape raw := by
  intro i
  simp [report, h]

theorem Reports.map {c : Checked α} (h : Reports c path shape raw) (f : α → β) :
    Reports (c >>= fun a => pure (f a)) path shape raw := by
  intro i
  rw [issues_bind, issues_pure, List.append_nil, h]

theorem checkColor_reports (h : HasForm .color raw) :
    Reports (checkColor path raw) path .color raw := by
  obtain ⟨name⟩ := h
  unfold checkColor
  simp only
  split
  · rename_i color hn
    refine reports_pure fun cause hu => ?_
    cases hu with
    | color hu => exact hu color (ofName?_iff.1 hn)
  · rename_i hn
    refine reports_report fun found => ⟨fun hu => ?_, ?_⟩
    · cases hu
      rfl
    · rintro rfl
      refine .color fun color hc => ?_
      rw [ofName?_iff.2 hc] at hn
      cases hn

theorem checkFlag_reports (h : HasForm .flag raw) :
    Reports (checkFlag path raw) path .flag raw := by
  obtain ⟨value⟩ := h
  exact reports_pure fun cause hu => by cases hu

theorem checkBullet_reports (h : HasForm .text raw) :
    Reports (checkBullet path raw) path .text raw := by
  obtain ⟨value⟩ := h
  exact reports_pure fun cause hu => by cases hu

/-- An integer is a count exactly if it is from 0 to 65535. -/
theorem count?_int_eq_none_iff (n : Int) : count? (.int n) = none ↔ ¬ (0 ≤ n ∧ n ≤ 65535) := by
  rw [Option.eq_none_iff_forall_ne_some]
  constructor
  · rintro h ⟨hlo, hhi⟩
    obtain ⟨m, rfl⟩ := Int.eq_ofNat_of_zero_le hlo
    have hm : m < 65536 := by omega
    exact h ⟨m, hm⟩ (count?_iff.2 (.int ⟨m, hm⟩))
  · intro h count hc
    cases count?_iff.1 hc with
    | int count =>
      have := count.isLt
      omega

theorem checkCount_reports (h : HasForm .number raw) :
    Reports (checkCount path raw) path .number raw := by
  cases h with | number n
  have hnone := count?_int_eq_none_iff n
  unfold checkCount
  split
  · rename_i count hc
    rw [hc] at hnone
    refine reports_pure fun cause hu => ?_
    cases hu with
    | count hu => exact absurd (hnone.2 hu) (by simp)
  · rename_i hc
    refine reports_report fun found => ⟨fun hu => ?_, ?_⟩
    · cases hu
      rfl
    · rintro rfl
      exact .count (hnone.1 hc)

theorem checkUnderline_reports (h : HasForm .underline raw) :
    Reports (checkUnderline path raw) path .underline raw := by
  cases h with
  | bareUnderline => exact reports_pure fun cause hu => by cases hu
  | underline style =>
    unfold checkUnderline
    simp only
    split
    · rename_i found hn
      refine reports_pure fun cause hu => ?_
      cases hu with
      | underline hu => exact hu found (.word (underline_ofName?_iff.1 hn))
    · rename_i hn
      refine reports_report fun found => ⟨fun hu => ?_, ?_⟩
      · cases hu
        rfl
      · rintro rfl
        refine .underline fun found hw => ?_
        cases hw with
        | word hw =>
          rw [underline_ofName?_iff.2 hw] at hn
          cases hn

end

theorem checkSetting_reports {kind : StyledKind} {key : String} {shape : Shape} {raw : Raw}
    (hs : styledShape? kind key = some shape) (hv : HasForm shape raw) (path : Path)
    (style : Style) :
    Reports (checkSetting kind path style (key, raw)) (path ++ [.field key]) shape raw := by
  have hm := mem_styledShapes hs
  unfold checkSetting
  simp only [hs]
  simp only [styledShapes, List.mem_cons, Prod.mk.injEq, List.not_mem_nil, or_false] at hm
  rcases hm with ⟨rfl, rfl⟩ | ⟨rfl, rfl⟩ | ⟨rfl, rfl⟩ | ⟨rfl, rfl⟩ | ⟨rfl, rfl⟩ | ⟨rfl, rfl⟩ |
    ⟨rfl, rfl⟩ | ⟨rfl, rfl⟩ | ⟨rfl, rfl⟩ | ⟨rfl, rfl⟩ | ⟨rfl, rfl⟩ | ⟨rfl, rfl⟩
  · exact (checkColor_reports hv).map _
  · exact (checkColor_reports hv).map _
  · exact (checkFlag_reports hv).map _
  · exact (checkFlag_reports hv).map _
  · exact (checkUnderline_reports hv).map _
  · exact (checkCount_reports hv).map _
  · exact (checkCount_reports hv).map _
  · exact (checkCount_reports hv).map _
  · exact (checkCount_reports hv).map _
  · exact (checkCount_reports hv).map _
  · exact (checkBullet_reports hv).map _
  · exact (checkCount_reports hv).map _

/-! ## Issues of elements -/

section

variable {fields : List (String × Raw)} {path : Path}

theorem mem_issues_checkSettings {kind : StyledKind} {i : Issue}
    (hv : ∀ field ∈ fields, ∀ shape, styledShape? kind field.1 = some shape →
      HasForm shape field.2) (style : Style) :
    i ∈ (fields.foldlM (checkSetting kind path) style).issues ↔
      ∃ field ∈ fields, ∃ shape cause, styledShape? kind field.1 = some shape ∧
        Unfit shape field.2 cause ∧ i = ⟨path ++ [.field field.1], cause, some field.2⟩ := by
  induction fields generalizing style with
  | nil => exact ⟨fun h => (by cases h), fun ⟨_, h, _⟩ => (by cases h)⟩
  | cons field fields ih =>
    rw [List.forall_mem_cons] at hv
    rw [List.foldlM_cons, issues_bind, List.mem_append, ih hv.2, List.exists_mem_cons_iff]
    refine or_congr_left ?_
    cases hs : styledShape? kind field.1 with
    | none =>
      rw [checkSetting_other hs path style field.2]
      exact ⟨fun h => (by cases h), fun ⟨_, _, h, _⟩ => (by cases h)⟩
    | some shape =>
      rw [checkSetting_reports hs (hv.1 shape hs) path style i]
      constructor
      · rintro ⟨cause, hu, rfl⟩
        exact ⟨shape, cause, rfl, hu, rfl⟩
      · rintro ⟨found, cause, hf, hu, rfl⟩
        cases hf
        exact ⟨cause, hu, rfl⟩

theorem mem_issues_checkColorField {key : String} {i : Issue}
    (hv : ∀ raw, fields.lookup key = some raw → HasForm .color raw) :
    i ∈ (checkColorField path fields key).issues ↔
      ∃ raw cause, fields.lookup key = some raw ∧ Unfit .color raw cause ∧
        i = ⟨path ++ [.field key], cause, some raw⟩ := by
  unfold checkColorField
  cases hl : fields.lookup key with
  | none => exact ⟨fun h => (by cases h), fun ⟨_, _, h, _⟩ => (by cases h)⟩
  | some raw =>
    simp only [Option.some.injEq]
    rw [checkColor_reports (hv raw hl) i]
    constructor
    · rintro ⟨cause, hu, rfl⟩
      exact ⟨raw, cause, rfl, hu, rfl⟩
    · rintro ⟨_, cause, rfl, hu, rfl⟩
      exact ⟨cause, hu, rfl⟩

theorem checkUnderline_value {raw : Raw} {style : Underline} :
    (checkUnderline path raw).value = some style ↔ IsUnderline raw style := by
  have hread := (checkUnderline_reads path raw).value
  have hshaped := shaped_underline.read raw (.underline style)
  rw [← hread] at hshaped
  constructor
  · intro hv
    rw [hv] at hshaped
    obtain ⟨found, hf, he⟩ := hshaped.1 rfl
    exact shaped_underline.injective he ▸ hf
  · intro hs
    obtain ⟨found, hf, he⟩ := Option.map_eq_some_iff.1 (hshaped.2 ⟨style, hs, rfl⟩)
    rw [hf, shaped_underline.injective he]

/-- The type of an underline is missing, stands for no style, or for the one without a line. -/
theorem fault_underline_iff {key : String} {cause : Issue.Cause}
    (hv : ∀ raw, fields.lookup "type" = some raw → HasForm .underline raw) :
    Fault .underline fields key cause ↔ key = "type" ∧
      match fields.lookup "type" with
      | none => cause = .missingUnderline
      | some raw => Unfit .underline raw cause ∨ cause = .underlineOff ∧ IsUnderline raw .off := by
  constructor
  · intro h
    cases h with
    | unfit hs hl hu =>
      obtain ⟨rfl, rfl⟩ := shape?_underline.1 hs
      rw [hl]
      exact ⟨rfl, Or.inl hu⟩
    | underlineOff _ hl hs =>
      rw [hl]
      exact ⟨rfl, Or.inr ⟨rfl, hs⟩⟩
    | missingUnderline _ hl =>
      rw [hl]
      exact ⟨rfl, rfl⟩
  · rintro ⟨rfl, h⟩
    cases hl : fields.lookup "type" with
    | none =>
      rw [hl] at h
      exact h ▸ .missingUnderline rfl hl
    | some raw =>
      rw [hl] at h
      rcases h with hu | ⟨rfl, hs⟩
      · exact .unfit rfl hl hu
      · -- written without a value, the type is a single line
        cases hv raw hl with
        | bareUnderline => cases hs
        | underline style => exact .underlineOff rfl hl hs

theorem mem_issues_checkUnderlineType {i : Issue}
    (hv : ∀ raw, fields.lookup "type" = some raw → HasForm .underline raw) :
    i ∈ (checkUnderlineType path fields).issues ↔
      ∃ key cause, Fault .underline fields key cause ∧
        i = ⟨path ++ [.field key], cause, fields.lookup key⟩ := by
  simp only [fault_underline_iff hv, and_assoc, exists_and_left, exists_eq_left]
  unfold checkUnderlineType
  cases hl : fields.lookup "type" with
  | none => simp [report]
  | some raw =>
    simp only [issues_bind, List.mem_append, checkUnderline_reports (hv raw hl) i,
      or_and_right, exists_or, and_assoc, exists_eq_left]
    refine or_congr_right ?_
    rw [← @checkUnderline_value (path ++ [.field "type"])]
    split
    · rename_i hs
      simp [report, hs]
    · rename_i style hne hs
      have hoff : style ≠ .off := hne
      simp [hs, hoff]
    · rename_i hs
      simp [hs]

/-- The issues of the attributes of an element are its faults. -/
theorem mem_issues_checkElement {kind : Kind} {i : Issue} (ho : Raw.Ordered fields)
    (hc : kind.hasContent = true)
    (hv : ∀ field ∈ fields, ∀ shape, shape? kind field.1 = some shape → HasForm shape field.2) :
    i ∈ (checkElement kind path fields).issues ↔
      ∃ key cause, Fault kind fields key cause ∧
        i = ⟨path ++ [.field key], cause, fields.lookup key⟩ := by
  cases kind with
  | text => cases hc
  | lineBreak => cases hc
  | bold | italics =>
    refine ⟨fun h => (by cases h), ?_⟩
    rintro ⟨key, cause, hf, rfl⟩
    obtain ⟨shape, raw, hs, -⟩ := (fault_iff (by decide)).1 hf
    cases hs
  | underline =>
    show i ∈ (checkUnderlineType path fields).issues ++ [] ↔ _
    rw [List.append_nil, mem_issues_checkUnderlineType]
    exact fun raw hl => hv _ (mem_of_lookup hl) _ rfl
  | color =>
    have hform (key : String) (hk : key = "fg" ∨ key = "bg") (raw : Raw)
        (hl : fields.lookup key = some raw) : HasForm .color raw :=
      hv _ (mem_of_lookup hl) _ (shape?_color.2 ⟨hk, rfl⟩)
    show i ∈ (checkColorField path fields "fg").issues ++
      ((checkColorField path fields "bg").issues ++ []) ↔ _
    rw [List.append_nil, List.mem_append, mem_issues_checkColorField (hform "fg" (Or.inl rfl)),
      mem_issues_checkColorField (hform "bg" (Or.inr rfl))]
    simp only [fault_iff (show Kind.color ≠ .underline by decide)]
    constructor
    · rintro (⟨raw, cause, hl, hu, rfl⟩ | ⟨raw, cause, hl, hu, rfl⟩)
      · exact ⟨"fg", cause, ⟨.color, raw, rfl, hl, hu⟩, by rw [hl]⟩
      · exact ⟨"bg", cause, ⟨.color, raw, rfl, hl, hu⟩, by rw [hl]⟩
    · rintro ⟨key, cause, ⟨shape, raw, hs, hl, hu⟩, rfl⟩
      obtain ⟨rfl | rfl, rfl⟩ := shape?_color.1 hs
      · exact Or.inl ⟨raw, cause, hl, hu, by rw [hl]⟩
      · exact Or.inr ⟨raw, cause, hl, hu, by rw [hl]⟩
  | styled kind =>
    show i ∈ (fields.foldlM (checkSetting kind path) {}).issues ++ [] ↔ _
    rw [List.append_nil, mem_issues_checkSettings hv]
    simp only [fault_iff (show Kind.styled kind ≠ .underline by rintro ⟨⟩)]
    constructor
    · rintro ⟨field, hf, shape, cause, hs, hu, rfl⟩
      have hl := ho.lookup_eq_some hf
      exact ⟨field.1, cause, ⟨shape, field.2, hs, hl, hu⟩, by rw [hl]⟩
    · rintro ⟨key, cause, ⟨shape, raw, hs, hl, hu⟩, rfl⟩
      exact ⟨(key, raw), mem_of_lookup hl, shape, cause, hs, hu, by rw [hl]⟩

end

/-! ## Issues of trees -/

/-- The issues of a node are its own faults and those in its content. -/
def Explained (depth : Nat) (raw : Raw) : Prop :=
  ∀ i, i ∈ (checkNode depth [] raw).issues ↔ FaultIn raw i

theorem mem_issues_checkNodes {depth : Nat} {raws : List Raw}
    (h : ∀ raw ∈ raws, Explained depth raw) (path : Path) (i : Issue) :
    i ∈ (checkNodes depth path 0 raws).issues ↔ ∃ j, FaultIn (.array raws) j ∧ i = j.under path := by
  rw [checkNodes_eq]
  simp only [List.mem_flatMap, issues_under, List.mem_map, Prod.exists,
    List.mk_mem_zipIdx_iff_getElem?]
  constructor
  · rintro ⟨raw, index, hi, j, hj, rfl⟩
    have hf := (h raw (List.mem_of_getElem? hi) j).1 hj
    refine ⟨_, faultIn_array.2 ⟨index, raw, hi, j, hf, rfl⟩, ?_⟩
    simp [Issue.under]
  · rintro ⟨_, hf, rfl⟩
    obtain ⟨index, raw, hi, j, hj, rfl⟩ := faultIn_array.1 hf
    refine ⟨raw, index, hi, j, (h raw (List.mem_of_getElem? hi) j).2 hj, ?_⟩
    simp [Issue.under]

theorem mem_issues_checkContentValue {depth : Nat} {content : Raw}
    (hf : ∀ part ∈ parts content, Formed depth part)
    (h : ∀ part ∈ parts content, Explained depth part) (path : Path) (i : Issue) :
    i ∈ (checkContentValue depth path content).issues ↔
      ∃ j, FaultIn content j ∧ i = j.under path := by
  cases content with
  | array raws =>
    rw [checkContentValue, issues_bind, issues_pure, List.append_nil]
    exact mem_issues_checkNodes h path i
  | object fields =>
    rw [checkContentValue_object, checkNode_eq_under, issues_under]
    simp only [List.mem_map, h (.object fields) List.mem_cons_self _, eq_comm]
  | null | bool _ | number _ | string _ =>
    -- a part of a tree that is formed is an object
    obtain ⟨fields, he⟩ := (hf _ List.mem_cons_self).isObject
    cases he

/-- A node of a kind without attributes and without content has no faults in it. -/
theorem not_faultIn {kind : Kind} {fields : List (String × Raw)}
    (hk : fields.lookup "node" = some (.string kind.tag)) (hs : ∀ key, shape? kind key = none)
    (hc : fields.lookup "content" = none) (i : Issue) : ¬ FaultIn (.object fields) i := by
  have hne : kind ≠ .underline := by
    rintro rfl
    cases hs "type"
  rw [faultIn_object, ownFault_iff hk]
  rintro (⟨key, cause, hf, -⟩ | ⟨raw, hl, -⟩)
  · obtain ⟨shape, raw, hshape, -⟩ := (fault_iff hne).1 hf
    rw [hs] at hshape
    cases hshape
  · rw [hc] at hl
    cases hl

/-- In a tree of the form of the schema the issues are the faults. -/
theorem explained_of_formed {depth : Nat} {raw : Raw} (h : Formed depth raw) :
    Explained depth raw := by
  induction h with
  | text depth value =>
    have hnode : (checkNode depth [] (.object [("node", .string "text"),
      ("value", .string value)])).issues = [] := rfl
    intro i
    rw [hnode]
    refine ⟨fun h => (by cases h), fun h => absurd h ?_⟩
    exact @not_faultIn .text _ rfl (fun _ => rfl) rfl i
  | lineBreak depth hk hc =>
    rename_i fields
    have hnode : checkNode depth [] (.object fields) = _ :=
      checkFields_lineBreak hk.tag (checkContent depth [] fields)
    intro i
    rw [hnode, checkKeys_iff.2 hk.keys]
    refine ⟨fun h => (by cases h), fun h => absurd h ?_⟩
    exact not_faultIn hk.tag (fun _ => rfl) hc i
  | @element depth kind fields hc hk ho hv hd hs ih =>
    have hnode : checkNode depth [] (.object fields) = _ :=
      checkFields_element hk.tag hc (checkContent depth [] fields)
    intro i
    -- the kind and the keys are right, which leaves the attributes and the content
    rw [hnode, checkKeys_iff.2 hk.keys, List.nil_append, List.mem_append,
      mem_issues_checkElement ho hc hv, faultIn_object, ownFault_iff hk.tag]
    refine or_congr_right ?_
    rw [checkContent_eq]
    cases hl : fields.lookup "content" with
    | none => exact ⟨fun h => (by cases h), fun ⟨_, h, _⟩ => (by cases h)⟩
    | some content =>
      simp only [if_pos (hd content hl), Option.some.injEq, exists_eq_left']
      exact mem_issues_checkContentValue (hs content hl) (ih content hl) _ i

end Node

/-! ## The trees of sources -/

namespace Item

open Schema Attribute

theorem parts_contentOf {children : List Raw} {content : Raw} (h : contentOf children = some content)
    (ho : ∀ child ∈ children, ∃ fields, child = .object fields) : parts content = children := by
  match children, h with
  | [child], h =>
    cases h
    obtain ⟨fields, rfl⟩ := ho content List.mem_cons_self
    rfl
  | first :: second :: others, h =>
    cases h
    rfl

theorem formed_text (depth : Nat) {value : String} {raw : Raw} (h : toRaw (.text value) = .ok raw) :
    Formed depth raw := by
  have hraw : raw = Node.toRaw (.text (Entity.decode value)) := by
    cases h
    rw [Node.toRaw]
  rw [hraw, Node.toRaw_text]
  exact .text depth _

theorem formed_element {depth : Nat} {kind : Kind} {fields : List (String × Raw)}
    {children : List Raw} (hc : kind.hasContent = true) (ht : TagFields kind fields)
    (hd : children ≠ [] → depth < maxNesting)
    (hs : ∀ child ∈ children, Formed (depth + 1) child) :
    Formed depth (.object (fieldsWith fields children)) := by
  have hcontent := lookup_fieldsWith_content ht children
  refine .element hc ⟨lookup_fieldsWith_node ht children, fun field hf => ?_⟩
    (ordered_fieldsWith ht.ordered children) (fun field hf shape hshape => ?_)
    (fun content hl => ?_) fun content hl => ?_
  · exact isKnownKey_iff.1 (isKnownKey_of_tagFields ht hc hf)
  · rcases mem_fieldsWith hf with hk | hf
    · exact absurd hk (keys_reserved _ (mem_keys hshape)).2.1
    · exact ht.formed field hf shape hshape
  · refine hd ?_
    rintro rfl
    rw [hcontent] at hl
    cases hl
  · rw [parts_contentOf (hcontent.symm.trans hl) fun child hm => (hs child hm).isObject]
    exact hs

theorem formed_selfClosing (depth : Nat) {tag : OpenTag} {raw : Raw}
    (h : toRaw (.selfClosing tag) = .ok raw) : Formed depth raw := by
  obtain ⟨kind, fields, hk, hf, rfl⟩ := toRaw_selfClosing_iff.1 h
  have ht := OpenTag.tagFields hf
  by_cases hb : kind = .lineBreak
  · subst hb
    refine .lineBreak depth ⟨ht.node, fun field hm => ?_⟩ ht.lookup_content
    rcases ht.known field hm with hn | hs
    · exact hn ▸ List.mem_cons_self
    · cases hs
  · have hc := hasContent_of_ne (OpenTag.kind_eq_ok_iff.1 hk).2 hb
    exact @formed_element depth kind fields [] hc ht (fun h => absurd rfl h) (List.forall_mem_nil _)

/-- What items mean has the form of the schema, if no body lies too deep. -/
theorem formed_of_toRaws {items : List Item} {depth : Nat} {raws : List Raw}
    (hs : Shallow depth items) (hr : toRaws items = .ok raws) : ∀ raw ∈ raws, Formed depth raw := by
  induction items using itemInduction generalizing depth raws with
  | nil =>
    cases hr
    exact List.forall_mem_nil _
  | text value items ih =>
    obtain ⟨first, others, hf, ho, rfl⟩ := toRaws_cons_iff.1 hr
    exact List.forall_mem_cons.2 ⟨formed_text depth hf, ih hs ho⟩
  | selfClosing tag items ih =>
    obtain ⟨first, others, hf, ho, rfl⟩ := toRaws_cons_iff.1 hr
    exact List.forall_mem_cons.2 ⟨formed_selfClosing depth hf, ih hs ho⟩
  | element tag body close items ihb ih =>
    obtain ⟨first, others, hf, ho, rfl⟩ := toRaws_cons_iff.1 hr
    obtain ⟨kind, fields, children, hk, -, hb, hfields, hbody, rfl⟩ := toRaw_element_iff.1 hf
    -- the guard counts this body too, so its items stand one deeper
    obtain ⟨hd, hsb, hs⟩ := shallow_element.1 hs
    have hc := hasContent_of_ne (OpenTag.kind_eq_ok_iff.1 hk).2 hb
    refine List.forall_mem_cons.2 ⟨?_, ih hs ho⟩
    exact formed_element hc (OpenTag.tagFields hfields) (fun _ => hd) (ihb hsb hbody)

end Item

theorem formed_of_parseNodes {source : String} {raws : List Raw} (h : parseNodes source = .ok raws) :
    ∀ raw ∈ raws, Schema.Formed 0 raw := by
  obtain ⟨xs, -, hm⟩ := parseNodes_eq_ok_iff.1 h
  obtain ⟨items, -, hs, hr⟩ := meaning_eq_ok_iff.1 hm
  exact Item.formed_of_toRaws hs hr

/-- The issues of the tree of a source are exactly the faults of its values. -/
theorem mem_issues_of_parse {source : String} {raw : Raw} (h : parse source = .ok raw) (i : Issue) :
    i ∈ (Node.checkDocument raw).issues ↔ Schema.FaultIn raw i := by
  obtain ⟨raws, hr, rfl⟩ := map_eq_ok h
  have hexplained : ∀ raw ∈ raws, Node.Explained 0 raw :=
    fun raw hm => Node.explained_of_formed (formed_of_parseNodes hr raw hm)
  rw [Node.checkDocument, Node.mem_issues_checkNodes hexplained]
  simp [Issue.under]

theorem Node.ofRaw_eq_error_iff {raw : Raw} {issues : List Issue} :
    Node.ofRaw raw = .error issues ↔ (Node.checkDocument raw).issues = issues ∧ issues ≠ [] := by
  unfold ofRaw
  simp only [List.isEmpty_iff]
  split
  · rename_i hi
    refine ⟨fun h => (by cases h), ?_⟩
    rintro ⟨rfl, hne⟩
    exact absurd hi hne
  · rename_i hi
    constructor
    · intro h
      cases h
      exact ⟨rfl, hi⟩
    · rintro ⟨rfl, -⟩
      rfl

/-- The check of the tree of a source reports exactly the faults of its values: names that stand for
no color or no underline, counts that are not from 0 to 65535, and underline nodes without a type or
with the one for no underline. So a source that parses has nodes if its tree has no such fault, and
else is refused for these alone. -/
theorem issues_are_faults_of_parse {source : String} {raw : Raw} (h : parse source = .ok raw) :
    (∀ issues, Node.ofRaw raw = .error issues → ∀ i, i ∈ issues ↔ Schema.FaultIn raw i) ∧
      ((∃ nodes, readNodes source = .ok nodes) ↔ ∀ i, ¬ Schema.FaultIn raw i) ∧
      ∀ e, readNodes source = .error e →
        ∃ issues, e = .check issues ∧ issues ≠ [] ∧ ∀ i, i ∈ issues ↔ Schema.FaultIn raw i := by
  have hissues := mem_issues_of_parse h
  cases ho : Node.ofRaw raw with
  | error issues =>
    obtain ⟨hchecked, hne⟩ := Node.ofRaw_eq_error_iff.1 ho
    rw [hchecked] at hissues
    have hread : readNodes source = .error (.check issues) := by
      unfold readNodes
      simp only [h, ho]
    refine ⟨fun found hf => ?_, ⟨fun ⟨_, hn⟩ => ?_, fun hnone => absurd ?_ hne⟩, fun e he => ?_⟩
    · cases hf
      exact hissues
    · rw [hread] at hn
      cases hn
    · exact List.eq_nil_iff_forall_not_mem.2 fun i hi => hnone i ((hissues i).1 hi)
    · rw [hread] at he
      cases he
      exact ⟨issues, rfl, hne, hissues⟩
  | ok nodes =>
    have hread := readNodes_eq_ok_iff.2 ⟨raw, h, ho⟩
    refine ⟨fun found hf => (by cases hf), ⟨fun _ i hi => ?_, fun _ => ⟨nodes, hread⟩⟩,
      fun e he => ?_⟩
    · rw [← hissues, (Node.ofRaw_eq_ok_iff.1 ho).1] at hi
      cases hi
    · rw [hread] at he
      cases he

/-- A paragraph with a color and a margin that do not exist, and in it an underline without a
type. -/
theorem issues_are_faults_of_parse_paragraph :
    let source := "<p fg='rd' margin='-1'><underline/></p>"
    let raw : Raw := .array [.object [("content", .object [("node", .string "underline")]),
      ("fg", .string "rd"), ("margin", .int (-1)), ("node", .string "p")]]
    parse source = .ok raw ∧
      ∃ issues, readNodes source = .error (.check issues) ∧
        (∀ i, i ∈ issues ↔ Schema.FaultIn raw i) ∧
        issues.map Issue.cause = [.unknownColor "rd", .notCount, .missingUnderline] := by
  intro source raw
  have hlex : Token.lex source = .ok [⟨.tagOpen, 0, 1⟩, ⟨.name "p", 1, 2⟩, ⟨.name "fg", 3, 5⟩,
      ⟨.equals, 5, 6⟩, ⟨.quoted "rd", 6, 10⟩, ⟨.name "margin", 11, 17⟩, ⟨.equals, 17, 18⟩,
      ⟨.quoted "-1", 18, 22⟩, ⟨.tagEnd, 22, 23⟩, ⟨.tagOpen, 23, 24⟩, ⟨.name "underline", 24, 33⟩,
      ⟨.selfClose, 33, 35⟩, ⟨.closeOpen, 35, 37⟩, ⟨.name "p", 37, 38⟩, ⟨.tagEnd, 38, 39⟩] := by
    decide +kernel
  have h : parse source = .ok raw := by
    unfold parse parseNodes
    rw [hlex]
    rfl
  have ho : Node.ofRaw raw = .error (Node.checkDocument raw).issues := rfl
  have hr : readNodes source = .error (.check (Node.checkDocument raw).issues) := by
    unfold readNodes
    simp only [h, ho]
  obtain ⟨issues, he, -, hi⟩ := (issues_are_faults_of_parse h).2.2 _ hr
  cases he
  exact ⟨h, _, hr, hi, rfl⟩

end TermMarkup
