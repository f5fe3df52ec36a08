/-
What items mean, read from the untyped node: the fields an opening tag gives are in order, name the
kind of the node and otherwise hold attributes the kind knows, with values of their shape; content
is added to them under its own key.
-/
import TermMarkup.Item.Meaning
import TermMarkup.Proofs.Setting

namespace TermMarkup

theorem bind_eq_ok {ε α β : Type} {x : Except ε α} {f : α → Except ε β} {b : β}
    (h : x >>= f = .ok b) : ∃ a, x = .ok a ∧ f a = .ok b := by
  cases x with
  | error e => cases h
  | ok a => exact ⟨a, rfl, h⟩

theorem map_eq_ok {ε α β : Type} {x : Except ε α} {f : α → β} {b : β} (h : x.map f = .ok b) :
    ∃ a, x = .ok a ∧ f a = b := by
  cases x with
  | error e => cases h
  | ok a => exact ⟨a, rfl, Except.ok.inj h⟩

theorem bind_eq_error {ε α β : Type} {x : Except ε α} {f : α → Except ε β} {e : ε}
    (h : x >>= f = .error e) : x = .error e ∨ ∃ a, x = .ok a ∧ f a = .error e := by
  cases x with
  | error e' =>
    cases h
    exact Or.inl rfl
  | ok a => exact Or.inr ⟨a, rfl, h⟩

theorem map_eq_error {ε α β : Type} {x : Except ε α} {f : α → β} {e : ε}
    (h : x.map f = .error e) : x = .error e := by
  cases x with
  | error e' =>
    cases h
    rfl
  | ok a => cases h

/-- The kind a tag stands for is not text. -/
theorem OpenTag.kind_eq_ok_iff {tag : OpenTag} {kind : Kind} :
    tag.kind = .ok kind ↔ Kind.ofTag? tag.name.text = some kind ∧ kind ≠ .text := by
  unfold OpenTag.kind
  split
  · rename_i h
    rw [h]
    refine ⟨fun he => (by cases he), fun ⟨he, hk⟩ => ?_⟩
    exact absurd (Option.some.inj he).symm hk
  · rename_i h
    rw [h]
    exact ⟨fun he => (by cases he), fun ⟨he, _⟩ => (by cases he)⟩
  · rename_i found hne h
    rw [h]
    constructor
    · intro he
      cases he
      exact ⟨rfl, hne⟩
    · rintro ⟨he, -⟩
      rw [Option.some.inj he]

/-! ## The field of an attribute -/

namespace WrittenAttribute

/-- The key of the field that an attribute gives. -/
def key (a : WrittenAttribute) : String :=
  Text.camelCase a.name

/-- The attribute is known to the kind and gives the value. -/
def Gives (kind : Kind) (a : WrittenAttribute) (value : Raw) : Prop :=
  ∃ shape, Attribute.shape? kind a.key = some shape ∧
    Attribute.coerce shape (a.value.map Entity.decode) = .ok value

theorem Gives.unique {kind : Kind} {a : WrittenAttribute} {value other : Raw}
    (h : Gives kind a value) (h' : Gives kind a other) : value = other := by
  obtain ⟨shape, hs, hc⟩ := h
  obtain ⟨shape', hs', hc'⟩ := h'
  cases Option.some.inj (hs.symm.trans hs')
  exact Except.ok.inj (hc.symm.trans hc')

/-- An attribute puts its field in, where its key holds nothing yet. -/
theorem addTo_eq_ok_iff {kind : Kind} {tag : String} {fields next : List (String × Raw)}
    {a : WrittenAttribute} :
    a.addTo kind tag fields = .ok next ↔ fields.lookup a.key = none ∧
      ∃ value, a.Gives kind value ∧ next = Raw.insert a.key value fields := by
  unfold addTo Gives key
  simp only
  cases hs : Attribute.shape? kind (Text.camelCase a.name) with
  | none => simp
  | some shape =>
    cases hf : fields.lookup (Text.camelCase a.name) with
    | some held => simp
    | none =>
      cases hc : Attribute.coerce shape (a.value.map Entity.decode) with
      | error cause => simp [hc]
      | ok value => simp [hc, eq_comm]

end WrittenAttribute

/-! ## The fields of an opening tag -/

/-- The untyped values that an attribute of a shape can be written with. -/
inductive Attribute.HasForm : Attribute.Shape → Raw → Prop
  | text (value : String) : HasForm .text (.string value)
  | color (name : String) : HasForm .color (.string name)
  | flag (value : Bool) : HasForm .flag (.bool value)
  | number (n : Int) : HasForm .number (.int n)
  | underline (style : String) : HasForm .underline (.string style)
  | bareUnderline : HasForm .underline (.bool true)

theorem Attribute.hasForm_of_coerce {shape : Attribute.Shape} {written : Option String} {raw : Raw}
    (h : Attribute.coerce shape written = .ok raw) : Attribute.HasForm shape raw := by
  cases shape with
  | text | color =>
    cases written with
    | none => cases h
    | some value =>
      cases h
      constructor
  | underline =>
    cases written with
    | none =>
      cases h
      exact .bareUnderline
    | some value =>
      cases h
      exact .underline value
  | flag =>
    cases written with
    | none =>
      cases h
      exact .flag true
    | some value =>
      unfold coerce at h
      simp only at h
      split at h
      · cases h
        exact .flag _
      · cases h
  | number =>
    cases written with
    | none => cases h
    | some value =>
      unfold coerce at h
      simp only at h
      split at h
      · cases h
        exact .number _
      · cases h

/-- Fields that an opening tag of a kind can give. -/
structure TagFields (kind : Kind) (fields : List (String × Raw)) : Prop where
  ordered : Raw.Ordered fields
  node : fields.lookup "node" = some (.string kind.tag)
  known : ∀ field ∈ fields, field.1 = "node" ∨ (Attribute.shape? kind field.1).isSome
  formed : ∀ field ∈ fields, ∀ shape, Attribute.shape? kind field.1 = some shape →
    Attribute.HasForm shape field.2

theorem TagFields.insert {kind : Kind} {fields : List (String × Raw)} (h : TagFields kind fields)
    {key : String} {shape : Attribute.Shape} (hs : Attribute.shape? kind key = some shape)
    {value : Raw} (hv : Attribute.HasForm shape value) :
    TagFields kind (Raw.insert key value fields) := by
  have hr := Attribute.keys_reserved key (Attribute.mem_keys hs)
  refine ⟨Raw.ordered_insert h.ordered key value, ?_, fun field hf => ?_, fun field hf => ?_⟩
  · rw [Raw.lookup_insert, if_neg hr.1.symm, h.node]
  · rcases Raw.mem_insert hf with rfl | hf
    · exact Or.inr (Option.isSome_of_eq_some hs)
    · exact h.known field hf
  · rcases Raw.mem_insert hf with rfl | hf
    · intro found hfound
      rw [hs, Option.some.injEq] at hfound
      exact hfound ▸ hv
    · exact h.formed field hf

/-- One more attribute keeps the form of the fields. -/
theorem TagFields.addTo {kind : Kind} {tag : String} {fields next : List (String × Raw)}
    {a : WrittenAttribute} (h : TagFields kind fields) (ha : a.addTo kind tag fields = .ok next) :
    TagFields kind next := by
  obtain ⟨-, value, ⟨shape, hs, hc⟩, rfl⟩ := WrittenAttribute.addTo_eq_ok_iff.1 ha
  exact h.insert hs (Attribute.hasForm_of_coerce hc)

theorem TagFields.foldlM_addTo {kind : Kind} {tag : String} {attributes : List WrittenAttribute}
    {done fields : List (String × Raw)} (h : TagFields kind done)
    (hf : attributes.foldlM (WrittenAttribute.addTo kind tag) done = .ok fields) :
    TagFields kind fields := by
  induction attributes generalizing done with
  | nil =>
    cases hf
    exact h
  | cons a attributes ih =>
    rw [List.foldlM_cons] at hf
    obtain ⟨next, ha, hf⟩ := bind_eq_ok hf
    exact ih (h.addTo ha) hf

/-- The fields of an opening tag have the form that each attribute keeps. -/
theorem OpenTag.tagFields {tag : OpenTag} {kind : Kind} {fields : List (String × Raw)}
    (h : tag.fields kind = .ok fields) : TagFields kind fields := by
  have hstart : TagFields kind [("node", .string kind.tag)] := by
    refine ⟨List.pairwise_singleton _ _, rfl, fun field hf => ?_, fun field hf shape hs => ?_⟩
    · rw [List.mem_singleton.1 hf]
      exact Or.inl rfl
    · rw [List.mem_singleton.1 hf] at hs
      exact absurd rfl (Attribute.keys_reserved _ (Attribute.mem_keys hs)).1
  exact hstart.foldlM_addTo h

theorem TagFields.lookup_content {kind : Kind} {fields : List (String × Raw)}
    (h : TagFields kind fields) : fields.lookup "content" = none := by
  refine lookup_eq_none_of_notMem fun hm => ?_
  obtain ⟨field, hf, he⟩ := List.mem_map.1 hm
  rcases h.known field hf with hn | hs
  · rw [hn] at he
    exact absurd he (by decide)
  · obtain ⟨shape, hs⟩ := Option.isSome_iff_exists.1 hs
    exact (Attribute.keys_reserved _ (Attribute.mem_keys hs)).2.1 he

/-! ## Content -/

namespace Item

/-- The content that stands for a list of children. -/
def contentOf : List Raw → Option Raw
  | [] => none
  | [child] => some child
  | children => some (.array children)

/-- The fields of a node with its content. -/
def fieldsWith (fields : List (String × Raw)) (children : List Raw) : List (String × Raw) :=
  match contentOf children with
  | none => fields
  | some content => Raw.insert "content" content fields

theorem withContent_eq (fields : List (String × Raw)) (children : List Raw) :
    withContent fields children = .object (fieldsWith fields children) := by
  match children with
  | [] => rfl
  | [child] => rfl
  | first :: second :: others => rfl

theorem lookup_fieldsWith (fields : List (String × Raw)) (children : List Raw) (key : String) :
    (fieldsWith fields children).lookup key =
      if key = "content" then (contentOf children).or (fields.lookup key) else fields.lookup key := by
  unfold fieldsWith
  cases contentOf children with
  | none => simp
  | some content => simp only [Raw.lookup_insert, Option.some_or]

theorem lookup_fieldsWith_node {kind : Kind} {fields : List (String × Raw)} (h : TagFields kind fields)
    (children : List Raw) :
    (fieldsWith fields children).lookup "node" = some (.string kind.tag) := by
  rw [lookup_fieldsWith, if_neg (by decide), h.node]

theorem lookup_fieldsWith_content {kind : Kind} {fields : List (String × Raw)}
    (h : TagFields kind fields) (children : List Raw) :
    (fieldsWith fields children).lookup "content" = contentOf children := by
  rw [lookup_fieldsWith, if_pos rfl, h.lookup_content, Option.or_none]

theorem ordered_fieldsWith {fields : List (String × Raw)} (h : Raw.Ordered fields)
    (children : List Raw) : Raw.Ordered (fieldsWith fields children) := by
  unfold fieldsWith
  split
  · exact h
  · exact Raw.ordered_insert h _ _

theorem mem_fieldsWith {fields : List (String × Raw)} {children : List Raw} {field : String × Raw}
    (h : field ∈ fieldsWith fields children) : field.1 = "content" ∨ field ∈ fields := by
  unfold fieldsWith at h
  split at h
  · exact Or.inr h
  · rcases Raw.mem_insert h with rfl | h
    · exact Or.inl rfl
    · exact Or.inr h

/-! ## What an item gives -/

theorem toRaw_selfClosing_iff {tag : OpenTag} {raw : Raw} :
    toRaw (.selfClosing tag) = .ok raw ↔
      ∃ kind fields, tag.kind = .ok kind ∧ tag.fields kind = .ok fields ∧ raw = .object fields := by
  rw [toRaw]
  constructor
  · intro h
    obtain ⟨kind, hk, h⟩ := bind_eq_ok h
    obtain ⟨fields, hf, h⟩ := bind_eq_ok h
    cases h
    exact ⟨kind, fields, hk, hf, rfl⟩
  · rintro ⟨kind, fields, hk, hf, rfl⟩
    simp only [hk, hf, bind, Except.bind, pure, Except.pure]

theorem toRaw_element_iff {tag : OpenTag} {body : List Item} {close : Name} {raw : Raw} :
    toRaw (.element tag body close) = .ok raw ↔
      ∃ kind fields children, tag.kind = .ok kind ∧ close.text = tag.name.text ∧ kind ≠ .lineBreak ∧
        tag.fields kind = .ok fields ∧ toRaws body = .ok children ∧
        raw = .object (fieldsWith fields children) := by
  rw [toRaw]
  constructor
  · intro h
    obtain ⟨kind, hk, h⟩ := bind_eq_ok h
    by_cases hm : close.text ≠ tag.name.text
    · rw [if_pos hm] at h
      cases h
    · rw [if_neg hm] at h
      dsimp only at h
      by_cases hb : kind = .lineBreak
      · rw [if_pos hb] at h
        cases h
      · rw [if_neg hb] at h
        obtain ⟨fields, hf, h⟩ := bind_eq_ok h
        obtain ⟨children, hc, h⟩ := bind_eq_ok h
        cases h
        exact ⟨kind, fields, children, hk, not_not.1 hm, hb, hf, hc, withContent_eq fields children⟩
  · rintro ⟨kind, fields, children, hk, hm, hb, hf, hc, rfl⟩
    rw [← withContent_eq]
    simp only [hk, hm, hb, hf, hc, bind, Except.bind, pure, Except.pure, ne_eq, not_true_eq_false,
      if_false]

theorem toRaws_cons_iff {item : Item} {items : List Item} {raws : List Raw} :
    toRaws (item :: items) = .ok raws ↔
      ∃ first others, toRaw item = .ok first ∧ toRaws items = .ok others ∧ raws = first :: others := by
  rw [toRaws]
  constructor
  · intro h
    obtain ⟨first, hf, h⟩ := bind_eq_ok h
    obtain ⟨others, ho, h⟩ := bind_eq_ok h
    cases h
    exact ⟨first, others, hf, ho, rfl⟩
  · rintro ⟨first, others, hf, ho, rfl⟩
    simp only [hf, ho, bind, Except.bind, pure, Except.pure]

/-- Only items that are none mean no content. -/
theorem contentOf_eq_none_iff {items : List Item} {raws : List Raw} (h : toRaws items = .ok raws) :
    contentOf raws = none ↔ items = [] := by
  cases items with
  | nil =>
    cases h
    exact ⟨fun _ => rfl, fun _ => rfl⟩
  | cons item items =>
    obtain ⟨first, others, -, -, rfl⟩ := toRaws_cons_iff.1 h
    cases others with
    | nil => exact ⟨fun hc => (by cases hc), fun hi => (by cases hi)⟩
    | cons second others => exact ⟨fun hc => (by cases hc), fun hi => (by cases hi)⟩

theorem toRaw_isObject {item : Item} {raw : Raw} (h : toRaw item = .ok raw) :
    ∃ fields, raw = .object fields := by
  cases item with
  | text value =>
    cases h
    exact ⟨_, rfl⟩
  | selfClosing tag =>
    obtain ⟨kind, fields, -, -, rfl⟩ := toRaw_selfClosing_iff.1 h
    exact ⟨fields, rfl⟩
  | element tag body close =>
    obtain ⟨kind, fields, children, -, -, -, -, -, rfl⟩ := toRaw_element_iff.1 h
    exact ⟨_, rfl⟩

end Item

end TermMarkup
