/-
What items mean, said without the order in which they are read. Items mean something exactly when
each of them, at every depth, is well formed by itself: its tag is known and is not text, it is
closed by its own name and has no body if it is a line break, and its attributes have different keys
and values that its kind accepts. The untyped nodes then mirror the items, one for one at every
level, and hold the field of each attribute. None of this sees the order of the attributes of an
element, so neither does the meaning.
-/
import TermMarkup.Proofs.Nesting

namespace TermMarkup

/-! ## The attributes of a tag -/

namespace OpenTag

/-- The tag stands for the kind, and its attributes have different keys and values that the kind
accepts. -/
structure Accepted (tag : OpenTag) (kind : Kind) : Prop where
  known : Kind.ofTag? tag.name.text = some kind
  notText : kind ≠ .text
  distinct : (tag.attributes.map WrittenAttribute.key).Nodup
  valued : ∀ a ∈ tag.attributes, ∃ value, a.Gives kind value

/-- The fields of a node with a tag of the kind: the name of the kind, the content and the field of
each attribute, in order. -/
structure HasFields (tag : OpenTag) (kind : Kind) (content : Option Raw)
    (fields : List (String × Raw)) : Prop where
  ordered : Raw.Ordered fields
  lookup_iff : ∀ key value, fields.lookup key = some value ↔
    (key = "node" ∧ value = .string kind.tag) ∨ (key = "content" ∧ content = some value) ∨
      ∃ a ∈ tag.attributes, a.key = key ∧ a.Gives kind value

theorem HasFields.unique {tag : OpenTag} {kind : Kind} {content : Option Raw}
    {fields others : List (String × Raw)} (h : tag.HasFields kind content fields)
    (h' : tag.HasFields kind content others) : fields = others :=
  h.ordered.eq_of_lookup h'.ordered fun key value => by rw [h.lookup_iff, h'.lookup_iff]

end OpenTag

namespace WrittenAttribute

variable {kind : Kind} {tag : String}

/-- Attributes are put in exactly when their keys differ, hold nothing yet and have values. -/
theorem exists_foldlM_addTo_iff {attributes : List WrittenAttribute} {done : List (String × Raw)} :
    (∃ fields, attributes.foldlM (addTo kind tag) done = .ok fields) ↔
      (attributes.map key).Nodup ∧
        ∀ a ∈ attributes, done.lookup a.key = none ∧ ∃ value, a.Gives kind value := by
  induction attributes generalizing done with
  | nil => simp [pure, Except.pure]
  | cons a attributes ih =>
    rw [List.map_cons, List.nodup_cons, List.forall_mem_cons]
    constructor
    · rintro ⟨fields, h⟩
      rw [List.foldlM_cons] at h
      obtain ⟨next, ha, h⟩ := bind_eq_ok h
      obtain ⟨hfree, value, hv, rfl⟩ := addTo_eq_ok_iff.1 ha
      obtain ⟨hn, hall⟩ := ih.1 ⟨fields, h⟩
      -- the key is held from here on, so no later attribute has it
      have hother : ∀ b ∈ attributes, b.key ≠ a.key ∧ done.lookup b.key = none := by
        intro b hb
        have hnone := (hall b hb).1
        rw [Raw.lookup_insert] at hnone
        split at hnone
        · cases hnone
        · exact ⟨‹_›, hnone⟩
      refine ⟨⟨?_, hn⟩, ⟨hfree, value, hv⟩, fun b hb => ⟨(hother b hb).2, (hall b hb).2⟩⟩
      intro hm
      obtain ⟨b, hb, he⟩ := List.mem_map.1 hm
      exact (hother b hb).1 he
    · rintro ⟨⟨hfirst, hn⟩, ⟨hfree, value, hv⟩, hall⟩
      have hnext : ∀ b ∈ attributes, (Raw.insert a.key value done).lookup b.key = none ∧
          ∃ value, b.Gives kind value := by
        intro b hb
        refine ⟨?_, (hall b hb).2⟩
        rw [Raw.lookup_insert, if_neg fun he => hfirst (List.mem_map.2 ⟨b, hb, he⟩)]
        exact (hall b hb).1
      obtain ⟨fields, h⟩ := ih.2 ⟨hn, hnext⟩
      refine ⟨fields, ?_⟩
      rw [List.foldlM_cons, addTo_eq_ok_iff.2 ⟨hfree, value, hv, rfl⟩]
      exact h

/-- What a key holds once the attributes are put in: the value of the attribute with that key, or
else what it held before. -/
theorem lookup_of_foldlM_addTo {attributes : List WrittenAttribute}
    {done fields : List (String × Raw)}
    (h : attributes.foldlM (addTo kind tag) done = .ok fields) (k : String) (value : Raw) :
    fields.lookup k = some value ↔
      done.lookup k = some value ∨ ∃ a ∈ attributes, a.key = k ∧ a.Gives kind value := by
  induction attributes generalizing done with
  | nil =>
    cases h
    simp
  | cons a attributes ih =>
    rw [List.foldlM_cons] at h
    obtain ⟨next, ha, h⟩ := bind_eq_ok h
    obtain ⟨hfree, given, hv, rfl⟩ := addTo_eq_ok_iff.1 ha
    rw [ih h, Raw.lookup_insert, List.exists_mem_cons_iff, ← or_assoc]
    refine or_congr_left ?_
    by_cases hk : k = a.key
    · subst hk
      rw [if_pos rfl, hfree]
      refine ⟨fun he => Or.inr ⟨rfl, Option.some.inj he ▸ hv⟩, fun he => ?_⟩
      rcases he with he | ⟨-, hg⟩
      · cases he
      · rw [hv.unique hg]
    · rw [if_neg hk]
      exact ⟨Or.inl, fun he => he.resolve_right fun hc => hk hc.1.symm⟩

end WrittenAttribute

namespace OpenTag

variable {tag : OpenTag} {kind : Kind}

theorem exists_fields_iff :
    (∃ fields, tag.fields kind = .ok fields) ↔
      (tag.attributes.map WrittenAttribute.key).Nodup ∧
        ∀ a ∈ tag.attributes, ∃ value, a.Gives kind value := by
  unfold OpenTag.fields
  rw [WrittenAttribute.exists_foldlM_addTo_iff]
  refine and_congr_right fun _ => forall₂_congr fun a _ => and_iff_right_of_imp ?_
  rintro ⟨value, shape, hs, -⟩
  rw [lookup_cons_ite, if_neg (Attribute.keys_reserved _ (Attribute.mem_keys hs)).1]
  rfl

/-- Kind and fields of a tag are there exactly when the tag is accepted. -/
theorem accepted_iff :
    tag.Accepted kind ↔ tag.kind = .ok kind ∧ ∃ fields, tag.fields kind = .ok fields := by
  rw [kind_eq_ok_iff, exists_fields_iff]
  exact ⟨fun h => ⟨⟨h.known, h.notText⟩, h.distinct, h.valued⟩, fun h => ⟨h.1.1, h.1.2, h.2.1, h.2.2⟩⟩

/-- The fields that a tag gives, with the content, are those the node is to have. -/
theorem hasFields_fieldsWith {fields : List (String × Raw)} (h : tag.fields kind = .ok fields)
    (children : List Raw) :
    tag.HasFields kind (Item.contentOf children) (Item.fieldsWith fields children) := by
  have ht := tagFields h
  refine ⟨Item.ordered_fieldsWith ht.ordered children, fun key value => ?_⟩
  have hgiven := WrittenAttribute.lookup_of_foldlM_addTo h key value
  rw [lookup_cons_ite, List.lookup_nil] at hgiven
  rw [Item.lookup_fieldsWith]
  by_cases hc : key = "content"
  · subst hc
    -- content is not the key of an attribute
    rw [ht.lookup_content, if_neg (by decide)] at hgiven
    have hnone : ¬ ∃ a ∈ tag.attributes, a.key = "content" ∧ a.Gives kind value :=
      fun ha => absurd (hgiven.2 (Or.inr ha)) (by simp)
    rw [if_pos rfl, ht.lookup_content, Option.or_none]
    simp [hnone]
  · rw [if_neg hc, hgiven]
    by_cases hn : key = "node"
    · simp [hn, eq_comm]
    · simp [hn, hc]

end OpenTag

namespace Item

/-! ## The nodes that items mean -/

/-- The untyped nodes that items mean: one for each item and in the same order, at every level. -/
inductive Means : List Item → List Raw → Prop
  | nil : Means [] []
  | text (value : String) {items : List Item} {raws : List Raw} :
    Means items raws → Means (.text value :: items)
      (.object [("node", .string "text"), ("value", .string (Entity.decode value))] :: raws)
  | selfClosing {tag : OpenTag} {kind : Kind} {fields : List (String × Raw)} {items : List Item}
    {raws : List Raw} :
    tag.Accepted kind → tag.HasFields kind none fields → Means items raws →
    Means (.selfClosing tag :: items) (.object fields :: raws)
  | element {tag : OpenTag} {close : Name} {kind : Kind} {fields : List (String × Raw)}
    {body items : List Item} {children raws : List Raw} :
    tag.Accepted kind → close.text = tag.name.text → kind ≠ .lineBreak → Means body children →
    tag.HasFields kind (contentOf children) fields → Means items raws →
    Means (.element tag body close :: items) (.object fields :: raws)

theorem toRaws_eq_ok_iff_means {items : List Item} {raws : List Raw} :
    toRaws items = .ok raws ↔ Means items raws := by
  induction items using itemInduction generalizing raws with
  | nil =>
    constructor
    · intro h
      cases h
      exact .nil
    · intro h
      cases h
      rfl
  | text value items ih =>
    have htext : toRaw (.text value) = .ok (Node.toRaw (.text (Entity.decode value))) := by
      rw [toRaw, Node.toRaw]
    rw [toRaws_cons_iff, htext, Node.toRaw_text]
    constructor
    · rintro ⟨first, others, hf, ho, rfl⟩
      cases hf
      exact .text value (ih.1 ho)
    · intro h
      cases h with
      | text _ h => exact ⟨_, _, rfl, ih.2 h, rfl⟩
  | selfClosing tag items ih =>
    rw [toRaws_cons_iff]
    constructor
    · rintro ⟨first, others, hfirst, ho, rfl⟩
      obtain ⟨kind, fields, hk, hf, rfl⟩ := toRaw_selfClosing_iff.1 hfirst
      exact .selfClosing (OpenTag.accepted_iff.2 ⟨hk, fields, hf⟩)
        (OpenTag.hasFields_fieldsWith hf []) (ih.1 ho)
    · intro h
      cases h with
      | selfClosing ha hf h =>
        -- fields are determined by what they hold, so these are the ones that the tag gives
        obtain ⟨hk, given, hg⟩ := OpenTag.accepted_iff.1 ha
        rw [hf.unique (OpenTag.hasFields_fieldsWith hg [])]
        exact ⟨_, _, toRaw_selfClosing_iff.2 ⟨_, given, hk, hg, rfl⟩, ih.2 h, rfl⟩
  | element tag body close items ihb ih =>
    rw [toRaws_cons_iff]
    constructor
    · rintro ⟨first, others, hfirst, ho, rfl⟩
      obtain ⟨kind, fields, children, hk, hc, hb, hf, hr, rfl⟩ := toRaw_element_iff.1 hfirst
      exact .element (OpenTag.accepted_iff.2 ⟨hk, fields, hf⟩) hc hb (ihb.1 hr)
        (OpenTag.hasFields_fieldsWith hf children) (ih.1 ho)
    · intro h
      cases h with
      | element ha hc hb hbody hf h =>
        obtain ⟨hk, given, hg⟩ := OpenTag.accepted_iff.1 ha
        rw [hf.unique (OpenTag.hasFields_fieldsWith hg _)]
        exact ⟨_, _, toRaw_element_iff.2 ⟨_, given, _, hk, hc, hb, hg, ihb.2 hbody, rfl⟩, ih.2 h, rfl⟩

/-! ## Items that mean something -/

mutual

/-- An item and the items in its body, at every depth. -/
def itemsIn : Item → List Item
  | .text value => [.text value]
  | .selfClosing tag => [.selfClosing tag]
  | .element tag body close => .element tag body close :: allItems body

/-- A list of items and the items in their bodies, at every depth. -/
def allItems : List Item → List Item
  | [] => []
  | item :: items => itemsIn item ++ allItems items

end

/-- An item that is well formed, whatever its body holds. -/
def WellFormed : Item → Prop
  | .text _ => True
  | .selfClosing tag => ∃ kind, tag.Accepted kind
  | .element tag _ close =>
    close.text = tag.name.text ∧ ∃ kind, kind ≠ .lineBreak ∧ tag.Accepted kind

theorem exists_toRaw_selfClosing_iff {tag : OpenTag} :
    (∃ raw, toRaw (.selfClosing tag) = .ok raw) ↔ WellFormed (.selfClosing tag) := by
  simp only [toRaw_selfClosing_iff, WellFormed, OpenTag.accepted_iff]
  constructor
  · rintro ⟨raw, kind, fields, hk, hf, -⟩
    exact ⟨kind, hk, fields, hf⟩
  · rintro ⟨kind, hk, fields, hf⟩
    exact ⟨_, kind, fields, hk, hf, rfl⟩

theorem exists_toRaw_element_iff {tag : OpenTag} {body : List Item} {close : Name} :
    (∃ raw, toRaw (.element tag body close) = .ok raw) ↔
      WellFormed (.element tag body close) ∧ ∃ children, toRaws body = .ok children := by
  simp only [toRaw_element_iff, WellFormed, OpenTag.accepted_iff]
  constructor
  · rintro ⟨raw, kind, fields, children, hk, hc, hb, hf, hr, -⟩
    exact ⟨⟨hc, kind, hb, hk, fields, hf⟩, children, hr⟩
  · rintro ⟨⟨hc, kind, hb, hk, fields, hf⟩, children, hr⟩
    exact ⟨_, kind, fields, children, hk, hc, hb, hf, hr, rfl⟩

theorem exists_toRaws_cons_iff {item : Item} {items : List Item} :
    (∃ raws, toRaws (item :: items) = .ok raws) ↔
      (∃ raw, toRaw item = .ok raw) ∧ ∃ raws, toRaws items = .ok raws := by
  simp only [toRaws_cons_iff]
  constructor
  · rintro ⟨raws, first, others, hf, ho, -⟩
    exact ⟨⟨first, hf⟩, others, ho⟩
  · rintro ⟨⟨first, hf⟩, others, ho⟩
    exact ⟨_, first, others, hf, ho, rfl⟩

theorem exists_toRaws_iff {items : List Item} :
    (∃ raws, toRaws items = .ok raws) ↔ ∀ item ∈ allItems items, item.WellFormed := by
  induction items using itemInduction with
  | nil => exact ⟨fun _ => List.forall_mem_nil _, fun _ => ⟨[], rfl⟩⟩
  | text value items ih =>
    rw [exists_toRaws_cons_iff, ih, allItems, itemsIn, List.forall_mem_append, List.forall_mem_singleton]
    exact and_congr_left fun _ => ⟨fun _ => trivial, fun _ => ⟨_, rfl⟩⟩
  | selfClosing tag items ih =>
    rw [exists_toRaws_cons_iff, exists_toRaw_selfClosing_iff, ih, allItems, itemsIn,
      List.forall_mem_append, List.forall_mem_singleton]
  | element tag body close items ihb ih =>
    rw [exists_toRaws_cons_iff, exists_toRaw_element_iff, ihb, ih, allItems, itemsIn,
      List.forall_mem_append, List.forall_mem_cons]

/-! ## The order of attributes -/

/-- Items that differ in the order of the attributes of any of their elements. -/
inductive Reordered : List Item → List Item → Prop
  | nil : Reordered [] []
  | text (value : String) {items others : List Item} :
    Reordered items others → Reordered (.text value :: items) (.text value :: others)
  | selfClosing (name : Name) {attributes permuted : List WrittenAttribute}
    {items others : List Item} :
    attributes.Perm permuted → Reordered items others →
    Reordered (.selfClosing ⟨name, attributes⟩ :: items) (.selfClosing ⟨name, permuted⟩ :: others)
  | element (name close : Name) {attributes permuted : List WrittenAttribute}
    {body inner items others : List Item} :
    attributes.Perm permuted → Reordered body inner → Reordered items others →
    Reordered (.element ⟨name, attributes⟩ body close :: items)
      (.element ⟨name, permuted⟩ inner close :: others)

theorem Reordered.symm {items others : List Item} (h : Reordered items others) :
    Reordered others items := by
  induction h with
  | nil => exact .nil
  | text value _ ih => exact .text value ih
  | selfClosing name hp _ ih => exact .selfClosing name hp.symm ih
  | element name close hp _ _ ihb ih => exact .element name close hp.symm ihb ih

end Item

namespace OpenTag

variable {name : Name} {attributes permuted : List WrittenAttribute} {kind : Kind}

theorem Accepted.perm (hp : attributes.Perm permuted) (h : Accepted ⟨name, attributes⟩ kind) :
    Accepted ⟨name, permuted⟩ kind where
  known := h.known
  notText := h.notText
  distinct := (hp.map _).nodup h.distinct
  valued a ha := h.valued a (hp.mem_iff.2 ha)

theorem HasFields.perm (hp : attributes.Perm permuted) {content : Option Raw}
    {fields : List (String × Raw)} (h : HasFields ⟨name, attributes⟩ kind content fields) :
    HasFields ⟨name, permuted⟩ kind content fields where
  ordered := h.ordered
  lookup_iff key value := by
    rw [h.lookup_iff]
    simp only [hp.mem_iff]

end OpenTag

namespace Item

theorem Means.reordered {items others : List Item} {raws : List Raw} (h : Means items raws)
    (hr : Reordered items others) : Means others raws := by
  induction hr generalizing raws with
  | nil => exact h
  | text value _ ih =>
    cases h with
    | text _ h => exact .text value (ih h)
  | selfClosing name hp _ ih =>
    cases h with
    | selfClosing ha hf h => exact .selfClosing (ha.perm hp) (hf.perm hp) (ih h)
  | element name close hp _ _ ihb ih =>
    cases h with
    | element ha hc hb hbody hf h =>
      exact .element (ha.perm hp) hc hb (ihb hbody) (hf.perm hp) (ih h)

/-- Items mean something exactly when all items in them are well formed. They then mean one untyped
node for each item at every level, whatever the order of the attributes of each element. -/
theorem toRaws_order_free (items : List Item) :
    ((∃ raws, toRaws items = .ok raws) ↔ ∀ item ∈ allItems items, item.WellFormed) ∧
      (∀ raws, toRaws items = .ok raws ↔ Means items raws) ∧
      ∀ others, Reordered items others →
        ∀ raws, toRaws others = .ok raws ↔ toRaws items = .ok raws := by
  refine ⟨exists_toRaws_iff, fun raws => toRaws_eq_ok_iff_means, fun others hr raws => ?_⟩
  rw [toRaws_eq_ok_iff_means, toRaws_eq_ok_iff_means]
  exact ⟨fun h => h.reordered hr.symm, fun h => h.reordered hr⟩

/-- A text and a list item that has the attributes. -/
def textAndListItem (attributes : List WrittenAttribute) : List Item :=
  [.text "a", .element ⟨⟨"li", 2, 4⟩, attributes⟩ [.text "b&lt;"] ⟨"li", 29, 31⟩]

/-- A margin under some spelling of its name. -/
def marginAs (name : String) : WrittenAttribute :=
  ⟨name, some "2", 5, 20⟩

/-- A list item means the same with its two attributes in either order; a margin that is given in
two spellings of its name leaves it without a meaning. -/
theorem toRaws_order_free_listItem :
    Reordered (textAndListItem [⟨"bold", none, 5, 9⟩, marginAs "margin_left"])
        (textAndListItem [marginAs "margin_left", ⟨"bold", none, 5, 9⟩]) ∧
      toRaws (textAndListItem [marginAs "margin_left", ⟨"bold", none, 5, 9⟩]) = .ok
        [.object [("node", .string "text"), ("value", .string "a")],
          .object [("bold", .bool true),
            ("content", .object [("node", .string "text"), ("value", .string "b<")]),
            ("marginLeft", .int 2), ("node", .string "li")]] ∧
      (∀ item ∈ allItems (textAndListItem [⟨"bold", none, 5, 9⟩, marginAs "margin_left"]),
        item.WellFormed) ∧
      ¬ ∀ item ∈ allItems (textAndListItem [marginAs "margin_left", marginAs "margin-left"]),
        item.WellFormed := by
  have hswap : Reordered (textAndListItem [⟨"bold", none, 5, 9⟩, marginAs "margin_left"])
      (textAndListItem [marginAs "margin_left", ⟨"bold", none, 5, 9⟩]) :=
    .text _ (.element _ _ (.swap _ _ _) (.text _ .nil) .nil)
  obtain ⟨hformed, -, horder⟩ := toRaws_order_free _
  refine ⟨hswap, (horder _ hswap _).2 rfl, hformed.1 ⟨_, rfl⟩, fun hall => ?_⟩
  obtain ⟨raws, h⟩ := (toRaws_order_free _).1.2 hall
  cases h

end Item

end TermMarkup
