/-
Margins and indents from their text to the node, through both stages. Where the tag of an element
stands among the items of a source is said by the path that issues use, and the same path leads to
the fields of its node in the tree and to the element among the typed nodes. The parser takes the
texts that say an integer and refuses all others; the check then takes the integers from 0 to 65535,
which the element holds as they are, and reports all others where they stand.
-/
import TermMarkup.Proofs.Conversion
import TermMarkup.Proofs.Faults
import TermMarkup.Proofs.Numerals

namespace TermMarkup

/-! ## Places -/

/-- The tag at a path among items. The path goes through the content of elements, and leaves out the
index of a child that is the only one. -/
inductive Item.TagIn : List Item → Path → OpenTag → Prop
  | selfClosing {items : List Item} {index : Nat} {tag : OpenTag}
    (hi : items[index]? = some (.selfClosing tag)) : TagIn items [.item index] tag
  | element {items body : List Item} {index : Nat} {tag : OpenTag} {close : Name}
    (hi : items[index]? = some (.element tag body close)) : TagIn items [.item index] tag
  | only {items : List Item} {index : Nat} {above tag : OpenTag} {child : Item} {close : Name}
    {path : Path} (hi : items[index]? = some (.element above [child] close))
    (h : TagIn [child] (.item 0 :: path) tag) :
    TagIn items (.item index :: .field "content" :: path) tag
  | among {items body : List Item} {index : Nat} {above tag : OpenTag} {close : Name} {path : Path}
    (hi : items[index]? = some (.element above body close)) (hb : body.length ≠ 1)
    (h : TagIn body path tag) : TagIn items (.item index :: .field "content" :: path) tag

/-- The element at a path among nodes, by the same paths. -/
inductive Node.ElementIn : List Node → Path → Element → Prop
  | here {nodes : List Node} {index : Nat} {e : Element} {content : Content Node}
    (hi : nodes[index]? = some (.element e content)) : ElementIn nodes [.item index] e
  | only {nodes : List Node} {index : Nat} {above e : Element} {child : Node} {path : Path}
    (hi : nodes[index]? = some (.element above (.single child)))
    (h : ElementIn [child] (.item 0 :: path) e) :
    ElementIn nodes (.item index :: .field "content" :: path) e
  | among {nodes children : List Node} {index : Nat} {above e : Element} {path : Path}
    (hi : nodes[index]? = some (.element above (.many children)))
    (h : ElementIn children path e) :
    ElementIn nodes (.item index :: .field "content" :: path) e

/-- A path leads to at most one node of a tree. -/
theorem Schema.NodeAt.unique {raw : Raw} {path : Path} {fields others : List (String × Raw)}
    (h : NodeAt raw path fields) (h' : NodeAt raw path others) : fields = others := by
  induction h with
  | here fields =>
    cases h'
    rfl
  | item hi h ih =>
    cases h' with
    | item hi' h' =>
      cases hi.symm.trans hi'
      exact ih h'
  | content hl h ih =>
    cases h' with
    | content hl' h' =>
      cases hl.symm.trans hl'
      exact ih h'

/-! ## From items to nodes -/

namespace Item

open Schema

theorem length_of_toRaws {items : List Item} {raws : List Raw} (h : toRaws items = .ok raws) :
    raws.length = items.length := by
  induction items generalizing raws with
  | nil =>
    cases h
    rfl
  | cons item items ih =>
    obtain ⟨first, others, -, ho, rfl⟩ := toRaws_cons_iff.1 h
    rw [List.length_cons, List.length_cons, ih ho]

/-- Each item has its own node. -/
theorem getElem?_of_toRaws {items : List Item} {raws : List Raw} (h : toRaws items = .ok raws)
    {index : Nat} {item : Item} (hi : items[index]? = some item) :
    ∃ raw, raws[index]? = some raw ∧ toRaw item = .ok raw := by
  induction items generalizing raws index with
  | nil => cases hi
  | cons first items ih =>
    obtain ⟨raw, others, hf, ho, rfl⟩ := toRaws_cons_iff.1 h
    cases index with
    | zero =>
      cases hi
      exact ⟨raw, rfl, hf⟩
    | succ index => exact ih ho hi

/-- The content of a body that has not just one item. -/
theorem contentOf_of_toRaws {items : List Item} {raws : List Raw} (h : toRaws items = .ok raws)
    (h0 : items ≠ []) (h1 : items.length ≠ 1) : contentOf raws = some (.array raws) := by
  have hlength := length_of_toRaws h
  match raws with
  | [] => exact absurd (List.length_eq_zero_iff.1 hlength.symm) h0
  | [raw] => exact absurd hlength.symm h1
  | first :: second :: others => rfl

/-- The node of an element, with the nodes of its body. -/
theorem exists_element_of_toRaws {items body : List Item} {raws : List Raw}
    (h : toRaws items = .ok raws) {index : Nat} {tag : OpenTag} {close : Name}
    (hi : items[index]? = some (.element tag body close)) :
    ∃ (kind : Kind) (fields : List (String × Raw)) (children : List Raw),
      raws[index]? = some (.object fields) ∧ toRaws body = .ok children ∧
      kind.hasContent = true ∧ fields.lookup "node" = some (.string kind.tag) ∧
      fields.lookup "content" = contentOf children := by
  obtain ⟨raw, hraw, h⟩ := getElem?_of_toRaws h hi
  obtain ⟨kind, fields, children, hk, -, hb, hf, hc, rfl⟩ := toRaw_element_iff.1 h
  have ht := OpenTag.tagFields hf
  exact ⟨kind, _, children, hraw, hc, hasContent_of_ne (OpenTag.kind_eq_ok_iff.1 hk).2 hb,
    lookup_fieldsWith_node ht children, lookup_fieldsWith_content ht children⟩

theorem exists_of_toRaws_singleton {child : Item} {raws : List Raw} (h : toRaws [child] = .ok raws) :
    ∃ fields, raws = [.object fields] := by
  obtain ⟨raw, others, hraw, ho, rfl⟩ := toRaws_cons_iff.1 h
  cases ho
  obtain ⟨fields, rfl⟩ := toRaw_isObject hraw
  exact ⟨fields, rfl⟩

theorem TagIn.ne_nil {items : List Item} {path : Path} {tag : OpenTag} (h : TagIn items path tag) :
    items ≠ [] := by
  rintro rfl
  cases h with
  | selfClosing hi | element hi | only hi _ | among hi _ _ => cases hi

/-- A path that leads to a tag leads to the fields of its node. -/
theorem TagIn.nodeAt {items : List Item} {path : Path} {tag : OpenTag} (h : TagIn items path tag)
    {raws : List Raw} (hr : toRaws items = .ok raws) :
    ∃ kind content fields, NodeAt (.array raws) path fields ∧ tag.Accepted kind ∧
      tag.HasFields kind content fields := by
  induction h generalizing raws with
  | selfClosing hi =>
    obtain ⟨raw, hraw, h⟩ := getElem?_of_toRaws hr hi
    obtain ⟨kind, fields, hk, hf, rfl⟩ := toRaw_selfClosing_iff.1 h
    exact ⟨kind, _, fields, .item hraw (.here fields), OpenTag.accepted_iff.2 ⟨hk, fields, hf⟩,
      OpenTag.hasFields_fieldsWith hf []⟩
  | element hi =>
    obtain ⟨raw, hraw, h⟩ := getElem?_of_toRaws hr hi
    obtain ⟨kind, fields, children, hk, -, -, hf, -, rfl⟩ := toRaw_element_iff.1 h
    exact ⟨kind, _, _, .item hraw (.here _), OpenTag.accepted_iff.2 ⟨hk, fields, hf⟩,
      OpenTag.hasFields_fieldsWith hf children⟩
  | only hi h ih =>
    obtain ⟨-, above, children, hraw, hc, -, -, hl⟩ := exists_element_of_toRaws hr hi
    obtain ⟨kind, content, fields, hn, ha, hf⟩ := ih hc
    obtain ⟨inner, rfl⟩ := exists_of_toRaws_singleton hc
    cases hn with
    | item hi hn =>
      cases hi
      exact ⟨kind, content, fields, .item hraw (.content hl hn), ha, hf⟩
  | among hi hb h ih =>
    obtain ⟨-, above, children, hraw, hc, -, -, hl⟩ := exists_element_of_toRaws hr hi
    obtain ⟨kind, content, fields, hn, ha, hf⟩ := ih hc
    rw [contentOf_of_toRaws hc h.ne_nil hb] at hl
    exact ⟨kind, content, fields, .item hraw (.content hl hn), ha, hf⟩

end Item

/-! ## From items to typed nodes -/

theorem Content.ofChildren_eq_many {α : Type} {nodes : List α} (h0 : nodes.length ≠ 0)
    (h1 : nodes.length ≠ 1) : Content.ofChildren nodes = .many nodes := by
  match nodes with
  | [] => exact absurd rfl h0
  | [node] => exact absurd rfl h1
  | first :: second :: others => rfl

namespace Schema

theorem AllDenote.length {depth : Nat} {raws : List Raw} {nodes : List Node}
    (h : AllDenote depth raws nodes) : nodes.length = raws.length := by
  induction raws generalizing nodes with
  | nil =>
    cases h
    rfl
  | cons raw raws ih =>
    cases h with
    | cons _ hs => rw [List.length_cons, List.length_cons, ih hs]

theorem AllDenote.getElem? {depth : Nat} {raws : List Raw} {nodes : List Node}
    (h : AllDenote depth raws nodes) {index : Nat} {raw : Raw} (hi : raws[index]? = some raw) :
    ∃ node, nodes[index]? = some node ∧ Denotes depth raw node := by
  induction raws generalizing nodes index with
  | nil => cases hi
  | cons first raws ih =>
    cases h with
    | cons h hs =>
      cases index with
      | zero =>
        cases hi
        exact ⟨_, rfl, h⟩
      | succ index => exact ih hs hi

/-- Fields of a kind that has content stand for an element. -/
theorem Denotes.exists_element {depth : Nat} {fields : List (String × Raw)} {node : Node}
    (h : Denotes depth (.object fields) node) {kind : Kind}
    (hk : fields.lookup "node" = some (.string kind.tag)) (hc : kind.hasContent = true) :
    ∃ e content, node = .element e content ∧ IsKind e.kind fields ∧ IsElement fields e ∧
      ContentDenotes depth (fields.lookup "content") content := by
  cases h with
  | text hk' =>
    cases kind_of_lookup hk hk'.tag
    cases hc
  | lineBreak hk' =>
    cases kind_of_lookup hk hk'.tag
    cases hc
  | element hk' he hcontent => exact ⟨_, _, rfl, hk', he, hcontent⟩

end Schema

namespace Item

open Schema

/-- A path through the content of an element goes on in the content of its node, which stands for the
content of the typed node. -/
theorem exists_content {items body : List Item} {raws : List Raw} (hr : toRaws items = .ok raws)
    {index : Nat} {tag : OpenTag} {close : Name}
    (hi : items[index]? = some (.element tag body close)) {path : Path}
    {fields : List (String × Raw)}
    (hn : NodeAt (.array raws) (.item index :: .field "content" :: path) fields) {depth : Nat}
    {nodes : List Node} (hd : AllDenote depth raws nodes) :
    ∃ children raw e content, toRaws body = .ok children ∧ contentOf children = some raw ∧
      NodeAt raw path fields ∧ nodes[index]? = some (.element e content) ∧
      ContentDenotes depth (some raw) content := by
  obtain ⟨kind, above, children, hraw, hbody, hcontent, htag, hl⟩ := exists_element_of_toRaws hr hi
  obtain ⟨node, hnode, hden⟩ := hd.getElem? hraw
  obtain ⟨e, content, rfl, -, -, hden⟩ := hden.exists_element htag hcontent
  cases hn with
  | item hi' hn =>
    cases hraw.symm.trans hi'
    cases hn with
    | content hl' hn =>
      rw [hl'] at hl hden
      exact ⟨children, _, e, content, hbody, hl.symm, hn, hnode, hden⟩

/-- A path that leads to a tag leads to the element that the fields of its node stand for. -/
theorem TagIn.elementIn {items : List Item} {path : Path} {tag : OpenTag} (h : TagIn items path tag)
    {raws : List Raw} (hr : toRaws items = .ok raws) {fields : List (String × Raw)}
    (hn : NodeAt (.array raws) path fields) {kind : Kind}
    (hk : fields.lookup "node" = some (.string kind.tag)) (hc : kind.hasContent = true)
    {depth : Nat} {nodes : List Node} (hd : AllDenote depth raws nodes) :
    ∃ e, Node.ElementIn nodes path e ∧ IsKind e.kind fields ∧ IsElement fields e := by
  induction h generalizing raws depth nodes with
  | selfClosing hi | element hi =>
    cases hn with
    | item hraw hn =>
      cases hn
      obtain ⟨node, hnode, hden⟩ := hd.getElem? hraw
      obtain ⟨e, content, rfl, hkind, he, -⟩ := hden.exists_element hk hc
      exact ⟨e, .here hnode, hkind, he⟩
  | only hi h ih =>
    obtain ⟨children, raw, f, content, hbody, hraw, hn, hnode, hden⟩ := exists_content hr hi hn hd
    obtain ⟨inner, rfl⟩ := exists_of_toRaws_singleton hbody
    cases hraw
    cases hden with
    | single _ hchild =>
      obtain ⟨e, hin, he⟩ := ih hbody (.item rfl hn) (.cons hchild .nil)
      exact ⟨e, .only hnode hin, he⟩
  | among hi hb h ih =>
    obtain ⟨children, raw, f, content, hbody, hraw, hn, hnode, hden⟩ := exists_content hr hi hn hd
    rw [contentOf_of_toRaws hbody h.ne_nil hb] at hraw
    cases hraw
    cases hden with
    | single _ hchild => cases hchild
    | many _ hall =>
      -- one typed node for each item of the body, so they are not just one either
      have hlength := hall.length.trans (length_of_toRaws hbody)
      have h0 := mt List.length_eq_zero_iff.1 h.ne_nil
      rw [← hlength] at hb h0
      rw [Content.ofChildren_eq_many h0 hb] at hnode
      obtain ⟨e, hin, he⟩ := ih hbody hn hall
      exact ⟨e, .among hnode hin, he⟩

end Item

/-! ## Trees of sources are proper -/

theorem Attribute.HasForm.proper {shape : Attribute.Shape} {raw : Raw}
    (h : Attribute.HasForm shape raw) : raw.Proper := by
  cases h with
  | text | color | flag | number | underline | bareUnderline =>
    exact Raw.proper_of_objects_eq_nil rfl

namespace Item

open Schema

theorem proper_fieldsWith {kind : Kind} {fields : List (String × Raw)} {children : List Raw}
    (ht : TagFields kind fields) (hs : ∀ child ∈ children, child.Proper) :
    (Raw.object (fieldsWith fields children)).Proper := by
  have ho := ordered_fieldsWith ht.ordered children
  refine Raw.proper_object.2 ⟨ho, fun field hf => ?_⟩
  rcases mem_fieldsWith hf with hc | hm
  · have hl := ho.lookup_eq_some hf
    rw [hc, lookup_fieldsWith_content ht] at hl
    match children, hl with
    | [child], hl => exact Option.some.inj hl ▸ hs _ List.mem_cons_self
    | first :: second :: others, hl => exact Option.some.inj hl ▸ Raw.proper_array.2 hs
  · rcases ht.known field hm with hn | hshape
    · have hl := ht.ordered.lookup_eq_some hm
      rw [hn, ht.node] at hl
      rw [← Option.some.inj hl]
      exact Raw.proper_of_objects_eq_nil rfl
    · obtain ⟨shape, hshape⟩ := Option.isSome_iff_exists.1 hshape
      exact (ht.formed field hm shape hshape).proper

/-- What items mean has its fields in order throughout. -/
theorem proper_of_toRaws {items : List Item} {raws : List Raw} (h : toRaws items = .ok raws) :
    ∀ raw ∈ raws, raw.Proper := by
  induction items using itemInduction generalizing raws with
  | nil =>
    cases h
    exact List.forall_mem_nil _
  | text value items ih =>
    obtain ⟨first, others, hf, ho, rfl⟩ := toRaws_cons_iff.1 h
    refine List.forall_mem_cons.2 ⟨?_, ih ho⟩
    cases hf
    refine Raw.proper_ofFields (List.forall_mem_cons.2 ⟨?_, List.forall_mem_singleton.2 ?_⟩)
    · exact Raw.proper_of_objects_eq_nil rfl
    · exact Raw.proper_of_objects_eq_nil rfl
  | selfClosing tag items ih =>
    obtain ⟨first, others, hf, ho, rfl⟩ := toRaws_cons_iff.1 h
    obtain ⟨kind, fields, -, hfields, rfl⟩ := toRaw_selfClosing_iff.1 hf
    refine List.forall_mem_cons.2 ⟨?_, ih ho⟩
    exact proper_fieldsWith (OpenTag.tagFields hfields) (List.forall_mem_nil _)
  | element tag body close items ihb ih =>
    obtain ⟨first, others, hf, ho, rfl⟩ := toRaws_cons_iff.1 h
    obtain ⟨kind, fields, children, -, -, -, hfields, hbody, rfl⟩ := toRaw_element_iff.1 hf
    refine List.forall_mem_cons.2 ⟨?_, ih ho⟩
    exact proper_fieldsWith (OpenTag.tagFields hfields) (ihb hbody)

end Item

/-! ## Numbers in a tree -/

namespace Schema

open Attribute

/-- Only styled elements have numbers. -/
theorem exists_styled_of_number {kind : Kind} {key : String} (h : shape? kind key = some .number) :
    ∃ styled, kind = .styled styled := by
  cases kind with
  | styled styled => exact ⟨styled, rfl⟩
  | color => cases (shape?_color.1 h).2
  | underline => cases (shape?_underline.1 h).2
  | text | lineBreak | bold | italics => cases h

/-- The tree holds the integer under the key of the node at the path, where the kind of the node has
a number. -/
structure HoldsNumber (raw : Raw) (path : Path) (key : String) (n : Int)
    (fields : List (String × Raw)) : Prop where
  node : NodeAt raw path fields
  kind : ∃ kind : Kind, fields.lookup "node" = some (.string kind.tag) ∧
    shape? kind key = some .number
  held : fields.lookup key = some (.int n)

/-- The only fault at a number is that it is not a count. -/
theorem HoldsNumber.faultIn_iff {raw : Raw} {path : Path} {key : String} {n : Int}
    {fields : List (String × Raw)} (h : HoldsNumber raw path key n fields) {i : Issue}
    (hi : i.path = path ++ [.field key]) :
    FaultIn raw i ↔ ¬ (0 ≤ n ∧ n ≤ 65535) ∧ i = ⟨path ++ [.field key], .notCount, some (.int n)⟩ := by
  obtain ⟨kind, hk, hs⟩ := h.kind
  constructor
  · rintro ⟨hn, hk', hf⟩
    obtain ⟨rfl, hkey⟩ := List.append_singleton_inj.1 hi
    cases hkey
    cases hn.unique h.node
    cases kind_of_lookup hk' hk
    obtain ⟨styled, rfl⟩ := exists_styled_of_number hs
    obtain ⟨shape, value, hshape, hl, hu⟩ := (fault_iff (by rintro ⟨⟩)).1 hf
    cases hs.symm.trans hshape
    cases h.held.symm.trans hl
    cases hu with
    | count hrange => exact ⟨hrange, by rw [h.held]⟩
  · rintro ⟨hrange, rfl⟩
    rw [← h.held]
    exact .node h.node hk (.unfit hs h.held (.count hrange))

/-- The element that the fields stand for holds the integer as a count. -/
theorem HoldsNumber.lookup_settings {raw : Raw} {path : Path} {key : String} {n : Int}
    {fields : List (String × Raw)} (h : HoldsNumber raw path key n fields) {e : Element}
    (hk : IsKind e.kind fields) (he : IsElement fields e) :
    ∃ count : Count, e.settings.lookup key = some (.count count) ∧ (count.val : Int) = n := by
  obtain ⟨kind, htag, hs⟩ := h.kind
  cases kind_of_lookup htag hk.tag
  cases he with
  | styled kind hstyle =>
    obtain ⟨hread, hheld⟩ :=
      (Node.holds_of_shape hs).1 ((Node.holds_iff_isStyle hk.keys).2 hstyle key)
    obtain ⟨setting, hsetting⟩ := Option.isSome_iff_exists.1 (hread _ h.held)
    obtain ⟨count, hcount, rfl⟩ := (shaped_count.read _ _).1 hsetting
    rw [h.held, Option.bind_some, hsetting] at hheld
    rw [Element.lookup_settings_styled, hheld]
    cases hcount
    exact ⟨count, rfl, rfl⟩
  | bold | italics | underline | color =>
    obtain ⟨styled, hstyled⟩ := exists_styled_of_number hs
    cases hstyled

end Schema

/-! ## All but one attribute -/

/-- The tag stands for the kind and is right but for the value of one attribute, which need only be
known as a number. -/
structure OpenTag.AcceptedBut (a : WrittenAttribute) (tag : OpenTag) (kind : Kind) : Prop where
  known : Kind.ofTag? tag.name.text = some kind
  notText : kind ≠ .text
  distinct : (tag.attributes.map WrittenAttribute.key).Nodup
  valued : ∀ b ∈ tag.attributes, (∃ value, b.Gives kind value) ∨
    b = a ∧ Attribute.shape? kind b.key = some .number

/-- An item that is well formed but for the value of one attribute, whatever its body holds. -/
def Item.WellFormedBut (a : WrittenAttribute) : Item → Prop
  | .text _ => True
  | .selfClosing tag => ∃ kind, tag.AcceptedBut a kind
  | .element tag _ close =>
    close.text = tag.name.text ∧ ∃ kind, kind ≠ .lineBreak ∧ tag.AcceptedBut a kind

/-- The attribute gives the integer where it is a number. -/
theorem WrittenAttribute.gives_int_iff {a : WrittenAttribute} {w : String} (hw : a.value = some w)
    {kind : Kind} (hs : Attribute.shape? kind a.key = some .number) {value : Raw} :
    a.Gives kind value ↔ ∃ n, Attribute.Says w n ∧ value = .int n := by
  have hvalue : a.value.map Entity.decode = some (Entity.decode w) := by rw [hw]; rfl
  unfold Gives
  simp only [hs, Option.some.injEq, exists_eq_left', hvalue, Attribute.coerce_number_iff,
    Attribute.says_decode_iff]

namespace Item

variable {a : WrittenAttribute} {w : String} {n : Int}

theorem acceptedBut_iff (hw : a.value = some w) (hn : Attribute.Says w n) {tag : OpenTag}
    {kind : Kind} : tag.AcceptedBut a kind ↔ tag.Accepted kind := by
  constructor
  · intro h
    refine ⟨h.known, h.notText, h.distinct, fun b hb => ?_⟩
    rcases h.valued b hb with hv | ⟨rfl, hs⟩
    · exact hv
    · exact ⟨.int n, (WrittenAttribute.gives_int_iff hw hs).2 ⟨n, hn, rfl⟩⟩
  · intro h
    exact ⟨h.known, h.notText, h.distinct, fun b hb => .inl (h.valued b hb)⟩

/-- With a number for a value, nothing is wrong with the attribute. -/
theorem wellFormedBut_iff (hw : a.value = some w) (hn : Attribute.Says w n) (item : Item) :
    item.WellFormedBut a ↔ item.WellFormed := by
  cases item with
  | text value => exact Iff.rfl
  | selfClosing tag => exact exists_congr fun kind => acceptedBut_iff hw hn
  | element tag body close =>
    exact and_congr_right fun _ => exists_congr fun kind => and_congr_right fun _ =>
      acceptedBut_iff hw hn

end Item

/-! ## Both stages -/

/-- The items of a source, none of which has a body that is too deep. -/
def HasItems (source : String) (items : List Item) : Prop :=
  ∃ xs, Token.lex source = .ok xs ∧ Token.checkNesting xs = .ok () ∧
    Item.read source.utf8ByteSize xs = .ok items

theorem parse_of_hasItems {source : String} {items : List Item} (h : HasItems source items) :
    parse source = (Item.toRaws items).map .array := by
  obtain ⟨xs, hl, hn, hr⟩ := h
  simp only [parse, parseNodes, hl, hn, hr, bind, Except.bind]

/-- The attribute stands in the tag at the path, and is a number there: a margin or an indent. -/
def Item.NumberIn (items : List Item) (path : Path) (a : WrittenAttribute) : Prop :=
  ∃ tag kind, TagIn items path tag ∧ Kind.ofTag? tag.name.text = some kind ∧ a ∈ tag.attributes ∧
    Attribute.shape? kind a.key = some .number

namespace Item

open Schema

variable {items : List Item} {path : Path} {a : WrittenAttribute} {w : String}

/-- Where items mean something, their tree holds the integer that a number says. -/
theorem NumberIn.holdsNumber (ha : NumberIn items path a) (hw : a.value = some w) {raws : List Raw}
    (hr : toRaws items = .ok raws) :
    ∃ n fields, Attribute.Says w n ∧ HoldsNumber (.array raws) path a.key n fields := by
  obtain ⟨tag, kind, ht, hk, hm, hs⟩ := ha
  obtain ⟨found, content, fields, hnode, haccepted, hfields⟩ := ht.nodeAt hr
  cases hk.symm.trans haccepted.known
  obtain ⟨value, hgives⟩ := haccepted.valued a hm
  obtain ⟨n, hn, rfl⟩ := (WrittenAttribute.gives_int_iff hw hs).1 hgives
  exact ⟨n, fields, hn, hnode, ⟨kind, (hfields.lookup_iff _ _).2 (.inl ⟨rfl, rfl⟩), hs⟩,
    (hfields.lookup_iff _ _).2 (.inr (.inr ⟨a, hm, rfl, hgives⟩))⟩

/-- Where the tree stands for typed nodes, the element at the number holds it. -/
theorem NumberIn.lookup_settings (ha : NumberIn items path a) {raws : List Raw}
    (hr : toRaws items = .ok raws) {n : Int} {fields : List (String × Raw)}
    (hh : HoldsNumber (.array raws) path a.key n fields) {nodes : List Node}
    (ho : Node.ofRaw (.array raws) = .ok nodes) :
    ∃ e count, Node.ElementIn nodes path e ∧ e.settings.lookup a.key = some (.count count) ∧
      (count.val : Int) = n := by
  have hproper : (Raw.array raws).Proper := Raw.proper_array.2 (proper_of_toRaws hr)
  obtain ⟨hd⟩ := (Node.ofRaw_eq_ok_iff_of_proper hproper nodes).1 ho
  obtain ⟨tag, -, ht, -⟩ := ha
  obtain ⟨kind, hk, hs⟩ := hh.kind
  have hc : kind.hasContent = true := by
    obtain ⟨styled, rfl⟩ := exists_styled_of_number hs
    rfl
  obtain ⟨e, he, hkind, helement⟩ := ht.elementIn hr hh.node hk hc hd
  obtain ⟨count, hl, hn⟩ := hh.lookup_settings hkind helement
  exact ⟨e, count, he, hl, hn⟩

/-- Items mean something exactly when a number among them says an integer and all the rest is
right. -/
theorem NumberIn.exists_toRaws_iff (ha : NumberIn items path a) (hw : a.value = some w) :
    (∃ raws, toRaws items = .ok raws) ↔
      (∃ n, Attribute.Says w n) ∧ ∀ item ∈ allItems items, item.WellFormedBut a := by
  constructor
  · rintro ⟨raws, hr⟩
    obtain ⟨n, fields, hn, -⟩ := ha.holdsNumber hw hr
    exact ⟨⟨n, hn⟩, fun item hi =>
      (wellFormedBut_iff hw hn item).2 (Item.exists_toRaws_iff.1 ⟨raws, hr⟩ item hi)⟩
  · rintro ⟨⟨n, hn⟩, hall⟩
    exact Item.exists_toRaws_iff.2 fun item hi => (wellFormedBut_iff hw hn item).1 (hall item hi)

end Item

/-- The check of the tree of a source reports a number exactly if it is not a count. -/
theorem Schema.HoldsNumber.mem_issues_iff {raw : Raw} {path : Path} {key : String} {n : Int}
    {fields : List (String × Raw)} (h : HoldsNumber raw path key n fields) {source : String}
    (hp : parse source = .ok raw) {i : Issue} (hi : i.path = path ++ [.field key]) :
    i ∈ (Node.checkDocument raw).issues ↔
      ¬ (0 ≤ n ∧ n ≤ 65535) ∧ i = ⟨path ++ [.field key], .notCount, some (.int n)⟩ := by
  rw [mem_issues_of_parse hp, h.faultIn_iff hi]

/-- Margins and indents are read exactly, whatever is written for them, as it is written or with its
references decoded. A source parses exactly when the text says an integer and all the rest is right;
its tree then holds this integer. An integer from 0 to 65535 is not among the issues of the tree, and
the element holds it as it is; any other is among them, as one that is not a count. The text that
markup writes for a count says it. -/
theorem counts_read_exactly {source : String} {items : List Item} {path : Path}
    {a : WrittenAttribute} {w v : String} (h : HasItems source items)
    (ha : Item.NumberIn items path a) (hw : a.value = some w) (hv : v = w ∨ v = Entity.decode w) :
    ((∃ raw, parse source = .ok raw) ↔
      (∃ n, Attribute.Says v n) ∧ ∀ item ∈ Item.allItems items, item.WellFormedBut a) ∧
    ((∀ n, ¬ Attribute.Says v n) → ∃ e, parse source = .error e) ∧
    (∀ raw n, parse source = .ok raw → Attribute.Says v n →
      (∃ fields, Schema.NodeAt raw path fields ∧ fields.lookup a.key = some (.int n)) ∧
      (0 ≤ n ∧ n ≤ 65535 →
        (∀ issues, Node.ofRaw raw = .error issues →
          ∀ i ∈ issues, i.path ≠ path ++ [.field a.key]) ∧
        ∀ nodes, Node.ofRaw raw = .ok nodes → ∃ e count, Node.ElementIn nodes path e ∧
          e.settings.lookup a.key = some (.count count) ∧ (count.val : Int) = n) ∧
      (¬ (0 ≤ n ∧ n ≤ 65535) → ∃ issues, Node.ofRaw raw = .error issues ∧
        ⟨path ++ [.field a.key], .notCount, some (.int n)⟩ ∈ issues)) ∧
    ∀ count : Count, Attribute.Says (Setting.count count).written count.val := by
  have hsaid (n : Int) : Attribute.Says v n ↔ Attribute.Says w n := by
    rcases hv with rfl | rfl
    · exact Iff.rfl
    · exact Attribute.says_decode_iff
  have hparse : (∃ raw, parse source = .ok raw) ↔ ∃ raws, Item.toRaws items = .ok raws := by
    rw [parse_of_hasItems h]
    exact ⟨fun ⟨_, he⟩ => (map_eq_ok he).imp fun _ he => he.1, fun ⟨raws, he⟩ => ⟨_, by rw [he]; rfl⟩⟩
  simp only [hsaid]
  refine ⟨hparse.trans (ha.exists_toRaws_iff hw), fun hnone => ?_, fun raw n hp hn => ?_,
    Attribute.says_written⟩
  · cases hp : parse source with
    | error e => exact ⟨e, rfl⟩
    | ok raw =>
      obtain ⟨⟨n, hn⟩, -⟩ := (ha.exists_toRaws_iff hw).1 (hparse.1 ⟨raw, hp⟩)
      exact absurd hn (hnone n)
  · obtain ⟨raws, hr, rfl⟩ := map_eq_ok ((parse_of_hasItems h).symm.trans hp)
    obtain ⟨m, fields, hm, hh⟩ := ha.holdsNumber hw hr
    cases hm.unique hn
    refine ⟨⟨fields, hh.node, hh.held⟩, fun hrange => ⟨fun issues ho i hi hpath => ?_,
      fun nodes ho => ha.lookup_settings hr hh ho⟩, fun hrange => ?_⟩
    · rw [← (Node.ofRaw_eq_error_iff.1 ho).1, hh.mem_issues_iff hp hpath] at hi
      exact hi.1 hrange
    · have hi := (hh.mem_issues_iff hp rfl).2 ⟨hrange, rfl⟩
      exact ⟨_, Node.ofRaw_eq_error_iff.2 ⟨rfl, List.ne_nil_of_mem hi⟩, hi⟩

/-- A margin with a blank, a sign and leading zeros. -/
def paddedMargin : WrittenAttribute :=
  ⟨"margin-left", some " +007", 10, 29⟩

/-- An element with a text and a list item in it that has the margin. -/
def paddedItems : List Item :=
  [.element ⟨⟨"div", 1, 4⟩, []⟩
    [.text "a", .selfClosing ⟨⟨"li", 7, 9⟩, [paddedMargin]⟩] ⟨"div", 33, 36⟩]

/-- The margin of a list item that is the second node in another element. -/
theorem counts_read_exactly_nested :
    let source := "<div>a<li margin-left=' +007'/></div>"
    let path : Path := [.item 0, .field "content", .item 1]
    let raw : Raw := .array [.object [("content", .array [.object [("node", .string "text"),
      ("value", .string "a")], .object [("marginLeft", .int 7), ("node", .string "li")]]),
      ("node", .string "div")]]
    HasItems source paddedItems ∧ Item.NumberIn paddedItems path paddedMargin ∧
      Attribute.Says " +007" 7 ∧ parse source = .ok raw ∧
      (∃ fields, Schema.NodeAt raw path fields ∧ fields.lookup "marginLeft" = some (.int 7)) ∧
      ∃ nodes e count, Node.ofRaw raw = .ok nodes ∧ Node.ElementIn nodes path e ∧
        e.settings.lookup "marginLeft" = some (.count count) ∧ (count.val : Int) = 7 := by
  intro source path raw
  have hlex : Token.lex source = .ok [⟨.tagOpen, 0, 1⟩, ⟨.name "div", 1, 4⟩, ⟨.tagEnd, 4, 5⟩,
      ⟨.text "a", 5, 6⟩, ⟨.tagOpen, 6, 7⟩, ⟨.name "li", 7, 9⟩, ⟨.name "margin-left", 10, 21⟩,
      ⟨.equals, 21, 22⟩, ⟨.quoted " +007", 22, 29⟩, ⟨.selfClose, 29, 31⟩, ⟨.closeOpen, 31, 33⟩,
      ⟨.name "div", 33, 36⟩, ⟨.tagEnd, 36, 37⟩] := by decide +kernel
  have hitems : HasItems source paddedItems := ⟨_, hlex, rfl, rfl⟩
  have hnumber : Item.NumberIn paddedItems path paddedMargin :=
    ⟨_, .styled .listItem, .among rfl (by decide) (.selfClosing rfl), rfl, List.mem_cons_self, rfl⟩
  have hdigits : Attribute.IsDigits ['0', '0', '7'] := ⟨by decide, by simp [Char.isDigit]⟩
  have hsaid : Attribute.Says " +007" 7 :=
    ⟨⟨[' '], _, [], rfl, .plus hdigits, by simp [Text.isBlank], List.forall_mem_nil _⟩,
      by decide, by decide⟩
  have hparse : parse source = .ok raw := by
    rw [parse_of_hasItems hitems]
    rfl
  obtain ⟨-, -, hread, -⟩ := counts_read_exactly hitems hnumber rfl (.inl rfl)
  obtain ⟨hnode, hrange, -⟩ := hread raw 7 hparse hsaid
  obtain ⟨e, count, he⟩ := (hrange (by decide)).2 _ rfl
  exact ⟨hitems, hnumber, hsaid, hparse, hnode, _, e, count, rfl, he⟩

end TermMarkup
