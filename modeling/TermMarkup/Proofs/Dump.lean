/-
Dumping a document as an untyped tree and checking the tree again. The check gives the document back
exactly when every underline is one, only list items say how they begin, no element has an empty
list for its content, and no content lies too deep; every document that a check gives is such a
document.
-/
import TermMarkup.Proofs.Check

namespace TermMarkup.Node

open Checked

/-! ## The nodes a check gives -/

/-- What a check makes sure of at a node with `depth` ancestors. -/
def Sound (depth : Nat) : Node → Prop
  | .element e content =>
    e.Fits ∧ content = .ofChildren content.children ∧ (content ≠ .absent → depth < maxNesting)
  | _ => True

/-- Content that a check gives at a node with `depth` ancestors. -/
structure SoundContent (depth : Nat) (content : Content Node) : Prop where
  shape : content = .ofChildren content.children
  shallow : content ≠ .absent → depth < maxNesting
  children : Throughout Sound (depth + 1) content.children

theorem checkFields_sound {depth : Nat} {path : Path} {fields : List (String × Raw)}
    {content : Checked (Content Node)} (h : (checkFields path fields content).issues = [])
    (hc : content.issues = [] → SoundContent depth content.value) :
    ∃ node, (checkFields path fields content).value = some node ∧
      Throughout Sound depth [node] := by
  rcases checkFields_clean h with ⟨value, hv⟩ | hv | ⟨e, hv, he, hi⟩
  · exact ⟨_, hv, throughout_text.2 ⟨trivial, throughout_nil⟩⟩
  · exact ⟨_, hv, throughout_lineBreak.2 ⟨trivial, throughout_nil⟩⟩
  · have hs := hc hi
    exact ⟨_, hv, throughout_element.2 ⟨⟨he, hs.shape, hs.shallow⟩, hs.children, throughout_nil⟩⟩

-- the induction is on the untyped tree, along the three functions that go through it
mutual

theorem checkContent_sound (depth : Nat) (path : Path) : ∀ fields : List (String × Raw),
    (checkContent depth path fields).issues = [] →
      SoundContent depth (checkContent depth path fields).value
  | [], _ => ⟨rfl, fun h => absurd rfl h, throughout_nil⟩
  | (key, value) :: fields, h => by
    unfold checkContent at h ⊢
    split at h
    · rename_i hk
      rw [if_pos hk]
      simp only at h ⊢
      split at h
      · rename_i hd
        rw [if_pos hd]
        obtain ⟨hs, ht⟩ := checkContentValue_sound (depth + 1) _ value h
        exact ⟨hs, fun _ => hd, ht⟩
      · exact absurd h (issues_report_ne_nil _ _ _ _)
    · rename_i hk
      rw [if_neg hk]
      exact checkContent_sound depth path fields h

theorem checkContentValue_sound (depth : Nat) (path : Path) : ∀ raw : Raw,
    (checkContentValue depth path raw).issues = [] →
      (checkContentValue depth path raw).value =
        .ofChildren (checkContentValue depth path raw).value.children ∧
      Throughout Sound depth (checkContentValue depth path raw).value.children
  | .object fields, h => by
    unfold checkContentValue at h ⊢
    obtain ⟨h, -⟩ := List.append_eq_nil_iff.1 h
    obtain ⟨node, hv, ht⟩ := checkFields_sound h (checkContent_sound depth path fields)
    rw [value_bind, hv]
    exact ⟨rfl, ht⟩
  | .array items, h => by
    unfold checkContentValue at h ⊢
    obtain ⟨h, -⟩ := List.append_eq_nil_iff.1 h
    have ht := checkNodes_sound depth path 0 items h
    simp only [value_bind, value_pure, Content.children_ofChildren]
    exact ⟨trivial, ht⟩
  | .null, h => absurd h (issues_report_ne_nil _ _ _ _)
  | .bool _, h => absurd h (issues_report_ne_nil _ _ _ _)
  | .number _, h => absurd h (issues_report_ne_nil _ _ _ _)
  | .string _, h => absurd h (issues_report_ne_nil _ _ _ _)

theorem checkNodes_sound (depth : Nat) (path : Path) : ∀ (index : Nat) (items : List Raw),
    (checkNodes depth path index items).issues = [] →
      Throughout Sound depth (checkNodes depth path index items).value
  | _, [], _ => throughout_nil
  | index, .object fields :: items, h => by
    unfold checkNodes at h ⊢
    obtain ⟨hn, h⟩ := List.append_eq_nil_iff.1 h
    obtain ⟨h, -⟩ := List.append_eq_nil_iff.1 h
    obtain ⟨node, hv, ht⟩ := checkFields_sound hn (checkContent_sound depth _ fields)
    simp only [value_bind, value_pure, hv]
    exact throughout_append.2 ⟨ht, checkNodes_sound depth path (index + 1) items h⟩
  | _, .null :: _, h => absurd h (by unfold checkNodes; exact List.cons_ne_nil _ _)
  | _, .bool _ :: _, h => absurd h (by unfold checkNodes; exact List.cons_ne_nil _ _)
  | _, .number _ :: _, h => absurd h (by unfold checkNodes; exact List.cons_ne_nil _ _)
  | _, .string _ :: _, h => absurd h (by unfold checkNodes; exact List.cons_ne_nil _ _)
  | _, .array _ :: _, h => absurd h (by unfold checkNodes; exact List.cons_ne_nil _ _)

end

/-! ## The fields of a dumped element -/

/-- The untyped form of content, if it is not absent. -/
def contentRaw? : Content Node → Option Raw
  | .absent => none
  | .single node => some (toRaw node)
  | .many nodes => some (.array (toRaws nodes))

theorem contentRaw?_eq_none_iff {content : Content Node} :
    contentRaw? content = none ↔ content = .absent := by
  cases content with
  | absent => exact ⟨fun _ => rfl, fun _ => rfl⟩
  | single node => exact ⟨fun h => (by cases h), fun h => (by cases h)⟩
  | many nodes => exact ⟨fun h => (by cases h), fun h => (by cases h)⟩

theorem lookup_contentFields (content : Content Node) (key : String) :
    (contentFields content).lookup key = if key = "content" then contentRaw? content else none := by
  cases content with
  | absent => simp [contentFields, contentRaw?]
  | single node => rw [contentFields, lookup_cons_ite]; rfl
  | many nodes => rw [contentFields, lookup_cons_ite]; rfl

theorem keys_contentFields {content : Content Node} {key : String}
    (h : key ∈ (contentFields content).map Prod.fst) : key = "content" := by
  cases content with
  | absent => simp [contentFields] at h
  | single node => simpa [contentFields] using h
  | many nodes => simpa [contentFields] using h

/-- The fields of a dumped element before they are put in order. -/
def writtenFields (e : Element) (content : Content Node) : List (String × Raw) :=
  ("node", .string e.kind.tag) :: (e.fields ++ contentFields content)

/-- The fields of a dumped element. -/
def dumpedFields (e : Element) (content : Content Node) : List (String × Raw) :=
  Raw.insertAll [] (writtenFields e content)

theorem toRaw_element (e : Element) (content : Content Node) :
    toRaw (.element e content) = .object (dumpedFields e content) := by
  rw [toRaw]
  rfl

theorem ordered_dumpedFields (e : Element) (content : Content Node) :
    Raw.Ordered (dumpedFields e content) :=
  Raw.ordered_insertAll Raw.ordered_nil _

theorem keys_fields (e : Element) : e.fields.map Prod.fst = e.settings.map Prod.fst := by
  unfold Element.fields
  rw [List.map_map]
  rfl

theorem nodup_writtenFields (e : Element) (content : Content Node) :
    ((writtenFields e content).map Prod.fst).Nodup := by
  have hreserved : ∀ key ∈ e.settings.map Prod.fst, key ≠ "node" ∧ key ≠ "content" := by
    intro key hk
    have := Attribute.keys_reserved key (Element.mem_keys_of_settings hk)
    exact ⟨this.1, this.2.1⟩
  unfold writtenFields
  rw [List.map_cons, List.map_append, keys_fields, List.nodup_cons]
  constructor
  · intro h
    rcases List.mem_append.1 h with h | h
    · exact (hreserved _ h).1 rfl
    · have hn : "node" = "content" := keys_contentFields h
      exact absurd hn (by decide)
  · refine List.nodup_append.2 ⟨e.nodup_settings, ?_, fun a ha b hb hab => ?_⟩
    · cases content with
      | absent => exact List.nodup_nil
      | single node => exact List.nodup_singleton _
      | many nodes => exact List.nodup_singleton _
    · exact (hreserved a ha).2 (hab.trans (keys_contentFields hb))

theorem lookup_dumpedFields (e : Element) (content : Content Node) (key : String) :
    (dumpedFields e content).lookup key =
      if key = "node" then some (.string e.kind.tag)
      else ((e.settings.lookup key).map Setting.toRaw).or
        (if key = "content" then contentRaw? content else none) := by
  unfold dumpedFields
  rw [Raw.lookup_insertAll (nodup_writtenFields e content)]
  unfold writtenFields Element.fields
  rw [lookup_cons_ite, List.lookup_append, lookup_map_value, lookup_contentFields, List.lookup_nil,
    Option.or_none]

theorem lookup_dumpedFields_node (e : Element) (content : Content Node) :
    (dumpedFields e content).lookup "node" = some (.string e.kind.tag) := by
  rw [lookup_dumpedFields, if_pos rfl]

theorem lookup_dumpedFields_content (e : Element) (content : Content Node) :
    (dumpedFields e content).lookup "content" = contentRaw? content := by
  have hnone : e.settings.lookup "content" = none :=
    lookup_eq_none_of_notMem fun h =>
      (Attribute.keys_reserved _ (Element.mem_keys_of_settings h)).2.1 rfl
  rw [lookup_dumpedFields, hnone, if_neg (by decide), if_pos rfl]
  rfl

theorem lookup_dumpedFields_key {e : Element} {content : Content Node} {key : String}
    (h : key ∈ Attribute.keys) :
    (dumpedFields e content).lookup key = (e.settings.lookup key).map Setting.toRaw := by
  have hr := Attribute.keys_reserved key h
  rw [lookup_dumpedFields, if_neg hr.1, if_neg hr.2.1, Option.or_none]

theorem mem_dumpedFields {e : Element} {content : Content Node} {field : String × Raw}
    (h : field ∈ dumpedFields e content) :
    field.1 = "node" ∨ field.1 = "content" ∨
      ∃ x : Setting, (field.1, x) ∈ e.settings ∧ field.2 = x.toRaw := by
  rcases Raw.mem_insertAll h with h | h
  · rcases List.mem_cons.1 h with rfl | h
    · exact Or.inl rfl
    · rcases List.mem_append.1 h with h | h
      · obtain ⟨setting, hs, rfl⟩ := List.mem_map.1 h
        exact Or.inr (Or.inr ⟨setting.2, hs, rfl⟩)
      · exact Or.inr (Or.inl (keys_contentFields (List.mem_map.2 ⟨field, h, rfl⟩)))
  · cases h

/-! ## The check of a dumped element -/

theorem hasContent_kind (e : Element) : e.kind.hasContent = true := by
  cases e <;> rfl

theorem valued_dumpedFields {e : Element} (he : e.Fits) (content : Content Node) :
    Valued e.kind (dumpedFields e content) := by
  constructor
  · intro field hf shape hs
    have hr := Attribute.keys_reserved _ (Attribute.mem_keys hs)
    rcases mem_dumpedFields hf with h | h | ⟨x, hx, hraw⟩
    · exact absurd h hr.1
    · exact absurd h hr.2.1
    · have hxs := Element.shape_of_mem_settings he hx
      rw [hs, Option.some.injEq] at hxs
      refine ⟨x, by rw [hraw, hxs, Attribute.read?_toRaw], fun hk => ?_⟩
      cases e with
      | underline style =>
        have hx' : x = .underline style := (Prod.mk.inj (List.mem_singleton.1 hx)).2
        rw [hx']
        exact fun h => he (Setting.underline.inj h)
      | bold | italics | color fg bg | styled kind style => cases hk
  · intro hk
    rw [lookup_dumpedFields_key (by decide)]
    cases e with
    | underline style => rfl
    | bold | italics | color fg bg | styled kind style => cases hk

theorem isKnownKey_dumpedFields {e : Element} (he : e.Fits) {content : Content Node}
    {field : String × Raw} (hf : field ∈ dumpedFields e content) :
    isKnownKey e.kind field.1 = true := by
  unfold isKnownKey
  rcases mem_dumpedFields hf with h | h | ⟨x, hx, -⟩
  · simp [h]
  · simp [h, hasContent_kind]
  · simp [Element.shape_of_mem_settings he hx]

/-- The attributes of a dumped element that fits give it back. -/
theorem checkElement_dumpedFields {e : Element} (he : e.Fits) (content : Content Node)
    (path : Path) : (checkElement e.kind path (dumpedFields e content)).value = e := by
  have hc := hasContent_kind e
  refine Element.eq_of_lookup (checkElement_kind hc path _) fun key => ?_
  rw [checkElement_lookup hc path (ordered_dumpedFields e content) (valued_dumpedFields he content)]
  unfold settingOf?
  cases hs : Attribute.shape? e.kind key with
  | none =>
    cases hl : e.settings.lookup key with
    | none => rfl
    | some x =>
      rw [Element.shape_of_mem_settings he (mem_of_lookup hl)] at hs
      cases hs
  | some shape =>
    rw [Option.bind_some, lookup_dumpedFields_key (Attribute.mem_keys hs)]
    cases hl : e.settings.lookup key with
    | none => rfl
    | some x =>
      have hx := Element.shape_of_mem_settings he (mem_of_lookup hl)
      rw [hs, Option.some.injEq] at hx
      rw [Option.map_some, Option.bind_some, hx, Attribute.read?_toRaw]

/-- A dumped element whose keys and attributes have no issues fits. -/
theorem fits_of_valued {e : Element} {content : Content Node}
    (hk : ∀ field ∈ dumpedFields e content, isKnownKey e.kind field.1 = true)
    (hv : Valued e.kind (dumpedFields e content)) : e.Fits := by
  cases e with
  | bold | italics | color fg bg => trivial
  | underline style =>
    have hl : (dumpedFields (.underline style) content).lookup "type" =
        some (Setting.underline style).toRaw := lookup_dumpedFields_key (by decide)
    obtain ⟨x, hx, hne⟩ := hv.values _ (mem_of_lookup hl) .underline rfl
    have hread := Attribute.read?_toRaw (.underline style)
    rw [show (Setting.underline style).shape = .underline from rfl, hx, Option.some.injEq] at hread
    rintro rfl
    exact hne rfl hread
  | styled kind style =>
    intro hkind
    have hheld : ∀ key ∈ Attribute.keys, Attribute.styledShape? kind key = none →
        style.held key = none := by
      intro key hmem hs
      cases hh : style.held key with
      | none => rfl
      | some x =>
        have hl : (dumpedFields (.styled kind style) content).lookup key = some x.toRaw := by
          rw [lookup_dumpedFields_key hmem, Element.lookup_settings_styled, hh, Option.map_some]
        -- the setting would be dumped under a key that the kind does not know
        have hr := Attribute.keys_reserved key hmem
        have hknown : isKnownKey (.styled kind) key = true := hk _ (mem_of_lookup hl)
        have hshape : Attribute.shape? (.styled kind) key = none := hs
        simp [isKnownKey, hr, hshape] at hknown
    have hlist := Attribute.styledShape?_list hkind
    exact Listing.mk.injEq .. |>.mpr
      ⟨Option.map_eq_none_iff.1 (hheld "bullet" (by decide) hlist.1),
        Option.map_eq_none_iff.1 (hheld "indent" (by decide) hlist.2)⟩

/-! ## The check of a dumped document -/

theorem toRaw_isObject (node : Node) : ∃ fields, toRaw node = .object fields := by
  cases node with
  | text value => exact ⟨_, rfl⟩
  | lineBreak => exact ⟨_, rfl⟩
  | element e content => exact ⟨_, toRaw_element e content⟩

/-- What an element must be, with `depth` nodes around it, for its dump to have no issues. -/
def Dumps (depth : Nat) : Node → Prop
  | .element e content => e.Fits ∧ (content ≠ .absent → depth < maxNesting)
  | _ => True

/-- Checking the dump of a node finds no issues exactly when the node can be dumped, and then gives
the node back with each content in the form a check gives it. -/
structure ChecksBack (node : Node) : Prop where
  issues : ∀ depth path,
    (checkNode depth path (toRaw node)).issues = [] ↔ Throughout Dumps depth [node]
  value : ∀ depth path, (checkNode depth path (toRaw node)).issues = [] →
    (checkNode depth path (toRaw node)).value = some (rebuiltNode id node)

section

variable {nodes : List Node}

theorem checkNodes_toRaws_issues (h : ∀ node ∈ nodes, ChecksBack node) (depth : Nat) (path : Path)
    (index : Nat) :
    (checkNodes depth path index (toRaws nodes)).issues = [] ↔ Throughout Dumps depth nodes := by
  induction nodes generalizing index with
  | nil => exact ⟨fun _ => throughout_nil, fun _ => by rw [toRaws, checkNodes]; rfl⟩
  | cons node nodes ih =>
    rw [toRaws, checkNodes_cons, throughout_cons]
    simp only [issues_bind, issues_pure, List.append_nil, List.append_eq_nil_iff]
    rw [(h node List.mem_cons_self).issues, ih fun n hn => h n (List.mem_cons_of_mem _ hn)]

theorem checkNodes_toRaws_value (h : ∀ node ∈ nodes, ChecksBack node) (depth : Nat) (path : Path)
    (index : Nat) (hi : (checkNodes depth path index (toRaws nodes)).issues = []) :
    (checkNodes depth path index (toRaws nodes)).value = rebuilt id nodes := by
  induction nodes generalizing index with
  | nil => rw [toRaws, checkNodes]; rfl
  | cons node nodes ih =>
    rw [toRaws, checkNodes_cons] at hi ⊢
    simp only [issues_bind, issues_pure, List.append_nil, List.append_eq_nil_iff] at hi
    simp only [value_bind, value_pure]
    rw [(h node List.mem_cons_self).value _ _ hi.1,
      ih (fun n hn => h n (List.mem_cons_of_mem _ hn)) _ hi.2]
    rfl

end

section

variable {content : Content Node}

theorem checkContentValue_contentRaw (h : ∀ node ∈ content.children, ChecksBack node) (depth : Nat)
    (path : Path) {raw : Raw} (hr : contentRaw? content = some raw) :
    ((checkContentValue depth path raw).issues = [] ↔ Throughout Dumps depth content.children) ∧
    ((checkContentValue depth path raw).issues = [] →
      (checkContentValue depth path raw).value = .ofChildren (rebuilt id content.children)) := by
  cases content with
  | absent => cases hr
  | single node =>
    cases Option.some.inj hr
    have hn := h node List.mem_cons_self
    have hi := hn.issues depth path
    have hv := hn.value depth path
    obtain ⟨fields, he⟩ := toRaw_isObject node
    rw [he] at hi hv ⊢
    rw [checkContentValue_object]
    refine ⟨hi, fun hc => ?_⟩
    simp only [hv hc]
    rfl
  | many nodes =>
    cases Option.some.inj hr
    rw [Content.children_many] at h ⊢
    rw [checkContentValue]
    simp only [issues_bind, issues_pure, List.append_nil, value_bind, value_pure]
    refine ⟨checkNodes_toRaws_issues h depth path 0, fun hc => ?_⟩
    rw [checkNodes_toRaws_value h depth path 0 hc]

theorem checkContent_dumpedFields (h : ∀ node ∈ content.children, ChecksBack node) (depth : Nat)
    (path : Path) (e : Element) :
    ((checkContent depth path (dumpedFields e content)).issues = [] ↔
      (content ≠ .absent → depth < maxNesting) ∧
        Throughout Dumps (depth + 1) content.children) ∧
    ((checkContent depth path (dumpedFields e content)).issues = [] →
      (checkContent depth path (dumpedFields e content)).value =
        .ofChildren (rebuilt id content.children)) := by
  rw [checkContent_issues, checkContent_eq, lookup_dumpedFields_content]
  cases hr : contentRaw? content with
  | none =>
    have ha := contentRaw?_eq_none_iff.1 hr
    subst ha
    exact ⟨⟨fun _ => ⟨fun hne => absurd rfl hne, throughout_nil⟩, fun _ _ hraw => (by cases hraw)⟩,
      fun _ => rfl⟩
  | some raw =>
    have hne : content ≠ .absent := by
      intro ha
      rw [contentRaw?_eq_none_iff.2 ha] at hr
      cases hr
    obtain ⟨hi, hv⟩ := checkContentValue_contentRaw h (depth + 1) (path ++ [.field "content"]) hr
    simp only [Option.some.injEq, forall_eq', hi]
    refine ⟨and_congr_left fun _ => ⟨fun hd _ => hd, fun hd => hd hne⟩, fun hc => ?_⟩
    rw [if_pos hc.1, hv (hi.2 hc.2)]

end

theorem checksBack_text (value : String) : ChecksBack (.text value) := by
  constructor
  · intro depth path
    rw [toRaw_text]
    exact ⟨fun _ => throughout_text.2 ⟨trivial, throughout_nil⟩, fun _ => rfl⟩
  · intro depth path _
    rw [toRaw_text]
    rfl

theorem checksBack_lineBreak : ChecksBack .lineBreak := by
  constructor
  · intro depth path
    exact ⟨fun _ => throughout_lineBreak.2 ⟨trivial, throughout_nil⟩, fun _ => rfl⟩
  · intro depth path _
    rfl

theorem checksBack_element (e : Element) {content : Content Node}
    (h : ∀ node ∈ content.children, ChecksBack node) : ChecksBack (.element e content) := by
  have hnode (depth : Nat) (path : Path) : checkNode depth path (toRaw (.element e content)) = _ :=
    checkFields_element (lookup_dumpedFields_node e content) (hasContent_kind e)
      (checkContent depth path (dumpedFields e content))
  have hissues (depth : Nat) (path : Path) :
      (checkNode depth path (toRaw (.element e content))).issues = [] ↔
        Throughout Dumps depth [.element e content] := by
    have hc := (checkContent_dumpedFields h depth path e).1
    have ha := checkElement_issues (hasContent_kind e) path (ordered_dumpedFields e content)
    rw [hnode, throughout_element]
    simp only [List.append_eq_nil_iff, checkKeys_issues, ha, hc]
    constructor
    · rintro ⟨hk, hv, hd, ht⟩
      exact ⟨⟨fits_of_valued hk hv, hd⟩, ht, throughout_nil⟩
    · rintro ⟨⟨he, hd⟩, ht, -⟩
      exact ⟨fun field hf => isKnownKey_dumpedFields he hf, valued_dumpedFields he content, hd, ht⟩
  refine ⟨hissues, fun depth path hi => ?_⟩
  have he : e.Fits := (throughout_element.1 ((hissues depth path).1 hi)).1.1
  rw [hnode] at hi ⊢
  simp only [List.append_eq_nil_iff] at hi
  rw [checkElement_dumpedFields he, (checkContent_dumpedFields h depth path e).2 hi.2.2, rebuiltNode,
    rebuiltChildren_eq]
  rfl

theorem checksBack (nodes : List Node) : ∀ node ∈ nodes, ChecksBack node := by
  induction nodes using documentInduction with
  | nil => exact List.forall_mem_nil _
  | text value nodes ih => exact List.forall_mem_cons.2 ⟨checksBack_text value, ih⟩
  | lineBreak nodes ih => exact List.forall_mem_cons.2 ⟨checksBack_lineBreak, ih⟩
  | element e content nodes ihc ih => exact List.forall_mem_cons.2 ⟨checksBack_element e ihc, ih⟩

theorem ofRaw_toRaws_eq_ok_iff {nodes back : List Node} :
    ofRaw (.array (toRaws nodes)) = .ok back ↔ Throughout Dumps 0 nodes ∧ back = rebuilt id nodes := by
  have hi := checkNodes_toRaws_issues (checksBack nodes) 0 [] 0
  rw [ofRaw_eq_ok_iff]
  show (checkNodes 0 [] 0 (toRaws nodes)).issues = [] ∧
    (checkNodes 0 [] 0 (toRaws nodes)).value = back ↔ _
  constructor
  · rintro ⟨h, rfl⟩
    exact ⟨hi.1 h, checkNodes_toRaws_value (checksBack nodes) 0 [] 0 h⟩
  · rintro ⟨ht, rfl⟩
    exact ⟨hi.2 ht, checkNodes_toRaws_value (checksBack nodes) 0 [] 0 (hi.2 ht)⟩

/-! ## The document that comes back -/

/-- Content that is not an empty list. -/
def Filled (node : Node) : Prop :=
  node.content ≠ .many []

theorem sameContent_ofChildren {content : Content Node} (hf : content ≠ .many []) :
    sameContent (.ofChildren (rebuilt id content.children)) content =
      sameList (rebuilt id content.children) content.children := by
  match content, hf with
  | .absent, _ => rfl
  | .single node, _ => simp [sameList, rebuilt, sameContent, Content.ofChildren]
  | .many [node], _ => simp [sameList, rebuilt, sameContent, Content.ofChildren]
  | .many (first :: second :: nodes), _ =>
    simp [sameList, rebuilt, sameContent, Content.ofChildren]

/-- A document is the same as its rebuilt one exactly when no content is an empty list. -/
theorem sameList_rebuilt_iff (nodes : List Node) (depth : Nat) :
    sameList (rebuilt id nodes) nodes = true ↔ Throughout (fun _ node => Filled node) depth nodes := by
  induction nodes using documentInduction generalizing depth with
  | nil => exact ⟨fun _ => throughout_nil, fun _ => rfl⟩
  | text value nodes ih =>
    rw [rebuilt_text, throughout_text, ← ih depth]
    simp [sameList, same, Filled, content]
  | lineBreak nodes ih =>
    rw [rebuilt_lineBreak, throughout_lineBreak, ← ih depth]
    simp [sameList, same, Filled, content]
  | element e content nodes ihc ih =>
    rw [rebuilt_element, throughout_element, ← ih depth, ← ihc (depth + 1), id, sameList, same,
      beq_self_eq_true, Bool.true_and, Bool.and_eq_true, ← and_assoc]
    refine and_congr_left fun _ => ?_
    by_cases hf : content = .many []
    · -- an empty list comes back as no content at all
      subst hf
      exact ⟨fun h => (by cases h), fun h => absurd rfl h.1⟩
    · rw [sameContent_ofChildren hf]
      exact ⟨fun h => ⟨hf, h⟩, fun h => h.2⟩

/-- A document whose contents all have the form a check gives them is its own rebuilt one. -/
theorem rebuilt_eq_self {depth : Nat} {nodes : List Node} (h : Throughout Sound depth nodes) :
    rebuilt id nodes = nodes := by
  induction nodes using documentInduction generalizing depth with
  | nil => rfl
  | text value nodes ih => rw [rebuilt_text, ih (throughout_text.1 h).2]
  | lineBreak nodes ih => rw [rebuilt_lineBreak, ih (throughout_lineBreak.1 h).2]
  | element e content nodes ihc ih =>
    obtain ⟨⟨-, hs, -⟩, hc, hn⟩ := throughout_element.1 h
    rw [rebuilt_element, ihc hc, ih hn, id, ← hs]

/-- What a document must be for its dump to check as the same document. -/
structure Dumpable (nodes : List Node) : Prop where
  underlined : ∀ o ∈ occurrences nodes, ∀ content, o.node ≠ .element (.underline .off) content
  unlisted : ∀ o ∈ occurrences nodes, ∀ kind style content,
    o.node = .element (.styled kind style) content → kind ≠ .listItem →
      style.list.bullet = none ∧ style.list.indent = none
  filled : ∀ o ∈ occurrences nodes, o.node.content ≠ .many []
  shallow : ∀ o ∈ occurrences nodes, o.node.content ≠ .absent → o.depth ≤ 63

theorem dumps_of_dumpable {nodes : List Node} (h : Dumpable nodes) : Throughout Dumps 0 nodes := by
  rw [throughout_zero]
  intro o ho
  cases hn : o.node with
  | text value => trivial
  | lineBreak => trivial
  | element e content =>
    have hs := h.shallow o ho
    rw [hn] at hs
    refine ⟨?_, fun hc => Nat.lt_succ_of_le (hs hc)⟩
    cases e with
    | bold | italics | color fg bg => trivial
    | underline style =>
      rintro rfl
      exact h.underlined o ho content hn
    | styled kind style =>
      intro hk
      obtain ⟨hb, hi⟩ := h.unlisted o ho kind style content hn hk
      exact Listing.mk.injEq .. |>.mpr ⟨hb, hi⟩

theorem dumpable_iff {nodes : List Node} :
    Dumpable nodes ↔ Throughout Dumps 0 nodes ∧ Throughout (fun _ node => Filled node) 0 nodes := by
  constructor
  · intro h
    exact ⟨dumps_of_dumpable h, throughout_zero.2 h.filled⟩
  · rintro ⟨hd, hf⟩
    rw [throughout_zero] at hd hf
    refine ⟨fun o ho content hn => ?_, fun o ho kind style content hn hk => ?_, hf,
      fun o ho hc => ?_⟩
    · have h := hd o ho
      rw [hn] at h
      exact h.1 rfl
    · have h := hd o ho
      rw [hn] at h
      have hl : style.list = {} := h.1 hk
      rw [hl]
      exact ⟨rfl, rfl⟩
    · have h := hd o ho
      cases hn : o.node with
      | text value => rw [hn] at hc; exact absurd rfl hc
      | lineBreak => rw [hn] at hc; exact absurd rfl hc
      | element e content =>
        rw [hn] at h hc
        exact Nat.le_of_lt_succ (h.2 hc)

theorem filled_of_sound {depth : Nat} {node : Node} (h : Sound depth node) : Filled node := by
  cases node with
  | text value => intro hc; cases hc
  | lineBreak => intro hc; cases hc
  | element e content => exact Content.ne_many_nil h.2.1

theorem dumps_of_sound {depth : Nat} {node : Node} (h : Sound depth node) : Dumps depth node := by
  cases node with
  | text value => trivial
  | lineBreak => trivial
  | element e content => exact ⟨h.1, h.2.2⟩

theorem sound_of_ofRaw {raw : Raw} {nodes : List Node} (h : ofRaw raw = .ok nodes) :
    Throughout Sound 0 nodes := by
  obtain ⟨hi, rfl⟩ := ofRaw_eq_ok_iff.1 h
  cases raw with
  | array items => exact checkNodes_sound 0 [] 0 items hi
  | null | bool _ | number _ | string _ | object _ => exact throughout_nil

/-- In a document that a check gives, no node has more ancestors than the limit. -/
theorem depth_of_sound {depth : Nat} {nodes : List Node} (hd : depth ≤ maxNesting)
    (h : Throughout Sound depth nodes) : Throughout (fun depth _ => depth ≤ maxNesting) depth nodes := by
  induction nodes using documentInduction generalizing depth with
  | nil => exact throughout_nil
  | text value nodes ih => exact throughout_text.2 ⟨hd, ih hd (throughout_text.1 h).2⟩
  | lineBreak nodes ih => exact throughout_lineBreak.2 ⟨hd, ih hd (throughout_lineBreak.1 h).2⟩
  | element e content nodes ihc ih =>
    obtain ⟨⟨-, -, hshallow⟩, hc, hn⟩ := throughout_element.1 h
    refine throughout_element.2 ⟨hd, ?_, ih hd hn⟩
    by_cases ha : content = .absent
    · subst ha
      exact throughout_nil
    · -- content was only checked below the limit, so the children are at it or above
      exact ihc (hshallow ha) hc

theorem sound_nested {n depth : Nat} (h : depth + n ≤ maxNesting + 1) :
    Throughout Sound depth (nested n) := by
  induction n generalizing depth with
  | zero => exact throughout_nil
  | succ n ih =>
    refine throughout_element.2 ⟨⟨trivial, by rw [Content.children_ofChildren], fun ha => ?_⟩, ?_,
      throughout_nil⟩
    · cases n with
      | zero => exact absurd rfl ha
      | succ n => omega
    · rw [Content.children_ofChildren]
      exact ih (by omega)

/-- A document that a check could give comes back from its dump as it was. -/
theorem ofRaw_toRaws_of_sound {nodes : List Node} (h : Throughout Sound 0 nodes) :
    ofRaw (.array (toRaws nodes)) = .ok nodes :=
  ofRaw_toRaws_eq_ok_iff.2 ⟨h.imp fun _ _ => dumps_of_sound, (rebuilt_eq_self h).symm⟩

/-- Checking the dump of a document gives the same document exactly when the document is dumpable,
and every document that a check gives is dumpable and comes back as it was. -/
theorem ofRaw_toRaws_same_iff_dumpable :
    (∀ nodes, (∃ back, ofRaw (.array (toRaws nodes)) = .ok back ∧ sameList back nodes = true) ↔
      Dumpable nodes) ∧
    ∀ raw nodes, ofRaw raw = .ok nodes →
      Dumpable nodes ∧ ofRaw (.array (toRaws nodes)) = .ok nodes := by
  constructor
  · intro nodes
    rw [dumpable_iff, ← sameList_rebuilt_iff nodes 0]
    constructor
    · rintro ⟨back, hb, hs⟩
      obtain ⟨hd, rfl⟩ := ofRaw_toRaws_eq_ok_iff.1 hb
      exact ⟨hd, hs⟩
    · rintro ⟨hd, hs⟩
      exact ⟨_, ofRaw_toRaws_eq_ok_iff.2 ⟨hd, rfl⟩, hs⟩
  · intro raw nodes h
    have hs := sound_of_ofRaw h
    refine ⟨dumpable_iff.2 ⟨hs.imp fun _ _ => dumps_of_sound, hs.imp fun _ _ => filled_of_sound⟩, ?_⟩
    exact ofRaw_toRaws_of_sound hs

/-- A list item with a bullet around an underline of two nodes comes back from its dump. -/
theorem ofRaw_toRaws_listItem :
    let raw : Raw := .array [.object [("bullet", .string "- "),
      ("content", .object [("content", .array [.object [("node", .string "text"),
        ("value", .string "a")], .object [("node", .string "br")]]),
        ("node", .string "underline"), ("type", .bool true)]),
      ("node", .string "li")]]
    let nodes : List Node := [.element (.styled .listItem { list := { bullet := some "- " } })
      (.single (.element (.underline .single) (.many [.text "a", .lineBreak])))]
    ofRaw raw = .ok nodes ∧ Dumpable nodes ∧ ofRaw (.array (toRaws nodes)) = .ok nodes := by
  intro raw nodes
  have h : ofRaw raw = .ok nodes := rfl
  exact ⟨h, ofRaw_toRaws_same_iff_dumpable.2 raw nodes h⟩

end TermMarkup.Node
