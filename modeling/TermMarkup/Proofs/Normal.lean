/-
Documents in normal form. In every list of siblings no text is empty and no two texts stand side by
side; no element has a list of children that is empty; no underline is off, and only list items have
a bullet or an indent. Reading a source and composing a draft both give such documents. A composed
document has its text joined; in a source the texts between tags are as long as they can be, the
items keep them apart, decoding leaves something of each, and the nodes mirror the items.
-/
import TermMarkup.Proofs.Draft
import TermMarkup.Proofs.Locality
import TermMarkup.Proofs.Lossless
import TermMarkup.Proofs.Tokens

namespace TermMarkup

/-! ## Texts among the tokens -/

namespace Token

/-- No text among the tokens is empty, and no text is followed by a text. -/
structure TextsApart (xs : List Lexeme) : Prop where
  filled : ∀ x ∈ xs, x.token ≠ .text ""
  apart : xs.IsChain fun x y => ¬ (x.token.isText = true ∧ y.token.isText = true)

theorem TextsApart.of_append {xs ys : List Lexeme} (h : TextsApart (xs ++ ys)) :
    TextsApart xs ∧ TextsApart ys := by
  obtain ⟨hfx, hfy⟩ := List.forall_mem_append.1 h.filled
  obtain ⟨hx, hy, -⟩ := List.isChain_append.1 h.apart
  exact ⟨⟨hfx, hx⟩, ⟨hfy, hy⟩⟩

theorem TextsApart.tail {x : Lexeme} {xs : List Lexeme} (h : TextsApart (x :: xs)) :
    TextsApart xs := by
  have hx : TextsApart ([x] ++ xs) := h
  exact hx.of_append.2

theorem Spells.ne_text_empty {token : Token} {part : List Char} (h : Spells token part) :
    token ≠ .text "" := by
  rintro rfl
  generalize hv : "" = value at h
  cases h with
  | text hne _ => exact hne (String.ofList_eq_empty_iff.1 hv.symm)

theorem Laid.textsApart {mode : Mode} {offset : Nat} {cs : List Char} {xs : List Lexeme}
    (h : Laid mode offset cs xs) : TextsApart xs := by
  induction h with
  | done => exact ⟨List.forall_mem_nil _, .nil⟩
  | blank _ _ ih => exact ih
  | @token token _ _ _ _ _ hs hf _ h ih =>
    refine ⟨List.forall_mem_cons.2 ⟨hs.ne_text_empty, ih.filled⟩, List.isChain_cons.2 ⟨?_, ih.apart⟩⟩
    rintro y hy ⟨hx, hnext⟩
    cases token with
    | text value =>
      -- a text ends where a tag opens
      rw [h.head_of_before hf y hy] at hnext
      cases hnext
    | tagOpen | closeOpen | name | equals | quoted | tagEnd | selfClose => cases hx

end Token

/-! ## Texts among the items -/

namespace Item

def isText : Item → Bool
  | text _ => true
  | _ => false

/-- In every list of siblings no text is empty, and no text is followed by a text. -/
inductive Separated : List Item → Prop
  | nil : Separated []
  | text {value : String} {items : List Item} (hv : value ≠ "")
    (hnext : ∀ item ∈ items.head?, item.isText = false) (h : Separated items) :
    Separated (.text value :: items)
  | selfClosing (tag : OpenTag) {items : List Item} (h : Separated items) :
    Separated (.selfClosing tag :: items)
  | element (tag : OpenTag) {body : List Item} (close : Name) {items : List Item}
    (hb : Separated body) (h : Separated items) : Separated (.element tag body close :: items)

theorem Document.head_isText {xs : List Lexeme} {items : List Item} (h : Document xs items)
    (hx : ∀ x ∈ xs.head?, x.token.isText = false) : ∀ item ∈ items.head?, item.isText = false := by
  intro item hi
  cases h with
  | nil => cases hi
  | text value span _ => cases hx _ rfl
  | selfClosing | element =>
    cases Option.some.inj hi
    rfl

theorem Document.separated {xs : List Lexeme} {items : List Item} (hd : Document xs items)
    (h : Token.TextsApart xs) : Separated items := by
  induction hd with
  | nil => exact .nil
  | text value span hd ih =>
    have hv : value ≠ "" := by
      rintro rfl
      exact h.filled _ List.mem_cons_self rfl
    refine .text hv (hd.head_isText fun x hx => ?_) (ih h.tail)
    exact Bool.eq_false_iff.2 fun ht => (List.isChain_cons.1 h.apart).1 x hx ⟨rfl, ht⟩
  | selfClosing _ _ _ ih => exact .selfClosing _ (ih h.of_append.2.tail)
  | element _ _ _ close _ _ _ ihb ih =>
    obtain ⟨hbody, hrest⟩ := h.of_append.2.tail.of_append
    exact .element _ close (ihb hbody) (ih hrest.tail.tail.tail)

/-! ## The nodes of items -/

/-- The nodes stand for the items, one for one: a text for a text, a node without children for a
self-closing tag, and an element for an element, with children that stand for its body. -/
inductive Mirrored : List Item → List Node → Prop
  | nil : Mirrored [] []
  | text (value : String) {items : List Item} {nodes : List Node} (h : Mirrored items nodes) :
    Mirrored (.text value :: items) (.text (Entity.decode value) :: nodes)
  | lineBreak (tag : OpenTag) {items : List Item} {nodes : List Node} (h : Mirrored items nodes) :
    Mirrored (.selfClosing tag :: items) (.lineBreak :: nodes)
  | childless (tag : OpenTag) (e : Element) {content : Content Node} {items : List Item}
    {nodes : List Node} (hc : content.children = []) (h : Mirrored items nodes) :
    Mirrored (.selfClosing tag :: items) (.element e content :: nodes)
  | element (tag : OpenTag) (close : Name) (e : Element) {content : Content Node}
    {body items : List Item} {nodes : List Node} (hb : Mirrored body content.children)
    (h : Mirrored items nodes) :
    Mirrored (.element tag body close :: items) (.element e content :: nodes)

open Node Checked

/-- The nodes that a check gives for untyped nodes with `depth` nodes around them. -/
def checkedNodes (depth : Nat) (raws : List Raw) : List Node :=
  raws.flatMap fun raw => (checkNode depth [] raw).value.toList

/-- None of the untyped nodes, with `depth` nodes around them, has an issue. -/
def Clean (depth : Nat) (raws : List Raw) : Prop :=
  ∀ raw ∈ raws, (checkNode depth [] raw).issues = []

/-- Content that has no issues gives the nodes of the children it stands for. -/
theorem children_checkContentValue {depth : Nat} {path : Path} {children : List Raw} {content : Raw}
    (hc : contentOf children = some content) (ho : ∀ child ∈ children, ∃ fields, child = .object fields)
    (h : (checkContentValue depth path content).issues = []) :
    Clean depth children ∧
      (checkContentValue depth path content).value.children = checkedNodes depth children := by
  rw [checkContentValue_eq_under] at h ⊢
  match children, hc with
  | [child], hc =>
    cases Option.some.inj hc
    obtain ⟨fields, rfl⟩ := ho _ List.mem_cons_self
    rw [checkContentValue_object] at h ⊢
    refine ⟨List.forall_mem_singleton.2 (List.map_eq_nil_iff.1 h), ?_⟩
    unfold checkedNodes
    rw [List.flatMap_singleton]
    cases hv : (checkNode depth [] (.object fields)).value with
    | none => simp [Checked.under, Content.children]
    | some node => simp [Checked.under, Content.children]
  | first :: second :: others, hc =>
    cases Option.some.inj hc
    rw [checkContentValue] at h ⊢
    refine ⟨issues_checkNodes_eq_nil_iff.1 (List.append_eq_nil_iff.1 (List.map_eq_nil_iff.1 h)).1, ?_⟩
    rw [checkNodes_eq]
    exact Content.children_ofChildren _

/-- The fields of a tag and its content, without issues, give an element with the nodes of the
children. -/
theorem checkNode_fieldsWith_value {kind : Kind} {fields : List (String × Raw)} {children : List Raw}
    {depth : Nat} (ht : TagFields kind fields) (hc : kind.hasContent = true)
    (ho : ∀ child ∈ children, ∃ fields, child = .object fields)
    (h : (checkNode depth [] (.object (fieldsWith fields children))).issues = []) :
    ∃ e content, (checkNode depth [] (.object (fieldsWith fields children))).value =
        some (.element e content) ∧ Clean (depth + 1) children ∧
      content.children = checkedNodes (depth + 1) children := by
  have hfields : checkNode depth [] (.object (fieldsWith fields children)) = _ :=
    checkFields_element (lookup_fieldsWith_node ht children) hc
      (checkContent depth [] (fieldsWith fields children))
  rw [hfields] at h ⊢
  have hi := (List.append_eq_nil_iff.1 (List.append_eq_nil_iff.1 h).2).2
  refine ⟨_, _, rfl, ?_⟩
  rw [checkContent_eq, lookup_fieldsWith_content ht children] at hi ⊢
  cases hco : contentOf children with
  | none =>
    cases children with
    | nil => exact ⟨List.forall_mem_nil _, rfl⟩
    | cons first others => cases others <;> cases hco
  | some content =>
    rw [hco] at hi
    dsimp only at hi ⊢
    split at hi
    · rename_i hd
      rw [if_pos hd]
      exact children_checkContentValue hco ho hi
    · cases hi

theorem toRaws_isObject {items : List Item} {raws : List Raw} (h : toRaws items = .ok raws) :
    ∀ raw ∈ raws, ∃ fields, raw = .object fields := by
  induction items generalizing raws with
  | nil =>
    cases h
    exact List.forall_mem_nil _
  | cons item items ih =>
    obtain ⟨first, others, hf, hr, rfl⟩ := toRaws_cons_iff.1 h
    exact List.forall_mem_cons.2 ⟨toRaw_isObject hf, ih hr⟩

/-- Items whose meaning has no issues are mirrored by its nodes. -/
theorem mirrored_checkedNodes {items : List Item} {raws : List Raw} {depth : Nat}
    (h : toRaws items = .ok raws) (hc : Clean depth raws) :
    Mirrored items (checkedNodes depth raws) := by
  induction items using itemInduction generalizing raws depth with
  | nil =>
    cases h
    exact .nil
  | text value items ih =>
    obtain ⟨first, others, hf, ho, rfl⟩ := toRaws_cons_iff.1 h
    have hraw : first = Node.toRaw (.text (Entity.decode value)) := by
      cases hf
      rw [Node.toRaw]
    rw [Node.toRaw_text] at hraw
    subst hraw
    exact .text value (ih ho (List.forall_mem_cons.1 hc).2)
  | selfClosing tag items ih =>
    obtain ⟨first, others, hf, ho, rfl⟩ := toRaws_cons_iff.1 h
    obtain ⟨hfirst, hothers⟩ := List.forall_mem_cons.1 hc
    obtain ⟨kind, fields, hk, hfields, rfl⟩ := toRaw_selfClosing_iff.1 hf
    have ht := OpenTag.tagFields hfields
    unfold checkedNodes
    rw [List.flatMap_cons]
    by_cases hb : kind = .lineBreak
    · subst hb
      have hnode : checkNode depth [] (.object fields) = _ :=
        checkFields_lineBreak ht.node (checkContent depth [] fields)
      rw [hnode]
      exact .lineBreak tag (ih ho hothers)
    · have hcontent := hasContent_of_ne (OpenTag.kind_eq_ok_iff.1 hk).2 hb
      have hempty : fieldsWith fields [] = fields := rfl
      rw [← hempty] at hfirst ⊢
      obtain ⟨e, content, hv, -, hchildren⟩ :=
        checkNode_fieldsWith_value ht hcontent (List.forall_mem_nil _) hfirst
      rw [hv]
      exact .childless tag e hchildren (ih ho hothers)
  | element tag body close items ihb ih =>
    obtain ⟨first, others, hf, ho, rfl⟩ := toRaws_cons_iff.1 h
    obtain ⟨hfirst, hothers⟩ := List.forall_mem_cons.1 hc
    obtain ⟨kind, fields, children, hk, -, hb, hfields, hbody, rfl⟩ := toRaw_element_iff.1 hf
    have hcontent := hasContent_of_ne (OpenTag.kind_eq_ok_iff.1 hk).2 hb
    obtain ⟨e, content, hv, hclean, hchildren⟩ :=
      checkNode_fieldsWith_value (OpenTag.tagFields hfields) hcontent (toRaws_isObject hbody) hfirst
    unfold checkedNodes
    rw [List.flatMap_cons, hv]
    refine .element tag close e ?_ (ih ho hothers)
    rw [hchildren]
    exact ihb hbody hclean

theorem Mirrored.head_isText {items : List Item} {nodes : List Node} (h : Mirrored items nodes)
    (hi : ∀ item ∈ items.head?, item.isText = false) : ∀ node ∈ nodes.head?, node.isText = false := by
  intro node hn
  cases h with
  | nil => cases hn
  | text value _ => cases hi _ rfl
  | lineBreak | childless | element =>
    cases Option.some.inj hn
    rfl

/-- Nodes that mirror separated items are joined in every list of siblings. -/
theorem Mirrored.joined {items : List Item} {nodes : List Node} (h : Mirrored items nodes)
    (hs : Separated items) (depth : Nat) :
    Joined nodes ∧ Throughout (fun _ node => Joined node.children) depth nodes := by
  induction h generalizing depth with
  | nil => exact ⟨trivial, throughout_nil⟩
  | text value h ih =>
    cases hs with
    | text hv hnext hs =>
      obtain ⟨hj, ht⟩ := ih hs depth
      exact ⟨⟨Entity.decode_ne_empty hv, h.head_isText hnext, hj⟩, throughout_text.2 ⟨trivial, ht⟩⟩
  | lineBreak tag _ ih =>
    cases hs with
    | selfClosing _ hs =>
      obtain ⟨hj, ht⟩ := ih hs depth
      exact ⟨hj, throughout_lineBreak.2 ⟨trivial, ht⟩⟩
  | @childless tag e content _ _ hc _ ih =>
    cases hs with
    | selfClosing _ hs =>
      obtain ⟨hj, ht⟩ := ih hs depth
      refine ⟨hj, throughout_element.2 ⟨?_, ?_, ht⟩⟩
      · unfold Node.children Node.content
        rw [hc]
        trivial
      · rw [hc]
        exact throughout_nil
  | element tag close e _ _ ihb ih =>
    cases hs with
    | element _ _ hb hs =>
      obtain ⟨hjb, htb⟩ := ihb hb (depth + 1)
      obtain ⟨hj, ht⟩ := ih hs depth
      exact ⟨hj, throughout_element.2 ⟨hjb, htb, ht⟩⟩

end Item

/-! ## Normal documents -/

namespace Node

/-- The lists of siblings of a document: its nodes, and the children of each node. -/
def siblingLists (nodes : List Node) : List (List Node) :=
  nodes :: (occurrences nodes).map fun o => o.node.children

/-- What the documents have in common that are read from sources and composed from drafts. -/
structure Normal (nodes : List Node) : Prop where
  texts : ∀ siblings ∈ siblingLists nodes, .text "" ∉ siblings
  apart : ∀ siblings ∈ siblingLists nodes,
    siblings.IsChain fun node next => ¬ (node.isText = true ∧ next.isText = true)
  filled : ∀ o ∈ occurrences nodes, o.node.content ≠ .many []
  underlined : ∀ o ∈ occurrences nodes, ∀ content, o.node ≠ .element (.underline .off) content
  unlisted : ∀ o ∈ occurrences nodes, ∀ kind style content,
    o.node = .element (.styled kind style) content → kind ≠ .listItem →
      style.list.bullet = none ∧ style.list.indent = none

theorem joined_iff {nodes : List Node} : Joined nodes ↔ .text "" ∉ nodes ∧
    nodes.IsChain fun node next => ¬ (node.isText = true ∧ next.isText = true) := by
  induction nodes with
  | nil => exact ⟨fun _ => ⟨List.not_mem_nil, .nil⟩, fun _ => trivial⟩
  | cons node nodes ih =>
    rw [List.mem_cons, List.isChain_cons]
    cases node with
    | text value =>
      unfold Joined
      rw [ih]
      simp only [isText, true_and, Bool.not_eq_true, text.injEq, not_or]
      constructor
      · rintro ⟨hv, hnext, hn, hc⟩
        exact ⟨⟨hv.symm, hn⟩, hnext, hc⟩
      · rintro ⟨⟨hv, hn⟩, hnext, hc⟩
        exact ⟨hv ∘ Eq.symm, hnext, hn, hc⟩
    | lineBreak | element e content => simp [Joined, ih, isText]

theorem filled_of_settled {depth : Nat} {node : Node} (h : Settled depth node) : Filled node := by
  cases node with
  | text value | lineBreak => intro hc; cases hc
  | element e content => exact Content.ne_many_nil h.2.1

theorem joined_children_of_settled {depth : Nat} {node : Node} (h : Settled depth node) :
    Joined node.children := by
  cases node with
  | text value | lineBreak => trivial
  | element e content => exact h.2.2

theorem normal_of_settled {nodes : List Node} (hj : Joined nodes) (h : Throughout Settled 0 nodes) :
    Normal nodes := by
  rw [throughout_zero] at h
  have hall : ∀ siblings ∈ siblingLists nodes, Joined siblings := by
    refine List.forall_mem_cons.2 ⟨hj, List.forall_mem_map.2 fun o ho => ?_⟩
    exact joined_children_of_settled (h o ho)
  refine ⟨fun siblings hm => (joined_iff.1 (hall siblings hm)).1,
    fun siblings hm => (joined_iff.1 (hall siblings hm)).2, fun o ho => filled_of_settled (h o ho),
    fun o ho content hn => ?_, fun o ho kind style content hn hk => ?_⟩
  · have hs := h o ho
    rw [hn] at hs
    exact hs.1 rfl
  · have hs := h o ho
    rw [hn] at hs
    have hl : style.list = {} := hs.1 hk
    rw [hl]
    exact ⟨rfl, rfl⟩

theorem settled_of_sound {depth : Nat} {node : Node} (h : Sound depth node)
    (hj : Joined node.children) : Settled depth node := by
  cases node with
  | text value | lineBreak => trivial
  | element e content => exact ⟨h.1, h.2.1, hj⟩

end Node

open Node

theorem normal_of_readNodes {source : String} {nodes : List Node} (h : readNodes source = .ok nodes) :
    Normal nodes := by
  obtain ⟨raw, hp, ho⟩ := readNodes_eq_ok_iff.1 h
  obtain ⟨raws, hraws, rfl⟩ := map_eq_ok hp
  obtain ⟨xs, hl, hm⟩ := parseNodes_eq_ok_iff.1 hraws
  obtain ⟨items, hd, -, hr⟩ := meaning_eq_ok_iff.1 hm
  have hseparated := hd.separated (Token.laid_of_lexFrom hl).textsApart
  obtain ⟨hclean, rfl⟩ := ofRaw_array_iff.1 ho
  obtain ⟨hj, ht⟩ := (Item.mirrored_checkedNodes hr hclean).joined hseparated 0
  refine normal_of_settled hj ((throughout_and.2 ⟨sound_of_ofRaw ho, ht⟩).imp ?_)
  exact fun _ _ hn => settled_of_sound hn.1 hn.2

/-- Every document that is read from a source and every document that is composed from a draft is
normal. -/
theorem read_and_composed_are_normal :
    (∀ source nodes, readNodes source = .ok nodes → Normal nodes) ∧
      ∀ draft : Draft, Normal draft.toNodes :=
  ⟨fun _ _ h => normal_of_readNodes h,
    fun draft => normal_of_settled (Draft.joined_toNodes draft) (Draft.settled_toNodes draft)⟩

theorem read_and_composed_are_normal_references :
    readNodes "&amp;lt;<bold></bold>&lt;<br/>x" =
      .ok [.text "&lt;", .element .bold .absent, .text "<", .lineBreak, .text "x"] ∧
    Normal [.text "&lt;", .element .bold .absent, .text "<", .lineBreak, .text "x"] := by
  have hlex : Token.lex "&amp;lt;<bold></bold>&lt;<br/>x" = .ok [⟨.text "&amp;lt;", 0, 8⟩,
      ⟨.tagOpen, 8, 9⟩, ⟨.name "bold", 9, 13⟩, ⟨.tagEnd, 13, 14⟩, ⟨.closeOpen, 14, 16⟩,
      ⟨.name "bold", 16, 20⟩, ⟨.tagEnd, 20, 21⟩, ⟨.text "&lt;", 21, 25⟩, ⟨.tagOpen, 25, 26⟩,
      ⟨.name "br", 26, 28⟩, ⟨.selfClose, 28, 30⟩, ⟨.text "x", 30, 31⟩] := by decide +kernel
  have h : readNodes "&amp;lt;<bold></bold>&lt;<br/>x" =
      .ok [.text "&lt;", .element .bold .absent, .text "<", .lineBreak, .text "x"] := by
    unfold readNodes parse parseNodes
    rw [hlex]
    rfl
  exact ⟨h, read_and_composed_are_normal.1 _ _ h⟩

end TermMarkup
