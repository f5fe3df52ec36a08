/-
Canonical markup. Nodes are written as text runs, line breaks and pairs of tags; rendering to markup
writes them so, whatever the theme. Written markup joins text runs that stand side by side, so it
parses as the document in which they are joined, unless its elements lie too deep.
-/
import TermMarkup.Proofs.Canonical
import TermMarkup.Proofs.Lexing
import TermMarkup.Proofs.Nesting
import TermMarkup.Proofs.Rendering

namespace TermMarkup

namespace Node

/-! ## Written nodes -/

mutual

/-- The markup of a node. -/
def written : Node → String
  | .text value => Entity.escapeText value
  | .lineBreak => Tag.selfClosing Kind.lineBreak.tag []
  | .element e content =>
    Tag.opening e.kind.tag e.attributes ++ contentWritten content ++ Tag.closing e.kind.tag

def contentWritten : Content Node → String
  | .absent => ""
  | .single node => written node
  | .many nodes => allWritten nodes

/-- The markup of a list of nodes. -/
def allWritten : List Node → String
  | [] => ""
  | node :: nodes => written node ++ allWritten nodes

end

theorem contentWritten_eq (content : Content Node) :
    contentWritten content = allWritten content.children := by
  cases content with
  | absent => rfl
  | single node => exact (String.append_empty).symm
  | many nodes => rfl

@[simp] theorem allWritten_nil : allWritten [] = "" := rfl

@[simp] theorem allWritten_text (value : String) (nodes : List Node) :
    allWritten (.text value :: nodes) = Entity.escapeText value ++ allWritten nodes := rfl

@[simp] theorem allWritten_lineBreak (nodes : List Node) :
    allWritten (.lineBreak :: nodes) = Tag.selfClosing Kind.lineBreak.tag [] ++ allWritten nodes := rfl

@[simp] theorem allWritten_element (e : Element) (content : Content Node) (nodes : List Node) :
    allWritten (.element e content :: nodes) =
      Tag.opening e.kind.tag e.attributes ++ allWritten content.children ++ Tag.closing e.kind.tag ++
        allWritten nodes := by
  rw [allWritten, written, contentWritten_eq]

theorem allWritten_joinText (nodes : List Node) : allWritten (joinText nodes) = allWritten nodes := by
  induction nodes with
  | nil => rfl
  | cons node nodes ih =>
    cases node with
    | lineBreak => rw [joinText_lineBreak, allWritten_lineBreak, allWritten_lineBreak, ih]
    | element e content => rw [joinText_element, allWritten_element, allWritten_element, ih]
    | text value =>
      rw [allWritten_text, ← ih]
      by_cases hv : value = ""
      · rw [joinText_empty hv, hv, Entity.escapeText_empty, String.empty_append]
      · rcases joinText_text hv nodes with ⟨next, others, hj, he⟩ | ⟨-, he⟩
        · rw [he, hj, allWritten_text, allWritten_text, Entity.escapeText_append,
            String.append_assoc]
        · rw [he, allWritten_text]

theorem allWritten_rebuilt (nodes : List Node) :
    allWritten (rebuilt joinText nodes) = allWritten nodes := by
  induction nodes using documentInduction with
  | nil => rfl
  | text value nodes ih => rw [rebuilt_text, allWritten_text, allWritten_text, ih]
  | lineBreak nodes ih => rw [rebuilt_lineBreak, allWritten_lineBreak, allWritten_lineBreak, ih]
  | element e content nodes ihc ih =>
    rw [rebuilt_element, allWritten_element, allWritten_element, Content.children_ofChildren,
      allWritten_joinText, ihc, ih]

/-- Joining text does not show in markup. -/
theorem allWritten_canonical (nodes : List Node) :
    allWritten (canonical nodes) = allWritten nodes :=
  (allWritten_joinText _).trans (allWritten_rebuilt nodes)

end Node

/-! ## What written tags mean -/

theorem isName_tag (kind : Kind) : Token.IsName kind.tag.toList := by
  cases kind with
  | styled kind => cases kind <;> decide
  | text | lineBreak | bold | italics | underline | color => decide

theorem isName_key : ∀ key ∈ Attribute.keys, Token.IsName key.toList := by
  decide

theorem isName_attributes (e : Element) : ∀ a ∈ e.attributes, Token.IsName a.1.toList := by
  intro a ha
  obtain ⟨setting, hs, rfl⟩ := List.mem_map.1 ha
  exact isName_key _ (Element.mem_keys_of_settings (List.mem_map.2 ⟨setting, hs, rfl⟩))

/-- A written attribute adds the field that holds its setting. -/
theorem addTo_of_readAs {kind : Kind} {tag key : String} {x : Setting}
    {fields : List (String × Raw)} {w : WrittenAttribute} (h : Tag.ReadAs (key, x.written) w)
    (hs : Attribute.shape? kind key = some x.shape) (hf : fields.lookup key = none) :
    w.addTo kind tag fields = .ok (Raw.insert key x.toRaw fields) := by
  have hkey : w.key = key := by
    unfold WrittenAttribute.key
    rw [h.name]
    exact Attribute.camelCase_of_mem_keys key (Attribute.mem_keys hs)
  have hvalue : w.value.map Entity.decode = some x.written := by
    rw [h.value, Option.map_some, Entity.decode_escapeValue]
  rw [WrittenAttribute.addTo_eq_ok_iff, hkey]
  refine ⟨hf, x.toRaw, ⟨x.shape, by rw [hkey, hs], ?_⟩, rfl⟩
  rw [hvalue, Attribute.coerce_written]

/-- Written attributes with different keys add the fields that hold their settings. -/
theorem foldlM_addTo {kind : Kind} {tag : String} {settings : List (String × Setting)}
    (hs : ∀ s ∈ settings, Attribute.shape? kind s.1 = some s.2.shape)
    (hn : (settings.map Prod.fst).Nodup) {ws : List WrittenAttribute}
    (hw : List.Forall₂ Tag.ReadAs (settings.map fun s => (s.1, s.2.written)) ws)
    {fields : List (String × Raw)} (hf : ∀ s ∈ settings, fields.lookup s.1 = none) :
    ws.foldlM (WrittenAttribute.addTo kind tag) fields =
      .ok (Raw.insertAll fields (settings.map fun s => (s.1, s.2.toRaw))) := by
  induction settings generalizing ws fields with
  | nil =>
    cases hw
    rfl
  | cons s settings ih =>
    rw [List.map_cons, List.nodup_cons] at hn
    cases hw with
    | cons h hw =>
      obtain ⟨hs, hss⟩ := List.forall_mem_cons.1 hs
      obtain ⟨hf, hfs⟩ := List.forall_mem_cons.1 hf
      have hnext : ∀ other ∈ settings,
          (Raw.insert s.1 s.2.toRaw fields).lookup other.1 = none := by
        intro other ho
        rw [Raw.lookup_insert, if_neg, hfs other ho]
        intro he
        exact hn.1 (List.mem_map.2 ⟨other, ho, he⟩)
      rw [List.foldlM_cons, addTo_of_readAs h hs hf]
      exact ih hss hn.2 hw hnext

theorem fields_of_opensAs {e : Element} (he : e.Fits) {xs : List Lexeme} {tag : OpenTag}
    (h : Tag.OpensAs e.kind.tag e.attributes xs tag) :
    tag.fields e.kind = .ok (Raw.insertAll [("node", .string e.kind.tag)] e.fields) := by
  refine foldlM_addTo (fun s hs => Element.shape_of_mem_settings he hs) e.nodup_settings h.2.2 ?_
  intro s hs
  have hr := Attribute.keys_reserved s.1
    (Element.mem_keys_of_settings (List.mem_map.2 ⟨s, hs, rfl⟩))
  rw [lookup_cons_ite, if_neg hr.1]
  rfl

/-- What the tokens of written nodes are: those of items that mean the nodes, with a body for each
element. -/
def ReadsAs (nodes : List Node) (xs : List Lexeme) : Prop :=
  ∃ items, Item.Document xs items ∧ Item.toRaws items = .ok (Node.toRaws nodes) ∧
    ∀ depth, Item.Shallow depth items ↔ Node.Throughout Node.Within depth nodes

section

open Node

variable {nodes : List Node} {xs ys : List Lexeme}

theorem readsAs_nil : ReadsAs [] [] :=
  ⟨[], .nil, rfl, fun _ => ⟨fun _ => throughout_nil, fun _ b hb => (by cases hb)⟩⟩

theorem readsAs_text {value : String} (hx : Token.IsToken (.text (Entity.escapeText value)) xs)
    (hy : ReadsAs nodes ys) : ReadsAs (.text value :: nodes) (xs ++ ys) := by
  obtain ⟨span, rfl⟩ := hx
  obtain ⟨items, hd, hr, hs⟩ := hy
  refine ⟨.text (Entity.escapeText value) :: items, .text _ span hd, ?_, fun depth => ?_⟩
  · refine Item.toRaws_cons_iff.2 ⟨_, _, ?_, hr, rfl⟩
    rw [Item.toRaw, Entity.decode_escapeText, Node.toRaw]
  · rw [throughout_text, and_iff_right (within_text depth value), ← hs depth]
    rfl

theorem readsAs_lineBreak {zs : List Lexeme} {tag : OpenTag} {stop : Span}
    (ho : Tag.OpensAs Kind.lineBreak.tag [] zs tag) (hy : ReadsAs nodes ys) :
    ReadsAs (.lineBreak :: nodes) (zs ++ [⟨.selfClose, stop⟩] ++ ys) := by
  obtain ⟨items, hd, hr, hs⟩ := hy
  obtain ⟨hopen, hname, hattributes⟩ := ho
  have hk : tag.kind = .ok .lineBreak := by
    rw [OpenTag.kind_eq_ok_iff, hname]
    exact ⟨rfl, by decide⟩
  have hf : tag.fields .lineBreak = .ok [("node", .string "br")] := by
    unfold OpenTag.fields
    rw [List.forall₂_nil_left_iff.1 hattributes]
    rfl
  rw [List.append_assoc]
  refine ⟨.selfClosing tag :: items, .selfClosing stop hopen hd, ?_, fun depth => ?_⟩
  · exact Item.toRaws_cons_iff.2
      ⟨_, _, Item.toRaw_selfClosing_iff.2 ⟨_, _, hk, hf, rfl⟩, hr, rfl⟩
  · rw [throughout_lineBreak, and_iff_right (within_lineBreak depth), ← hs depth]
    rfl

theorem toRaw_ofChildren (e : Element) (children : List Node) :
    Node.toRaw (.element e (.ofChildren children)) =
      .object (Item.fieldsWith (Raw.insertAll [("node", .string e.kind.tag)] e.fields)
        (toRaws children)) := by
  rw [toRaw_element]
  match children with
  | [] =>
    unfold dumpedFields writtenFields Content.ofChildren contentFields
    rw [List.append_nil]
    rfl
  | [node] =>
    unfold dumpedFields writtenFields Content.ofChildren contentFields
    rw [Raw.insertAll_cons, Raw.insertAll_append]
    rfl
  | first :: second :: others =>
    unfold dumpedFields writtenFields Content.ofChildren contentFields
    rw [Raw.insertAll_cons, Raw.insertAll_append]
    rfl

theorem readsAs_element {e : Element} {children : List Node} (he : e.Fits) {us body : List Lexeme}
    {tag : OpenTag} {stop start span closeStop : Span}
    (ho : Tag.OpensAs e.kind.tag e.attributes us tag) (hb : ReadsAs children body)
    (hy : ReadsAs nodes ys) :
    ReadsAs (.element e (.ofChildren children) :: nodes)
      (us ++ [⟨.tagEnd, stop⟩] ++ (body ++ ([⟨.closeOpen, start⟩, ⟨.name e.kind.tag, span⟩,
        ⟨.tagEnd, closeStop⟩] ++ ys))) := by
  obtain ⟨inner, hbd, hbr, hbs⟩ := hb
  obtain ⟨items, hd, hr, hs⟩ := hy
  have hc := hasContent_kind e
  have hk : tag.kind = .ok e.kind := by
    rw [OpenTag.kind_eq_ok_iff, ho.2.1]
    refine ⟨ofTag?_tag e.kind, fun h => ?_⟩
    rw [h] at hc
    cases hc
  have hne : e.kind ≠ .lineBreak := by
    intro h
    rw [h] at hc
    cases hc
  rw [List.append_assoc]
  refine ⟨.element tag inner ⟨e.kind.tag, span⟩ :: items,
    .element stop start closeStop ⟨e.kind.tag, span⟩ ho.1 hbd hd, ?_, fun depth => ?_⟩
  · refine Item.toRaws_cons_iff.2 ⟨_, _, Item.toRaw_element_iff.2
      ⟨_, _, _, hk, ho.2.1.symm, hne, fields_of_opensAs he ho, hbr, rfl⟩, hr, ?_⟩
    rw [toRaws, toRaw_ofChildren]
  · rw [throughout_element, Content.children_ofChildren, Item.shallow_element, hbs, hs]
    refine and_congr_left fun _ => ?_
    exact ⟨fun h _ => h, fun h => h rfl⟩

theorem before_allWritten (h : ∀ node ∈ nodes.head?, node.isText = false) {rest : List Char}
    (hr : Token.before (· == '<') rest) :
    Token.before (· == '<') ((allWritten nodes).toList ++ rest) := by
  cases nodes with
  | nil => exact hr
  | cons node nodes =>
    cases node with
    | text value => cases h _ rfl
    | lineBreak =>
      rw [allWritten_lineBreak, String.toList_append, Tag.toList_selfClosing]
      exact Tag.before_cons rfl _
    | element e content =>
      rw [allWritten_element, String.toList_append, String.toList_append, String.toList_append,
        Tag.toList_opening]
      exact Tag.before_cons rfl _

theorem before_closing (name : String) (rest : List Char) :
    Token.before (· == '<') ((Tag.closing name).toList ++ rest) := by
  rw [Tag.toList_closing]
  exact Tag.before_cons rfl _

theorem lexes_element {e : Element} {children : List Node} (he : e.Fits)
    (hb : Token.LexesAs .content .content (allWritten children).toList (Token.before (· == '<'))
      (ReadsAs children))
    (hn : Token.LexesAs .content .content (allWritten nodes).toList (Token.before (· == '<'))
      (ReadsAs nodes)) :
    Token.LexesAs .content .content (allWritten (.element e (.ofChildren children) :: nodes)).toList
      (Token.before (· == '<')) (ReadsAs (.element e (.ofChildren children) :: nodes)) := by
  have hopen := Tag.lexes_opening (isName_tag e.kind) (isName_attributes e)
  -- from the back: the closing tag with the nodes after it, the body before them, the opening tag
  have hclose := (Tag.lexes_closing (isName_tag e.kind)).append (R := fun xs => ∃ start span stop ys,
      xs = [⟨.closeOpen, start⟩, ⟨.name e.kind.tag, span⟩, ⟨.tagEnd, stop⟩] ++ ys ∧ ReadsAs nodes ys)
    hn (fun _ _ => trivial) (by
      rintro _ ys ⟨start, span, stop, rfl⟩ hy
      exact ⟨start, span, stop, ys, rfl, hy⟩)
  have hbody := hb.append (R := fun xs => ∃ body start span stop ys,
      xs = body ++ ([⟨.closeOpen, start⟩, ⟨.name e.kind.tag, span⟩, ⟨.tagEnd, stop⟩] ++ ys) ∧
      ReadsAs children body ∧ ReadsAs nodes ys)
    hclose (fun rest _ => by rw [List.append_assoc]; exact before_closing _ _) (by
      rintro body _ hb ⟨start, span, stop, ys, rfl, hy⟩
      exact ⟨body, start, span, stop, ys, rfl, hb, hy⟩)
  rw [allWritten_element, Content.children_ofChildren, String.append_assoc, String.append_assoc,
    String.toList_append, String.toList_append, String.toList_append]
  refine hopen.append hbody (fun _ _ => trivial) ?_
  rintro _ _ ⟨us, tag, stop, rfl, ho⟩ ⟨body, start, span, closeStop, ys, rfl, hb, hy⟩
  exact readsAs_element he ho hb hy

/-- The lexer reads written nodes with joined siblings as tokens that mean the nodes. -/
theorem lexes_allWritten {depth : Nat} (hj : Joined nodes) (hs : Throughout Settled depth nodes) :
    Token.LexesAs .content .content (allWritten nodes).toList (Token.before (· == '<'))
      (ReadsAs nodes) := by
  induction nodes using documentInduction generalizing depth with
  | nil =>
    refine ((Token.lexes_nil .content).restrict fun _ _ => trivial).imp ?_
    rintro xs rfl
    exact readsAs_nil
  | text value nodes ih =>
    obtain ⟨hv, hhead, hj⟩ := hj
    have ht := Token.lexes_text (Entity.toList_escapeText_ne_nil hv) (Entity.lt_notMem_escapeText value)
    rw [String.ofList_toList] at ht
    rw [allWritten_text, String.toList_append]
    -- the text ends where it was meant to, since what comes after it is not another text
    exact ht.append (ih hj (throughout_text.1 hs).2) (fun _ hr => before_allWritten hhead hr)
      fun _ _ hx hy => readsAs_text hx hy
  | lineBreak nodes ih =>
    have ht := Tag.lexes_selfClosing (isName_tag .lineBreak) (List.forall_mem_nil _)
    rw [allWritten_lineBreak, String.toList_append]
    refine ht.append (ih hj (throughout_lineBreak.1 hs).2) (fun _ _ => trivial) ?_
    rintro _ ys ⟨us, tag, stop, rfl, ho⟩ hy
    exact readsAs_lineBreak ho hy
  | element e content nodes ihc ih =>
    obtain ⟨⟨he, hshape, hjc⟩, hsc, hsn⟩ := throughout_element.1 hs
    rw [hshape]
    exact lexes_element he (ihc hjc hsc) (ih hj hsn)

/-! ## Parsing written nodes -/

theorem lex_allWritten (hj : Joined nodes) (hs : Throughout Settled 0 nodes) :
    ∃ xs, Token.lex (allWritten nodes) = .ok xs ∧ ReadsAs nodes xs :=
  (lexes_allWritten hj hs).exists_lex fun _ h => (by cases h)

/-- Written nodes parse as themselves if no element lies too deep. -/
theorem parse_allWritten (hj : Joined nodes) (hs : Throughout Settled 0 nodes)
    (hw : Throughout Within 0 nodes) : parse (allWritten nodes) = .ok (.array (toRaws nodes)) := by
  obtain ⟨xs, hl, items, hd, hr, hb⟩ := lex_allWritten hj hs
  have hn := (Item.checkNesting_eq_ok_iff hd).2 ((hb 0).2 hw)
  have hi : Item.read (allWritten nodes).utf8ByteSize xs = .ok items := Item.read_eq_ok_iff.2 hd
  simp only [parse, parseNodes, hl, hn, hi, hr, bind, Except.bind, Except.map]

/-- Otherwise they are refused as nested too deep. -/
theorem parse_allWritten_deep (hj : Joined nodes) (hs : Throughout Settled 0 nodes)
    (hw : ¬ Throughout Within 0 nodes) :
    ∃ span, parse (allWritten nodes) = .error ⟨.tooDeep, span⟩ := by
  obtain ⟨xs, hl, items, hd, -, hb⟩ := lex_allWritten hj hs
  obtain ⟨span, hn⟩ := Item.checkNesting_of_deep hd fun h => hw ((hb 0).1 h)
  refine ⟨span, ?_⟩
  simp only [parse, parseNodes, hl, hn, bind, Except.bind, Except.map]

theorem sound_of_settled (hs : Throughout Settled 0 nodes) (hw : Throughout Within 0 nodes) :
    Throughout Sound 0 nodes := by
  refine (throughout_and.2 ⟨hs, hw⟩).imp fun depth node h => ?_
  cases node with
  | text value => trivial
  | lineBreak => trivial
  | element e content => exact ⟨h.1.1, h.1.2.1, fun _ => h.2 rfl⟩

theorem readNodes_allWritten (hj : Joined nodes) (hs : Throughout Settled 0 nodes)
    (hw : Throughout Within 0 nodes) : readNodes (allWritten nodes) = .ok nodes := by
  unfold readNodes
  simp only [parse_allWritten hj hs hw, ofRaw_toRaws_of_sound (sound_of_settled hs hw)]

end

/-! ## Rendering to markup -/

namespace Compiler

open Node Render

theorem before_element (theme : Theme) (e : Element) (content : Content Node) :
    Render.before ⟨.markup, theme⟩ e.kind (.element e content) =
      .ok (Tag.opening e.kind.tag e.attributes) := by
  cases e <;> rfl

theorem after_element (theme : Theme) (above : List Node) (e : Element) (content : Content Node) :
    Render.after ⟨.markup, theme⟩ e.kind above (.element e content) = .ok (Tag.closing e.kind.tag) := by
  cases e <;> rfl

theorem rendering_cons_of_ok {m : Mark} {first : String} (h : m.answer = .ok first)
    (ms : List Mark) :
    rendering (m :: ms) = ⟨first ++ (rendering ms).output, (rendering ms).warnings⟩ := by
  simp [rendering, Mark.text, Mark.warning?, h]

/-- The marks of nodes in markup are the nodes as they are written, without warnings. -/
theorem rendering_markup (theme : Theme) (above nodes : List Node) :
    rendering (marks ⟨.markup, theme⟩ above nodes) = ⟨allWritten nodes, []⟩ := by
  induction nodes using documentInduction generalizing above with
  | nil => rfl
  | text value nodes ih =>
    rw [marks_text, rendering_cons_of_ok rfl, ih]
    rfl
  | lineBreak nodes ih =>
    rw [marks_lineBreak, rendering_cons_of_ok rfl, ih]
    rfl
  | element e content nodes ihc ih =>
    have hopen : (Mark.opening ⟨.markup, theme⟩ above (.element e content)).answer = _ :=
      before_element theme e content
    have hclose : (Mark.closing ⟨.markup, theme⟩ above (.element e content)).answer = _ :=
      after_element theme above e content
    rw [marks_element, rendering_cons_of_ok hopen, rendering_append, ihc,
      rendering_cons_of_ok hclose, ih, allWritten_element]
    simp [Rendering.append, String.append_assoc]

/-- Rendering to markup writes the nodes, whatever the theme, if none of them is too deep. -/
theorem renderNodes_markup (theme : Theme) {above : List Node} {nodes : List Node}
    (h : Throughout (fun depth _ => depth ≤ maxNesting) above.length nodes) :
    ({ theme } : Compiler).renderNodes .markup above nodes = .ok ⟨allWritten nodes, []⟩ := by
  have hnone : (occurrencesBelow above nodes).find? isTooDeep = none := by
    refine List.find?_eq_none.2 fun o ho => ?_
    have := (throughout_iff rfl).1 h o ho
    rw [isTooDeep_iff]
    omega
  rw [renderNodes_eq, hnone, rendering_markup]
  rfl

end Compiler

/-! ## The markup of checked documents -/

namespace Node

theorem fitting_of_sound {depth : Nat} {node : Node} (h : Sound depth node) : Fitting depth node := by
  cases node with
  | text value => trivial
  | lineBreak => trivial
  | element e content => exact h.1

theorem within_nested_iff {n depth : Nat} :
    Throughout Within depth (nested (n + 1)) ↔ depth + n < maxNesting := by
  induction n generalizing depth with
  | zero =>
    rw [nested, throughout_element]
    exact ⟨fun h => h.1 rfl, fun h => ⟨fun _ => h, throughout_nil, throughout_nil⟩⟩
  | succ n ih =>
    rw [nested, throughout_element, Content.children_ofChildren, ih]
    constructor
    · rintro ⟨-, h, -⟩
      omega
    · intro h
      exact ⟨fun _ => by omega, by omega, throughout_nil⟩

end Node

open Node

/-- Rendering a checked document to markup succeeds under every theme. The markup parses as the
canonical form of the document if every element has fewer than 64 ancestors, and is refused as
nested too deep otherwise. -/
theorem parse_render_markup {raw : Raw} {nodes : List Node} (h : ofRaw raw = .ok nodes)
    (theme : Theme) :
    ∃ markup, (({ theme } : Compiler).render .markup nodes).map (·.output) = .ok markup ∧
      ((∀ o ∈ occurrences nodes, o.node.isElement = true → o.depth < 64) →
        parse markup = .ok (.array (toRaws (canonical nodes))) ∧
        readNodes markup = .ok (canonical nodes)) ∧
      ((∃ o ∈ occurrences nodes, o.node.isElement = true ∧ 64 ≤ o.depth) →
        ∃ span, parse markup = .error ⟨.tooDeep, span⟩) := by
  have hsound := sound_of_ofRaw h
  have hj := joined_canonical nodes
  have hs := settled_canonical (hsound.imp fun _ _ => fitting_of_sound)
  refine ⟨allWritten nodes, ?_, fun hd => ?_, fun hd => ?_⟩
  · have hr : ({ theme } : Compiler).render .markup nodes = .ok ⟨allWritten nodes, []⟩ :=
      Compiler.renderNodes_markup theme (depth_of_sound (Nat.zero_le maxNesting) hsound)
    rw [hr]
    rfl
  · have hw := within_canonical.2 (throughout_zero.2 hd)
    rw [← allWritten_canonical]
    exact ⟨parse_allWritten hj hs hw, readNodes_allWritten hj hs hw⟩
  · rw [← allWritten_canonical]
    refine parse_allWritten_deep hj hs fun hw => ?_
    obtain ⟨o, ho, he, hdeep⟩ := hd
    exact absurd (throughout_zero.1 (within_canonical.1 hw) o ho he) (Nat.not_lt.2 hdeep)

/-- Two texts and an element with an empty text come back joined and without content, while 65
elements one in another are refused. -/
theorem parse_render_markup_joined :
    let raw : Raw := .array [.object [("node", .string "text"), ("value", .string "1 < 2")],
      .object [("node", .string "text"), ("value", .string " & ")],
      .object [("content", .object [("node", .string "text"), ("value", .string "")]),
        ("node", .string "bold")]]
    let nodes : List Node := [.text "1 < 2", .text " & ", .element .bold (.single (.text ""))]
    let joined : List Node := [.text "1 < 2 & ", .element .bold .absent]
    ofRaw raw = .ok nodes ∧ canonical nodes = joined ∧
    (∃ markup, (({} : Compiler).render .markup nodes).map (·.output) = .ok markup ∧
      parse markup = .ok (.array (toRaws joined)) ∧ readNodes markup = .ok joined) ∧
    ∃ markup, (({} : Compiler).render .markup (nested 65)).map (·.output) = .ok markup ∧
      ∃ span, parse markup = .error ⟨.tooDeep, span⟩ := by
  intro raw nodes joined
  have h : ofRaw raw = .ok nodes := rfl
  have hjoined : canonical nodes = joined := rfl
  refine ⟨h, hjoined, ?_, ?_⟩
  · obtain ⟨markup, hm, hshallow, -⟩ := parse_render_markup h .builtin
    rw [hjoined] at hshallow
    exact ⟨markup, hm, hshallow (by decide)⟩
  · have hn := ofRaw_toRaws_of_sound (sound_nested (n := 65) (Nat.le_refl _))
    obtain ⟨markup, hm, -, hdeep⟩ := parse_render_markup hn .builtin
    refine ⟨markup, hm, hdeep ?_⟩
    by_contra hnone
    have hw : Throughout Within 0 (nested 65) :=
      throughout_zero.2 fun o ho he => Nat.lt_of_not_le fun hd => hnone ⟨o, ho, he, hd⟩
    exact absurd (within_nested_iff.1 hw) (by decide)

end TermMarkup
