/-
Nesting. The guard on tokens counts the bodies around each body, while the check of an untyped tree
counts the elements around content that is there: on a document of the grammar the guard refuses
the bodies that stand in too many others, and the check refuses those of them that are not empty.
-/
import TermMarkup.Parse
import TermMarkup.Proofs.Check
import TermMarkup.Proofs.Grammar
import TermMarkup.Proofs.Meaning

namespace TermMarkup

namespace Item

/-- Induction over lists of items that goes into the body of each element. -/
@[elab_as_elim]
theorem itemInduction {P : List Item → Prop} (nil : P [])
    (text : ∀ value items, P items → P (.text value :: items))
    (selfClosing : ∀ tag items, P items → P (.selfClosing tag :: items))
    (element : ∀ tag body close items, P body → P items → P (.element tag body close :: items)) :
    ∀ items, P items
  | [] => nil
  | .text value :: items =>
    text value items (itemInduction nil text selfClosing element items)
  | .selfClosing tag :: items =>
    selfClosing tag items (itemInduction nil text selfClosing element items)
  | .element tag body close :: items =>
    element tag body close items (itemInduction nil text selfClosing element body)
      (itemInduction nil text selfClosing element items)

/-! ## Bodies -/

/-- A body and the number of bodies it stands in. -/
structure Body where
  depth : Nat
  items : List Item

mutual

/-- The bodies of an item that stands in `depth` bodies. -/
def bodies (depth : Nat) : Item → List Body
  | .text _ => []
  | .selfClosing _ => []
  | .element _ body _ => ⟨depth, body⟩ :: allBodies (depth + 1) body

/-- The bodies of a list of items that stand in `depth` bodies. -/
def allBodies (depth : Nat) : List Item → List Body
  | [] => []
  | item :: items => bodies depth item ++ allBodies depth items

end

@[simp] theorem allBodies_nil (depth : Nat) : allBodies depth [] = [] := rfl

@[simp] theorem allBodies_text (depth : Nat) (value : String) (items : List Item) :
    allBodies depth (.text value :: items) = allBodies depth items := rfl

@[simp] theorem allBodies_selfClosing (depth : Nat) (tag : OpenTag) (items : List Item) :
    allBodies depth (.selfClosing tag :: items) = allBodies depth items := rfl

@[simp] theorem allBodies_element (depth : Nat) (tag : OpenTag) (body : List Item) (close : Name)
    (items : List Item) :
    allBodies depth (.element tag body close :: items) =
      ⟨depth, body⟩ :: (allBodies (depth + 1) body ++ allBodies depth items) := rfl

/-- Every body stands in fewer bodies than the limit. -/
def Shallow (depth : Nat) (items : List Item) : Prop :=
  ∀ b ∈ allBodies depth items, b.depth < maxNesting

theorem shallow_element {depth : Nat} {tag : OpenTag} {body items : List Item} {close : Name} :
    Shallow depth (.element tag body close :: items) ↔
      depth < maxNesting ∧ Shallow (depth + 1) body ∧ Shallow depth items := by
  unfold Shallow
  rw [allBodies_element, List.forall_mem_cons, List.forall_mem_append]

/-! ## The guard on the tokens of a document -/

open Token

theorem checkNestingFrom_attributes {xs : List Lexeme} {attributes : List WrittenAttribute}
    (h : Attributes xs attributes) (depth : Nat) (opening : Option Nat) (rest : List Lexeme) :
    checkNestingFrom depth opening (xs ++ rest) = checkNestingFrom depth opening rest := by
  induction h with
  | nil => rfl
  | bare key _ ih => exact ih
  | valued key equals value quoted _ ih => exact ih

theorem checkNestingFrom_tagEnd {depth start : Nat} {stop : Span} {rest : List Lexeme} :
    checkNestingFrom depth (some start) (⟨.tagEnd, stop⟩ :: rest) =
      if depth < maxNesting then checkNestingFrom (depth + 1) none rest
      else .error ⟨.tooDeep, start, stop.stop⟩ := rfl

theorem checkNestingFrom_closing {depth : Nat} {start stop span : Span} {word : String}
    {rest : List Lexeme} :
    checkNestingFrom (depth + 1) none
      (⟨.closeOpen, start⟩ :: ⟨.name word, span⟩ :: ⟨.tagEnd, stop⟩ :: rest) =
      checkNestingFrom depth none rest := rfl

/-- An element with a body: the number of bodies it stands in, and its opening tag from `<` to
`>`. -/
structure Opened where
  depth : Nat
  tag : Span
  deriving DecidableEq, Repr

/-- The elements with a body, in order, among the tokens of a document that stands in `depth`
bodies. -/
inductive Opens : Nat → List Lexeme → List Opened → Prop where
  | nil {depth : Nat} : Opens depth [] []
  | text (value : String) (span : Span) {depth : Nat} {xs : List Lexeme} {opened : List Opened} :
    Opens depth xs opened → Opens depth (⟨.text value, span⟩ :: xs) opened
  | selfClosing (start stop : Span) (name : Name) {depth : Nat} {ys xs : List Lexeme}
    {attributes : List WrittenAttribute} {opened : List Opened} :
    Attributes ys attributes → Opens depth xs opened →
    Opens depth (⟨.tagOpen, start⟩ :: ⟨.name name.text, name.span⟩ ::
      (ys ++ ⟨.selfClose, stop⟩ :: xs)) opened
  | element (start stop closeOpen closeStop : Span) (name close : Name) {depth : Nat}
    {ys body xs : List Lexeme} {attributes : List WrittenAttribute} {inner opened : List Opened} :
    Attributes ys attributes → Opens (depth + 1) body inner → Opens depth xs opened →
    Opens depth (⟨.tagOpen, start⟩ :: ⟨.name name.text, name.span⟩ ::
      (ys ++ ⟨.tagEnd, stop⟩ :: (body ++ ⟨.closeOpen, closeOpen⟩ ::
        ⟨.name close.text, close.span⟩ :: ⟨.tagEnd, closeStop⟩ :: xs)))
      (⟨depth, start.start, stop.stop⟩ :: (inner ++ opened))

theorem opens_of_document {xs : List Lexeme} {items : List Item} (h : Document xs items)
    (depth : Nat) : ∃ opened, Opens depth xs opened ∧
      opened.map Opened.depth = (allBodies depth items).map Body.depth := by
  induction h generalizing depth with
  | nil => exact ⟨[], .nil, rfl⟩
  | text value span _ ih =>
    obtain ⟨opened, ho, hm⟩ := ih depth
    exact ⟨opened, .text value span ho, hm⟩
  | selfClosing stop hopen _ ih =>
    cases hopen with
    | intro start name ha =>
      obtain ⟨opened, ho, hm⟩ := ih depth
      exact ⟨opened, .selfClosing start stop name ha ho, hm⟩
  | element stop closeOpen closeStop close hopen _ _ ihb ih =>
    cases hopen with
    | intro start name ha =>
      obtain ⟨inner, hi, hmi⟩ := ihb (depth + 1)
      obtain ⟨opened, ho, hm⟩ := ih depth
      refine ⟨_, .element start stop closeOpen closeStop name close ha hi ho, ?_⟩
      rw [allBodies_element, List.map_cons, List.map_cons, List.map_append, List.map_append, hmi, hm]

/-- The first of the elements that stands in too many bodies is refused. -/
def refuse (opened : List Opened) (otherwise : Except ParseError Unit) : Except ParseError Unit :=
  match opened.find? fun o => maxNesting ≤ o.depth with
  | some o => .error ⟨.tooDeep, o.tag⟩
  | none => otherwise

theorem refuse_cons (o : Opened) (opened : List Opened) (otherwise : Except ParseError Unit) :
    refuse (o :: opened) otherwise =
      if o.depth < maxNesting then refuse opened otherwise else .error ⟨.tooDeep, o.tag⟩ := by
  unfold refuse
  by_cases h : o.depth < maxNesting
  · rw [if_pos h, List.find?_cons_of_neg (by simpa using h)]
  · rw [if_neg h, List.find?_cons_of_pos (by simpa using h)]

theorem refuse_append (opened others : List Opened) (otherwise : Except ParseError Unit) :
    refuse (opened ++ others) otherwise = refuse opened (refuse others otherwise) := by
  induction opened with
  | nil => rfl
  | cons o opened ih => rw [List.cons_append, refuse_cons, refuse_cons, ih]

theorem refuse_eq_ok_iff {opened : List Opened} :
    refuse opened (.ok ()) = .ok () ↔ ∀ o ∈ opened, o.depth < maxNesting := by
  unfold refuse
  cases hf : opened.find? fun o => maxNesting ≤ o.depth with
  | none => simpa using hf
  | some o =>
    have hd : maxNesting ≤ o.depth := by simpa using List.find?_some hf
    refine ⟨fun h => (by cases h), fun h => ?_⟩
    exact absurd (h o (List.mem_of_find?_eq_some hf)) (Nat.not_lt.2 hd)

/-- On a document the guard refuses the first element that stands in too many bodies, and goes on
if there is none. -/
theorem checkNestingFrom_opens {depth : Nat} {xs : List Lexeme} {opened : List Opened}
    (h : Opens depth xs opened) (rest : List Lexeme) :
    checkNestingFrom depth none (xs ++ rest) = refuse opened (checkNestingFrom depth none rest) := by
  induction h generalizing rest with
  | nil => rfl
  | text value span _ ih => exact ih rest
  | @selfClosing start stop name depth ys xs attributes opened ha _ ih =>
    have htag := checkNestingFrom_attributes ha depth (some start.start)
      (⟨.selfClose, stop⟩ :: (xs ++ rest))
    rw [← ih rest, List.cons_append, List.cons_append, List.append_assoc]
    exact htag
  | @element start stop closeOpen closeStop name close depth ys body xs attributes inner opened ha
      _ _ ihb ih =>
    have htag := checkNestingFrom_attributes ha depth (some start.start)
      (⟨.tagEnd, stop⟩ :: (body ++ ⟨.closeOpen, closeOpen⟩ :: ⟨.name close.text, close.span⟩ ::
        ⟨.tagEnd, closeStop⟩ :: (xs ++ rest)))
    rw [checkNestingFrom_tagEnd, ihb, checkNestingFrom_closing, ih, ← refuse_append] at htag
    rw [refuse_cons, ← htag]
    simp only [List.cons_append, List.append_assoc]
    rfl

theorem checkNesting_opens {xs : List Lexeme} {opened : List Opened} (h : Opens 0 xs opened) :
    checkNesting xs = refuse opened (.ok ()) := by
  have hg := checkNestingFrom_opens h []
  rwa [List.append_nil] at hg

theorem shallow_iff_opened {depth : Nat} {items : List Item} {opened : List Opened}
    (h : opened.map Opened.depth = (allBodies depth items).map Body.depth) :
    Shallow depth items ↔ ∀ o ∈ opened, o.depth < maxNesting := by
  have hall : (∀ n ∈ opened.map Opened.depth, n < maxNesting) ↔
      ∀ n ∈ (allBodies depth items).map Body.depth, n < maxNesting := by rw [h]
  simpa [Shallow] using hall.symm

/-- The guard accepts the tokens of a document exactly when all its bodies are shallow. -/
theorem checkNesting_eq_ok_iff {xs : List Lexeme} {items : List Item} (h : Document xs items) :
    checkNesting xs = .ok () ↔ Shallow 0 items := by
  obtain ⟨opened, ho, hm⟩ := opens_of_document h 0
  rw [checkNesting_opens ho, refuse_eq_ok_iff, shallow_iff_opened hm]

theorem checkNesting_of_deep {xs : List Lexeme} {items : List Item} (h : Document xs items)
    (hs : ¬ Shallow 0 items) : ∃ span, checkNesting xs = .error ⟨.tooDeep, span⟩ := by
  obtain ⟨opened, ho, -⟩ := opens_of_document h 0
  rw [← checkNesting_eq_ok_iff h, checkNesting_opens ho] at hs
  rw [checkNesting_opens ho]
  unfold refuse at hs ⊢
  split
  · exact ⟨_, rfl⟩
  · rename_i hf
    rw [hf] at hs
    exact absurd rfl hs

end Item

/-! ## Valid trees -/

namespace Raw

/-- Every node among the objects has valid attribute values, and every underline has its type. -/
def Valid (objects : List (List (String × Raw))) : Prop :=
  ∀ fields ∈ objects, ∀ kind : Kind, fields.lookup "node" = some (.string kind.tag) →
    Node.Valued kind fields

theorem Valid.mono {xs ys : List (List (String × Raw))} (h : Valid ys) (hs : xs ⊆ ys) : Valid xs :=
  fun fields hf => h fields (hs hf)

end Raw

/-! ## The check of what items mean -/

namespace Item

open Node Raw

/-- Every body that is not empty stands in fewer bodies than the limit. -/
def FilledShallow (bodies : List Body) : Prop :=
  ∀ b ∈ bodies, b.items ≠ [] → b.depth < maxNesting

/-- The check of what an item means finds no issue but bodies that are not empty and lie too
deep. -/
def ChecksDepth (item : Item) : Prop :=
  ∀ raw, toRaw item = .ok raw → Valid raw.objects → ∀ depth path,
    ((checkNode depth path raw).issues = [] ↔ FilledShallow (bodies depth item))

section

variable {items : List Item} {raws : List Raw}

theorem checkNodes_issues_iff (h : ∀ item ∈ items, ChecksDepth item)
    (hr : toRaws items = .ok raws) (hv : Valid (allObjects raws)) (depth : Nat) (path : Path)
    (index : Nat) :
    (checkNodes depth path index raws).issues = [] ↔ FilledShallow (allBodies depth items) := by
  induction items generalizing raws index with
  | nil =>
    cases hr
    exact ⟨fun _ b hb => (by cases hb), fun _ => by rw [checkNodes]; rfl⟩
  | cons item items ih =>
    obtain ⟨first, others, hf, ho, rfl⟩ := toRaws_cons_iff.1 hr
    have hitem := h item List.mem_cons_self first hf
      (hv.mono (List.subset_append_left _ _)) depth (path ++ [.item index])
    have hitems := ih (fun i hi => h i (List.mem_cons_of_mem _ hi)) ho
      (hv.mono (List.subset_append_right _ _)) (index + 1)
    rw [checkNodes_cons]
    simp only [Checked.issues_bind, Checked.issues_pure, List.append_nil, List.append_eq_nil_iff]
    rw [hitem, hitems]
    exact List.forall_mem_append.symm

theorem checkContentValue_issues_iff (h : ∀ item ∈ items, ChecksDepth item)
    (hr : toRaws items = .ok raws) {content : Raw} (hc : contentOf raws = some content)
    (hv : Valid content.objects) (depth : Nat) (path : Path) :
    (checkContentValue depth path content).issues = [] ↔ FilledShallow (allBodies depth items) := by
  match raws, hc with
  | [child], hc =>
    cases Option.some.inj hc
    cases items with
    | nil => cases hr
    | cons item items =>
      obtain ⟨first, others, hf, ho, he⟩ := toRaws_cons_iff.1 hr
      cases items with
      | cons _ _ =>
        obtain ⟨_, _, -, -, rfl⟩ := toRaws_cons_iff.1 ho
        cases he
      | nil =>
        cases ho
        cases he
        obtain ⟨fields, rfl⟩ := toRaw_isObject hf
        rw [checkContentValue_object, h item List.mem_cons_self _ hf hv depth path, allBodies,
          allBodies, List.append_nil]
  | first :: second :: others, hc =>
    cases Option.some.inj hc
    rw [checkContentValue]
    simp only [Checked.issues_bind, Checked.issues_pure, List.append_nil]
    exact checkNodes_issues_iff h hr hv depth path 0

end

theorem isKnownKey_of_tagFields {kind : Kind} {fields : List (String × Raw)} {children : List Raw}
    (h : TagFields kind fields) (hc : kind.hasContent = true) {field : String × Raw}
    (hf : field ∈ fieldsWith fields children) : isKnownKey kind field.1 = true := by
  unfold isKnownKey
  rcases mem_fieldsWith hf with hk | hf
  · simp [hk, hc]
  · rcases h.known field hf with hk | hk
    · simp [hk]
    · simp [hk]

/-- The check of the fields of an element leaves the check of its content. -/
theorem checkNode_fieldsWith {kind : Kind} {fields : List (String × Raw)} {children : List Raw}
    (h : TagFields kind fields) (hc : kind.hasContent = true)
    (hv : Valued kind (fieldsWith fields children)) (depth : Nat) (path : Path) :
    (checkNode depth path (.object (fieldsWith fields children))).issues = [] ↔
      (checkContent depth path (fieldsWith fields children)).issues = [] := by
  have hfields : checkNode depth path (.object (fieldsWith fields children)) = _ :=
    checkFields_element (lookup_fieldsWith_node h children) hc
      (checkContent depth path (fieldsWith fields children))
  have hkeys := (checkKeys_issues kind path (fieldsWith fields children)).2
    fun field hf => isKnownKey_of_tagFields h hc hf
  have helement := (checkElement_issues hc path (ordered_fieldsWith h.ordered children)).2 hv
  rw [hfields]
  simp only [hkeys, helement, List.nil_append]

theorem hasContent_of_ne {kind : Kind} (ht : kind ≠ .text) (hb : kind ≠ .lineBreak) :
    kind.hasContent = true := by
  cases kind with
  | text => exact absurd rfl ht
  | lineBreak => exact absurd rfl hb
  | bold | italics | underline | color | styled kind => rfl

theorem checksDepth_text (value : String) : ChecksDepth (.text value) := by
  intro raw h _ depth path
  have hraw : raw = Node.toRaw (.text (Entity.decode value)) := by
    cases h
    rw [Node.toRaw]
  rw [hraw, Node.toRaw_text]
  exact ⟨fun _ b hb => (by cases hb), fun _ => rfl⟩

theorem checksDepth_selfClosing (tag : OpenTag) : ChecksDepth (.selfClosing tag) := by
  intro raw h hv depth path
  obtain ⟨kind, fields, hk, hf, rfl⟩ := toRaw_selfClosing_iff.1 h
  have ht := OpenTag.tagFields hf
  refine ⟨fun _ b hb => (by cases hb), fun _ => ?_⟩
  by_cases hb : kind = .lineBreak
  · subst hb
    have hnode : checkNode depth path (.object fields) = _ :=
      checkFields_lineBreak ht.node (checkContent depth path fields)
    rw [hnode]
    refine (checkKeys_issues _ _ _).2 fun field hm => ?_
    rcases ht.known field hm with hk | hk
    · rw [hk]; rfl
    · cases hk
  · have hc := hasContent_of_ne (OpenTag.kind_eq_ok_iff.1 hk).2 hb
    have he : fieldsWith fields [] = fields := rfl
    have hn := checkNode_fieldsWith ht hc (he ▸ hv fields List.mem_cons_self kind ht.node) depth path
    rw [he] at hn
    rw [hn, checkContent_eq, ht.lookup_content]
    rfl

theorem checksDepth_element (tag : OpenTag) {body : List Item} (close : Name)
    (h : ∀ item ∈ body, ChecksDepth item) : ChecksDepth (.element tag body close) := by
  intro raw hraw hv depth path
  obtain ⟨kind, fields, children, hk, -, hb, hf, hr, rfl⟩ := toRaw_element_iff.1 hraw
  have ht := OpenTag.tagFields hf
  have hc := hasContent_of_ne (OpenTag.kind_eq_ok_iff.1 hk).2 hb
  have hvalued := hv _ List.mem_cons_self kind (lookup_fieldsWith_node ht children)
  have hcontent := lookup_fieldsWith_content ht children
  rw [checkNode_fieldsWith ht hc hvalued depth path, checkContent_issues, hcontent]
  unfold bodies FilledShallow
  rw [List.forall_mem_cons]
  cases hco : contentOf children with
  | none =>
    -- the check does not see a body that is empty, however deep it stands
    have hbody := (contentOf_eq_none_iff hr).1 hco
    subst hbody
    exact ⟨fun _ => ⟨fun hne => absurd rfl hne, fun b hm => (by cases hm)⟩,
      fun _ value hvalue => (by cases hvalue)⟩
  | some content =>
    have hbody : body ≠ [] := by
      intro he
      rw [(contentOf_eq_none_iff hr).2 he] at hco
      cases hco
    have hm : ("content", content) ∈ fieldsWith fields children :=
      mem_of_lookup (hcontent.trans hco)
    have hvc : Valid content.objects :=
      hv.mono (List.Subset.trans (objects_subset_fieldObjects hm) (List.subset_cons_self _ _))
    simp only [Option.some.injEq, forall_eq', checkContentValue_issues_iff h hr hco hvc]
    exact and_congr_left fun _ => ⟨fun hd _ => hd, fun hd => hd hbody⟩

theorem checksDepth (items : List Item) : ∀ item ∈ items, ChecksDepth item := by
  induction items using itemInduction with
  | nil => exact List.forall_mem_nil _
  | text value items ih => exact List.forall_mem_cons.2 ⟨checksDepth_text value, ih⟩
  | selfClosing tag items ih => exact List.forall_mem_cons.2 ⟨checksDepth_selfClosing tag, ih⟩
  | element tag body close items ihb ih =>
    exact List.forall_mem_cons.2 ⟨checksDepth_element tag close ihb, ih⟩

/-- The check of what a document means refuses exactly the documents with a body that is not empty
and lies too deep. -/
theorem ofRaw_toRaws_iff {items : List Item} {raws : List Raw} (hr : toRaws items = .ok raws)
    (hv : Valid (allObjects raws)) :
    (∃ nodes, ofRaw (.array raws) = .ok nodes) ↔ FilledShallow (allBodies 0 items) := by
  rw [← checkNodes_issues_iff (checksDepth items) hr hv 0 [] 0]
  constructor
  · rintro ⟨nodes, h⟩
    exact (ofRaw_eq_ok_iff.1 h).1
  · intro h
    exact ⟨_, ofRaw_eq_ok_iff.2 ⟨h, rfl⟩⟩

/-- A body stands in no body, or in one that is not empty and stands in one body less. -/
theorem mem_allBodies {items : List Item} {depth : Nat} {b : Body} (h : b ∈ allBodies depth items) :
    b.depth = depth ∨ ∃ outer ∈ allBodies depth items, outer.items ≠ [] ∧ outer.depth + 1 = b.depth := by
  induction items using itemInduction generalizing depth with
  | nil => cases h
  | text value items ih => exact ih h
  | selfClosing tag items ih => exact ih h
  | element tag body close items ihb ih =>
    rw [allBodies_element] at h ⊢
    rcases List.mem_cons.1 h with rfl | h
    · exact Or.inl rfl
    · rcases List.mem_append.1 h with h | h
      · rcases ihb h with hd | ⟨outer, ho, hne, hd⟩
        · refine Or.inr ⟨⟨depth, body⟩, List.mem_cons_self, ?_, hd.symm⟩
          rintro rfl
          cases h
        · exact Or.inr
            ⟨outer, List.mem_cons_of_mem _ (List.mem_append_left _ ho), hne, hd⟩
      · rcases ih h with hd | ⟨outer, ho, hne, hd⟩
        · exact Or.inl hd
        · exact Or.inr
            ⟨outer, List.mem_cons_of_mem _ (List.mem_append_right _ ho), hne, hd⟩

/-- All bodies are shallow exactly when those that are not empty are, and no empty one stands in as
many bodies as the limit. -/
theorem shallow_iff {items : List Item} :
    Shallow 0 items ↔ FilledShallow (allBodies 0 items) ∧
      ∀ b ∈ allBodies 0 items, b.items = [] → b.depth ≠ maxNesting := by
  constructor
  · intro h
    exact ⟨fun b hb _ => h b hb, fun b hb _ => Nat.ne_of_lt (h b hb)⟩
  · rintro ⟨hfilled, hempty⟩ b hb
    by_cases hne : b.items = []
    · have hlimit := hempty b hb hne
      -- a body past the limit would stand in one that is not empty and reaches the limit
      rcases mem_allBodies hb with hd | ⟨outer, ho, hn, hd⟩
      · rw [hd]
        decide
      · have := hfilled outer ho hn
        omega
    · exact hfilled b hb hne

end Item

end TermMarkup
