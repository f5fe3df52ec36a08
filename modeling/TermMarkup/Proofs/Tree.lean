/-
Documents as trees: an induction over lists of nodes that goes into the children of each element,
the occurrences of a document, which are its nodes in document order, each with the nodes it stands
in, and the document rebuilt with a change to the children of each element.
-/
import TermMarkup.Node
import Mathlib.Data.List.Basic

namespace TermMarkup

namespace Content

variable {α : Type}

@[simp] theorem children_absent : (absent : Content α).children = [] := rfl

@[simp] theorem children_single (node : α) : (single node).children = [node] := rfl

@[simp] theorem children_many (nodes : List α) : (many nodes).children = nodes := rfl

@[simp] theorem children_ofChildren (nodes : List α) : (ofChildren nodes).children = nodes := by
  unfold ofChildren
  split <;> rfl

theorem ne_many_nil {content : Content α} (h : content = .ofChildren content.children) :
    content ≠ .many [] := by
  rintro rfl
  cases h

end Content

namespace Node

/-- Induction over documents: what holds of the empty list and goes from the children of a node and
the nodes after it to the list of all of them holds of every list of nodes. -/
@[elab_as_elim]
theorem documentInduction {P : List Node → Prop} (nil : P [])
    (text : ∀ value nodes, P nodes → P (.text value :: nodes))
    (lineBreak : ∀ nodes, P nodes → P (.lineBreak :: nodes))
    (element : ∀ e content nodes, P content.children → P nodes → P (.element e content :: nodes)) :
    ∀ nodes, P nodes
  | [] => nil
  | .text value :: nodes =>
    text value nodes (documentInduction nil text lineBreak element nodes)
  | .lineBreak :: nodes =>
    lineBreak nodes (documentInduction nil text lineBreak element nodes)
  | .element e .absent :: nodes =>
    element e .absent nodes nil (documentInduction nil text lineBreak element nodes)
  | .element e (.single node) :: nodes =>
    element e (.single node) nodes (documentInduction nil text lineBreak element [node])
      (documentInduction nil text lineBreak element nodes)
  | .element e (.many inner) :: nodes =>
    element e (.many inner) nodes (documentInduction nil text lineBreak element inner)
      (documentInduction nil text lineBreak element nodes)

def isElement : Node → Bool
  | element _ _ => true
  | _ => false

def isText : Node → Bool
  | text _ => true
  | _ => false

@[simp] theorem isText_text (value : String) : (text value).isText = true := rfl

@[simp] theorem isText_lineBreak : lineBreak.isText = false := rfl

@[simp] theorem isText_element (e : Element) (content : Content Node) :
    (element e content).isText = false := rfl

/-! ## Occurrences -/

/-- A node of a document and the nodes it stands in, innermost first. -/
structure Occurrence where
  above : List Node
  node : Node

/-- The number of ancestors of a node. -/
def Occurrence.depth (o : Occurrence) : Nat :=
  o.above.length

@[simp] theorem Occurrence.depth_mk (above : List Node) (node : Node) :
    (Occurrence.mk above node).depth = above.length := rfl

mutual

/-- The nodes of a tree that stands in the nodes `above`, in document order. -/
def occurrencesIn (above : List Node) : Node → List Occurrence
  | .text value => [⟨above, .text value⟩]
  | .lineBreak => [⟨above, .lineBreak⟩]
  | .element e content =>
    ⟨above, .element e content⟩ :: contentOccurrences (.element e content :: above) content

def contentOccurrences (above : List Node) : Content Node → List Occurrence
  | .absent => []
  | .single node => occurrencesIn above node
  | .many nodes => occurrencesBelow above nodes

/-- The nodes of a list of trees that stand in the nodes `above`, in document order. -/
def occurrencesBelow (above : List Node) : List Node → List Occurrence
  | [] => []
  | node :: nodes => occurrencesIn above node ++ occurrencesBelow above nodes

end

/-- The nodes of a document. -/
def occurrences (nodes : List Node) : List Occurrence :=
  occurrencesBelow [] nodes

theorem contentOccurrences_eq (above : List Node) (content : Content Node) :
    contentOccurrences above content = occurrencesBelow above content.children := by
  cases content with
  | absent => rfl
  | single node => simp [contentOccurrences, occurrencesBelow]
  | many nodes => rfl

section

variable (above : List Node)

@[simp] theorem occurrencesBelow_nil : occurrencesBelow above [] = [] := rfl

@[simp] theorem occurrencesBelow_text (value : String) (nodes : List Node) :
    occurrencesBelow above (.text value :: nodes) =
      ⟨above, .text value⟩ :: occurrencesBelow above nodes := rfl

@[simp] theorem occurrencesBelow_lineBreak (nodes : List Node) :
    occurrencesBelow above (.lineBreak :: nodes) =
      ⟨above, .lineBreak⟩ :: occurrencesBelow above nodes := rfl

@[simp] theorem occurrencesBelow_element (e : Element) (content : Content Node)
    (nodes : List Node) :
    occurrencesBelow above (.element e content :: nodes) =
      ⟨above, .element e content⟩ ::
        (occurrencesBelow (.element e content :: above) content.children ++
          occurrencesBelow above nodes) := by
  rw [occurrencesBelow, occurrencesIn, contentOccurrences_eq, List.cons_append]

theorem occurrencesBelow_append (xs ys : List Node) :
    occurrencesBelow above (xs ++ ys) = occurrencesBelow above xs ++ occurrencesBelow above ys := by
  induction xs with
  | nil => rfl
  | cons node nodes ih =>
    rw [List.cons_append, occurrencesBelow, occurrencesBelow, ih, List.append_assoc]

end

/-! ## Statements about every node -/

/-- Which nodes stand above does not matter for the depths below, only how many. -/
theorem map_occurrencesBelow_congr {β : Type} (f : Nat → Node → β) (nodes : List Node)
    {above above' : List Node} (h : above.length = above'.length) :
    (occurrencesBelow above nodes).map (fun o => f o.depth o.node) =
      (occurrencesBelow above' nodes).map fun o => f o.depth o.node := by
  induction nodes using documentInduction generalizing above above' with
  | nil => rfl
  | text value nodes ih => simp [h, ih h]
  | lineBreak nodes ih => simp [h, ih h]
  | element e content nodes ihc ih =>
    have hc : (element e content :: above).length = (element e content :: above').length := by
      simp [h]
    simp [h, ihc hc, ih h]

/-- `P` holds of every node of a list of trees with `depth` ancestors, and of the number of
ancestors of that node. -/
def Throughout (P : Nat → Node → Prop) (depth : Nat) (nodes : List Node) : Prop :=
  ∀ above : List Node, above.length = depth → ∀ o ∈ occurrencesBelow above nodes, P o.depth o.node

section

variable {P Q : Nat → Node → Prop} {depth : Nat} {nodes : List Node}

theorem throughout_iff {above : List Node} (h : above.length = depth) :
    Throughout P depth nodes ↔ ∀ o ∈ occurrencesBelow above nodes, P o.depth o.node := by
  refine ⟨fun ht => ht above h, fun ha above' h' o ho => ?_⟩
  have hm : P o.depth o.node ∈ (occurrencesBelow above' nodes).map fun o => P o.depth o.node :=
    List.mem_map_of_mem ho
  rw [map_occurrencesBelow_congr P nodes (h'.trans h.symm)] at hm
  obtain ⟨x, hx, he⟩ := List.mem_map.1 hm
  rw [← he]
  exact ha x hx

theorem throughout_zero : Throughout P 0 nodes ↔ ∀ o ∈ occurrences nodes, P o.depth o.node :=
  throughout_iff rfl

theorem throughout_nil : Throughout P depth [] := by
  intro above _ o ho
  cases ho

theorem exists_above (depth : Nat) : ∃ above : List Node, above.length = depth :=
  ⟨List.replicate depth .lineBreak, List.length_replicate⟩

theorem throughout_text {value : String} :
    Throughout P depth (.text value :: nodes) ↔ P depth (.text value) ∧ Throughout P depth nodes := by
  obtain ⟨above, h⟩ := exists_above depth
  rw [throughout_iff h, throughout_iff h, occurrencesBelow_text, List.forall_mem_cons]
  simp only [Occurrence.depth_mk, h]

theorem throughout_lineBreak :
    Throughout P depth (.lineBreak :: nodes) ↔ P depth .lineBreak ∧ Throughout P depth nodes := by
  obtain ⟨above, h⟩ := exists_above depth
  rw [throughout_iff h, throughout_iff h, occurrencesBelow_lineBreak, List.forall_mem_cons]
  simp only [Occurrence.depth_mk, h]

theorem throughout_element {e : Element} {content : Content Node} :
    Throughout P depth (.element e content :: nodes) ↔
      P depth (.element e content) ∧ Throughout P (depth + 1) content.children ∧
        Throughout P depth nodes := by
  obtain ⟨above, h⟩ := exists_above depth
  have hc : (element e content :: above).length = depth + 1 := by
    rw [List.length_cons, h]
  rw [throughout_iff h, throughout_iff hc, throughout_iff h, occurrencesBelow_element,
    List.forall_mem_cons, List.forall_mem_append]
  simp only [Occurrence.depth_mk, h]

theorem throughout_append {others : List Node} :
    Throughout P depth (nodes ++ others) ↔ Throughout P depth nodes ∧ Throughout P depth others := by
  obtain ⟨above, h⟩ := exists_above depth
  rw [throughout_iff h, throughout_iff h, throughout_iff h, occurrencesBelow_append,
    List.forall_mem_append]

theorem throughout_cons {node : Node} :
    Throughout P depth (node :: nodes) ↔ Throughout P depth [node] ∧ Throughout P depth nodes :=
  @throughout_append P depth [node] nodes

theorem Throughout.imp (h : Throughout P depth nodes) (hpq : ∀ n node, P n node → Q n node) :
    Throughout Q depth nodes :=
  fun above ha o ho => hpq _ _ (h above ha o ho)

theorem throughout_and :
    Throughout (fun n node => P n node ∧ Q n node) depth nodes ↔
      Throughout P depth nodes ∧ Throughout Q depth nodes := by
  constructor
  · intro h
    exact ⟨h.imp fun _ _ hpq => hpq.1, h.imp fun _ _ hpq => hpq.2⟩
  · rintro ⟨hp, hq⟩ above ha o ho
    exact ⟨hp above ha o ho, hq above ha o ho⟩

end

/-! ## Rebuilding -/

mutual

/-- The node with `f` done to the children of every element in it, from the inside out. -/
def rebuiltNode (f : List Node → List Node) : Node → Node
  | .text value => .text value
  | .lineBreak => .lineBreak
  | .element e content => .element e (.ofChildren (f (rebuiltChildren f content)))

def rebuiltChildren (f : List Node → List Node) : Content Node → List Node
  | .absent => []
  | .single node => [rebuiltNode f node]
  | .many nodes => rebuilt f nodes

/-- The nodes with `f` done to the children of every element in them, from the inside out. -/
def rebuilt (f : List Node → List Node) : List Node → List Node
  | [] => []
  | node :: nodes => rebuiltNode f node :: rebuilt f nodes

end

section

variable (f : List Node → List Node)

theorem rebuiltChildren_eq (content : Content Node) :
    rebuiltChildren f content = rebuilt f content.children := by
  cases content <;> rfl

@[simp] theorem rebuilt_nil : rebuilt f [] = [] := rfl

@[simp] theorem rebuilt_text (value : String) (nodes : List Node) :
    rebuilt f (.text value :: nodes) = .text value :: rebuilt f nodes := rfl

@[simp] theorem rebuilt_lineBreak (nodes : List Node) :
    rebuilt f (.lineBreak :: nodes) = .lineBreak :: rebuilt f nodes := rfl

@[simp] theorem rebuilt_element (e : Element) (content : Content Node) (nodes : List Node) :
    rebuilt f (.element e content :: nodes) =
      .element e (.ofChildren (f (rebuilt f content.children))) :: rebuilt f nodes := by
  rw [rebuilt, rebuiltNode, rebuiltChildren_eq]

end

/-! ## Elements one in another -/

/-- Elements one in another, as many as given, the innermost without content. -/
def nested : Nat → List Node
  | 0 => []
  | n + 1 => [.element .bold (.ofChildren (nested n))]

end Node

end TermMarkup
