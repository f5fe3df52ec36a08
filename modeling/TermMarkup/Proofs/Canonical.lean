/-
Documents with their text joined. In a joined list of siblings no text is empty and no two texts
stand side by side; the canonical form of a document has joined siblings everywhere, and is the
document with its text joined in every list of siblings, from the inside out. Siblings may as well be
joined as they come, each with those before it.
-/
import TermMarkup.Proofs.Setting
import TermMarkup.Proofs.Tree

namespace TermMarkup.Node

/-! ## Joined siblings -/

/-- No text is empty, and no text is followed by a text. -/
def Joined : List Node → Prop
  | [] => True
  | .text value :: nodes =>
    value ≠ "" ∧ (∀ node ∈ nodes.head?, node.isText = false) ∧ Joined nodes
  | _ :: nodes => Joined nodes

theorem joinText_empty {value : String} (h : value = "") (nodes : List Node) :
    joinText (.text value :: nodes) = joinText nodes := by
  subst h
  rfl

/-- Joining a text that is not empty puts it in front of the text it meets, if it meets one. -/
theorem joinText_text {value : String} (h : value ≠ "") (nodes : List Node) :
    (∃ next others, joinText nodes = .text next :: others ∧
      joinText (.text value :: nodes) = .text (value ++ next) :: others) ∨
    ((∀ node ∈ (joinText nodes).head?, node.isText = false) ∧
      joinText (.text value :: nodes) = .text value :: joinText nodes) := by
  have he : ¬ value.isEmpty = true := by rwa [String.isEmpty_iff]
  rw [joinText, if_neg he]
  cases hj : joinText nodes with
  | nil => exact Or.inr ⟨fun _ h => (by cases h), rfl⟩
  | cons node others =>
    cases node with
    | text next => exact Or.inl ⟨next, others, rfl, rfl⟩
    | lineBreak =>
      refine Or.inr ⟨fun node h => ?_, rfl⟩
      cases Option.some.inj h
      rfl
    | element e content =>
      refine Or.inr ⟨fun node h => ?_, rfl⟩
      cases Option.some.inj h
      rfl

theorem joinText_lineBreak (nodes : List Node) :
    joinText (.lineBreak :: nodes) = .lineBreak :: joinText nodes := rfl

theorem joinText_element (e : Element) (content : Content Node) (nodes : List Node) :
    joinText (.element e content :: nodes) = .element e content :: joinText nodes := rfl

theorem joined_joinText (nodes : List Node) : Joined (joinText nodes) := by
  induction nodes with
  | nil => trivial
  | cons node nodes ih =>
    cases node with
    | lineBreak => exact ih
    | element e content => exact ih
    | text value =>
      by_cases hv : value = ""
      · rwa [joinText_empty hv]
      · rcases joinText_text hv nodes with ⟨next, others, hj, he⟩ | ⟨hh, he⟩
        · -- the two texts become one, and what comes after the second is not a text
          rw [hj] at ih
          rw [he]
          refine ⟨fun h => hv ?_, ih.2⟩
          exact (String.append_eq_empty_iff.1 h).1
        · rw [he]
          exact ⟨hv, hh, ih⟩

/-- Joining keeps what holds of every node, if it holds of any text. -/
theorem throughout_joinText {P : Nat → Node → Prop} {depth : Nat}
    (hp : ∀ value, P depth (.text value)) {nodes : List Node} :
    Throughout P depth (joinText nodes) ↔ Throughout P depth nodes := by
  induction nodes with
  | nil => exact Iff.rfl
  | cons node nodes ih =>
    cases node with
    | lineBreak => rw [joinText_lineBreak, throughout_lineBreak, throughout_lineBreak, ih]
    | element e content =>
      rw [joinText_element, throughout_element, throughout_element, ih]
    | text value =>
      rw [throughout_text, and_iff_right (hp value), ← ih]
      by_cases hv : value = ""
      · rw [joinText_empty hv]
      · rcases joinText_text hv nodes with ⟨next, others, hj, he⟩ | ⟨-, he⟩
        · rw [he, hj, throughout_text, throughout_text, and_iff_right (hp _), and_iff_right (hp _)]
        · rw [he, throughout_text, and_iff_right (hp value)]

/-! ## Joining from the other end -/

/-- The nodes with a text more at their end, which goes on with the text before it. -/
def pushText (nodes : List Node) (value : String) : List Node :=
  match nodes.getLast? with
  | some (.text last) => nodes.dropLast ++ [.text (last ++ value)]
  | _ => nodes ++ [.text value]

/-- The nodes with one more at their end. Empty text adds nothing. -/
def push (nodes : List Node) : Node → List Node
  | .text value => if value.isEmpty then nodes else pushText nodes value
  | node => nodes ++ [node]

/-- The nodes with a text more at their front, which goes on with the text after it. -/
def lead (value : String) : List Node → List Node
  | .text next :: others => .text (value ++ next) :: others
  | others => .text value :: others

theorem push_empty {value : String} (h : value = "") (nodes : List Node) :
    push nodes (.text value) = nodes := by
  subst h
  rfl

theorem push_text {value : String} (h : value ≠ "") (nodes : List Node) :
    push nodes (.text value) = pushText nodes value :=
  if_neg (by rwa [String.isEmpty_iff])

theorem joinText_lead {value : String} (h : value ≠ "") (nodes : List Node) :
    joinText (.text value :: nodes) = lead value (joinText nodes) :=
  if_neg (by rwa [String.isEmpty_iff])

/-- Only the last node meets the new one. -/
theorem push_cons_cons (first second : Node) (nodes : List Node) (node : Node) :
    push (first :: second :: nodes) node = first :: push (second :: nodes) node := by
  cases node with
  | lineBreak => rfl
  | element e content => rfl
  | text value =>
    by_cases hv : value = ""
    · rw [push_empty hv, push_empty hv]
    · rw [push_text hv, push_text hv]
      unfold pushText
      rw [List.getLast?_cons_cons, List.dropLast_cons_cons]
      split <;> rfl

/-- A node that is no text does not meet the new one. -/
theorem push_cons {first : Node} (h : first.isText = false) (nodes : List Node) (node : Node) :
    push (first :: nodes) node = first :: push nodes node := by
  cases nodes with
  | cons second nodes => exact push_cons_cons first second nodes node
  | nil =>
    cases node with
    | lineBreak => rfl
    | element e content => rfl
    | text value =>
      by_cases hv : value = ""
      · rw [push_empty hv, push_empty hv]
      · rw [push_text hv, push_text hv]
        cases first with
        | text last => cases h
        | lineBreak => rfl
        | element e content => rfl

/-- What is added at the front and what is added at the end do not depend on each other, even if
they meet. -/
theorem lead_push (value : String) (nodes : List Node) (node : Node) :
    lead value (push nodes node) = push (lead value nodes) node := by
  cases nodes with
  | nil =>
    cases node with
    | lineBreak => rfl
    | element e content => rfl
    | text last =>
      by_cases hl : last = ""
      · rw [push_empty hl, push_empty hl]
      · rw [push_text hl, push_text hl]
        rfl
  | cons first nodes =>
    cases first with
    | lineBreak =>
      rw [push_cons rfl]
      show _ = push (.text value :: .lineBreak :: nodes) node
      rw [push_cons_cons, push_cons rfl]
      rfl
    | element e content =>
      rw [push_cons rfl]
      show _ = push (.text value :: .element e content :: nodes) node
      rw [push_cons_cons, push_cons rfl]
      rfl
    | text next =>
      show _ = push (.text (value ++ next) :: nodes) node
      cases nodes with
      | cons second nodes =>
        rw [push_cons_cons, push_cons_cons]
        rfl
      | nil =>
        cases node with
        | lineBreak => rfl
        | element e content => rfl
        | text last =>
          by_cases hl : last = ""
          · rw [push_empty hl, push_empty hl]
            rfl
          · -- all three texts become one
            rw [push_text hl, push_text hl]
            show [text (value ++ (next ++ last))] = [text (value ++ next ++ last)]
            rw [String.append_assoc]

/-- Joining with a node more at the end is joining and adding the node. -/
theorem joinText_concat (nodes : List Node) (node : Node) :
    joinText (nodes ++ [node]) = push (joinText nodes) node := by
  induction nodes with
  | nil =>
    cases node with
    | lineBreak => rfl
    | element e content => rfl
    | text value =>
      by_cases hv : value = ""
      · rw [push_empty hv]
        exact joinText_empty hv []
      · rw [push_text hv]
        exact joinText_lead hv []
  | cons first nodes ih =>
    rw [List.cons_append]
    cases first with
    | lineBreak => rw [joinText_lineBreak, joinText_lineBreak, ih, push_cons rfl]
    | element e content => rw [joinText_element, joinText_element, ih, push_cons rfl]
    | text value =>
      by_cases hv : value = ""
      · rw [joinText_empty hv, joinText_empty hv, ih]
      · rw [joinText_lead hv, joinText_lead hv, ih, lead_push]

/-- Adding nodes one after the other to joined ones joins them all. -/
theorem foldl_push_joinText (nodes more : List Node) :
    more.foldl push (joinText nodes) = joinText (nodes ++ more) := by
  induction more generalizing nodes with
  | nil => rw [List.append_nil, List.foldl_nil]
  | cons node more ih => rw [List.foldl_cons, ← joinText_concat, ih, ← List.append_cons]

/-! ## The canonical document -/

/-- The document with empty text dropped and neighbouring text joined in every list of siblings;
an element whose children are all dropped has no content. -/
def canonical (nodes : List Node) : List Node :=
  joinText (rebuilt joinText nodes)

/-- The element can be written as a tag that gives it back. -/
def Fitting (_ : Nat) : Node → Prop
  | .element e _ => e.Fits
  | _ => True

/-- The element fits, and its content is its joined children in the form a check gives them. -/
def Settled (_ : Nat) : Node → Prop
  | .element e content => e.Fits ∧ content = .ofChildren content.children ∧ Joined content.children
  | _ => True

/-- An element has fewer nodes around it than the limit. -/
def Within (depth : Nat) (node : Node) : Prop :=
  node.isElement = true → depth < maxNesting

theorem within_text (depth : Nat) (value : String) : Within depth (.text value) :=
  fun h => (by cases h)

theorem within_lineBreak (depth : Nat) : Within depth .lineBreak :=
  fun h => (by cases h)

theorem settled_rebuilt {depth : Nat} {nodes : List Node} (h : Throughout Fitting depth nodes) :
    Throughout Settled depth (rebuilt joinText nodes) := by
  induction nodes using documentInduction generalizing depth with
  | nil => exact throughout_nil
  | text value nodes ih =>
    exact throughout_text.2 ⟨trivial, ih (throughout_text.1 h).2⟩
  | lineBreak nodes ih =>
    exact throughout_lineBreak.2 ⟨trivial, ih (throughout_lineBreak.1 h).2⟩
  | element e content nodes ihc ih =>
    obtain ⟨he, hc, hn⟩ := throughout_element.1 h
    rw [rebuilt_element, throughout_element, Content.children_ofChildren]
    refine ⟨⟨he, ?_⟩, (throughout_joinText fun _ => trivial).2 (ihc hc), ih hn⟩
    rw [Content.children_ofChildren]
    exact ⟨rfl, joined_joinText _⟩

theorem settled_canonical {nodes : List Node} (h : Throughout Fitting 0 nodes) :
    Throughout Settled 0 (canonical nodes) :=
  (throughout_joinText fun _ => trivial).2 (settled_rebuilt h)

theorem joined_canonical (nodes : List Node) : Joined (canonical nodes) :=
  joined_joinText _

theorem within_rebuilt {depth : Nat} {nodes : List Node} :
    Throughout Within depth (rebuilt joinText nodes) ↔ Throughout Within depth nodes := by
  induction nodes using documentInduction generalizing depth with
  | nil => exact Iff.rfl
  | text value nodes ih => rw [rebuilt_text, throughout_text, throughout_text, ih]
  | lineBreak nodes ih => rw [rebuilt_lineBreak, throughout_lineBreak, throughout_lineBreak, ih]
  | element e content nodes ihc ih =>
    rw [rebuilt_element, throughout_element, throughout_element, Content.children_ofChildren,
      throughout_joinText (within_text _), ihc, ih]
    rfl

/-- Joining text keeps the depths of elements. -/
theorem within_canonical {nodes : List Node} :
    Throughout Within 0 (canonical nodes) ↔ Throughout Within 0 nodes :=
  (throughout_joinText (within_text _)).trans within_rebuilt

end TermMarkup.Node
