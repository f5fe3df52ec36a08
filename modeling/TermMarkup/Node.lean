/-
Typed nodes. A node is a text run, a line break, or an element with content. Content is absent, a
single node, or a list of nodes; a single node and the list of just that node are the same children
written in two ways, while absent content is not an empty list.
-/
import TermMarkup.Kind
import TermMarkup.Style

namespace TermMarkup

/-- What an element does to its content. -/
inductive Element where
  | bold
  | italics
  | underline (style : Underline)
  | color (fg bg : Option Color)
  | styled (kind : StyledKind) (style : Style)
  deriving DecidableEq, Repr

/-- The content of an element. -/
inductive Content (α : Type) where
  | absent
  | single (node : α)
  | many (nodes : List α)
  deriving Repr

inductive Node where
  | text (value : String)
  | lineBreak
  | element (element : Element) (content : Content Node)
  deriving Repr

namespace Element

def kind : Element → Kind
  | bold => .bold
  | italics => .italics
  | underline _ => .underline
  | color _ _ => .color
  | styled kind _ => .styled kind

/-- The attributes of an element that are set, in the order in which markup writes them. -/
def settings : Element → List (String × Setting)
  | bold | italics => []
  | underline style => [("type", .underline style)]
  | color fg bg => settingsOf [("fg", fg.map .color), ("bg", bg.map .color)]
  | styled _ style => style.settings

/-- The fields that hold the attributes of an element. -/
def fields (e : Element) : List (String × Raw) :=
  e.settings.map fun setting => (setting.1, setting.2.toRaw)

/-- The attributes markup writes for an element. -/
def attributes (e : Element) : List (String × String) :=
  e.settings.map fun setting => (setting.1, setting.2.written)

end Element

namespace Content

/-- The children, in order. -/
def children {α : Type} : Content α → List α
  | absent => []
  | single node => [node]
  | many nodes => nodes

/-- The children, unless the content is absent. -/
def children? {α : Type} : Content α → Option (List α)
  | absent => none
  | single node => some [node]
  | many nodes => some nodes

/-- The content with the given children: absent for none, a single node for one. -/
def ofChildren {α : Type} : List α → Content α
  | [] => absent
  | [node] => single node
  | nodes => many nodes

end Content

namespace Node

def kind : Node → Kind
  | text _ => .text
  | lineBreak => .lineBreak
  | element e _ => e.kind

def content : Node → Content Node
  | element _ content => content
  | _ => .absent

def children (node : Node) : List Node :=
  node.content.children

/-! ## Sameness -/

mutual

/-- Whether two nodes have the same kinds, attributes and children throughout. -/
def same : Node → Node → Bool
  | .text a, .text b => a == b
  | .lineBreak, .lineBreak => true
  | .element e a, .element f b => e == f && sameContent a b
  | _, _ => false

def sameContent : Content Node → Content Node → Bool
  | .absent, .absent => true
  | .single a, .single b => same a b
  | .single a, .many [b] => same a b
  | .many [a], .single b => same a b
  | .many as, .many bs => sameList as bs
  | _, _ => false

/-- Whether two lists of nodes are the same, node by node. -/
def sameList : List Node → List Node → Bool
  | [], [] => true
  | a :: as, b :: bs => same a b && sameList as bs
  | _, _ => false

end

/-! ## As an untyped tree -/

mutual

/-- The node as an untyped tree. -/
def toRaw : Node → Raw
  | .text value => .ofFields [("node", .string "text"), ("value", .string value)]
  | .lineBreak => .ofFields [("node", .string "br")]
  | .element e content =>
    .ofFields (("node", .string e.kind.tag) :: e.fields ++ contentFields content)

/-- The content field of a node, if its content is not absent. -/
def contentFields : Content Node → List (String × Raw)
  | .absent => []
  | .single node => [("content", toRaw node)]
  | .many nodes => [("content", .array (toRaws nodes))]

/-- The nodes as untyped trees. -/
def toRaws : List Node → List Raw
  | [] => []
  | node :: nodes => toRaw node :: toRaws nodes

end

/-! ## Text runs -/

/-- The nodes with empty text dropped and neighbouring text runs joined. -/
def joinText : List Node → List Node
  | [] => []
  | .text value :: nodes =>
    if value.isEmpty then joinText nodes
    else
      match joinText nodes with
      | .text next :: others => .text (value ++ next) :: others
      | others => .text value :: others
  | node :: nodes => node :: joinText nodes

end Node

end TermMarkup
