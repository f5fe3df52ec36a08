/-
Rendering typed nodes, depth first: the marks before a node, its content, the marks after it. The
first renderer that takes the kind of a node renders it. Faults that are not fatal are collected as
warnings.
-/
import TermMarkup.Render.Marks

namespace TermMarkup

/-- An output and the warnings met on the way. -/
structure Rendering where
  output : String := ""
  warnings : List Diagnostic := []

/-- Two renderings, one after the other. -/
def Rendering.append (a b : Rendering) : Rendering :=
  ⟨a.output ++ b.output, a.warnings ++ b.warnings⟩

/-- A theme and the kinds that have a renderer, in the order in which renderers are asked. -/
structure Compiler where
  theme : Theme := .builtin
  renderers : List Kind := Kind.all

namespace Compiler

/-- The compiler with one more renderer, asked after the others. -/
def register (c : Compiler) (renderer : Kind) : Compiler :=
  { c with renderers := c.renderers ++ [renderer] }

/-- Marks that rendered, or a warning in their place, or a fatal diagnostic. -/
def absorb (node : Node) (above : List Node) : Except RenderFault String →
    Except Diagnostic Rendering
  | .ok output => .ok { output }
  | .error fault =>
    let diagnostic := ⟨fault, node, (node :: above).reverse.map Node.kind⟩
    if fault.isFatal then .error diagnostic else .ok { warnings := [diagnostic] }

/-- Renders a node that stands in the nodes `above`, given how its content renders. -/
def renderAround (c : Compiler) (format : Format) (above : List Node) (node : Node)
    (inside : Unit → Except Diagnostic Rendering) : Except Diagnostic Rendering := do
  let stack := above.reverse.map Node.kind
  match c.renderers.find? (· == node.kind) with
  | none => throw ⟨.noRenderer, node, stack⟩
  | some renderer =>
    if above.length > maxNesting then
      throw ⟨.tooDeep, node, stack⟩
    let context := ⟨format, c.theme⟩
    let first ← absorb node above (Render.before context renderer node)
    let content ← inside ()
    let last ← absorb node above (Render.after context renderer above node)
    return (first.append content).append last

mutual

/-- Renders a node that stands in the nodes `above`, innermost first. -/
def renderNode (c : Compiler) (format : Format) (above : List Node) :
    Node → Except Diagnostic Rendering
  | .text value => c.renderAround format above (.text value) fun _ => .ok {}
  | .lineBreak => c.renderAround format above .lineBreak fun _ => .ok {}
  | .element e content =>
    c.renderAround format above (.element e content) fun _ =>
      renderContent c format (.element e content :: above) content

def renderContent (c : Compiler) (format : Format) (above : List Node) :
    Content Node → Except Diagnostic Rendering
  | .absent => .ok {}
  | .single node => renderNode c format above node
  | .many nodes => renderNodes c format above nodes

/-- Renders nodes one after the other. -/
def renderNodes (c : Compiler) (format : Format) (above : List Node) :
    List Node → Except Diagnostic Rendering
  | [] => .ok {}
  | node :: nodes => do
    let first ← renderNode c format above node
    let others ← renderNodes c format above nodes
    return first.append others

end

/-- Renders a document. -/
def render (c : Compiler) (format : Format) (nodes : List Node) : Except Diagnostic Rendering :=
  c.renderNodes format [] nodes

end Compiler

end TermMarkup
