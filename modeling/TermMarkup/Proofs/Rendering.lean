/-
What rendering does. The renderer of a node is asked in document order: a text or a line break once,
an element before its content and after it. Rendering a document refuses the first node that lies
too deep, and otherwise gives all the answers one after the other, with a warning in place of each
answer that is a fault. No other fault ends a rendering, so only nodes with more than 64 ancestors
do, and a checked document has none.
-/
import TermMarkup.Document
import TermMarkup.Proofs.Dump

namespace TermMarkup

open Node

namespace Render

/-! ## The answers of the renderers -/

/-- What the renderer of a node answered, and where the node stands. -/
structure Mark where
  place : Occurrence
  answer : Except RenderFault String

namespace Mark

/-- What a mark adds to the output. -/
def text (m : Mark) : String :=
  match m.answer with
  | .ok output => output
  | .error _ => ""

/-- The warning that stands for a fault. -/
def warning? (m : Mark) : Option Diagnostic :=
  match m.answer with
  | .ok _ => none
  | .error fault =>
    some ⟨fault, m.place.node, (m.place.node :: m.place.above).reverse.map Node.kind⟩

/-- What the renderer of a node answers before its content. -/
def opening (context : Context) (above : List Node) (node : Node) : Mark :=
  ⟨⟨above, node⟩, before context node.kind node⟩

/-- What the renderer of a node answers after its content. -/
def closing (context : Context) (above : List Node) (node : Node) : Mark :=
  ⟨⟨above, node⟩, after context node.kind above node⟩

@[simp] theorem place_opening (context : Context) (above : List Node) (node : Node) :
    (opening context above node).place = ⟨above, node⟩ := rfl

@[simp] theorem place_closing (context : Context) (above : List Node) (node : Node) :
    (closing context above node).place = ⟨above, node⟩ := rfl

end Mark

mutual

/-- The marks of a node that stands in the nodes `above`, in order. -/
def nodeMarks (context : Context) (above : List Node) : Node → List Mark
  | .text value => [.opening context above (.text value)]
  | .lineBreak => [.opening context above .lineBreak]
  | .element e content =>
    .opening context above (.element e content) ::
      (contentMarks context (.element e content :: above) content ++
        [.closing context above (.element e content)])

def contentMarks (context : Context) (above : List Node) : Content Node → List Mark
  | .absent => []
  | .single node => nodeMarks context above node
  | .many nodes => marks context above nodes

/-- The marks of a list of nodes that stand in the nodes `above`, in order. -/
def marks (context : Context) (above : List Node) : List Node → List Mark
  | [] => []
  | node :: nodes => nodeMarks context above node ++ marks context above nodes

end

/-- The output that marks make. -/
def output (ms : List Mark) : String :=
  String.join (ms.map Mark.text)

/-- The rendering that marks make. -/
def rendering (ms : List Mark) : Rendering :=
  ⟨output ms, ms.filterMap Mark.warning?⟩

theorem contentMarks_eq (context : Context) (above : List Node) (content : Content Node) :
    contentMarks context above content = marks context above content.children := by
  cases content with
  | absent => rfl
  | single node => simp [contentMarks, marks]
  | many nodes => rfl

section

variable (context : Context) (above : List Node)

@[simp] theorem marks_nil : marks context above [] = [] := rfl

@[simp] theorem marks_text (value : String) (nodes : List Node) :
    marks context above (.text value :: nodes) =
      .opening context above (.text value) :: marks context above nodes := rfl

@[simp] theorem marks_lineBreak (nodes : List Node) :
    marks context above (.lineBreak :: nodes) =
      .opening context above .lineBreak :: marks context above nodes := rfl

@[simp] theorem marks_element (e : Element) (content : Content Node) (nodes : List Node) :
    marks context above (.element e content :: nodes) =
      .opening context above (.element e content) ::
        (marks context (.element e content :: above) content.children ++
          .closing context above (.element e content) :: marks context above nodes) := by
  rw [marks, nodeMarks, contentMarks_eq]
  simp

theorem marks_append (xs ys : List Node) :
    marks context above (xs ++ ys) = marks context above xs ++ marks context above ys := by
  induction xs with
  | nil => rfl
  | cons node nodes ih => rw [List.cons_append, marks, marks, ih, List.append_assoc]

end

@[simp] theorem output_nil : output [] = "" := rfl

@[simp] theorem output_cons (m : Mark) (ms : List Mark) : output (m :: ms) = m.text ++ output ms := by
  simp [output]

@[simp] theorem output_append (xs ys : List Mark) : output (xs ++ ys) = output xs ++ output ys := by
  simp [output]

theorem rendering_append (xs ys : List Mark) :
    rendering (xs ++ ys) = (rendering xs).append (rendering ys) := by
  simp [rendering, Rendering.append]

/-! ## Which faults there are -/

/-- The renderer of a node's own kind never refuses it for good. -/
theorem isFatal_before {context : Context} {node : Node} {fault : RenderFault}
    (h : before context node.kind node = .error fault) : fault.isFatal = false := by
  obtain ⟨format, theme⟩ := context
  cases node with
  | text value => cases format <;> cases h
  | lineBreak => cases format <;> cases h
  | element e content =>
    cases format with
    | markup => cases e <;> cases h
    | ansi =>
      cases e with
      | bold | italics | styled kind own => cases h
      | underline style => cases style <;> cases h; rfl
      | color fg bg => cases fg <;> cases bg <;> cases h; rfl

theorem after_eq_ok (context : Context) (above : List Node) (node : Node) :
    ∃ output, after context node.kind above node = .ok output := by
  obtain ⟨format, theme⟩ := context
  cases node with
  | text value => exact ⟨"", rfl⟩
  | lineBreak => exact ⟨"", rfl⟩
  | element e content => cases format <;> cases e <;> exact ⟨_, rfl⟩

theorem after_leaf {context : Context} {above : List Node} {node : Node}
    (h : node.isElement = false) : after context node.kind above node = .ok "" := by
  cases node with
  | text value => rfl
  | lineBreak => rfl
  | element e content => cases h

end Render

/-! ## Rendering as its marks -/

namespace Compiler

open Render

theorem find?_all (kind : Kind) : Kind.all.find? (· == kind) = some kind := by
  cases kind with
  | styled kind => cases kind <;> rfl
  | text | lineBreak | bold | italics | underline | color => rfl

theorem renderContent_eq (c : Compiler) (format : Format) (above : List Node)
    (content : Content Node) :
    c.renderContent format above content = c.renderNodes format above content.children := by
  cases content with
  | absent => rfl
  | many nodes => rfl
  | single node =>
    rw [renderContent, Content.children_single, renderNodes, renderNodes]
    cases c.renderNode format above node with
    | error d => rfl
    | ok r => simp [Rendering.append, bind, Except.bind, pure, Except.pure]

/-- The diagnostic of a node that lies too deep. -/
def refusal (o : Occurrence) : Diagnostic :=
  ⟨.tooDeep, o.node, o.above.reverse.map Node.kind⟩

/-- Whether a node has more ancestors than the limit. -/
def isTooDeep (o : Occurrence) : Bool :=
  maxNesting < o.depth

theorem isTooDeep_iff {o : Occurrence} : isTooDeep o = true ↔ maxNesting < o.depth := by
  simp [isTooDeep]

theorem isTooDeep_mk {above : List Node} {node : Node} :
    isTooDeep ⟨above, node⟩ = true ↔ maxNesting < above.length :=
  isTooDeep_iff

/-- How a rendering ends: with a node that lies too deep, if there is one. -/
def outcome (deep : Option Occurrence) (r : Rendering) : Except Diagnostic Rendering :=
  match deep with
  | some o => .error (refusal o)
  | none => .ok r

theorem outcome_append (deep deep' : Option Occurrence) (r r' : Rendering) :
    (do
      let first ← outcome deep r
      let others ← outcome deep' r'
      return first.append others) = outcome (deep.or deep') (r.append r') := by
  cases deep <;> cases deep' <;> rfl

theorem absorb_before (context : Context) (above : List Node) (node : Node) :
    absorb node above (before context node.kind node) =
      .ok (rendering [.opening context above node]) := by
  unfold rendering output Mark.opening
  cases h : before context node.kind node with
  | ok answer => simp [absorb, Mark.text, Mark.warning?]
  | error fault => simp [absorb, isFatal_before h, Mark.text, Mark.warning?]

theorem absorb_after (context : Context) (above : List Node) (node : Node) :
    absorb node above (after context node.kind above node) =
      .ok (rendering [.closing context above node]) := by
  obtain ⟨answer, h⟩ := after_eq_ok context above node
  unfold rendering output Mark.closing
  simp [absorb, Mark.text, Mark.warning?, h]

section

variable (theme : Theme) (format : Format)

/-- A node renders as its marks around its content, unless it lies too deep. -/
theorem renderAround_eq (above : List Node) (node : Node)
    (inside : Unit → Except Diagnostic Rendering) :
    ({ theme } : Compiler).renderAround format above node inside =
      if maxNesting < above.length then .error (refusal ⟨above, node⟩)
      else do
        let content ← inside ()
        return ((rendering [.opening ⟨format, theme⟩ above node]).append content).append
          (rendering [.closing ⟨format, theme⟩ above node]) := by
  unfold renderAround
  simp only [find?_all, gt_iff_lt]
  by_cases hd : maxNesting < above.length
  · simp only [hd, if_true]
    rfl
  · simp only [hd, if_false]
    rw [absorb_before, absorb_after]
    cases inside () <;> rfl

theorem rendering_closing_leaf {context : Context} {above : List Node} {node : Node}
    (h : node.isElement = false) : rendering [.closing context above node] = {} := by
  unfold rendering output Mark.closing
  simp [after_leaf h, Mark.text, Mark.warning?]

theorem renderAround_leaf (above : List Node) {node : Node} (h : node.isElement = false) :
    ({ theme } : Compiler).renderAround format above node (fun _ => .ok {}) =
      outcome ([⟨above, node⟩].find? isTooDeep)
        (rendering [.opening ⟨format, theme⟩ above node]) := by
  rw [renderAround_eq, rendering_closing_leaf h]
  by_cases hd : maxNesting < above.length
  · simp [isTooDeep, outcome, hd]
  · simp [isTooDeep, outcome, hd, Rendering.append, bind, Except.bind, pure, Except.pure]

/-- Nodes render as their marks, unless one of them lies too deep; the first that does is the one
refused. -/
theorem renderNodes_eq (above nodes : List Node) :
    ({ theme } : Compiler).renderNodes format above nodes =
      outcome ((occurrencesBelow above nodes).find? isTooDeep)
        (rendering (marks ⟨format, theme⟩ above nodes)) := by
  induction nodes using documentInduction generalizing above with
  | nil => rfl
  | text value nodes ih =>
    rw [renderNodes, renderNode, renderAround_leaf theme format above rfl, ih, outcome_append,
      ← List.find?_append, ← rendering_append]
    rfl
  | lineBreak nodes ih =>
    rw [renderNodes, renderNode, renderAround_leaf theme format above rfl, ih, outcome_append,
      ← List.find?_append, ← rendering_append]
    rfl
  | element e content nodes ihc ih =>
    rw [renderNodes, renderNode, renderAround_eq, renderContent_eq, ihc, ih,
      occurrencesBelow_element]
    by_cases hd : maxNesting < above.length
    · -- the element comes before everything in it and after it
      rw [if_pos hd, List.find?_cons_of_pos (isTooDeep_mk.2 hd)]
      rfl
    · rw [if_neg hd, List.find?_cons_of_neg (mt isTooDeep_mk.1 hd), List.find?_append,
        marks_element]
      cases (occurrencesBelow (.element e content :: above) content.children).find? isTooDeep with
      | some o => rfl
      | none =>
        have hmarks : .opening ⟨format, theme⟩ above (.element e content) ::
              (marks ⟨format, theme⟩ (.element e content :: above) content.children ++
                .closing ⟨format, theme⟩ above (.element e content) ::
                  marks ⟨format, theme⟩ above nodes) =
            [.opening ⟨format, theme⟩ above (.element e content)] ++
              marks ⟨format, theme⟩ (.element e content :: above) content.children ++
              [.closing ⟨format, theme⟩ above (.element e content)] ++
              marks ⟨format, theme⟩ above nodes := by simp
        rw [hmarks, rendering_append, rendering_append, rendering_append]
        exact outcome_append none _ _ _

end

/-! ## The first node that lies too deep -/

theorem find?_isTooDeep_cons {above : List Node} {node : Node} {others : List Occurrence}
    {o : Occurrence} (ha : above.length ≤ maxNesting + 1)
    (h : (⟨above, node⟩ :: others).find? isTooDeep = some o) :
    o.depth = maxNesting + 1 ∨ above.length ≤ maxNesting ∧ others.find? isTooDeep = some o := by
  rw [List.find?_cons] at h
  split at h
  · rename_i hd
    cases h
    have := isTooDeep_mk.1 hd
    rw [Occurrence.depth_mk]
    omega
  · rename_i hd
    have : ¬ maxNesting < above.length := mt isTooDeep_mk.2 (Bool.eq_false_iff.1 hd)
    exact Or.inr ⟨by omega, h⟩

/-- The first node with more ancestors than the limit has just one more: its parent comes before it
and has not too many. -/
theorem depth_of_find? {above nodes : List Node} {o : Occurrence}
    (ha : above.length ≤ maxNesting + 1)
    (h : (occurrencesBelow above nodes).find? isTooDeep = some o) : o.depth = maxNesting + 1 := by
  induction nodes using documentInduction generalizing above with
  | nil => cases h
  | text value nodes ih =>
    rcases find?_isTooDeep_cons ha h with hd | ⟨-, h⟩
    · exact hd
    · exact ih ha h
  | lineBreak nodes ih =>
    rcases find?_isTooDeep_cons ha h with hd | ⟨-, h⟩
    · exact hd
    · exact ih ha h
  | element e content nodes ihc ih =>
    rw [occurrencesBelow_element] at h
    rcases find?_isTooDeep_cons ha h with hd | ⟨hle, h⟩
    · exact hd
    · rw [List.find?_append, Option.or_eq_some_iff] at h
      rcases h with h | ⟨-, h⟩
      · have hc : (Node.element e content :: above).length ≤ maxNesting + 1 := by
          rw [List.length_cons]
          omega
        exact ihc hc h
      · exact ih ha h

theorem render_eq (theme : Theme) (format : Format) (nodes : List Node) :
    ({ theme } : Compiler).render format nodes =
      outcome ((occurrences nodes).find? isTooDeep) (rendering (marks ⟨format, theme⟩ [] nodes)) :=
  renderNodes_eq theme format [] nodes

theorem render_eq_ok_iff {theme : Theme} {format : Format} {nodes : List Node} {r : Rendering} :
    ({ theme } : Compiler).render format nodes = .ok r ↔
      (∀ o ∈ occurrences nodes, o.depth ≤ maxNesting) ∧
        r = rendering (marks ⟨format, theme⟩ [] nodes) := by
  rw [render_eq]
  cases h : (occurrences nodes).find? isTooDeep with
  | some o =>
    refine ⟨fun he => (by cases he), fun ⟨hd, _⟩ => ?_⟩
    have := isTooDeep_iff.1 (List.find?_some h)
    have := hd o (List.mem_of_find?_eq_some h)
    omega
  | none =>
    have hd : ∀ o ∈ occurrences nodes, o.depth ≤ maxNesting := fun o ho => by
      have := mt isTooDeep_iff.2 (List.find?_eq_none.1 h o ho)
      omega
    constructor
    · intro he
      cases he
      exact ⟨hd, rfl⟩
    · rintro ⟨-, rfl⟩
      rfl

/-- A rendering that fails refuses the first node that lies too deep, which has one ancestor more
than the limit. -/
theorem render_eq_error {theme : Theme} {format : Format} {nodes : List Node} {d : Diagnostic}
    (h : ({ theme } : Compiler).render format nodes = .error d) :
    ∃ o, (occurrences nodes).find? isTooDeep = some o ∧ o.depth = maxNesting + 1 ∧ d = refusal o := by
  rw [render_eq] at h
  cases hf : (occurrences nodes).find? isTooDeep with
  | none =>
    rw [hf] at h
    cases h
  | some o =>
    rw [hf] at h
    cases h
    exact ⟨o, rfl, depth_of_find? (Nat.zero_le _) hf, rfl⟩

end Compiler

/-! ## Checked documents -/

/-- A checked document renders. -/
theorem render_of_ofRaw {raw : Raw} {nodes : List Node} (h : ofRaw raw = .ok nodes) (theme : Theme)
    (format : Format) : ({ theme } : Compiler).render format nodes =
      .ok (Render.rendering (Render.marks ⟨format, theme⟩ [] nodes)) := by
  have hd := depth_of_sound (Nat.zero_le maxNesting) (sound_of_ofRaw h)
  exact Compiler.render_eq_ok_iff.2 ⟨throughout_zero.1 hd, rfl⟩

theorem readNodes_eq_ok_iff {source : String} {nodes : List Node} :
    readNodes source = .ok nodes ↔ ∃ raw, parse source = .ok raw ∧ ofRaw raw = .ok nodes := by
  unfold readNodes
  constructor
  · intro h
    split at h
    · cases h
    · rename_i raw hp
      split at h
      · cases h
      · rename_i hr
        cases h
        exact ⟨raw, hp, hr⟩
  · rintro ⟨raw, hp, hr⟩
    rw [hp]
    simp only [hr]

theorem readNodes_ne_render (source : String) (d : Diagnostic) :
    readNodes source ≠ .error (.render d) := by
  unfold readNodes
  split
  · rintro ⟨⟩
  · split <;> rintro ⟨⟩

/-- The output of a source is the marks of its nodes, one after the other. -/
theorem compile_eq_ok {source : String} {nodes : List Node} (h : readNodes source = .ok nodes)
    (theme : Theme) (format : Format) :
    compile theme format source =
      .ok (Render.output (Render.marks ⟨format, theme⟩ [] nodes)) := by
  obtain ⟨raw, -, hr⟩ := readNodes_eq_ok_iff.1 h
  unfold compile
  rw [h]
  simp only [bind, Except.bind, render_of_ofRaw hr]
  rfl

/-- Under every theme and in both formats, a document renders exactly when no node has more than 64
ancestors. Otherwise the rendering ends at the first node in document order that has, with a fatal
diagnostic that names its 65 ancestors, outermost first. So every checked document renders, and no
source ends in an error of rendering. -/
theorem render_ok_iff_depth (theme : Theme) (format : Format) :
    (∀ nodes : List Node,
      ((∃ r, ({ theme } : Compiler).render format nodes = .ok r) ↔
        ∀ o ∈ occurrences nodes, o.depth ≤ 64) ∧
      ∀ d, ({ theme } : Compiler).render format nodes = .error d →
        d.fault.isFatal = true ∧ d.text = "nesting too deep (more than 64 levels)" ∧
        ∃ o, (occurrences nodes).find? (fun o => 64 < o.depth) = some o ∧ o.depth = 65 ∧
          d = ⟨.tooDeep, o.node, o.above.reverse.map Node.kind⟩) ∧
    (∀ raw nodes, ofRaw raw = .ok nodes →
      ∃ r, ({ theme } : Compiler).render format nodes = .ok r) ∧
    ∀ source d, compile theme format source ≠ .error (.render d) := by
  refine ⟨fun nodes => ⟨?_, fun d h => ?_⟩, fun raw nodes h => ?_, fun source d h => ?_⟩
  · constructor
    · rintro ⟨r, h⟩
      exact (Compiler.render_eq_ok_iff.1 h).1
    · intro h
      exact ⟨_, Compiler.render_eq_ok_iff.2 ⟨h, rfl⟩⟩
  · obtain ⟨o, hf, hd, rfl⟩ := Compiler.render_eq_error h
    exact ⟨rfl, rfl, o, hf, hd, rfl⟩
  · exact ⟨_, render_of_ofRaw h theme format⟩
  · cases hn : readNodes source with
    | ok nodes =>
      rw [compile_eq_ok hn] at h
      cases h
    | error e =>
      have he : compile theme format source = .error e := by
        unfold compile
        rw [hn]
        rfl
      rw [he] at h
      cases h
      exact readNodes_ne_render source d hn

theorem exists_deep_nested (n : Nat) (above : List Node) :
    ∃ o ∈ occurrencesBelow above (nested (n + 1)), o.depth = above.length + n := by
  induction n generalizing above with
  | zero => exact ⟨_, List.mem_cons_self, rfl⟩
  | succ n ih =>
    obtain ⟨o, ho, hd⟩ := ih (.element .bold (.ofChildren (nested (n + 1))) :: above)
    refine ⟨o, ?_, by rw [hd, List.length_cons]; omega⟩
    rw [nested, occurrencesBelow_element, Content.children_ofChildren]
    exact List.mem_cons_of_mem _ (List.mem_append_left _ ho)

/-- Of elements one in another, 65 check and render, and the innermost of 66 is refused. -/
theorem render_ok_iff_depth_nested :
    ofRaw (.array (toRaws (nested 65))) = .ok (nested 65) ∧
    (∃ r, ({} : Compiler).render .ansi (nested 65) = .ok r) ∧
    ∃ d, ({} : Compiler).render .ansi (nested 66) = .error d ∧ d.fault.isFatal = true ∧
      d.text = "nesting too deep (more than 64 levels)" ∧
      ∃ o, (occurrences (nested 66)).find? (fun o => 64 < o.depth) = some o ∧ o.depth = 65 ∧
        d = ⟨.tooDeep, o.node, o.above.reverse.map Node.kind⟩ := by
  have hcheck := ofRaw_toRaws_of_sound (sound_nested (n := 65) (Nat.le_refl _))
  obtain ⟨hrender, hchecked, -⟩ := render_ok_iff_depth .builtin .ansi
  refine ⟨hcheck, hchecked _ _ hcheck, ?_⟩
  cases h : ({} : Compiler).render .ansi (nested 66) with
  | error d => exact ⟨d, rfl, (hrender _).2 d h⟩
  | ok r =>
    obtain ⟨o, ho, hd⟩ := exists_deep_nested 65 []
    have hle := (hrender _).1.1 ⟨r, h⟩ o ho
    rw [hd] at hle
    exact absurd hle (by decide)

end TermMarkup
