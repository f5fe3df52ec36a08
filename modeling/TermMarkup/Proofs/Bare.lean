/-
Elements that render as nothing to a terminal: a color element that sets no color and an underline
element without an underline. Each of them gives one warning and leaves its content as it would be
without it, so the output is that of the document with each of them replaced by its children.
-/
import TermMarkup.Proofs.Markup
import TermMarkup.Proofs.Painting

namespace TermMarkup

open Node Render

/-! ## Bare elements -/

/-- The fault of an element that sets nothing. -/
def Element.bareFault? : Element → Option RenderFault
  | .color none none => some .bareColor
  | .underline .off => some (.bareUnderline .off)
  | _ => none

theorem Element.bare_cases {e : Element} {fault : RenderFault} (h : e.bareFault? = some fault) :
    e = .color none none ∨ e = .underline .off := by
  cases e with
  | bold | italics | styled kind own => cases h
  | underline style =>
    cases style with
    | off => exact Or.inr rfl
    | single | double => cases h
  | color fg bg =>
    cases fg with
    | some fg => cases h
    | none =>
      cases bg with
      | some bg => cases h
      | none => exact Or.inl rfl

namespace Node

def bareFault? : Node → Option RenderFault
  | .element e _ => e.bareFault?
  | _ => none

/-- The warning for a bare element, with the kinds of the elements around it and its own. -/
def Occurrence.bareWarning? (o : Occurrence) : Option Diagnostic :=
  o.node.bareFault?.map fun fault => ⟨fault, o.node, (o.node :: o.above).reverse.map Node.kind⟩

mutual

/-- What is left of a node when every bare element in it gives way to its children. -/
def unwrappedNode : Node → List Node
  | .text value => [.text value]
  | .lineBreak => [.lineBreak]
  | .element e content =>
    match e.bareFault? with
    | some _ => (unwrappedContent content).children
    | none => [.element e (unwrappedContent content)]

def unwrappedContent : Content Node → Content Node
  | .absent => .absent
  | .single node => .ofChildren (unwrappedNode node)
  | .many nodes => .many (unwrapped nodes)

/-- The nodes with every bare element in them replaced by its children. -/
def unwrapped : List Node → List Node
  | [] => []
  | node :: nodes => unwrappedNode node ++ unwrapped nodes

end

@[simp] theorem children_unwrappedContent (content : Content Node) :
    (unwrappedContent content).children = unwrapped content.children := by
  cases content with
  | absent => rfl
  | many nodes => rfl
  | single node =>
    rw [unwrappedContent, Content.children_ofChildren, Content.children_single, unwrapped, unwrapped,
      List.append_nil]

@[simp] theorem unwrapped_text (value : String) (nodes : List Node) :
    unwrapped (.text value :: nodes) = .text value :: unwrapped nodes := rfl

@[simp] theorem unwrapped_lineBreak (nodes : List Node) :
    unwrapped (.lineBreak :: nodes) = .lineBreak :: unwrapped nodes := rfl

section

variable {e : Element} (content : Content Node) (nodes : List Node)

theorem unwrapped_bare {fault : RenderFault} (h : e.bareFault? = some fault) :
    unwrapped (.element e content :: nodes) = unwrapped content.children ++ unwrapped nodes := by
  rw [unwrapped, unwrappedNode]
  simp only [h, children_unwrappedContent]

theorem unwrapped_element (h : e.bareFault? = none) :
    unwrapped (.element e content :: nodes) =
      .element e (unwrappedContent content) :: unwrapped nodes := by
  rw [unwrapped, unwrappedNode]
  simp only [h, List.singleton_append]

end

/-! ## What is left is no deeper, and has no bare element -/

theorem throughout_depth_unwrapped {n depth depth' : Nat} {nodes : List Node}
    (h : Throughout (fun d _ => d ≤ n) depth nodes) (hd : depth' ≤ depth) :
    Throughout (fun d _ => d ≤ n) depth' (unwrapped nodes) := by
  induction nodes using documentInduction generalizing depth depth' with
  | nil => exact throughout_nil
  | text value nodes ih =>
    rw [throughout_text] at h
    exact throughout_text.2 ⟨hd.trans h.1, ih h.2 hd⟩
  | lineBreak nodes ih =>
    rw [throughout_lineBreak] at h
    exact throughout_lineBreak.2 ⟨hd.trans h.1, ih h.2 hd⟩
  | element e content nodes ihc ih =>
    obtain ⟨he, hc, hn⟩ := throughout_element.1 h
    cases hb : e.bareFault? with
    | some fault =>
      rw [unwrapped_bare content nodes hb]
      exact throughout_append.2 ⟨ihc hc (hd.trans (Nat.le_succ _)), ih hn hd⟩
    | none =>
      rw [unwrapped_element content nodes hb, throughout_element, children_unwrappedContent]
      exact ⟨hd.trans he, ihc hc (Nat.succ_le_succ hd), ih hn hd⟩

theorem throughout_bareFault?_unwrapped (nodes : List Node) (depth : Nat) :
    Throughout (fun _ node => node.bareFault? = none) depth (unwrapped nodes) := by
  induction nodes using documentInduction generalizing depth with
  | nil => exact throughout_nil
  | text value nodes ih => exact throughout_text.2 ⟨rfl, ih depth⟩
  | lineBreak nodes ih => exact throughout_lineBreak.2 ⟨rfl, ih depth⟩
  | element e content nodes ihc ih =>
    cases hb : e.bareFault? with
    | some fault =>
      rw [unwrapped_bare content nodes hb]
      exact throughout_append.2 ⟨ihc depth, ih depth⟩
    | none =>
      rw [unwrapped_element content nodes hb, throughout_element, children_unwrappedContent]
      exact ⟨hb, ihc (depth + 1), ih depth⟩

theorem warnings_unwrapped (nodes : List Node) :
    (occurrences (unwrapped nodes)).filterMap Occurrence.bareWarning? = [] := by
  refine List.filterMap_eq_nil_iff.2 fun o ho => ?_
  have hnone := throughout_zero.1 (throughout_bareFault?_unwrapped nodes 0) o ho
  unfold Occurrence.bareWarning?
  rw [hnone]
  rfl

end Node

/-! ## Warnings -/

namespace Render

theorem warning?_opening (theme : Theme) (above : List Node) (node : Node) :
    (Mark.opening ⟨.ansi, theme⟩ above node).warning? = Occurrence.bareWarning? ⟨above, node⟩ := by
  cases node with
  | text value => rfl
  | lineBreak => rfl
  | element e content =>
    cases e with
    | bold | italics | styled kind own => rfl
    | underline style => cases style <;> rfl
    | color fg bg => cases fg <;> cases bg <;> rfl

theorem warning?_closing (context : Context) (above : List Node) (node : Node) :
    (Mark.closing context above node).warning? = none := by
  obtain ⟨answer, h⟩ := after_eq_ok context above node
  unfold Mark.warning? Mark.closing
  simp only [h]

/-- Rendering to a terminal warns of the bare elements, in document order. -/
theorem warnings_marks (theme : Theme) (above nodes : List Node) :
    (marks ⟨.ansi, theme⟩ above nodes).filterMap Mark.warning? =
      (occurrencesBelow above nodes).filterMap Occurrence.bareWarning? := by
  induction nodes using documentInduction generalizing above with
  | nil => rfl
  | text value nodes ih =>
    rw [marks_text, occurrencesBelow_text, List.filterMap_cons, List.filterMap_cons,
      warning?_opening, ih]
  | lineBreak nodes ih =>
    rw [marks_lineBreak, occurrencesBelow_lineBreak, List.filterMap_cons, List.filterMap_cons,
      warning?_opening, ih]
  | element e content nodes ihc ih =>
    rw [marks_element, occurrencesBelow_element, List.filterMap_cons, List.filterMap_cons,
      warning?_opening, List.filterMap_append, List.filterMap_append,
      List.filterMap_cons_none (warning?_closing _ _ _), ihc, ih]

theorem rendering_ansi (theme : Theme) (nodes : List Node) :
    rendering (marks ⟨.ansi, theme⟩ [] nodes) =
      ⟨output (marks ⟨.ansi, theme⟩ [] nodes),
        (occurrences nodes).filterMap Occurrence.bareWarning?⟩ := by
  rw [rendering, warnings_marks]
  rfl

/-! ## Output -/

section

variable {theme : Theme} {e : Element} {fault : RenderFault} {content : Content Node}

theorem text_opening_bare (h : e.bareFault? = some fault) (above : List Node) :
    (Mark.opening ⟨.ansi, theme⟩ above (.element e content)).text = "" := by
  rcases Element.bare_cases h with rfl | rfl <;> rfl

theorem text_closing_bare (h : e.bareFault? = some fault) (above : List Node) :
    (Mark.closing ⟨.ansi, theme⟩ above (.element e content)).text = "" := by
  rcases Element.bare_cases h with rfl | rfl <;> rfl

theorem inherited_bare (h : e.bareFault? = some fault) (channel : Channel) (above : List Node) :
    inherited channel (.element e content :: above) = inherited channel above := by
  rw [inherited_cons]
  rcases Element.bare_cases h with rfl | rfl
  · cases channel <;> rfl
  · rfl

end

/-- Without its bare elements a document renders as before, wherever the colors around it are the
same. -/
theorem output_unwrapped (theme : Theme) (nodes : List Node) {above above' : List Node}
    (ha : ∀ channel, inherited channel above = inherited channel above') :
    output (marks ⟨.ansi, theme⟩ above' (unwrapped nodes)) =
      output (marks ⟨.ansi, theme⟩ above nodes) := by
  induction nodes using documentInduction generalizing above above' with
  | nil => rfl
  | text value nodes ih =>
    rw [unwrapped_text, marks_text, marks_text, output_cons, output_cons, ih ha]
    rfl
  | lineBreak nodes ih =>
    rw [unwrapped_lineBreak, marks_lineBreak, marks_lineBreak, output_cons, output_cons, ih ha]
    rfl
  | element e content nodes ihc ih =>
    cases hb : e.bareFault? with
    | some fault =>
      -- its children move up to where it stands
      have hc : ∀ channel, inherited channel (.element e content :: above) =
          inherited channel above' := fun channel => (inherited_bare hb channel above).trans (ha channel)
      rw [unwrapped_bare content nodes hb, marks_append, output_append, ihc hc, ih ha, marks_element,
        output_cons, output_append, output_cons, text_opening_bare hb, text_closing_bare hb]
      simp
    | none =>
      -- its content changed, but not the colors it sets
      have hc : ∀ channel, inherited channel (.element e content :: above) =
          inherited channel (.element e (unwrappedContent content) :: above') := by
        intro channel
        rw [inherited_cons, inherited_cons, ha]
        cases e <;> rfl
      rw [unwrapped_element content nodes hb, marks_element, marks_element]
      simp only [output_cons, output_append]
      rw [children_unwrappedContent, ihc hc, ih ha, text_opening, text_opening, text_closing,
        text_closing, Element.codesOff_congr theme e ha]

end Render

/-- Bare elements are transparent. To a terminal, a document that renders gives one warning for each
of them, in document order, and the output that it gives with each of them replaced by its children,
which renders without a warning. Markup has no warnings. -/
theorem bare_elements_transparent (theme : Theme) (nodes : List Node) :
    (∀ r, ({ theme } : Compiler).render .ansi nodes = .ok r →
      r.warnings = (occurrences nodes).filterMap Occurrence.bareWarning? ∧
        ({ theme } : Compiler).render .ansi (unwrapped nodes) = .ok ⟨r.output, []⟩) ∧
      ∀ r, ({ theme } : Compiler).render .markup nodes = .ok r → r.warnings = [] := by
  refine ⟨fun r h => ?_, fun r h => ?_⟩
  · obtain ⟨hd, rfl⟩ := Compiler.render_eq_ok_iff.1 h
    have hshallow := throughout_depth_unwrapped (throughout_zero.2 hd) (Nat.le_refl 0)
    rw [Compiler.render_eq_ok_iff, rendering_ansi, rendering_ansi, warnings_unwrapped,
      output_unwrapped theme nodes fun _ => rfl]
    exact ⟨rfl, throughout_zero.1 hshallow, rfl⟩
  · obtain ⟨-, rfl⟩ := Compiler.render_eq_ok_iff.1 h
    rw [Compiler.rendering_markup]

/-- In red, a color element that sets nothing around an underline element that draws nothing, around
a text in blue and a text that is red again. -/
def redAndBare : List Node :=
  [.element (.color (some .red) none) (.single
    (.element (.color none none) (.single
      (.element (.underline .off) (.many
        [.element (.color (some .blue) none) (.single (.text "a")), .text "b"])))))]

theorem bare_elements_transparent_nested :
    unwrapped redAndBare = [.element (.color (some .red) none) (.many
        [.element (.color (some .blue) none) (.single (.text "a")), .text "b"])] ∧
      ∃ r, ({} : Compiler).render .ansi redAndBare = .ok r ∧
        ({} : Compiler).render .ansi (unwrapped redAndBare) = .ok ⟨r.output, []⟩ ∧
        r.warnings.map (fun d => (d.fault, d.stack)) =
          [(.bareColor, [.color, .color]), (.bareUnderline .off, [.color, .color, .underline])] := by
  obtain ⟨r, h⟩ : ∃ r, ({} : Compiler).render .ansi redAndBare = .ok r := ⟨_, rfl⟩
  obtain ⟨hwarnings, houtput⟩ := (bare_elements_transparent .builtin redAndBare).1 r h
  refine ⟨rfl, r, h, houtput, ?_⟩
  rw [hwarnings]
  rfl

end TermMarkup
