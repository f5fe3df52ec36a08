/-
Documents that are the same. Two documents are the same exactly when they are equal with every
content written as a list; content that is absent stays absent, and is not an empty list. So to be
the same is an equivalence, and what reads content by its children cannot tell same documents apart:
under every theme and in both formats they fail to render together or give the same output, and the
dumps of both fail the check or both give one document.
-/
import TermMarkup.Proofs.DraftRendering

namespace TermMarkup.Node

open Render

/-! ## Content as lists -/

mutual

/-- The node with every content written as a list. -/
def listed : Node → Node
  | .text value => .text value
  | .lineBreak => .lineBreak
  | .element e content => .element e (contentListed content)

def contentListed : Content Node → Content Node
  | .absent => .absent
  | .single node => .many [listed node]
  | .many nodes => .many (allListed nodes)

/-- The document with every content written as a list. -/
def allListed : List Node → List Node
  | [] => []
  | node :: nodes => listed node :: allListed nodes

end

/-- Documents that differ at most in how they write content: nodes stand for nodes, elements with
content for elements with content. -/
inductive Matching : List Node → List Node → Prop
  | nil : Matching [] []
  | text (value : String) {xs ys : List Node} (h : Matching xs ys) :
    Matching (.text value :: xs) (.text value :: ys)
  | lineBreak {xs ys : List Node} (h : Matching xs ys) : Matching (.lineBreak :: xs) (.lineBreak :: ys)
  | element (e : Element) {content content' : Content Node}
    (ha : content = .absent ↔ content' = .absent)
    (hc : Matching content.children content'.children) {xs ys : List Node} (h : Matching xs ys) :
    Matching (.element e content :: xs) (.element e content' :: ys)

theorem sameContent_iff {content content' : Content Node} :
    sameContent content content' = true ↔ (content = .absent ↔ content' = .absent) ∧
      sameList content.children content'.children = true := by
  match content, content' with
  | .absent, .absent | .absent, .single _ | .absent, .many _ => simp [sameContent, sameList]
  | .single _, .absent | .many [], .absent | .many [_], .absent | .many (_ :: _ :: _), .absent =>
    simp [sameContent]
  | .single a, .single b => simp [sameContent, sameList]
  | .single a, .many [] | .single a, .many [b] | .single a, .many (b :: c :: bs) =>
    simp [sameContent, sameList]
  | .many [], .single b | .many [a], .single b | .many (a :: c :: as), .single b =>
    simp [sameContent, sameList]
  | .many [], .many bs | .many [a], .many bs | .many (a :: c :: as), .many bs => simp [sameContent]

theorem sameList_iff_matching {xs ys : List Node} : sameList xs ys = true ↔ Matching xs ys := by
  constructor
  · intro h
    induction xs using documentInduction generalizing ys with
    | nil =>
      cases ys with
      | nil => exact .nil
      | cons y ys => cases h
    | text value xs ih =>
      cases ys with
      | nil => cases h
      | cons y ys =>
        rw [sameList, Bool.and_eq_true] at h
        cases y with
        | text other =>
          rw [same, beq_iff_eq] at h
          rw [h.1]
          exact .text other (ih h.2)
        | lineBreak | element f content' => cases h.1
    | lineBreak xs ih =>
      cases ys with
      | nil => cases h
      | cons y ys =>
        rw [sameList, Bool.and_eq_true] at h
        cases y with
        | lineBreak => exact .lineBreak (ih h.2)
        | text other | element f content' => cases h.1
    | element e content xs ihc ih =>
      cases ys with
      | nil => cases h
      | cons y ys =>
        rw [sameList, Bool.and_eq_true] at h
        cases y with
        | text other | lineBreak => cases h.1
        | element f content' =>
          rw [same, Bool.and_eq_true, beq_iff_eq, sameContent_iff] at h
          obtain ⟨⟨rfl, ha, hc⟩, hs⟩ := h
          exact .element e ha (ihc hc) (ih hs)
  · intro h
    induction h with
    | nil => rfl
    | text value _ ih => rw [sameList, same, beq_self_eq_true, ih, Bool.and_self]
    | lineBreak _ ih => rw [sameList, same, ih, Bool.and_self]
    | element e ha _ _ ihc ih =>
      rw [sameList, same, beq_self_eq_true, sameContent_iff.2 ⟨ha, ihc⟩, ih]
      rfl

theorem contentListed_eq_absent_iff {content : Content Node} :
    contentListed content = .absent ↔ content = .absent := by
  cases content <;> simp [contentListed]

theorem children_contentListed (content : Content Node) :
    (contentListed content).children = allListed content.children := by
  cases content <;> rfl

theorem contentListed_congr {content content' : Content Node}
    (ha : content = .absent ↔ content' = .absent)
    (hc : allListed content.children = allListed content'.children) :
    contentListed content = contentListed content' := by
  cases content <;> cases content' <;> simp_all [contentListed, allListed]

namespace Matching

variable {xs ys zs : List Node}

theorem symm (h : Matching xs ys) : Matching ys xs := by
  induction h with
  | nil => exact .nil
  | text value _ ih => exact .text value ih
  | lineBreak _ ih => exact .lineBreak ih
  | element e ha _ _ ihc ih => exact .element e ha.symm ihc ih

theorem trans (h : Matching xs ys) (h' : Matching ys zs) : Matching xs zs := by
  induction h generalizing zs with
  | nil => exact h'
  | text value _ ih =>
    cases h' with
    | text _ h' => exact .text value (ih h')
  | lineBreak _ ih =>
    cases h' with
    | lineBreak h' => exact .lineBreak (ih h')
  | element e ha _ _ ihc ih =>
    cases h' with
    | element _ ha' hc' h' => exact .element e (ha.trans ha') (ihc hc') (ih h')

theorem allListed_eq (h : Matching xs ys) : allListed xs = allListed ys := by
  induction h with
  | nil => rfl
  | text value _ ih => rw [allListed, allListed, ih]
  | lineBreak _ ih => rw [allListed, allListed, ih]
  | element e ha _ _ ihc ih =>
    rw [allListed, allListed, listed, listed, contentListed_congr ha ihc, ih]

end Matching

theorem matching_allListed (nodes : List Node) : Matching nodes (allListed nodes) := by
  induction nodes using documentInduction with
  | nil => exact .nil
  | text value nodes ih => exact .text value ih
  | lineBreak nodes ih => exact .lineBreak ih
  | element e content nodes ihc ih =>
    refine .element e contentListed_eq_absent_iff.symm ?_ ih
    rw [children_contentListed]
    exact ihc

/-- The document with every content written as a list stands for all that match it. -/
theorem sameList_iff_allListed {xs ys : List Node} :
    sameList xs ys = true ↔ allListed xs = allListed ys := by
  rw [sameList_iff_matching]
  constructor
  · exact Matching.allListed_eq
  · intro h
    have hx := matching_allListed xs
    rw [h] at hx
    exact hx.trans (matching_allListed ys).symm

theorem sameList_equivalence : Equivalence fun xs ys => sameList xs ys = true := by
  simp only [sameList_iff_allListed]
  exact ⟨fun _ => rfl, Eq.symm, Eq.trans⟩

/-! ## What cannot tell same documents apart -/

namespace Matching

variable {xs ys : List Node}

theorem allAlike (h : Matching xs ys) (theme : Theme) : AllAlike theme theme xs ys := by
  induction h with
  | nil => exact .nil
  | text value _ ih => exact .text value ih
  | lineBreak _ ih => exact .lineBreak ih
  | element e _ _ _ ihc ih => exact .element (.refl theme e) ihc ih

theorem allWritten_eq (h : Matching xs ys) : allWritten xs = allWritten ys := by
  induction h with
  | nil => rfl
  | text value _ ih => rw [allWritten_text, allWritten_text, ih]
  | lineBreak _ ih => rw [allWritten_lineBreak, allWritten_lineBreak, ih]
  | element e _ _ _ ihc ih => rw [allWritten_element, allWritten_element, ihc, ih]

theorem render_iff (h : Matching xs ys) (theme : Theme) (format : Format) (shown : String) :
    (({ theme } : Compiler).render format xs).map (·.output) = .ok shown ↔
      (({ theme } : Compiler).render format ys).map (·.output) = .ok shown := by
  cases format with
  | ansi => exact (h.allAlike theme).render_iff shown
  | markup =>
    have hdepth := (h.allAlike theme).throughout_depth maxNesting 0
    rw [throughout_zero, throughout_zero] at hdepth
    have houtput (nodes : List Node) : output (marks ⟨.markup, theme⟩ [] nodes) = allWritten nodes :=
      congrArg Rendering.output (Compiler.rendering_markup theme [] nodes)
    rw [render_map_eq_ok_iff, render_map_eq_ok_iff, hdepth, houtput, houtput, h.allWritten_eq]

theorem throughout_dumps (h : Matching xs ys) (depth : Nat) :
    Throughout Dumps depth xs ↔ Throughout Dumps depth ys := by
  induction h generalizing depth with
  | nil => exact Iff.rfl
  | text value _ ih => rw [throughout_text, throughout_text, ih]
  | lineBreak _ ih => rw [throughout_lineBreak, throughout_lineBreak, ih]
  | element e ha _ _ ihc ih =>
    rw [throughout_element, throughout_element, ihc, ih, Dumps, Dumps, ne_eq, ne_eq, ha]

theorem rebuilt_eq (h : Matching xs ys) : rebuilt id xs = rebuilt id ys := by
  induction h with
  | nil => rfl
  | text value _ ih => rw [rebuilt_text, rebuilt_text, ih]
  | lineBreak _ ih => rw [rebuilt_lineBreak, rebuilt_lineBreak, ih]
  | element e _ _ _ ihc ih => rw [rebuilt_element, rebuilt_element, ihc, ih]

theorem ofRaw_toRaws_iff (h : Matching xs ys) (back : List Node) :
    ofRaw (.array (toRaws xs)) = .ok back ↔ ofRaw (.array (toRaws ys)) = .ok back := by
  rw [ofRaw_toRaws_eq_ok_iff, ofRaw_toRaws_eq_ok_iff, h.throughout_dumps, h.rebuilt_eq]

end Matching

/-- Documents are the same exactly when they are equal with every content written as a list, which is
an equivalence. The same documents fail to render together or give the same output, and so do the
checks of their dumps. -/
theorem same_documents_indistinguishable :
    (∀ xs ys, sameList xs ys = true ↔ allListed xs = allListed ys) ∧
    Equivalence (fun xs ys => sameList xs ys = true) ∧
    ∀ xs ys, sameList xs ys = true →
      (∀ (theme : Theme) (format : Format) (shown : String),
        (({ theme } : Compiler).render format xs).map (·.output) = .ok shown ↔
          (({ theme } : Compiler).render format ys).map (·.output) = .ok shown) ∧
      ∀ back, ofRaw (.array (toRaws xs)) = .ok back ↔ ofRaw (.array (toRaws ys)) = .ok back := by
  refine ⟨fun _ _ => sameList_iff_allListed, sameList_equivalence, fun xs ys h => ?_⟩
  have hm := sameList_iff_matching.1 h
  exact ⟨hm.render_iff, hm.ofRaw_toRaws_iff⟩

theorem same_documents_indistinguishable_nested :
    sameList [.element .bold (.single (.element .italics (.many [.text "x"])))]
      [.element .bold (.many [.element .italics (.single (.text "x"))])] = true ∧
    (∀ (theme : Theme) (format : Format) (shown : String),
      (({ theme } : Compiler).render format
          [.element .bold (.single (.element .italics (.many [.text "x"])))]).map (·.output) =
        .ok shown ↔
      (({ theme } : Compiler).render format
          [.element .bold (.many [.element .italics (.single (.text "x"))])]).map (·.output) =
        .ok shown) ∧
    ∀ back,
      ofRaw (.array (toRaws [.element .bold (.single (.element .italics (.many [.text "x"])))])) =
        .ok back ↔
      ofRaw (.array (toRaws [.element .bold (.many [.element .italics (.single (.text "x"))])])) =
        .ok back := by
  have h : sameList [.element .bold (.single (.element .italics (.many [.text "x"])))]
      [.element .bold (.many [.element .italics (.single (.text "x"))])] = true := rfl
  exact ⟨h, same_documents_indistinguishable.2.2 _ _ h⟩

example : sameList [.element .bold .absent] [.element .bold (.many [])] = false := rfl

end TermMarkup.Node
