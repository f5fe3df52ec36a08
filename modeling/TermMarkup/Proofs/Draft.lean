/-
Drafts and their markup. The markup of a draft is the markup of its nodes, whose siblings are joined
and whose elements fit, so it reads back as these nodes, unless a container of the draft stands in
too many others. Groups that leave no trace do not count. The nodes are those that a walk through the
draft collects.
-/
import TermMarkup.Draft
import TermMarkup.Proofs.Markup

namespace TermMarkup.Draft

open Node

/-- Induction over lists of drafts that goes into the children of each group. -/
@[elab_as_elim]
theorem draftInduction {P : List Draft → Prop} (nil : P [])
    (text : ∀ value look drafts, P drafts → P (.text value look :: drafts))
    (lineBreak : ∀ look drafts, P drafts → P (.lineBreak look :: drafts))
    (group : ∀ g look children drafts, P children → P drafts →
      P (.group g look children :: drafts)) :
    ∀ drafts, P drafts
  | [] => nil
  | .text value look :: drafts =>
    text value look drafts (draftInduction nil text lineBreak group drafts)
  | .lineBreak look :: drafts =>
    lineBreak look drafts (draftInduction nil text lineBreak group drafts)
  | .group g look children :: drafts =>
    group g look children drafts (draftInduction nil text lineBreak group children)
      (draftInduction nil text lineBreak group drafts)

/-! ## Containers -/

/-- Whether only the children of a draft show: it is a bundle or an underline of type none. -/
def isTransparent : Draft → Bool
  | group .bundle _ _ => true
  | group .underline look _ => look.overrides.font.underline == some .off
  | _ => false

/-- Whether a draft shows as a pair of tags. -/
def isContainer : Draft → Bool
  | text _ _ | lineBreak _ => false
  | draft => !draft.isTransparent

/-- A draft in a tree of drafts and the drafts it stands in, innermost first. -/
structure Occurrence where
  above : List Draft
  draft : Draft

mutual

/-- The drafts of a tree that stands in the drafts `above`. -/
def occurrencesIn (above : List Draft) : Draft → List Occurrence
  | .text value look => [⟨above, .text value look⟩]
  | .lineBreak look => [⟨above, .lineBreak look⟩]
  | .group g look children =>
    ⟨above, .group g look children⟩ :: occurrencesBelow (.group g look children :: above) children

/-- The drafts of a list of trees that stand in the drafts `above`. -/
def occurrencesBelow (above : List Draft) : List Draft → List Occurrence
  | [] => []
  | draft :: drafts => occurrencesIn above draft ++ occurrencesBelow above drafts

end

/-- The drafts of a tree. -/
def occurrences (draft : Draft) : List Occurrence :=
  occurrencesIn [] draft

/-- The number of containers a draft stands in. -/
def Occurrence.depth (o : Occurrence) : Nat :=
  o.above.countP isContainer

theorem isContainer_group (g : Group) (look : Look) (children : List Draft) :
    (group g look children).isContainer = (element? look g).isSome := by
  cases g with
  | underline =>
    show (!(look.overrides.font.underline == some .off)) = _
    unfold element?
    cases look.overrides.font.underline with
    | none => rfl
    | some style => cases style <;> rfl
  | bundle | bold | italics | color | styled kind => rfl

/-! ## The nodes of a draft -/

section

variable (g : Group) (look : Look) (children drafts : List Draft)

theorem allPieces_group_none (h : element? look g = none) :
    allPieces (.group g look children :: drafts) = allPieces children ++ allPieces drafts := by
  rw [allPieces, pieces, h]

theorem allPieces_group_some {e : Element} (h : element? look g = some e) :
    allPieces (.group g look children :: drafts) =
      .element e (.ofChildren (joinText (allPieces children))) :: allPieces drafts := by
  rw [allPieces, pieces, h]
  rfl

end

theorem allPieces_singleton (draft : Draft) : allPieces [draft] = draft.pieces := by
  rw [allPieces, allPieces, List.append_nil]

/-! ## Nodes collected in order -/

mutual

/-- The nodes with those of a draft added at their end. A group that leaves no trace adds its
children instead. -/
def collect (nodes : List Node) : Draft → List Node
  | .text value _ => push nodes (.text value)
  | .lineBreak _ => push nodes .lineBreak
  | .group g look children =>
    match element? look g with
    | none => collectAll nodes children
    | some e => push nodes (.element e (.ofChildren (collectAll [] children)))

def collectAll (nodes : List Node) : List Draft → List Node
  | [] => nodes
  | draft :: drafts => collectAll (collect nodes draft) drafts

end

/-- To collect the nodes of drafts is to add their pieces one after the other. -/
theorem collectAll_eq (drafts : List Draft) (nodes : List Node) :
    collectAll nodes drafts = (allPieces drafts).foldl push nodes := by
  induction drafts using draftInduction generalizing nodes with
  | nil => rfl
  | text value look drafts ih => exact ih _
  | lineBreak look drafts ih => exact ih _
  | group g look children drafts ihc ih =>
    rw [collectAll, collect]
    cases he : element? look g with
    | none =>
      rw [allPieces_group_none _ _ _ _ he, List.foldl_append, ← ihc]
      exact ih _
    | some e =>
      -- the children are collected on their own, from nothing
      have hchildren : collectAll [] children = joinText (allPieces children) :=
        (ihc []).trans (foldl_push_joinText [] _)
      rw [allPieces_group_some _ _ _ _ he, List.foldl_cons, ← hchildren]
      exact ih _

/-- The nodes of a draft are those that are collected from it. -/
theorem collect_nil (draft : Draft) : collect [] draft = draft.toNodes := by
  have h := collectAll_eq [draft] []
  rw [allPieces_singleton] at h
  exact h.trans (foldl_push_joinText [] _)

theorem allWritten_append (xs ys : List Node) :
    allWritten (xs ++ ys) = allWritten xs ++ allWritten ys := by
  induction xs with
  | nil => exact String.empty_append.symm
  | cons node nodes ih =>
    rw [List.cons_append, allWritten, allWritten, ih, String.append_assoc]

theorem allMarkup_eq (drafts : List Draft) : allMarkup drafts = allWritten (allPieces drafts) := by
  induction drafts using draftInduction with
  | nil => rfl
  | text value look drafts ih =>
    rw [allMarkup, toMarkup, ih]
    rfl
  | lineBreak look drafts ih =>
    rw [allMarkup, toMarkup, ih]
    rfl
  | group g look children drafts ihc ih =>
    rw [allMarkup, toMarkup, ihc, ih]
    cases he : element? look g with
    | none => rw [allPieces_group_none _ _ _ _ he, allWritten_append]
    | some e =>
      rw [allPieces_group_some _ _ _ _ he, allWritten_element, Content.children_ofChildren,
        allWritten_joinText]

/-- The markup of a draft is the markup of its nodes. -/
theorem toMarkup_eq (draft : Draft) : toMarkup draft = allWritten draft.toNodes := by
  have h := allMarkup_eq [draft]
  rw [allMarkup, allMarkup, allPieces, allPieces, List.append_nil, String.append_empty] at h
  rw [h, toNodes, allWritten_joinText]

/-- The element of a group fits. -/
theorem fits_of_element? {look : Look} {g : Group} {e : Element} (h : element? look g = some e) :
    e.Fits := by
  unfold element? at h
  cases g with
  | bundle => cases h
  | bold => cases h; trivial
  | italics => cases h; trivial
  | color => cases h; trivial
  | underline =>
    simp only at h
    split at h
    · cases h
    · rename_i hne _
      cases h
      exact hne
    · cases h
      intro hoff
      cases hoff
  | styled kind =>
    cases h
    intro hk
    unfold styledLook
    rw [if_neg hk]

theorem settled_allPieces (drafts : List Draft) (depth : Nat) :
    Throughout Settled depth (allPieces drafts) := by
  induction drafts using draftInduction generalizing depth with
  | nil => exact throughout_nil
  | text value look drafts ih => exact throughout_text.2 ⟨trivial, ih depth⟩
  | lineBreak look drafts ih => exact throughout_lineBreak.2 ⟨trivial, ih depth⟩
  | group g look children drafts ihc ih =>
    cases he : element? look g with
    | none =>
      rw [allPieces_group_none _ _ _ _ he]
      exact throughout_append.2 ⟨ihc depth, ih depth⟩
    | some e =>
      rw [allPieces_group_some _ _ _ _ he, throughout_element, Content.children_ofChildren]
      refine ⟨⟨fits_of_element? he, ?_⟩, (throughout_joinText fun _ => trivial).2 (ihc _), ih depth⟩
      rw [Content.children_ofChildren]
      exact ⟨rfl, joined_joinText _⟩

/-- Containers stand in as many containers as their elements have ancestors. -/
theorem within_allPieces (drafts above : List Draft) :
    Throughout Within (above.countP isContainer) (allPieces drafts) ↔
      ∀ o ∈ occurrencesBelow above drafts, o.draft.isContainer = true → o.depth < maxNesting := by
  induction drafts using draftInduction generalizing above with
  | nil => exact ⟨fun _ o ho => (by cases ho), fun _ => throughout_nil⟩
  | text value look drafts ih =>
    have hp : allPieces (.text value look :: drafts) = .text value :: allPieces drafts := rfl
    have ho : occurrencesBelow above (.text value look :: drafts) =
      ⟨above, .text value look⟩ :: occurrencesBelow above drafts := rfl
    rw [hp, ho, throughout_text, List.forall_mem_cons, ih]
    exact and_congr_left fun _ => ⟨fun _ h => (by cases h), fun _ => within_text _ _⟩
  | lineBreak look drafts ih =>
    have hp : allPieces (.lineBreak look :: drafts) = .lineBreak :: allPieces drafts := rfl
    have ho : occurrencesBelow above (.lineBreak look :: drafts) =
      ⟨above, .lineBreak look⟩ :: occurrencesBelow above drafts := rfl
    rw [hp, ho, throughout_lineBreak, List.forall_mem_cons, ih]
    exact and_congr_left fun _ => ⟨fun _ h => (by cases h), fun _ => within_lineBreak _⟩
  | group g look children drafts ihc ih =>
    have ho : occurrencesBelow above (.group g look children :: drafts) =
      ⟨above, .group g look children⟩ ::
        (occurrencesBelow (.group g look children :: above) children ++
          occurrencesBelow above drafts) := rfl
    have hc := ihc (.group g look children :: above)
    rw [List.countP_cons, isContainer_group] at hc
    rw [ho, List.forall_mem_cons, List.forall_mem_append, ← ih above, ← hc, isContainer_group]
    cases he : element? look g with
    | none =>
      -- the children stand in as many containers as the group itself
      rw [allPieces_group_none _ _ _ _ he, throughout_append]
      exact ⟨fun h => ⟨fun hs => (by cases hs), h⟩, fun h => h.2⟩
    | some e =>
      rw [allPieces_group_some _ _ _ _ he, throughout_element, Content.children_ofChildren,
        throughout_joinText (within_text _)]
      rfl

/-! ## The round trip -/

theorem joined_toNodes (draft : Draft) : Joined draft.toNodes :=
  joined_joinText _

theorem settled_toNodes (draft : Draft) : Throughout Settled 0 draft.toNodes := by
  have h := settled_allPieces [draft] 0
  rw [allPieces_singleton] at h
  exact (throughout_joinText fun _ => trivial).2 h

theorem within_toNodes (draft : Draft) :
    Throughout Within 0 draft.toNodes ↔
      ∀ o ∈ draft.occurrences, o.draft.isContainer = true → o.depth < maxNesting := by
  have h := within_allPieces [draft] []
  rw [allPieces_singleton, occurrencesBelow, occurrencesBelow, List.append_nil] at h
  exact (throughout_joinText (within_text _)).trans h

/-- The markup of a draft reads back as the nodes of the draft if every container stands in fewer
than 64 others, and is refused as nested too deep otherwise. -/
theorem readNodes_toMarkup (draft : Draft) :
    ((∀ o ∈ draft.occurrences, o.draft.isContainer = true → o.depth < 64) →
      readNodes draft.toMarkup = .ok draft.toNodes) ∧
    ((∃ o ∈ draft.occurrences, o.draft.isContainer = true ∧ 64 ≤ o.depth) →
      ∃ span, parse draft.toMarkup = .error ⟨.tooDeep, span⟩) := by
  have hj := joined_toNodes draft
  have hs := settled_toNodes draft
  rw [toMarkup_eq]
  constructor
  · intro hd
    exact readNodes_allWritten hj hs ((within_toNodes draft).2 hd)
  · rintro ⟨o, ho, hc, hdeep⟩
    refine parse_allWritten_deep hj hs fun hw => ?_
    exact absurd ((within_toNodes draft).1 hw o ho hc) (Nat.not_lt.2 hdeep)

/-- Groups one in another, as many as given, around a text. -/
def nestedGroups : Nat → Draft
  | 0 => ofText "x"
  | n + 1 => group .bold {} [nestedGroups n]

theorem exists_deep_nestedGroups (n : Nat) (above : List Draft) :
    ∃ o ∈ occurrencesIn above (nestedGroups (n + 1)),
      o.draft.isContainer = true ∧ o.depth = above.countP isContainer + n := by
  induction n generalizing above with
  | zero => exact ⟨_, List.mem_cons_self, rfl, rfl⟩
  | succ n ih =>
    obtain ⟨o, ho, hc, hd⟩ := ih (nestedGroups (n + 2) :: above)
    refine ⟨o, List.mem_cons_of_mem _ (List.mem_append_left _ ho), hc, ?_⟩
    rw [hd, List.countP_cons_of_pos rfl]
    omega

/-- Texts in a bundle, in an underline of type none and around them are read as one text, while a
text in 65 groups is refused. -/
theorem readNodes_toMarkup_transparent :
    let draft := group .italics {} [.ofText "a & ", bundleOf [.ofText "b", .ofText ""],
      underlined .off [.ofText " < c", .newline]]
    readNodes draft.toMarkup =
      .ok [.element .italics (.many [.text "a & b < c", .lineBreak])] ∧
    ∃ span, parse (nestedGroups 65).toMarkup = .error ⟨.tooDeep, span⟩ := by
  intro draft
  refine ⟨(readNodes_toMarkup draft).1 (by decide), (readNodes_toMarkup _).2 ?_⟩
  obtain ⟨o, ho, hc, hd⟩ := exists_deep_nestedGroups 64 []
  exact ⟨o, ho, hc, Nat.le_of_eq hd.symm⟩

end TermMarkup.Draft
