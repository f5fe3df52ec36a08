/-
The issues of parts that stand side by side. A list of nodes has the issues of each of them alone,
one after the other, at their own index. Inside any node of a document that has a list as its content
there are first the issues of the node itself, the same for every list, and then those of each item
as if it stood there alone. So what is wrong with one item does not show in what is reported of
another.
-/
import TermMarkup.Proofs.Faults

namespace TermMarkup

/-! ## Places of issues -/

namespace Issue

/-- Whether the issue is about a part of what stands at the path. -/
def inside (path : Path) (i : Issue) : Bool :=
  path <+: i.path ∧ i.path ≠ path

/-- The issue with a leading path replaced. -/
def moved (old new : Path) (i : Issue) : Issue :=
  if old <+: i.path then { i with path := new ++ i.path.drop old.length } else i

/-- The issue with another value found, if it is about the path. -/
def finding (path : Path) (raw : Raw) (i : Issue) : Issue :=
  if i.path = path then { i with found := some raw } else i

@[simp] theorem path_under (outer : Path) (i : Issue) : (i.under outer).path = outer ++ i.path := rfl

theorem inside_iff {path : Path} {i : Issue} :
    i.inside path = true ↔ path <+: i.path ∧ i.path ≠ path :=
  decide_eq_true_iff

theorem inside_under (outer path : Path) (i : Issue) :
    (i.under outer).inside (outer ++ path) = i.inside path := by
  rw [Bool.eq_iff_iff, inside_iff, inside_iff, path_under, List.prefix_append_right_inj, ne_eq,
    List.append_cancel_left_eq]

theorem moved_under (outer old new : Path) (i : Issue) :
    (i.under outer).moved (outer ++ old) (outer ++ new) = (i.moved old new).under outer := by
  unfold moved
  by_cases h : old <+: i.path
  · rw [if_pos h, path_under, if_pos ((List.prefix_append_right_inj outer).2 h)]
    simp [under, List.drop_append]
  · rw [if_neg h, path_under, if_neg (mt (List.prefix_append_right_inj outer).1 h)]

theorem moved_of_under (old new : Path) (i : Issue) : (i.under old).moved old new = i.under new := by
  unfold moved
  simp [under]

theorem finding_under (outer path : Path) (raw : Raw) (i : Issue) :
    (i.under outer).finding (outer ++ path) raw = (i.finding path raw).under outer := by
  unfold finding
  by_cases h : i.path = path
  · rw [if_pos h, path_under, if_pos (by rw [h])]
    rfl
  · rw [if_neg h, path_under, if_neg (mt (List.append_cancel_left) h)]

theorem map_moved_under (outer old new : Path) (issues : List Issue) :
    (issues.map (under outer)).map (moved (outer ++ old) (outer ++ new)) =
      (issues.map (moved old new)).map (under outer) := by
  rw [List.map_map, List.map_map]
  exact List.map_congr_left fun i _ => moved_under outer old new i

theorem map_finding_under (outer path : Path) (raw : Raw) (issues : List Issue) :
    (issues.map (under outer)).map (finding (outer ++ path) raw) =
      (issues.map (finding path raw)).map (under outer) := by
  rw [List.map_map, List.map_map]
  exact List.map_congr_left fun i _ => finding_under outer path raw i

theorem filter_inside_under (outer path : Path) (issues : List Issue) :
    (issues.map (under outer)).filter (inside (outer ++ path)) =
      (issues.filter (inside path)).map (under outer) := by
  rw [List.filter_map]
  congr 2
  funext i
  exact inside_under outer path i

/-- A path that is no longer leads to no part. -/
theorem inside_eq_false {path : Path} {i : Issue} (h : i.path.length ≤ path.length) :
    i.inside path = false := by
  rw [Bool.eq_false_iff, ne_eq, inside_iff]
  rintro ⟨hp, hne⟩
  exact hne (hp.eq_of_length_le h).symm

/-- A part of a part is a part. -/
theorem inside_of_append {path inner : Path} {i : Issue} (h : i.inside (path ++ inner) = true) :
    i.inside path = true := by
  rw [inside_iff] at h ⊢
  obtain ⟨⟨rest, hr⟩, hne⟩ := h
  refine ⟨⟨inner ++ rest, by rw [← hr, List.append_assoc]⟩, fun he => hne ?_⟩
  have hlength := congrArg List.length (hr.trans he)
  have hnil : inner = [] := by simp_all
  rw [he, hnil, List.append_nil]

theorem filter_inside_append (path inner : Path) (issues : List Issue) :
    issues.filter (inside (path ++ inner)) =
      (issues.filter (inside path)).filter (inside (path ++ inner)) := by
  rw [List.filter_filter]
  refine List.filter_congr fun i _ => ?_
  cases h : i.inside (path ++ inner) with
  | false => rfl
  | true => rw [inside_of_append h]; rfl

end Issue

/-! ## Trees with another part -/

namespace Raw

/-- The fields with the first field of a key changed. -/
def modifyField (key : String) (f : Raw → Raw) : List (String × Raw) → List (String × Raw)
  | [] => []
  | field :: fields =>
    if field.1 = key then (key, f field.2) :: fields else field :: modifyField key f fields

theorem lookup_modifyField (key k : String) (f : Raw → Raw) (fields : List (String × Raw)) :
    (modifyField key f fields).lookup k =
      if k = key then (fields.lookup k).map f else fields.lookup k := by
  induction fields with
  | nil => simp [modifyField]
  | cons field fields ih =>
    obtain ⟨name, held⟩ := field
    unfold modifyField
    rw [lookup_cons_ite name]
    by_cases hn : name = key
    · subst hn
      rw [if_pos rfl, lookup_cons_ite]
      split <;> rfl
    · rw [if_neg hn, lookup_cons_ite, ih]
      by_cases hk : k = name
      · rw [if_pos hk, if_pos hk, if_neg (hk ▸ hn)]
      · rw [if_neg hk, if_neg hk]

theorem modifyField_eq_self {key : String} {f : Raw → Raw} {fields : List (String × Raw)} {raw : Raw}
    (hl : fields.lookup key = some raw) (hf : f raw = raw) : modifyField key f fields = fields := by
  induction fields with
  | nil => rfl
  | cons field fields ih =>
    obtain ⟨name, held⟩ := field
    rw [lookup_cons_ite] at hl
    unfold modifyField
    by_cases hn : name = key
    · subst hn
      rw [if_pos rfl, Option.some.injEq] at hl
      subst hl
      rw [if_pos rfl, hf]
    · rw [if_neg (Ne.symm hn)] at hl
      rw [if_neg hn, ih hl]

/-- The tree with another part at a path. -/
def put : Raw → Path → Raw → Raw
  | _, [], part => part
  | .array raws, .item index :: path, part => .array (raws.modify index fun raw => raw.put path part)
  | .object fields, .field key :: path, part =>
    .object (modifyField key (fun raw => raw.put path part) fields)
  | raw, _ :: _, _ => raw

/-- A node put where it stands already changes nothing. -/
theorem put_self {raw : Raw} {path : Path} {fields : List (String × Raw)}
    (h : Schema.NodeAt raw path fields) : raw.put path (.object fields) = raw := by
  induction h with
  | here fields => rfl
  | @item raws index raw path fields hi _ ih =>
    rw [put]
    congr 1
    refine List.ext_getElem? fun other => ?_
    by_cases ho : index = other
    · subst ho
      rw [List.getElem?_modify_eq, hi]
      exact congrArg some ih
    · rw [List.getElem?_modify_ne _ _ ho]
  | content hl _ ih => rw [put, modifyField_eq_self hl ih]

end Raw

namespace Node

open Checked

/-! ## The issues of nodes, content and items -/

def nodeIssues (depth : Nat) (raw : Raw) : List Issue :=
  (checkNode depth [] raw).issues

def contentIssues (depth : Nat) (raw : Raw) : List Issue :=
  (checkContentValue depth [] raw).issues

/-- The issues of the items of a list, one after the other, each at its index. -/
def itemIssues (depth : Nat) (raws : List Raw) : List Issue :=
  raws.zipIdx.flatMap fun entry => (nodeIssues depth entry.1).map (Issue.under [.item entry.2])

theorem contentIssues_object (depth : Nat) (fields : List (String × Raw)) :
    contentIssues depth (.object fields) = nodeIssues depth (.object fields) := by
  unfold contentIssues
  rw [checkContentValue_object]
  rfl

theorem issues_checkNodes (depth : Nat) (raws : List Raw) :
    (checkNodes depth [] 0 raws).issues = itemIssues depth raws := by
  rw [checkNodes_eq]
  rfl

theorem contentIssues_array (depth : Nat) (raws : List Raw) :
    contentIssues depth (.array raws) = itemIssues depth raws := by
  unfold contentIssues
  rw [checkContentValue, issues_bind, issues_pure, List.append_nil, issues_checkNodes]

/-- The content of a node has its own issues, if it does not lie too deep. -/
theorem issues_checkContent {fields : List (String × Raw)} {raw : Raw}
    (h : fields.lookup "content" = some raw) (depth : Nat) :
    (checkContent depth [] fields).issues =
      if depth < maxNesting then (contentIssues (depth + 1) raw).map (Issue.under [.field "content"])
      else [⟨[.field "content"], .tooDeep, some raw⟩] := by
  rw [checkContent_eq, h]
  dsimp only
  split
  · rw [checkContentValue_eq_under]
    rfl
  · rfl

theorem itemIssues_singleton (depth : Nat) (raw : Raw) :
    itemIssues depth [raw] = (nodeIssues depth raw).map (Issue.under [.item 0]) :=
  List.flatMap_singleton _ _

/-- The issues of items are those of each of them alone, moved to its index. -/
theorem itemIssues_eq (depth : Nat) (raws : List Raw) :
    itemIssues depth raws = raws.zipIdx.flatMap fun entry =>
      (itemIssues depth [entry.1]).map (Issue.moved [.item 0] [.item entry.2]) := by
  have halone (entry : Raw × Nat) :
      (itemIssues depth [entry.1]).map (Issue.moved [.item 0] [.item entry.2]) =
        (nodeIssues depth entry.1).map (Issue.under [.item entry.2]) := by
    rw [itemIssues_singleton, List.map_map]
    exact List.map_congr_left fun i _ => Issue.moved_of_under _ _ i
  simp only [halone]
  rfl

/-! ## A node with a list as its content -/

/-- The fields with a list as their content. -/
def withItems (raws : List Raw) (fields : List (String × Raw)) : List (String × Raw) :=
  Raw.modifyField "content" (fun _ => .array raws) fields

theorem lookup_withItems {key : String} (hk : key ≠ "content") (raws : List Raw)
    (fields : List (String × Raw)) : (withItems raws fields).lookup key = fields.lookup key := by
  unfold withItems
  rw [Raw.lookup_modifyField, if_neg hk]

theorem checkKeys_withItems {kind : Kind} (hc : kind.hasContent = true) (raws : List Raw)
    (fields : List (String × Raw)) :
    (checkKeys kind [] (withItems raws fields)).issues = (checkKeys kind [] fields).issues := by
  unfold checkKeys withItems
  dsimp only
  induction fields with
  | nil => rfl
  | cons field fields ih =>
    obtain ⟨key, value⟩ := field
    unfold Raw.modifyField
    by_cases hk : key = "content"
    · subst hk
      simp only [if_true, List.filterMap_cons, isKnownKey_content hc]
    · rw [if_neg hk, List.filterMap_cons, List.filterMap_cons, ih]

theorem checkSettings_withItems (kind : StyledKind) (raws : List Raw)
    (fields : List (String × Raw)) (style : Style) :
    (withItems raws fields).foldlM (checkSetting kind []) style =
      fields.foldlM (checkSetting kind []) style := by
  have hnone : Attribute.styledShape? kind "content" = none := by
    rw [Option.eq_none_iff_forall_ne_some]
    intro shape hs
    exact (Attribute.keys_reserved _ (@Attribute.mem_keys (.styled kind) _ _ hs)).2.1 rfl
  unfold withItems
  induction fields generalizing style with
  | nil => rfl
  | cons field fields ih =>
    obtain ⟨key, value⟩ := field
    unfold Raw.modifyField
    by_cases hk : key = "content"
    · subst hk
      rw [if_pos rfl, List.foldlM_cons, List.foldlM_cons, checkSetting_other hnone,
        checkSetting_other hnone]
    · rw [if_neg hk, List.foldlM_cons, List.foldlM_cons]
      simp only [ih]

/-- The issues of a node itself do not depend on its content. -/
theorem ownIssues_withItems {kind : Kind} (hc : kind.hasContent = true) (raws : List Raw)
    (fields : List (String × Raw)) : ownIssues kind (withItems raws fields) = ownIssues kind fields := by
  have hcolor {key : String} (hk : key ≠ "content") :
      checkColorField [] (withItems raws fields) key = checkColorField [] fields key := by
    unfold checkColorField
    rw [lookup_withItems hk]
  have htype : checkUnderlineType [] (withItems raws fields) = checkUnderlineType [] fields := by
    unfold checkUnderlineType
    rw [lookup_withItems (by decide)]
  unfold ownIssues checkElement
  rw [checkKeys_withItems hc]
  cases kind with
  | text | lineBreak | bold | italics => rfl
  | underline => simp only [htype]
  | color => rw [hcolor (by decide), hcolor (by decide)]
  | styled kind => simp only [checkSettings_withItems]

/-- No part of a field is among issues about fields. -/
theorem filter_inside_of_isField {issues : List Issue} (h : ∀ i ∈ issues, IsField i.path)
    (step : Step) (path : Path) : issues.filter (Issue.inside (step :: path)) = [] := by
  refine List.filter_eq_nil_iff.2 fun i hi => ?_
  obtain ⟨key, hp⟩ := h i hi
  have hlength : i.path.length ≤ (step :: path).length := by
    rw [hp]
    exact Nat.le_add_left 1 path.length
  rw [Issue.inside_eq_false hlength]
  exact Bool.false_ne_true

theorem filter_inside_ownIssues {kind : Kind} (hc : kind.hasContent = true)
    (fields : List (String × Raw)) (step : Step) (path : Path) :
    (ownIssues kind fields).filter (Issue.inside (step :: path)) = [] :=
  filter_inside_of_isField (fun _ hi => (isOwn_of_mem_ownIssues hc hi).isField) step path

theorem map_finding_ownIssues {kind : Kind} (hc : kind.hasContent = true)
    (fields : List (String × Raw)) (raw : Raw) :
    (ownIssues kind fields).map (Issue.finding [.field "content"] raw) = ownIssues kind fields := by
  have hsame : ∀ i ∈ ownIssues kind fields, i.finding [.field "content"] raw = id i := by
    intro i hi
    obtain ⟨key, hp, hk⟩ := isOwn_of_mem_ownIssues hc hi
    unfold Issue.finding
    rw [if_neg]
    · rfl
    · rw [hp]
      simpa using hk
  rw [List.map_congr_left hsame, List.map_id]

theorem filter_inside_itemIssues (depth : Nat) (raws : List Raw) :
    (itemIssues depth raws).filter (Issue.inside []) = itemIssues depth raws := by
  refine List.filter_eq_self.2 fun i hi => ?_
  obtain ⟨entry, -, hi⟩ := List.mem_flatMap.1 hi
  obtain ⟨j, -, rfl⟩ := List.mem_map.1 hi
  exact Issue.inside_iff.2 ⟨List.nil_prefix, List.cons_ne_nil _ _⟩

/-- A node with a list as its content has first the issues it has with an empty list, and then those
that it has in each item alone. -/
theorem nodeIssues_items {kind : Kind} {fields : List (String × Raw)} {raws : List Raw}
    (hk : fields.lookup "node" = some (.string kind.tag)) (hc : kind.hasContent = true)
    (hl : fields.lookup "content" = some (.array raws)) (depth : Nat) :
    nodeIssues depth (.object fields) =
      (nodeIssues depth (.object (withItems [] fields))).map
          (Issue.finding [.field "content"] (.array raws)) ++
        raws.zipIdx.flatMap fun entry =>
          ((nodeIssues depth (.object (withItems [entry.1] fields))).filter
            (Issue.inside [.field "content"])).map
              (Issue.moved [.field "content", .item 0] [.field "content", .item entry.2]) := by
  have hitems (items : List Raw) :
      nodeIssues depth (.object (withItems items fields)) = ownIssues kind fields ++
        if depth < maxNesting then (itemIssues (depth + 1) items).map (Issue.under [.field "content"])
        else [⟨[.field "content"], .tooDeep, some (.array items)⟩] := by
    have hcontent : (withItems items fields).lookup "content" = some (.array items) := by
      unfold withItems
      rw [Raw.lookup_modifyField, if_pos rfl, hl]
      rfl
    unfold nodeIssues
    rw [issues_checkNode_element ((lookup_withItems (by decide) items fields).trans hk) hc,
      ownIssues_withItems hc, issues_checkContent hcontent, contentIssues_array]
  simp only [hitems, List.map_append, List.filter_append, filter_inside_ownIssues hc,
    map_finding_ownIssues hc, List.nil_append, List.append_assoc]
  unfold nodeIssues
  rw [issues_checkNode_element hk hc, issues_checkContent hl, contentIssues_array]
  congr 1
  split
  · have halone (entry : Raw × Nat) :
        (((itemIssues (depth + 1) [entry.1]).map (Issue.under [.field "content"])).filter
          (Issue.inside [.field "content"])).map
            (Issue.moved [.field "content", .item 0] [.field "content", .item entry.2]) =
          ((itemIssues (depth + 1) [entry.1]).map (Issue.moved [.item 0] [.item entry.2])).map
            (Issue.under [.field "content"]) := by
      have hinside := Issue.filter_inside_under [.field "content"] [] (itemIssues (depth + 1) [entry.1])
      rw [filter_inside_itemIssues, List.append_nil] at hinside
      rw [hinside]
      exact Issue.map_moved_under [.field "content"] [.item 0] [.item entry.2] _
    rw [itemIssues_eq, List.map_flatMap]
    simp only [halone]
    rfl
  · -- content that lies too deep is one issue, whatever its items
    have hinside (items : List Raw) : Issue.inside [.field "content"]
        ⟨[.field "content"], .tooDeep, some (.array items)⟩ = false :=
      Issue.inside_eq_false (Nat.le_refl 1)
    simp [hinside, Issue.finding]

/-! ## What a check finds inside a node of a tree -/

/-- What the check of a node finds, if the node is reached with so many elements around it. -/
def reachedIssues : Option Nat → List (String × Raw) → List Issue
  | none, _ => []
  | some depth, fields => nodeIssues depth (.object fields)

/-- Inside the part at the path, whatever node it is, a check of the tree finds what the check of
that node does, or nothing. -/
def Reaches (find : Raw → List Issue) (raw : Raw) (path : Path) : Prop :=
  ∃ reached, ∀ fields, (find (raw.put path (.object fields))).filter (Issue.inside path) =
    (reachedIssues reached fields).map (Issue.under path)

namespace Reaches

variable {find outer : Raw → List Issue} {raw whole : Raw} {path : Path}

theorem of_nil
    (h : ∀ fields, (find (raw.put path (.object fields))).filter (Issue.inside path) = []) :
    Reaches find raw path :=
  ⟨none, h⟩

theorem congr (h : Reaches find raw path)
    (he : ∀ fields, outer (raw.put path (.object fields)) = find (raw.put path (.object fields))) :
    Reaches outer raw path := by
  obtain ⟨reached, h⟩ := h
  exact ⟨reached, fun fields => by rw [he, h]⟩

/-- What is reached from a part is reached one step further out, where nothing else is added. -/
theorem step {step : Step} (h : Reaches find raw path)
    (hstep : ∀ fields, (outer (whole.put (step :: path) (.object fields))).filter
        (Issue.inside (step :: path)) =
      ((find (raw.put path (.object fields))).filter (Issue.inside path)).map (Issue.under [step])) :
    Reaches outer whole (step :: path) := by
  obtain ⟨reached, h⟩ := h
  refine ⟨reached, fun fields => ?_⟩
  rw [hstep, h, List.map_map]
  rfl

end Reaches

/-- A node that has content, by its kind. -/
def IsContainer (fields : List (String × Raw)) : Prop :=
  ∃ kind : Kind, fields.lookup "node" = some (.string kind.tag) ∧ kind.hasContent = true

theorem isField_of_not_isContainer {fields : List (String × Raw)} (h : ¬ IsContainer fields)
    {depth : Nat} {i : Issue} (hi : i ∈ nodeIssues depth (.object fields)) : IsField i.path :=
  at_checkFields_leaf _ (fun kind hk => Bool.eq_false_iff.2 fun hc => h ⟨kind, hk, hc⟩) i hi

theorem filter_inside_nodeIssues (depth : Nat) (fields : List (String × Raw)) :
    (nodeIssues depth (.object fields)).filter (Issue.inside []) = nodeIssues depth (.object fields) := by
  have hfield {i : Issue} (h : IsField i.path) : i.path ≠ [] := by
    obtain ⟨key, hp⟩ := h
    rw [hp]
    exact List.cons_ne_nil _ _
  refine List.filter_eq_self.2 fun i hi => Issue.inside_iff.2 ⟨List.nil_prefix, ?_⟩
  by_cases hcontainer : IsContainer fields
  · obtain ⟨kind, hk, hc⟩ := hcontainer
    unfold nodeIssues at hi
    rw [issues_checkNode_element hk hc] at hi
    rcases List.mem_append.1 hi with hi | hi
    · exact hfield (isOwn_of_mem_ownIssues hc hi).isField
    · cases hl : fields.lookup "content" with
      | none =>
        rw [checkContent_eq, hl] at hi
        cases hi
      | some raw =>
        rw [issues_checkContent hl] at hi
        split at hi
        · obtain ⟨j, -, rfl⟩ := List.mem_map.1 hi
          exact List.cons_ne_nil _ _
        · rw [List.mem_singleton.1 hi]
          exact List.cons_ne_nil _ _
  · exact hfield (isField_of_not_isContainer hcontainer hi)

/-- Inside its content, a node that has content and does not lie too deep has the issues of the
content. -/
theorem filter_inside_content {kind : Kind} {fields : List (String × Raw)} {raw : Raw}
    (hk : fields.lookup "node" = some (.string kind.tag)) (hc : kind.hasContent = true)
    (hl : fields.lookup "content" = some raw) (depth : Nat) (path : Path) :
    (nodeIssues depth (.object fields)).filter (Issue.inside (.field "content" :: path)) =
      if depth < maxNesting then
        ((contentIssues (depth + 1) raw).filter (Issue.inside path)).map
          (Issue.under [.field "content"])
      else [] := by
  unfold nodeIssues
  rw [issues_checkNode_element hk hc, List.filter_append, filter_inside_ownIssues hc, List.nil_append,
    issues_checkContent hl]
  split
  · exact Issue.filter_inside_under [.field "content"] path _
  · exact filter_inside_of_isField (fun i hi => ⟨"content", by rw [List.mem_singleton.1 hi]⟩) _ path

theorem filter_inside_item_ne {index other : Nat} (h : other ≠ index) (path : Path)
    (issues : List Issue) :
    (issues.map (Issue.under [.item other])).filter (Issue.inside (.item index :: path)) = [] := by
  refine List.filter_eq_nil_iff.2 fun i hi => ?_
  obtain ⟨j, -, rfl⟩ := List.mem_map.1 hi
  rw [Issue.inside_iff]
  rintro ⟨hp, -⟩
  exact h (Step.item.inj (List.cons_prefix_cons.1 hp).1).symm

/-- Inside an item, items have the issues of that item. -/
theorem filter_inside_zipIdx {raws : List Raw} {index start : Nat} {raw : Raw}
    (h : raws[index]? = some raw) (depth : Nat) (path : Path) :
    ((raws.zipIdx start).flatMap fun entry =>
      (nodeIssues depth entry.1).map (Issue.under [.item entry.2])).filter
        (Issue.inside (.item (start + index) :: path)) =
      ((nodeIssues depth raw).filter (Issue.inside path)).map (Issue.under [.item (start + index)]) := by
  induction raws generalizing index start with
  | nil => cases h
  | cons first raws ih =>
    rw [List.zipIdx_cons, List.flatMap_cons, List.filter_append]
    cases index with
    | zero =>
      cases h
      -- the items after it have greater indices
      have hrest : ((raws.zipIdx (start + 1)).flatMap fun entry =>
          (nodeIssues depth entry.1).map (Issue.under [.item entry.2])).filter
            (Issue.inside (.item start :: path)) = [] := by
        rw [List.filter_flatMap]
        refine List.flatMap_eq_nil_iff.2 fun entry he => ?_
        have := List.le_snd_of_mem_zipIdx he
        exact filter_inside_item_ne (by omega) path _
      rw [Nat.add_zero, hrest, List.append_nil]
      exact Issue.filter_inside_under [.item start] path _
    | succ index =>
      rw [filter_inside_item_ne (by omega), List.nil_append, ← Nat.add_assoc, Nat.add_right_comm]
      exact ih h

theorem filter_inside_item {raws : List Raw} {index : Nat} {raw : Raw}
    (h : raws[index]? = some raw) (depth : Nat) (path : Path) :
    (itemIssues depth raws).filter (Issue.inside (.item index :: path)) =
      ((nodeIssues depth raw).filter (Issue.inside path)).map (Issue.under [.item index]) := by
  have hi := @filter_inside_zipIdx raws index 0 raw h depth path
  rwa [Nat.zero_add] at hi

/-- A node reaches what its content does, if it has content and does not lie too deep. -/
theorem reaches_content {above : List (String × Raw)} {raw : Raw} {path : Path} {depth : Nat}
    (hl : above.lookup "content" = some raw) (h : Reaches (contentIssues (depth + 1)) raw path) :
    Reaches (nodeIssues depth) (.object above) (.field "content" :: path) := by
  have hnode (part : Raw) :
      (Raw.modifyField "content" (fun raw => raw.put path part) above).lookup "node" =
        above.lookup "node" := by
    rw [Raw.lookup_modifyField, if_neg (by decide)]
  have hcontent (part : Raw) :
      (Raw.modifyField "content" (fun raw => raw.put path part) above).lookup "content" =
        some (raw.put path part) := by
    rw [Raw.lookup_modifyField, if_pos rfl, hl]
    rfl
  by_cases hcontainer : IsContainer above
  · obtain ⟨kind, hk, hc⟩ := hcontainer
    by_cases hd : depth < maxNesting
    · refine h.step fun fields => ?_
      rw [Raw.put, filter_inside_content ((hnode _).trans hk) hc (hcontent _), if_pos hd]
    · refine .of_nil fun fields => ?_
      rw [Raw.put, filter_inside_content ((hnode _).trans hk) hc (hcontent _), if_neg hd]
  · refine .of_nil fun fields => ?_
    rw [Raw.put]
    refine filter_inside_of_isField (fun i hi => isField_of_not_isContainer ?_ hi) _ _
    rintro ⟨kind, hk, hc⟩
    exact hcontainer ⟨kind, (hnode _).symm.trans hk, hc⟩

/-- Every node of a tree is reached by the checks of the tree, or none of it is seen. -/
theorem reaches_of_nodeAt {raw : Raw} {path : Path} {fields : List (String × Raw)}
    (h : Schema.NodeAt raw path fields) (depth : Nat) :
    Reaches (nodeIssues depth) raw path ∧ Reaches (contentIssues depth) raw path := by
  induction h generalizing depth with
  | here fields =>
    have hnode : Reaches (nodeIssues depth) (.object fields) [] := by
      refine ⟨some depth, fun fields => ?_⟩
      rw [Raw.put, filter_inside_nodeIssues]
      exact (List.map_id _).symm
    exact ⟨hnode, hnode.congr fun fields => contentIssues_object depth fields⟩
  | @item raws index raw path fields hi _ ih =>
    refine ⟨.of_nil fun fields => ?_, (ih depth).1.step fun fields => ?_⟩
    · -- a list among the items of a list is an issue of its own
      refine List.filter_eq_nil_iff.2 fun i hi => ?_
      rw [List.mem_singleton.1 hi, Issue.inside_eq_false (Nat.zero_le _)]
      exact Bool.false_ne_true
    · rw [Raw.put, contentIssues_array]
      refine filter_inside_item ?_ depth path
      rw [List.getElem?_modify_eq, hi]
      rfl
  | content hl _ ih =>
    have hnode := reaches_content hl (ih (depth + 1)).2
    exact ⟨hnode, hnode.congr fun fields => contentIssues_object depth _⟩

/-! ## Documents -/

/-- The issues of a document. -/
def issuesOf (raw : Raw) : List Issue :=
  match ofRaw raw with
  | .ok _ => []
  | .error issues => issues

theorem issuesOf_eq (raw : Raw) : issuesOf raw = (checkDocument raw).issues := by
  unfold issuesOf
  cases h : ofRaw raw with
  | ok nodes => exact (ofRaw_eq_ok_iff.1 h).1.symm
  | error issues => exact (ofRaw_eq_error_iff.1 h).1.symm

theorem issuesOf_array (raws : List Raw) : issuesOf (.array raws) = itemIssues 0 raws := by
  rw [issuesOf_eq, checkDocument, issues_checkNodes]

theorem reaches_document {raw : Raw} {path : Path} {fields : List (String × Raw)}
    (h : Schema.NodeAt raw path fields) : Reaches issuesOf raw path := by
  have hobject (fields : List (String × Raw)) :
      (issuesOf (.object fields)).filter (Issue.inside path) = [] := by
    refine List.filter_eq_nil_iff.2 fun i hi => ?_
    rw [issuesOf_eq] at hi
    rw [List.mem_singleton.1 hi, Issue.inside_eq_false (Nat.zero_le _)]
    exact Bool.false_ne_true
  cases h with
  | here => exact .of_nil hobject
  | content => exact .of_nil fun fields => hobject _
  | @item raws index raw path _ hi h =>
    refine (reaches_of_nodeAt (.item hi h) 0).2.congr fun fields => ?_
    rw [Raw.put, issuesOf_array, contentIssues_array]

/-- Issues are local. A list of nodes has the issues of each of them alone, in order, at its index.
And inside a node with a list as its content, wherever it stands in a document, there are first the
issues that it has with an empty list, and then those that each item gives alone in its place, at the
index of the item. -/
theorem issues_local :
    (∀ raws, issuesOf (.array raws) = raws.zipIdx.flatMap fun entry =>
      (issuesOf (.array [entry.1])).map (Issue.moved [.item 0] [.item entry.2])) ∧
    ∀ (doc : Raw) (path : Path) (fields : List (String × Raw)) (kind : Kind) (raws : List Raw),
      Schema.NodeAt doc path fields → fields.lookup "node" = some (.string kind.tag) →
      kind.hasContent = true → fields.lookup "content" = some (.array raws) →
      let place := path ++ [.field "content"]
      let found (items : List Raw) := issuesOf (doc.put path (.object (withItems items fields)))
      (issuesOf doc).filter (Issue.inside path) =
        ((found []).filter (Issue.inside path)).map (Issue.finding place (.array raws)) ++
          raws.zipIdx.flatMap fun entry =>
            ((found [entry.1]).filter (Issue.inside place)).map
              (Issue.moved (place ++ [.item 0]) (place ++ [.item entry.2])) := by
  refine ⟨fun raws => ?_, fun doc path fields kind raws hn hk hc hl => ?_⟩
  · simp only [issuesOf_array]
    exact itemIssues_eq 0 raws
  · intro place found
    obtain ⟨reached, hr⟩ := reaches_document hn
    -- the document is what it is with the node put where it stands
    have hself := hr fields
    rw [Raw.put_self hn] at hself
    have halone (items : List Raw) : (found items).filter (Issue.inside place) =
        ((reachedIssues reached (withItems items fields)).filter
          (Issue.inside [.field "content"])).map (Issue.under path) := by
      rw [Issue.filter_inside_append, hr, Issue.filter_inside_under]
    rw [hself, hr]
    simp only [halone]
    cases reached with
    | none => simp [reachedIssues]
    | some depth =>
      rw [reachedIssues, nodeIssues_items hk hc hl, List.map_append, List.map_flatMap,
        Issue.map_finding_under]
      simp only [place, List.append_assoc, Issue.map_moved_under]
      rfl

/-- The fields of a paragraph with a color that does not exist, around a number and a text without
its value. -/
def faultyParagraph : List (String × Raw) :=
  [("content", .array [.int 5, .object [("node", .string "text")]]), ("fg", .string "rd"),
    ("node", .string "p")]

/-- The paragraph in bold, after a node of a kind that does not exist. -/
def faultyDocument : Raw :=
  .array [.object [("content", .array [.object [("node", .string "x")], .object faultyParagraph]),
    ("node", .string "bold")]]

theorem issues_local_paragraph :
    Schema.NodeAt faultyDocument [.item 0, .field "content", .item 1] faultyParagraph ∧
      ((issuesOf faultyDocument).filter
          (Issue.inside [.item 0, .field "content", .item 1])).map (fun i => (i.path, i.cause)) =
        [([.item 0, .field "content", .item 1, .field "fg"], .unknownColor "rd"),
          ([.item 0, .field "content", .item 1, .field "content", .item 0], .nodeNotObject),
          ([.item 0, .field "content", .item 1, .field "content", .item 1, .field "value"],
            .missingText)] := by
  have hnode : Schema.NodeAt faultyDocument [.item 0, .field "content", .item 1] faultyParagraph :=
    .item rfl (.content rfl (.item rfl (.here _)))
  refine ⟨hnode, ?_⟩
  rw [issues_local.2 _ _ _ (.styled .paragraph) _ hnode rfl rfl rfl]
  rfl

end Node

end TermMarkup
