/-
Where the issues of a check are. A check only puts steps behind the path it is given, so at a longer
path it gives the same value and the same issues, seen from further out. The nodes of a list are
checked as each of them would be alone, and lists without issues have none together. The issues of a
node itself are about its fields: those of a node with content come before the issues of the content
and are about other fields.
-/
import TermMarkup.Proofs.Check

namespace TermMarkup

/-- The issue as it is seen from a place that the path leads away from. -/
def Issue.under (outer : Path) (i : Issue) : Issue :=
  { i with path := outer ++ i.path }

namespace Checked

variable {α β : Type}

def under (outer : Path) (c : Checked α) : Checked α :=
  ⟨c.value, c.issues.map (Issue.under outer)⟩

@[simp] theorem value_under (outer : Path) (c : Checked α) : (c.under outer).value = c.value := rfl

@[simp] theorem issues_under (outer : Path) (c : Checked α) :
    (c.under outer).issues = c.issues.map (Issue.under outer) := rfl

/-- A check that takes its path into its issues and makes nothing else of it. -/
def Local (check : Path → Checked α) : Prop :=
  ∀ outer inner, check (outer ++ inner) = (check inner).under outer

namespace Local

variable {f : Path → Checked α}

theorem pure (a : α) : Local fun _ => (Pure.pure a : Checked α) :=
  fun _ _ => rfl

theorem report (a : α) (cause : Issue.Cause) (found : Option Raw) :
    Local fun path => Checked.report a path cause found :=
  fun _ _ => rfl

theorem bind (hf : Local f) {g : α → Path → Checked β} (hg : ∀ a, Local (g a)) :
    Local fun path => f path >>= fun a => g a path := by
  intro outer inner
  have hvalue : (f (outer ++ inner)).value = (f inner).value := by rw [hf]; rfl
  refine Checked.ext ?_ ?_
  · rw [value_bind, hvalue, hg]
    rfl
  · rw [issues_bind, hvalue, hf, hg, issues_under, issues_under, issues_under, issues_bind,
      List.map_append]

/-- A check one step further in. -/
theorem below (hf : Local f) (step : Step) : Local fun path => f (path ++ [step]) := by
  intro outer inner
  simp only [List.append_assoc, hf outer]

theorem map (hf : Local f) (g : α → β) : Local fun path => f path >>= fun a => Pure.pure (g a) :=
  hf.bind fun a => .pure (g a)

end Local

section

variable {P : Path → Prop}

/-- Every issue of the check is at a path with the property. -/
def At (P : Path → Prop) (c : Checked α) : Prop :=
  ∀ i ∈ c.issues, P i.path

theorem at_pure (a : α) : At P (pure a : Checked α) :=
  fun _ hi => absurd hi List.not_mem_nil

theorem at_report {path : Path} (h : P path) (a : α) (cause : Issue.Cause) (found : Option Raw) :
    At P (report a path cause found) := by
  intro i hi
  rw [List.mem_singleton.1 hi]
  exact h

theorem At.bind {c : Checked α} (hc : At P c) {f : α → Checked β} (hf : ∀ a, At P (f a)) :
    At P (c >>= f) :=
  fun i hi => (List.mem_append.1 hi).elim (hc i) (hf c.value i)

theorem At.map {c : Checked α} (hc : At P c) (f : α → β) : At P (c >>= fun a => Pure.pure (f a)) :=
  hc.bind fun a => at_pure (f a)

end

end Checked

namespace Node

open Checked

/-! ## Attributes -/

section

variable (raw : Raw)

theorem local_checkColor : Local fun path => checkColor path raw := by
  intro outer inner
  cases raw with
  | string name =>
    unfold checkColor
    dsimp only
    split <;> rfl
  | null | bool flag | number n | array items | object fields => rfl

theorem local_checkFlag : Local fun path => checkFlag path raw := by
  intro outer inner
  unfold checkFlag
  dsimp only
  split <;> rfl

theorem local_checkCount : Local fun path => checkCount path raw := by
  intro outer inner
  unfold checkCount
  split <;> rfl

theorem local_checkUnderline : Local fun path => checkUnderline path raw := by
  intro outer inner
  cases raw with
  | bool flag => cases flag <;> rfl
  | string written =>
    unfold checkUnderline
    dsimp only
    split <;> rfl
  | null | number n | array items | object fields => rfl

theorem local_checkBullet : Local fun path => checkBullet path raw := by
  intro outer inner
  cases raw <;> rfl

end

theorem local_checkSetting (kind : StyledKind) (style : Style) (field : String × Raw) :
    Local fun path => checkSetting kind path style field := by
  intro outer inner
  have hcolor := (local_checkColor field.2).below (.field field.1)
  have hflag := (local_checkFlag field.2).below (.field field.1)
  have hunderline := (local_checkUnderline field.2).below (.field field.1)
  have hbullet := (local_checkBullet field.2).below (.field field.1)
  have hcount := (local_checkCount field.2).below (.field field.1)
  unfold checkSetting
  dsimp only
  split
  · exact hcolor.map _ outer inner
  · exact hcolor.map _ outer inner
  · exact hflag.map _ outer inner
  · exact hflag.map _ outer inner
  · exact hunderline.map _ outer inner
  · exact hbullet.map _ outer inner
  · exact hcount.map _ outer inner
  · exact hcount.map _ outer inner
  · exact hcount.map _ outer inner
  · exact hcount.map _ outer inner
  · exact hcount.map _ outer inner
  · exact hcount.map _ outer inner
  · rfl

theorem local_checkSettings (kind : StyledKind) (fields : List (String × Raw)) (style : Style) :
    Local fun path => fields.foldlM (checkSetting kind path) style := by
  induction fields generalizing style with
  | nil => exact .pure style
  | cons field fields ih =>
    simp only [List.foldlM_cons]
    exact (local_checkSetting kind style field).bind ih

section

variable (fields : List (String × Raw))

theorem local_checkText : Local fun path => checkText path fields := by
  intro outer inner
  unfold checkText
  dsimp only
  rw [List.append_assoc]
  split <;> rfl

theorem local_checkUnderlineType : Local fun path => checkUnderlineType path fields := by
  unfold checkUnderlineType
  cases fields.lookup "type" with
  | none => exact (Local.report _ _ _).below (.field "type")
  | some raw =>
    refine ((local_checkUnderline raw).below (.field "type")).bind fun style => ?_
    cases style with
    | none => exact .pure _
    | some style =>
      cases style with
      | off => exact (Local.report _ _ _).below (.field "type")
      | single | double => exact .pure _

theorem local_checkColorField (key : String) :
    Local fun path => checkColorField path fields key := by
  unfold checkColorField
  cases fields.lookup key with
  | none => exact .pure none
  | some raw => exact (local_checkColor raw).below (.field key)

theorem local_checkKind : Local fun path => checkKind path fields := by
  intro outer inner
  unfold checkKind
  dsimp only
  rw [List.append_assoc]
  split
  · rfl
  · split <;> rfl
  · rfl

theorem local_checkKeys (kind : Kind) : Local fun path => checkKeys kind path fields := by
  intro outer inner
  refine Checked.ext rfl ?_
  unfold checkKeys
  rw [issues_under, List.map_filterMap]
  dsimp only
  congr 1
  funext field
  split
  · rfl
  · simp [Issue.under]

/-- Nodes are checked the same at any path, if their content is. -/
theorem local_checkFields {content : Path → Checked (Content Node)} (hc : Local content) :
    Local fun path => checkFields path fields (content path) := by
  unfold checkFields
  refine (local_checkKind fields).bind fun kind => ?_
  cases kind with
  | none => exact .pure none
  | some kind =>
    refine (local_checkKeys fields kind).bind fun _ => ?_
    cases kind with
    | text => exact (local_checkText fields).map _
    | lineBreak => exact .pure _
    | bold => exact hc.map _
    | italics => exact hc.map _
    | underline => exact (local_checkUnderlineType fields).bind fun _ => hc.map _
    | color =>
      exact (local_checkColorField fields "fg").bind fun _ =>
        (local_checkColorField fields "bg").bind fun _ => hc.map _
    | styled kind => exact (local_checkSettings kind fields {}).bind fun _ => hc.map _

end

/-! ## Trees -/

mutual

theorem local_checkContent (depth : Nat) : ∀ fields : List (String × Raw),
    Local fun path => checkContent depth path fields
  | [] => .pure _
  | (key, value) :: fields => by
    intro outer inner
    unfold checkContent
    dsimp only
    split
    · split
      · exact (local_checkContentValue (depth + 1) value).below (.field "content") outer inner
      · exact (Local.report _ _ _).below (.field "content") outer inner
    · exact local_checkContent depth fields outer inner

theorem local_checkContentValue (depth : Nat) : ∀ raw : Raw,
    Local fun path => checkContentValue depth path raw
  | .object fields => by
    unfold checkContentValue
    refine (local_checkFields fields (local_checkContent depth fields)).bind fun node => ?_
    cases node with
    | none => exact .pure _
    | some node => exact .pure _
  | .array items => by
    unfold checkContentValue
    exact (local_checkNodes depth 0 items).map _
  | .null | .bool _ | .number _ | .string _ => by
    unfold checkContentValue
    exact .report _ _ _

theorem local_checkNodes (depth : Nat) (index : Nat) : ∀ raws : List Raw,
    Local fun path => checkNodes depth path index raws
  | [] => by
    unfold checkNodes
    exact .pure _
  | .object fields :: raws => by
    unfold checkNodes
    exact ((local_checkFields fields (local_checkContent depth fields)).below (.item index)).bind
      fun _ => (local_checkNodes depth (index + 1) raws).map _
  | .null :: raws | .bool _ :: raws | .number _ :: raws | .string _ :: raws | .array _ :: raws => by
    unfold checkNodes
    exact ((Local.report _ _ _).below (.item index)).bind
      fun _ => local_checkNodes depth (index + 1) raws

end

theorem local_checkNode (depth : Nat) (raw : Raw) : Local fun path => checkNode depth path raw := by
  cases raw with
  | object fields => exact local_checkFields fields (local_checkContent depth fields)
  | null | bool flag | number n | string value | array items => exact .report _ _ _

theorem checkNode_eq_under (depth : Nat) (path : Path) (raw : Raw) :
    checkNode depth path raw = (checkNode depth [] raw).under path := by
  have h := local_checkNode depth raw path []
  rwa [List.append_nil] at h

/-- The nodes of a list are checked one by one, each as if it stood alone. -/
theorem checkNodes_eq (depth : Nat) (path : Path) (index : Nat) (raws : List Raw) :
    checkNodes depth path index raws =
      ⟨raws.flatMap fun raw => (checkNode depth [] raw).value.toList,
        (raws.zipIdx index).flatMap fun entry =>
          ((checkNode depth [] entry.1).under (path ++ [.item entry.2])).issues⟩ := by
  induction raws generalizing index with
  | nil => rfl
  | cons raw raws ih =>
    rw [checkNodes_cons, checkNode_eq_under, ih]
    refine Checked.ext ?_ ?_
    · simp
    · simp

theorem checkContentValue_eq_under (depth : Nat) (path : Path) (raw : Raw) :
    checkContentValue depth path raw = (checkContentValue depth [] raw).under path := by
  have h := local_checkContentValue depth raw path []
  rwa [List.append_nil] at h

/-- A list of nodes has no issues exactly when none of its nodes has one. -/
theorem issues_checkNodes_eq_nil_iff {depth : Nat} {path : Path} {index : Nat} {raws : List Raw} :
    (checkNodes depth path index raws).issues = [] ↔
      ∀ raw ∈ raws, (checkNode depth [] raw).issues = [] := by
  rw [checkNodes_eq]
  simp only [List.flatMap_eq_nil_iff, issues_under, List.map_eq_nil_iff]
  have hall : (∀ raw ∈ (raws.zipIdx index).map Prod.fst, (checkNode depth [] raw).issues = []) ↔ _ :=
    List.forall_mem_map
  rw [List.zipIdx_map_fst] at hall
  exact hall.symm

theorem ofRaw_array_iff {raws : List Raw} {nodes : List Node} :
    ofRaw (.array raws) = .ok nodes ↔ (∀ raw ∈ raws, (checkNode 0 [] raw).issues = []) ∧
      raws.flatMap (fun raw => (checkNode 0 [] raw).value.toList) = nodes := by
  rw [ofRaw_eq_ok_iff, checkDocument, issues_checkNodes_eq_nil_iff, checkNodes_eq]

/-- Documents without issues have none together, and give the nodes of both. -/
theorem ofRaw_append {xs ys : List Raw} {nodes others : List Node}
    (hx : ofRaw (.array xs) = .ok nodes) (hy : ofRaw (.array ys) = .ok others) :
    ofRaw (.array (xs ++ ys)) = .ok (nodes ++ others) := by
  obtain ⟨hxi, rfl⟩ := ofRaw_array_iff.1 hx
  obtain ⟨hyi, rfl⟩ := ofRaw_array_iff.1 hy
  refine ofRaw_array_iff.2 ⟨List.forall_mem_append.2 ⟨hxi, hyi⟩, ?_⟩
  rw [List.flatMap_append]

/-! ## The issues of a node itself -/

section

variable {P : Path → Prop} {path : Path}

theorem at_checkColor (h : P path) (raw : Raw) : At P (checkColor path raw) := by
  unfold checkColor
  split
  · split
    · exact at_pure _
    · exact at_report h _ _ _
  · exact at_report h _ _ _

theorem at_checkFlag (h : P path) (raw : Raw) : At P (checkFlag path raw) := by
  unfold checkFlag
  dsimp only
  split
  · exact at_pure _
  · exact at_report h _ _ _

theorem at_checkCount (h : P path) (raw : Raw) : At P (checkCount path raw) := by
  unfold checkCount
  split
  · exact at_pure _
  · exact at_report h _ _ _

theorem at_checkUnderline (h : P path) (raw : Raw) : At P (checkUnderline path raw) := by
  unfold checkUnderline
  split
  · exact at_pure _
  · exact at_pure _
  · split
    · exact at_pure _
    · exact at_report h _ _ _
  · exact at_report h _ _ _

theorem at_checkBullet (h : P path) (raw : Raw) : At P (checkBullet path raw) := by
  unfold checkBullet
  split
  · exact at_pure _
  · exact at_report h _ _ _

theorem at_checkSetting {field : String × Raw} (h : P (path ++ [.field field.1])) (kind : StyledKind)
    (style : Style) : At P (checkSetting kind path style field) := by
  unfold checkSetting
  dsimp only
  split
  · exact (at_checkColor h _).map _
  · exact (at_checkColor h _).map _
  · exact (at_checkFlag h _).map _
  · exact (at_checkFlag h _).map _
  · exact (at_checkUnderline h _).map _
  · exact (at_checkBullet h _).map _
  · exact (at_checkCount h _).map _
  · exact (at_checkCount h _).map _
  · exact (at_checkCount h _).map _
  · exact (at_checkCount h _).map _
  · exact (at_checkCount h _).map _
  · exact (at_checkCount h _).map _
  · exact at_pure _

theorem at_checkUnderlineType (h : P (path ++ [.field "type"])) (fields : List (String × Raw)) :
    At P (checkUnderlineType path fields) := by
  unfold checkUnderlineType
  dsimp only
  split
  · exact at_report h _ _ _
  · refine (at_checkUnderline h _).bind fun style => ?_
    split
    · exact at_report h _ _ _
    · exact at_pure _
    · exact at_pure _

theorem at_checkColorField {key : String} (h : P (path ++ [.field key]))
    (fields : List (String × Raw)) : At P (checkColorField path fields key) := by
  unfold checkColorField
  split
  · exact at_checkColor h _
  · exact at_pure _

theorem at_checkText (h : P (path ++ [.field "value"])) (fields : List (String × Raw)) :
    At P (checkText path fields) := by
  unfold checkText
  dsimp only
  split
  · exact at_pure _
  · exact at_report h _ _ _
  · exact at_report h _ _ _

theorem at_checkKeys {kind : Kind}
    (h : ∀ key, isKnownKey kind key = false → P (path ++ [.field key]))
    (fields : List (String × Raw)) : At P (checkKeys kind path fields) := by
  intro i hi
  obtain ⟨field, -, hi⟩ := List.mem_filterMap.1 hi
  split at hi
  · cases hi
  · rename_i hk
    cases hi
    exact h field.1 (Bool.eq_false_iff.2 hk)

end

/-- A path to a field. -/
def IsField (path : Path) : Prop :=
  ∃ key, path = [.field key]

/-- A path to a field other than the content. -/
def IsOwn (path : Path) : Prop :=
  ∃ key, path = [.field key] ∧ key ≠ "content"

theorem IsOwn.isField {path : Path} (h : IsOwn path) : IsField path :=
  h.imp fun _ hp => hp.1

theorem at_checkElement (kind : Kind) (fields : List (String × Raw)) :
    At IsOwn (checkElement kind [] fields) := by
  have hattribute {key : String} {shape : Attribute.Shape}
      (hs : Attribute.shape? kind key = some shape) : IsOwn [.field key] :=
    ⟨key, rfl, (Attribute.keys_reserved key (Attribute.mem_keys hs)).2.1⟩
  cases kind with
  | text | lineBreak | bold | italics => exact at_pure _
  | underline =>
    exact (at_checkUnderlineType (hattribute (Attribute.shape?_underline.2 ⟨rfl, rfl⟩)) fields).map _
  | color =>
    exact (at_checkColorField (hattribute (Attribute.shape?_color.2 ⟨Or.inl rfl, rfl⟩)) fields).bind
      fun _ => (at_checkColorField
        (hattribute (Attribute.shape?_color.2 ⟨Or.inr rfl, rfl⟩)) fields).map _
  | styled kind =>
    refine At.map ?_ _
    generalize ({} : Style) = style
    induction fields generalizing style with
    | nil => exact at_pure style
    | cons field fields ih =>
      rw [List.foldlM_cons]
      refine At.bind ?_ ih
      cases hs : Attribute.styledShape? kind field.1 with
      | none =>
        rw [checkSetting_other hs]
        exact at_pure style
      | some shape => exact at_checkSetting (hattribute hs) kind style

theorem isKnownKey_content {kind : Kind} (hc : kind.hasContent = true) :
    isKnownKey kind "content" = true := by
  simp [isKnownKey, hc]

/-- The issues of the keys and the attributes of a node. -/
def ownIssues (kind : Kind) (fields : List (String × Raw)) : List Issue :=
  (checkKeys kind [] fields).issues ++ (checkElement kind [] fields).issues

theorem isOwn_of_mem_ownIssues {kind : Kind} (hc : kind.hasContent = true)
    {fields : List (String × Raw)} {i : Issue} (h : i ∈ ownIssues kind fields) : IsOwn i.path := by
  rcases List.mem_append.1 h with h | h
  · refine at_checkKeys (fun key hk => ⟨key, rfl, ?_⟩) fields i h
    rintro rfl
    rw [isKnownKey_content hc] at hk
    cases hk
  · exact at_checkElement kind fields i h

/-- A node with content has its own issues and then those of its content. -/
theorem issues_checkNode_element {kind : Kind} {fields : List (String × Raw)}
    (hk : fields.lookup "node" = some (.string kind.tag)) (hc : kind.hasContent = true)
    (depth : Nat) :
    (checkNode depth [] (.object fields)).issues =
      ownIssues kind fields ++ (checkContent depth [] fields).issues := by
  have h : checkNode depth [] (.object fields) = _ :=
    checkFields_element hk hc (checkContent depth [] fields)
  rw [h, ownIssues, List.append_assoc]

/-- A node of a kind without content, or of no kind, has only issues about its fields. -/
theorem at_checkFields_leaf {fields : List (String × Raw)} (content : Checked (Content Node))
    (h : ∀ kind : Kind, fields.lookup "node" = some (.string kind.tag) → kind.hasContent = false) :
    At IsField (checkFields [] fields content) := by
  have hfield (key : String) : IsField [.field key] := ⟨key, rfl⟩
  rcases checkKind_cases [] fields with ⟨kind, hk⟩ | ⟨cause, found, hr⟩
  · have hkeys : At IsField (checkKeys kind [] fields) := at_checkKeys (fun key _ => hfield key) fields
    cases kind with
    | text =>
      rw [checkFields_text hk]
      exact fun i hi => (List.mem_append.1 hi).elim (hkeys i) (at_checkText (hfield _) fields i)
    | lineBreak =>
      rw [checkFields_lineBreak hk]
      exact hkeys
    | bold | italics | underline | color | styled kind => cases h _ hk
  · have hnone : checkFields [] fields content = report none [.field "node"] cause found := by
      unfold checkFields
      rw [hr]
      rfl
    rw [hnone]
    exact at_report (hfield _) _ _ _

end Node

end TermMarkup
