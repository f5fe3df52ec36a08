/-
The check as a walk. A walk through a tree keeps the issues that it met, and counts the elements that
are open around the place where it is: one more when it goes into the content of an element, one less
when it comes out. The count is always that of the elements around, so the walk finds what the check
finds, in the same order.
-/
import TermMarkup.Node.Check

namespace TermMarkup.Node

open Checked

/-- What a walk keeps: the issues that it met and the number of open elements. -/
structure Progress where
  issues : List Issue := []
  depth : Nat := 0

abbrev Walk := StateM Progress

/-! ## Steps of a walk -/

namespace Walk

variable {α β : Type}

/-- Keeps the issues of a check. -/
def keep (c : Checked α) : Walk α := fun s =>
  (c.value, { s with issues := s.issues ++ c.issues })

/-- Goes into an element and comes out again. -/
def inside (walk : Walk α) : Walk α := do
  modify fun s => { s with depth := s.depth + 1 }
  let value ← walk
  modify fun s => { s with depth := s.depth - 1 }
  return value

/-- The walk makes a check that knows the number of open elements. In the end as many are open as
before. -/
def Makes (walk : Walk α) (check : Nat → Checked α) : Prop :=
  ∀ s, walk.run s = (keep (check s.depth)).run s

theorem makes_keep (c : Checked α) : Makes (keep c) fun _ => c := fun _ => rfl

theorem makes_pure (a : α) : Makes (pure a) fun _ => pure a := by
  intro s
  show (a, s) = (a, { s with issues := s.issues ++ [] })
  rw [List.append_nil]

namespace Makes

variable {walk : Walk α} {check : Nat → Checked α}

theorem bind (h : Makes walk check) {next : α → Walk β} {nextCheck : α → Nat → Checked β}
    (hnext : ∀ a, Makes (next a) (nextCheck a)) :
    Makes (walk >>= next) fun depth => check depth >>= (nextCheck · depth) := by
  intro s
  show (next (walk.run s).1).run (walk.run s).2 = _
  rw [h s, hnext]
  show (_, { s with issues := s.issues ++ _ ++ _ }) = (_, { s with issues := s.issues ++ (_ ++ _) })
  rw [List.append_assoc]
  rfl

/-- The count is restored. -/
theorem inside (h : Makes walk check) : Makes (inside walk) fun depth => check (depth + 1) := by
  intro s
  show (fun r : α × Progress => (r.1, { r.2 with depth := r.2.depth - 1 }))
    (walk.run { s with depth := s.depth + 1 }) = _
  rw [h]
  rfl

/-- A walk that first looks at the count. -/
theorem ite {other : Walk α} {otherCheck : Nat → Checked α} (h : Makes walk check)
    (hother : Makes other otherCheck) (limit : Nat) :
    Makes (do if (← get).depth < limit then walk else other) fun depth =>
      if depth < limit then check depth else otherCheck depth := by
  intro s
  show StateT.run (if s.depth < limit then walk else other) s =
    (keep (if s.depth < limit then check s.depth else otherCheck s.depth)).run s
  split
  · exact h s
  · exact hother s

end Makes

end Walk

/-! ## The walk through a document -/

open Walk

/-- The node with the given fields. -/
def walkFields (path : Path) (fields : List (String × Raw)) (content : Walk (Content Node)) :
    Walk (Option Node) := do
  match ← keep (checkKind path fields) with
  | none => pure none
  | some kind =>
    keep (checkKeys kind path fields)
    match kind with
    | .text => return some (.text (← keep (checkText path fields)))
    | .lineBreak => return some .lineBreak
    | .bold => return some (.element .bold (← content))
    | .italics => return some (.element .italics (← content))
    | .underline =>
      let style ← keep (checkUnderlineType path fields)
      return some (.element (.underline style) (← content))
    | .color =>
      let fg ← keep (checkColorField path fields "fg")
      let bg ← keep (checkColorField path fields "bg")
      return some (.element (.color fg bg) (← content))
    | .styled kind =>
      let style ← keep (fields.foldlM (checkSetting kind path) {})
      return some (.element (.styled kind style) (← content))

mutual

/-- The content among the fields of a node. -/
def walkContent (path : Path) : List (String × Raw) → Walk (Content Node)
  | [] => pure .absent
  | (key, value) :: fields =>
    if key == "content" then do
      let place := path ++ [.field "content"]
      if (← get).depth < maxNesting then inside (walkContentValue place value)
      else keep (report .absent place .tooDeep (some value))
    else walkContent path fields

def walkContentValue (path : Path) : Raw → Walk (Content Node)
  | .object fields => do
    match ← walkFields path fields (walkContent path fields) with
    | some node => pure (.single node)
    | none => pure .absent
  | .array items => do
    return .ofChildren (← walkNodes path 0 items)
  | other => keep (report .absent path .contentShape (some other))

def walkNodes (path : Path) (index : Nat) : List Raw → Walk (List Node)
  | [] => pure []
  | .object fields :: items => do
    let place := path ++ [.item index]
    let node ← walkFields place fields (walkContent place fields)
    let nodes ← walkNodes path (index + 1) items
    return node.toList ++ nodes
  | other :: items => do
    keep (report () (path ++ [.item index]) .nodeNotObject (some other))
    walkNodes path (index + 1) items

end

def walkDocument : Raw → Walk (List Node)
  | .array items => walkNodes [] 0 items
  | other => keep (report [] [] .documentNotList (some other))

theorem makes_walkFields (path : Path) (fields : List (String × Raw)) {content : Walk (Content Node)}
    {check : Nat → Checked (Content Node)} (h : Makes content check) :
    Makes (walkFields path fields content) fun depth => checkFields path fields (check depth) := by
  unfold walkFields checkFields
  refine (makes_keep _).bind fun kind => ?_
  cases kind with
  | none => exact makes_pure none
  | some kind =>
    refine (makes_keep _).bind fun _ => ?_
    cases kind with
    | text => exact (makes_keep _).bind fun _ => makes_pure _
    | lineBreak => exact makes_pure _
    | bold => exact h.bind fun _ => makes_pure _
    | italics => exact h.bind fun _ => makes_pure _
    | underline => exact (makes_keep _).bind fun _ => h.bind fun _ => makes_pure _
    | color =>
      exact (makes_keep _).bind fun _ => (makes_keep _).bind fun _ => h.bind fun _ => makes_pure _
    | styled kind => exact (makes_keep _).bind fun _ => h.bind fun _ => makes_pure _

mutual

theorem makes_walkContent (path : Path) : ∀ fields : List (String × Raw),
    Makes (walkContent path fields) fun depth => checkContent depth path fields
  | [] => by
    unfold walkContent checkContent
    exact makes_pure _
  | (key, value) :: fields => by
    unfold walkContent checkContent
    split
    · exact (makes_walkContentValue _ value).inside.ite (makes_keep _) maxNesting
    · exact makes_walkContent path fields

theorem makes_walkContentValue (path : Path) : ∀ raw : Raw,
    Makes (walkContentValue path raw) fun depth => checkContentValue depth path raw
  | .object fields => by
    unfold walkContentValue checkContentValue
    refine (makes_walkFields path fields (makes_walkContent path fields)).bind fun node => ?_
    cases node with
    | none => exact makes_pure _
    | some node => exact makes_pure _
  | .array items => by
    unfold walkContentValue checkContentValue
    exact (makes_walkNodes path 0 items).bind fun _ => makes_pure _
  | .null | .bool _ | .number _ | .string _ => makes_keep _

theorem makes_walkNodes (path : Path) : ∀ (index : Nat) (items : List Raw),
    Makes (walkNodes path index items) fun depth => checkNodes depth path index items
  | _, [] => by
    unfold walkNodes checkNodes
    exact makes_pure _
  | index, .object fields :: items => by
    unfold walkNodes checkNodes
    exact (makes_walkFields _ fields (makes_walkContent _ fields)).bind fun _ =>
      (makes_walkNodes path (index + 1) items).bind fun _ => makes_pure _
  | index, .null :: items | index, .bool _ :: items | index, .number _ :: items
  | index, .string _ :: items | index, .array _ :: items => by
    unfold walkNodes checkNodes
    exact (makes_keep _).bind fun _ => makes_walkNodes path (index + 1) items

end

/-- A walk through a document that starts with nothing open ends with nothing open, and with the
nodes and the issues of the check. -/
theorem run_walkDocument (raw : Raw) :
    (walkDocument raw).run {} =
      ((checkDocument raw).value, { issues := (checkDocument raw).issues }) := by
  cases raw with
  | array items => exact makes_walkNodes [] 0 items {}
  | null | bool _ | number _ | string _ | object _ => rfl

end TermMarkup.Node
