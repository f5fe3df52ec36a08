/-
The one nesting limit, counted twice. The guard on tokens and the check of the tree agree on every
document but those in which an element with an empty body stands in exactly as many others as the
limit allows: the guard refuses it, and the check, which counts content, does not see it.
-/
import TermMarkup.Proofs.Markup

namespace TermMarkup

open Node

/-! ## Elements one in another -/

/-- The markup of elements one in another. -/
def nestedSource (n : Nat) : String :=
  String.join (List.replicate n "<bold>") ++ String.join (List.replicate n "</bold>")

theorem allWritten_nested (n : Nat) : allWritten (nested n) = nestedSource n := by
  induction n with
  | zero => rfl
  | succ n ih =>
    have hopen : Tag.opening Element.bold.kind.tag Element.bold.attributes = "<bold>" := rfl
    have hclose : Tag.closing Element.bold.kind.tag = "</bold>" := rfl
    rw [nested, allWritten_element, Content.children_ofChildren, ih, hopen, hclose]
    unfold nestedSource
    rw [List.replicate_succ, List.replicate_succ']
    simp [String.append_assoc]

/-- The untyped tree of an element with as many others in it, one in another. -/
def nestedRaw : Nat → Raw
  | 0 => .object [("node", .string "bold")]
  | n + 1 => .object [("content", nestedRaw n), ("node", .string "bold")]

theorem toRaws_nested (n : Nat) : toRaws (nested (n + 1)) = [nestedRaw n] := by
  induction n with
  | zero => rfl
  | succ n ih =>
    have hlt : "content" < "node" := by decide
    have hinsert : Raw.insert "content" (nestedRaw n) [("node", .string "bold")] =
        [("content", nestedRaw n), ("node", .string "bold")] := by
      rw [Raw.insert, if_pos hlt]
    rw [nested, toRaws, toRaw_ofChildren, ih, toRaws, nestedRaw, ← hinsert]
    rfl

theorem valid_nestedRaw (n : Nat) : Raw.Valid (nestedRaw n).objects := by
  -- a bold element has no attributes that could be wrong
  have hbold : ∀ (fields : List (String × Raw)) (kind : Kind),
      fields.lookup "node" = some (.string "bold") →
      fields.lookup "node" = some (.string kind.tag) → Valued kind fields := by
    intro fields kind hb hk
    have hkind : kind = .bold := by
      have htag : kind.tag = Kind.bold.tag := by
        rw [hb] at hk
        exact (Raw.string.inj (Option.some.inj hk)).symm
      have hof := ofTag?_tag kind
      rw [htag, ofTag?_tag] at hof
      exact (Option.some.inj hof).symm
    subst hkind
    exact ⟨fun _ _ _ h => (by cases h), fun h => (by cases h)⟩
  induction n with
  | zero =>
    intro fields hf kind hk
    rcases List.mem_cons.1 hf with rfl | hf
    · exact hbold _ kind rfl hk
    · cases hf
  | succ n ih =>
    intro fields hf kind hk
    rcases List.mem_cons.1 hf with rfl | hf
    · exact hbold _ kind rfl hk
    · rcases List.mem_append.1 hf with hf | hf
      · exact ih fields hf kind hk
      · cases hf

/-- A source that splits into tokens, which are read as items, which mean a tree that is valid. -/
structure Converts (source : String) (xs : List Lexeme) (items : List Item) (raws : List Raw) :
    Prop where
  lexes : Token.lex source = .ok xs
  reads : Item.read source.utf8ByteSize xs = .ok items
  means : Item.toRaws items = .ok raws
  valid : Raw.Valid (Raw.allObjects raws)

theorem joined_nested (n : Nat) : Joined (nested n) := by
  cases n <;> trivial

theorem settled_nested (n depth : Nat) : Throughout Settled depth (nested n) := by
  induction n generalizing depth with
  | zero => exact throughout_nil
  | succ n ih =>
    rw [nested, throughout_element, Content.children_ofChildren]
    refine ⟨⟨trivial, ?_⟩, ih _, throughout_nil⟩
    rw [Content.children_ofChildren]
    exact ⟨rfl, joined_nested n⟩

theorem converts_nestedSource (n : Nat) :
    ∃ xs items, Converts (nestedSource (n + 1)) xs items [nestedRaw n] ∧
      (Item.Shallow 0 items ↔ n < maxNesting) := by
  obtain ⟨xs, hl, items, hd, hr, hb⟩ :=
    lex_allWritten (joined_nested (n + 1)) (settled_nested (n + 1) 0)
  rw [allWritten_nested] at hl
  rw [toRaws_nested] at hr
  refine ⟨xs, items, ⟨hl, Item.read_eq_ok_iff.2 hd, hr, ?_⟩, ?_⟩
  · rw [Raw.allObjects, Raw.allObjects, List.append_nil]
    exact valid_nestedRaw n
  · rw [hb 0, within_nested_iff, Nat.zero_add]

theorem ofRaw_nestedRaw {n : Nat} (h : n ≤ maxNesting) :
    ofRaw (.array [nestedRaw n]) = .ok (nested (n + 1)) := by
  rw [← toRaws_nested]
  exact ofRaw_toRaws_of_sound (sound_nested (by omega))

/-! ## The two limits -/

/-- The guard accepts the tokens of a document exactly when the check accepts what the document
means and no element with an empty body stands in exactly 64 others. -/
theorem checkNesting_iff_ofRaw {source : String} {xs : List Lexeme} {items : List Item}
    {raws : List Raw} (h : Converts source xs items raws) :
    Token.checkNesting xs = .ok () ↔
      (∃ nodes, ofRaw (.array raws) = .ok nodes) ∧
        ∀ b ∈ Item.allBodies 0 items, b.items = [] → b.depth ≠ 64 := by
  rw [Item.checkNesting_eq_ok_iff (Item.read_eq_ok_iff.1 h.reads), Item.shallow_iff,
    Item.ofRaw_toRaws_iff h.means h.valid]
  rfl

/-- Both accept 64 elements one in another. -/
theorem checkNesting_nestedSource_64 :
    ∃ xs items raws, Converts (nestedSource 64) xs items raws ∧ Token.checkNesting xs = .ok () ∧
      ∃ nodes, ofRaw (.array raws) = .ok nodes := by
  obtain ⟨xs, items, hc, hs⟩ := converts_nestedSource 63
  have hnodes : ofRaw (.array [nestedRaw 63]) = .ok (nested 64) := ofRaw_nestedRaw (by decide)
  refine ⟨xs, items, _, hc, (checkNesting_iff_ofRaw hc).2 ⟨⟨_, hnodes⟩, fun b hb _ => ?_⟩, _, hnodes⟩
  exact Nat.ne_of_lt (hs.2 (by decide) b hb)

/-- Of 65, the innermost with an empty body, the guard refuses the tokens and the check accepts the
tree. -/
theorem checkNesting_nestedSource_65 :
    ∃ xs items raws, Converts (nestedSource 65) xs items raws ∧ Token.checkNesting xs ≠ .ok () ∧
      ∃ nodes, ofRaw (.array raws) = .ok nodes := by
  obtain ⟨xs, items, hc, hs⟩ := converts_nestedSource 64
  refine ⟨xs, items, _, hc, fun h => ?_, _, ofRaw_nestedRaw (Nat.le_refl _)⟩
  exact absurd (hs.1 ((Item.checkNesting_eq_ok_iff (Item.read_eq_ok_iff.1 hc.reads)).1 h)) (by decide)

end TermMarkup
