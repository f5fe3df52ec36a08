/-
What tokens mean does not depend on where they stand. The stages after the lexer carry places only
into their errors: with every place forgotten the guard, the reader and the meaning of items give
the same answers, so sources with the same tokens mean the same. Tokens of two documents, one after
the other, mean the nodes of both.
-/
import TermMarkup.Parse
import TermMarkup.Proofs.Nesting

namespace TermMarkup

section

variable {ε α β : Type}

theorem toOption_eq_some_iff {x : Except ε α} {a : α} : x.toOption = some a ↔ x = .ok a := by
  cases x <;> simp [Except.toOption]

theorem toOption_bind (x : Except ε α) (f : α → Except ε β) :
    (x >>= f).toOption = x.toOption.bind fun a => (f a).toOption := by
  cases x <;> rfl

theorem toOption_foldlM_congr {f g : β → α → Except ε β}
    (h : ∀ b a, (f b a).toOption = (g b a).toOption) (as : List α) (b : β) :
    (as.foldlM f b).toOption = (as.foldlM g b).toOption := by
  induction as generalizing b with
  | nil => rfl
  | cons a as ih => simp only [List.foldlM_cons, toOption_bind, h, ih]

end

/-! ## Forgetting places -/

def Span.nowhere : Span := ⟨0, 0⟩

def Lexeme.unplaced (x : Lexeme) : Lexeme := ⟨x.token, .nowhere⟩

def Name.unplaced (n : Name) : Name := ⟨n.text, .nowhere⟩

def WrittenAttribute.unplaced (a : WrittenAttribute) : WrittenAttribute :=
  ⟨a.name, a.value, .nowhere⟩

def OpenTag.unplaced (tag : OpenTag) : OpenTag :=
  ⟨tag.name.unplaced, tag.attributes.map WrittenAttribute.unplaced⟩

theorem map_unplaced {xs ys : List Lexeme} (h : xs.map Lexeme.token = ys.map Lexeme.token) :
    xs.map Lexeme.unplaced = ys.map Lexeme.unplaced := by
  have hmap : ∀ zs : List Lexeme, zs.map Lexeme.unplaced =
      (zs.map Lexeme.token).map (Lexeme.mk · .nowhere) := fun zs => by
    rw [List.map_map]
    rfl
  rw [hmap, hmap, h]

/-! ## The guard -/

namespace Token

theorem checkNestingFrom_unplaced (depth : Nat) (opening : Option Nat) (xs : List Lexeme) :
    (checkNestingFrom depth (opening.map fun _ => 0) (xs.map Lexeme.unplaced)).toOption =
      (checkNestingFrom depth opening xs).toOption := by
  induction xs generalizing depth opening with
  | nil => rfl
  | cons x xs ih =>
    obtain ⟨token, span⟩ := x
    cases token with
    | tagOpen => exact ih depth (some span.start)
    | closeOpen => exact ih (depth - 1) none
    | selfClose => exact ih depth none
    | tagEnd =>
      cases opening with
      | none => exact ih depth none
      | some start =>
        rw [List.map_cons]
        unfold checkNestingFrom
        dsimp only [Lexeme.unplaced, Option.map_some]
        split
        · exact ih (depth + 1) none
        · rfl
    | text _ | name _ | equals | quoted _ => exact ih depth opening

theorem checkNesting_unplaced (xs : List Lexeme) :
    (checkNesting (xs.map Lexeme.unplaced)).toOption = (checkNesting xs).toOption :=
  checkNestingFrom_unplaced 0 none xs

end Token

/-! ## The reader -/

namespace Item

mutual

def unplaced : Item → Item
  | .text value => .text value
  | .selfClosing tag => .selfClosing tag.unplaced
  | .element tag body close => .element tag.unplaced (allUnplaced body) close.unplaced

def allUnplaced : List Item → List Item
  | [] => []
  | item :: items => unplaced item :: allUnplaced items

end

theorem allUnplaced_eq (items : List Item) : allUnplaced items = items.map unplaced := by
  induction items with
  | nil => rfl
  | cons item items ih => rw [allUnplaced, ih, List.map_cons]

namespace Reader

def Phase.unplaced : Phase → Phase
  | .items => .items
  | .openName => .openName
  | .inTag name attributes => .inTag name.unplaced (attributes.map WrittenAttribute.unplaced)
  | .afterName name attributes key =>
    .afterName name.unplaced (attributes.map WrittenAttribute.unplaced) key.unplaced
  | .value name attributes key =>
    .value name.unplaced (attributes.map WrittenAttribute.unplaced) key.unplaced
  | .closeName => .closeName
  | .closeEnd close => .closeEnd close.unplaced

def Frame.unplaced (frame : Frame) : Frame :=
  ⟨frame.tag.unplaced, frame.before.map Item.unplaced⟩

def unplaced (r : Reader) : Reader :=
  ⟨r.frames.map Frame.unplaced, r.items.map Item.unplaced, Phase.unplaced r.phase⟩

theorem openTag_unplaced (name : Name) (attributes : List WrittenAttribute) :
    openTag name.unplaced (attributes.map WrittenAttribute.unplaced) =
      (openTag name attributes).unplaced := by
  simp [openTag, OpenTag.unplaced]

theorem continueTag_unplaced (r : Reader) (name : Name) (attributes : List WrittenAttribute)
    (x : Lexeme) :
    r.unplaced.continueTag name.unplaced (attributes.map WrittenAttribute.unplaced) x.unplaced =
      (r.continueTag name attributes x).map unplaced := by
  obtain ⟨token, span⟩ := x
  unfold continueTag
  rw [openTag_unplaced]
  cases token <;> rfl

/-- A reader takes a token as it takes the token without its place. -/
theorem step_unplaced (r : Reader) (x : Lexeme) :
    r.unplaced.step x.unplaced = (r.step x).map unplaced := by
  obtain ⟨frames, items, phase⟩ := r
  cases phase with
  | items =>
    obtain ⟨token, span⟩ := x
    cases token with
    | closeOpen => cases frames <;> rfl
    | tagOpen | text _ | name _ | equals | quoted _ | tagEnd | selfClose => rfl
  | inTag name attributes => exact continueTag_unplaced _ name attributes x
  | afterName name attributes key =>
    by_cases he : x.token = .equals
    · obtain ⟨token, span⟩ := x
      cases he
      rfl
    · rw [step_afterName he]
      have hu : x.unplaced.token ≠ .equals := he
      exact (step_afterName hu).trans (continueTag_unplaced _ name (bare key :: attributes) x)
  | closeEnd close =>
    obtain ⟨token, span⟩ := x
    cases token with
    | tagEnd =>
      cases frames with
      | nil => rfl
      | cons frame frames =>
        -- the items of the closed body are forgotten one by one, in either order
        have hbody : (items.map Item.unplaced).reverse = Item.allUnplaced items.reverse := by
          rw [allUnplaced_eq, List.map_reverse]
        show some (Reader.mk _ (.element _ (items.map Item.unplaced).reverse _ :: _) _) = _
        rw [hbody]
        rfl
    | tagOpen | closeOpen | text _ | name _ | equals | quoted _ | selfClose => rfl
  | openName | value name attributes key | closeName =>
    obtain ⟨token, span⟩ := x
    cases token <;> rfl

theorem finish_unplaced (r : Reader) :
    r.unplaced.finish = r.finish.map (List.map Item.unplaced) := by
  obtain ⟨frames, items, phase⟩ := r
  cases frames with
  | cons frame frames => rfl
  | nil =>
    cases phase with
    | items => exact congrArg some (List.map_reverse).symm
    | openName | inTag _ _ | afterName _ _ _ | value _ _ _ | closeName | closeEnd _ => rfl

theorem run_unplaced (size size' : Nat) (xs : List Lexeme) (r : Reader) :
    (run size r.unplaced (xs.map Lexeme.unplaced)).toOption =
      (run size' r xs).toOption.map (List.map Item.unplaced) := by
  induction xs generalizing r with
  | nil =>
    rw [List.map_nil, run, run, finish_unplaced]
    cases r.finish <;> rfl
  | cons x xs ih =>
    rw [List.map_cons, run, run, step_unplaced]
    cases r.step x with
    | none => rfl
    | some next => exact ih next

end Reader

theorem read_unplaced (size size' : Nat) (xs : List Lexeme) :
    (read size (xs.map Lexeme.unplaced)).toOption =
      (read size' xs).toOption.map (List.map unplaced) :=
  Reader.run_unplaced size size' xs .start

/-! ## Meaning -/

theorem kind_unplaced {tag : OpenTag} {kind : Kind} :
    tag.unplaced.kind = .ok kind ↔ tag.kind = .ok kind := by
  rw [OpenTag.kind_eq_ok_iff, OpenTag.kind_eq_ok_iff]
  rfl

theorem addTo_unplaced (kind : Kind) (tag : String) (fields : List (String × Raw))
    (a : WrittenAttribute) :
    (a.unplaced.addTo kind tag fields).toOption = (a.addTo kind tag fields).toOption := by
  unfold WrittenAttribute.addTo
  dsimp only [WrittenAttribute.unplaced]
  split
  · rfl
  · split
    · rfl
    · split <;> rfl

theorem fields_unplaced {tag : OpenTag} {kind : Kind} {fields : List (String × Raw)} :
    tag.unplaced.fields kind = .ok fields ↔ tag.fields kind = .ok fields := by
  rw [← toOption_eq_some_iff, ← toOption_eq_some_iff]
  unfold OpenTag.fields OpenTag.unplaced
  rw [List.foldlM_map, toOption_foldlM_congr (addTo_unplaced kind _)]
  rfl

/-- Items mean the same without their places. -/
theorem toRaws_unplaced {items : List Item} {raws : List Raw} :
    toRaws (items.map unplaced) = .ok raws ↔ toRaws items = .ok raws := by
  induction items using itemInduction generalizing raws with
  | nil => exact Iff.rfl
  | text value items ih =>
    rw [List.map_cons, toRaws_cons_iff, toRaws_cons_iff]
    simp only [ih]
    rfl
  | selfClosing tag items ih =>
    rw [List.map_cons, toRaws_cons_iff, toRaws_cons_iff]
    simp only [ih, unplaced, toRaw_selfClosing_iff, kind_unplaced, fields_unplaced]
  | element tag body close items ihb ih =>
    rw [List.map_cons, toRaws_cons_iff, toRaws_cons_iff]
    simp only [ih, unplaced, allUnplaced_eq, toRaw_element_iff, kind_unplaced, fields_unplaced, ihb]
    rfl

theorem allBodies_append (depth : Nat) (items others : List Item) :
    allBodies depth (items ++ others) = allBodies depth items ++ allBodies depth others := by
  induction items with
  | nil => rfl
  | cons item items ih => rw [List.cons_append, allBodies, allBodies, ih, List.append_assoc]

theorem shallow_append {depth : Nat} {items others : List Item} :
    Shallow depth (items ++ others) ↔ Shallow depth items ∧ Shallow depth others := by
  unfold Shallow
  rw [allBodies_append, List.forall_mem_append]

theorem toRaws_append {items others : List Item} {xs ys : List Raw}
    (hx : toRaws items = .ok xs) (hy : toRaws others = .ok ys) :
    toRaws (items ++ others) = .ok (xs ++ ys) := by
  induction items generalizing xs with
  | nil =>
    cases hx
    exact hy
  | cons item items ih =>
    obtain ⟨first, rest, hf, hr, rfl⟩ := toRaws_cons_iff.1 hx
    exact toRaws_cons_iff.2 ⟨first, rest ++ ys, hf, ih hr, rfl⟩

end Item

/-! ## Tokens -/

/-- What tokens mean: the stages of reading a source that come after the lexer. -/
def meaning (size : Nat) (xs : List Lexeme) : Except ParseError (List Raw) := do
  Token.checkNesting xs
  let items ← Item.read size xs
  Item.toRaws items

theorem parseNodes_eq_ok_iff {source : String} {raws : List Raw} :
    parseNodes source = .ok raws ↔
      ∃ xs, Token.lex source = .ok xs ∧ meaning source.utf8ByteSize xs = .ok raws := by
  constructor
  · intro h
    exact bind_eq_ok h
  · rintro ⟨xs, hx, hm⟩
    unfold parseNodes
    rw [hx]
    exact hm

/-- Tokens mean what the items of their derivation do, if no body lies too deep. -/
theorem meaning_eq_ok_iff {size : Nat} {xs : List Lexeme} {raws : List Raw} :
    meaning size xs = .ok raws ↔
      ∃ items, Item.Document xs items ∧ Item.Shallow 0 items ∧ Item.toRaws items = .ok raws := by
  constructor
  · intro h
    obtain ⟨_, hn, h⟩ := bind_eq_ok h
    obtain ⟨items, hi, h⟩ := bind_eq_ok h
    have hd := Item.read_eq_ok_iff.1 hi
    exact ⟨items, hd, (Item.checkNesting_eq_ok_iff hd).1 hn, h⟩
  · rintro ⟨items, hd, hs, hr⟩
    unfold meaning
    rw [(Item.checkNesting_eq_ok_iff hd).2 hs, Item.read_eq_ok_iff.2 hd]
    exact hr

theorem meaning_unplaced {size size' : Nat} {xs : List Lexeme} {raws : List Raw} :
    meaning size (xs.map Lexeme.unplaced) = .ok raws ↔ meaning size' xs = .ok raws := by
  have hraws : ∀ items : List Item, (Item.toRaws (items.map Item.unplaced)).toOption =
      (Item.toRaws items).toOption := fun items => by
    refine Option.ext fun raws => ?_
    rw [toOption_eq_some_iff, toOption_eq_some_iff, Item.toRaws_unplaced]
  rw [← toOption_eq_some_iff, ← toOption_eq_some_iff]
  unfold meaning
  simp only [toOption_bind]
  rw [Token.checkNesting_unplaced, Item.read_unplaced size size', Option.bind_map]
  simp only [Function.comp_def, hraws]

/-- The same tokens mean the same, wherever they stand. -/
theorem meaning_congr {size size' : Nat} {xs ys : List Lexeme} {raws : List Raw}
    (h : xs.map Lexeme.token = ys.map Lexeme.token) :
    meaning size xs = .ok raws ↔ meaning size' ys = .ok raws := by
  rw [← @meaning_unplaced 0 size xs, map_unplaced h, meaning_unplaced]

/-- The tokens of two documents mean the nodes of both. -/
theorem meaning_append {size : Nat} {xs ys : List Lexeme} {rs ss : List Raw}
    (hx : meaning size xs = .ok rs) (hy : meaning size ys = .ok ss) :
    meaning size (xs ++ ys) = .ok (rs ++ ss) := by
  obtain ⟨items, hd, hs, hr⟩ := meaning_eq_ok_iff.1 hx
  obtain ⟨others, hd', hs', hr'⟩ := meaning_eq_ok_iff.1 hy
  exact meaning_eq_ok_iff.2
    ⟨items ++ others, hd.append hd', Item.shallow_append.2 ⟨hs, hs'⟩, Item.toRaws_append hr hr'⟩

end TermMarkup
